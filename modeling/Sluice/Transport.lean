import Sluice.Fault
import Sluice.Http.Head

/-!
The channels that the input and output side of a connection offers: data channels for bodies on
their way out, capacity channels for the flow control of bodies on their way in, and the channel
that takes the head of a response. Each is a family of channels that act on one world `σ`.
-/
namespace Sluice

/-- Data channels named by `ι`. `write` offers bytes and answers how many of them were taken,
`requestOutput` asks for another turn, `endStream` ends the body. -/
class Transport (ι σ : Type) where
  write : ι → List UInt8 → σ → Except Fault Nat × σ
  requestOutput : ι → σ → σ
  endStream : ι → Option Http.Headers → σ → Except Fault Unit × σ

/-- Where no channel is known yet nothing is taken and nobody asks for a turn. -/
instance {ι σ : Type} [Transport ι σ] : Transport (Option ι) σ where
  write
    | none, _, s => (.ok 0, s)
    | some ch, bytes, s => Transport.write ch bytes s
  requestOutput
    | none, s => s
    | some ch, s => Transport.requestOutput ch s
  endStream
    | none, _, s => (.ok (), s)
    | some ch, trailers, s => Transport.endStream ch trailers s

/-- Capacity channels named by `κ`. `update` announces room for more bytes to the peer. -/
class CapacityChannel (κ σ : Type) where
  update : κ → Nat → σ → Except Fault Unit × σ

/-- The channel that sends the head of a response with the description of its body. -/
class ResponseChannel (σ : Type) where
  send : Http.Head → Http.Entity → σ → Except Fault Unit × σ

end Sluice
