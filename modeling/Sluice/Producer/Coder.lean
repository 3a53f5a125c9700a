import Sluice.Charset.Web
import Sluice.Stage

/-!
What a producer does with the data an application writes: bytes are copied to the stage or pass it
by, text is encoded into the stage.
-/
namespace Sluice

/-- A coder of data of type `κ`. `accept` takes data for a stage that drains into a channel, given
the fragment hint, and answers how many units it took; `finish` stages what is held back and tells
whether that was all; `takeFlushRequest` tells whether the stage should be drained whatever its
level, and forgets it. -/
class Coder (γ : Type) (κ : outParam Type) where
  accept {ι σ : Type} [Transport ι σ] :
    γ → Stage → κ → Nat → ι → σ → Except Fault Nat × γ × Stage × σ
  finish : γ → Stage → Except Fault Bool × γ × Stage
  takeFlushRequest : γ → Bool × γ
  reset : γ → γ

/-- The coder of bytes. `deferred` is set after a write of which nothing could be taken. -/
structure BinaryCoder where
  deferred : Bool
  deriving DecidableEq

namespace BinaryCoder

def initial : BinaryCoder := ⟨false⟩

/-- Drain the stage if it is full or holds enough for a fragment. -/
def makeRoom {ι σ : Type} [Transport ι σ] (stage : Stage) (hint : Nat) (ch : ι) (s : σ) :
    Except Fault Unit × Stage × σ :=
  if stage.isFull ∨ hint ≤ stage.length then
    let (result, stage, s) := stage.flushTo ch s
    (result.map fun _ => (), stage, s)
  else (.ok (), stage, s)

/-- Offer bytes to the channel itself, provided that none are staged before them. -/
def passBy {ι σ : Type} [Transport ι σ] (stage : Stage) (bytes : List UInt8) (ch : ι) (s : σ) :
    Except Fault Nat × σ :=
  if stage.isEmpty then Transport.write ch bytes s else (.ok 0, s)

/-- Bytes that fit are staged. Others make room first and go to the channel directly once nothing
is staged; if some are left, another turn is asked for. -/
def accept {ι σ : Type} [Transport ι σ] (coder : BinaryCoder) (stage : Stage)
    (bytes : List UInt8) (hint : Nat) (ch : ι) (s : σ) :
    Except Fault Nat × BinaryCoder × Stage × σ :=
  if bytes.length ≤ stage.remaining then
    let (taken, stage) := stage.put bytes
    (.ok taken, coder, stage, s)
  else match makeRoom stage hint ch s with
    | (.error fault, stage, s) => (.error fault, coder, stage, s)
    | (.ok (), stage, s) =>
      match passBy stage bytes ch s with
      | (.error fault, s) => (.error fault, coder, stage, s)
      | (.ok taken, s) =>
        if !stage.isEmpty ∨ taken < bytes.length then
          (.ok taken, ⟨coder.deferred || taken == 0⟩, stage, Transport.requestOutput ch s)
        else (.ok taken, coder, stage, s)

instance : Coder BinaryCoder (List UInt8) where
  accept := accept
  finish coder stage := (.ok true, coder, stage)
  takeFlushRequest coder := (coder.deferred, ⟨false⟩)
  reset _ := initial

end BinaryCoder

/-- The coder of text. `overflowed` is set after a write that stopped before a character. -/
structure TextCoder (ε : Type) where
  encoder : ε
  overflowed : Bool
  deriving DecidableEq

namespace TextCoder

variable {ε : Type} [Encoder ε]

def ofEncoder (encoder : ε) : TextCoder ε := ⟨encoder, false⟩

/-- What an encoder did with a window, and what of the window counts. -/
def filled (e : Encoded) : Filled (Stop × Nat) := ⟨(e.stop, e.read), e.bytes.length, e.bytes⟩

/-- Encode text into the free room of the stage. If a character is left over, another turn is asked
for. -/
def accept {ι σ : Type} [Transport ι σ] (coder : TextCoder ε) (stage : Stage) (text : List Char)
    (_hint : Nat) (ch : ι) (s : σ) : Except Fault Nat × TextCoder ε × Stage × σ :=
  let (outcome, encoder) := Encoder.encode coder.encoder text stage.remaining false
  match stage.writeWith fun _ => outcome.map filled with
  | (.error fault, stage) => (.error fault, { coder with encoder }, stage, s)
  | (.ok (.inputUsed, read), stage) => (.ok read, { coder with encoder }, stage, s)
  | (.ok (.outputFull, read), stage) =>
    (.ok read, ⟨encoder, true⟩, stage, Transport.requestOutput ch s)

/-- What an encoder writes to end its text, and whether that was all of it. -/
def ending (encoder : ε) (room : Nat) : Except Fault (Filled Bool) × ε :=
  match Encoder.encode encoder [] room true with
  | (.error fault, encoder) => (.error fault, encoder)
  | (.ok ⟨.outputFull, _, bytes⟩, encoder) => (.ok ⟨false, bytes.length, bytes⟩, encoder)
  | (.ok ⟨.inputUsed, _, bytes⟩, encoder) =>
    match Encoder.flush encoder (room - bytes.length) with
    | (.error fault, encoder) => (.error fault, encoder)
    | (.ok (stop, more), encoder) =>
      (.ok ⟨stop = .inputUsed, bytes.length + more.length, bytes ++ more⟩, encoder)

def finish (coder : TextCoder ε) (stage : Stage) : Except Fault Bool × TextCoder ε × Stage :=
  let (outcome, encoder) := ending coder.encoder stage.remaining
  let (result, stage) := stage.writeWith fun _ => outcome
  (result, { coder with encoder }, stage)

instance : Coder (TextCoder ε) (List Char) where
  accept := accept
  finish := finish
  takeFlushRequest coder := (coder.overflowed, { coder with overflowed := false })
  reset coder := ⟨Encoder.reset coder.encoder, false⟩

end TextCoder
end Sluice
