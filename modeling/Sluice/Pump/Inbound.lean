import Sluice.Inlet
import Sluice.Pump.Outbound

/-!
A pump that reads from a byte reader and offers what it got to a consumer. It sleeps when nothing
was taken, until the consumer announces room.
-/
namespace Sluice

/-- What a pump can feed: it is told where to announce room, offered bytes, and told of the end. -/
class Inflow (π κ σ : Type) where
  updateCapacity : π → κ → σ → Except Fault Unit × π × σ
  consume : π → List UInt8 → σ → Except Fault Nat × π × σ
  streamEnd : π → σ → Except Fault Unit × π × σ

instance {κ σ : Type} [CapacityChannel κ σ] : Inflow (Inlet κ) κ σ where
  updateCapacity := Inlet.updateCapacity
  consume inlet bytes s :=
    let (result, inlet) := inlet.fill bytes
    (result, inlet, s)
  streamEnd inlet s := (.ok (), inlet.markEnd, s)

/-- An asynchronous reader of bytes. A read of no bytes is the end. -/
class ByteReader (ρ : Type) where
  read : ρ → Nat → Poll (Except Fault (List UInt8)) × ρ

inductive InboundStage
  | starting
  | reading
  | offering (chunk : List UInt8)
  | listening (chunk : List UInt8)
  | finished (result : Except Fault Nat)

/-- An inbound pump: its settings, its capacity channel, the reader and the bytes taken so far. -/
structure Inbound (κ ρ : Type) where
  settings : PumpSettings
  capacity : κ
  reader : ρ
  total : Nat
  stage : InboundStage

namespace Inbound

variable {π κ σ ρ : Type} [Inflow π κ σ] [BellAccess κ σ] [ByteReader ρ]

def start (settings : PumpSettings) (capacity : κ) (reader : ρ) : Inbound κ ρ :=
  ⟨settings, capacity, reader, 0, .starting⟩

def outcome? (pump : Inbound κ ρ) : Option (Except Fault Nat) :=
  match pump.stage with
  | .finished result => some result
  | _ => none

def stop (pump : Inbound κ ρ) (result : Except Fault Nat) : Inbound κ ρ :=
  { pump with stage := .finished result }

def step (pump : Inbound κ ρ) (consumer : π) (s : σ) : Pace × Inbound κ ρ × π × σ :=
  match pump.stage with
  | .starting =>
    match pump.settings.validate with
    | .error fault => (.going, pump.stop (.error fault), consumer, s)
    | .ok () =>
      match Inflow.updateCapacity consumer pump.capacity s with
      | (.error fault, consumer, s) => (.going, pump.stop (.error fault), consumer, s)
      | (.ok (), consumer, s) => (.going, { pump with stage := .reading }, consumer, s)
  | .reading =>
    match ByteReader.read pump.reader pump.settings.readChunk with
    | (.pending, reader) => (.parked, { pump with reader }, consumer, s)
    | (.ready (.error fault), reader) =>
      (.going, { pump with reader, stage := .finished (.error fault) }, consumer, s)
    | (.ready (.ok []), reader) =>
      match Inflow.streamEnd κ consumer s with
      | (.error fault, consumer, s) =>
        (.going, { pump with reader, stage := .finished (.error fault) }, consumer, s)
      | (.ok (), consumer, s) =>
        (.going, { pump with reader, stage := .finished (.ok pump.total) }, consumer, s)
    | (.ready (.ok chunk), reader) =>
      (.going, { pump with reader, stage := .offering chunk }, consumer, s)
  | .offering [] => (.going, { pump with stage := .reading }, consumer, s)
  | .offering chunk =>
    match Inflow.consume κ consumer chunk s with
    | (.error fault, consumer, s) => (.going, pump.stop (.error fault), consumer, s)
    | (.ok 0, consumer, s) => (.going, { pump with stage := .listening chunk }, consumer, s)
    | (.ok taken, consumer, s) =>
      (.going, { pump with total := pump.total + taken, stage := .offering (chunk.drop taken) },
        consumer, s)
  | .listening chunk =>
    let (awake, bell) := (BellAccess.bell pump.capacity s).listen
    let s := BellAccess.update pump.capacity bell s
    if awake then (.going, { pump with stage := .offering chunk }, consumer, s)
    else (.parked, pump, consumer, s)
  | .finished _ => (.finished, pump, consumer, s)

def run : Nat → Inbound κ ρ → π → σ → Pace × Inbound κ ρ × π × σ
  | 0, pump, consumer, s => (.going, pump, consumer, s)
  | steps + 1, pump, consumer, s =>
    match pump.step consumer s with
    | (.going, pump, consumer, s) => run steps pump consumer s
    | stopped => stopped

end Inbound
end Sluice
