import Sluice.Outlet
import Sluice.Pace
import Sluice.Producer
import Sluice.Pump.Window
import Sluice.Settings

/-!
A pump that drives a producer and writes what it takes to a byte sink. It sleeps when a turn gave
nothing and asked for nothing.
-/
namespace Sluice

/-- What a pump can drive: in a turn, bytes go to a channel. -/
class Outflow (π ι σ : Type) where
  produce : π → ι → σ → Except Fault Unit × π × σ

instance {γ κ ι σ τ : Type} [Coder γ κ] [Transport ι σ] [Source τ κ] :
    Outflow (Producer γ ι τ) ι σ where
  produce := Producer.produce

instance {ι σ : Type} [Transport ι σ] : Outflow (Outlet ι) ι σ where
  produce := Outlet.flush

/-- An asynchronous byte sink. A write answers how many bytes were taken. -/
class ByteSink (ω : Type) where
  write : ω → List UInt8 → Poll (Except Fault Nat) × ω
  flush : ω → Poll (Except Fault Unit) × ω

/-- Where an outbound pump stands. `sending` has the rest of a chunk, and the whole of it with what
the window told. -/
inductive OutboundStage
  | starting
  | producing
  | taking
  | sending (rest : List UInt8) (contents : Window.Contents)
  | flushing
  | listening
  | finished (result : Except Fault Nat)

/-- An outbound pump: its settings, its window among the channels, the sink and the bytes written
so far. -/
structure Outbound (ι ω : Type) where
  settings : PumpSettings
  channel : ι
  sink : ω
  total : Nat
  stage : OutboundStage

namespace Outbound

variable {π ι σ ω : Type} [Outflow π ι σ] [WindowAccess ι σ] [ByteSink ω]

def start (settings : PumpSettings) (channel : ι) (sink : ω) : Outbound ι ω :=
  ⟨settings, channel, sink, 0, .starting⟩

def outcome? (pump : Outbound ι ω) : Option (Except Fault Nat) :=
  match pump.stage with
  | .finished result => some result
  | _ => none

def stop (pump : Outbound ι ω) (result : Except Fault Nat) : Outbound ι ω :=
  { pump with stage := .finished result }

def afterChunk (contents : Window.Contents) : OutboundStage :=
  if contents.ended then .flushing
  else if contents.chunk.isEmpty && !contents.requested then .listening
  else .producing

/-- Write the rest of a chunk. A sink that takes nothing of it is broken. -/
def send (pump : Outbound ι ω) (rest : List UInt8) (contents : Window.Contents) :
    Pace × Outbound ι ω :=
  if rest.isEmpty then
    (.going, { pump with
      total := pump.total + contents.chunk.length
      stage := afterChunk contents })
  else match ByteSink.write pump.sink rest with
    | (.pending, sink) => (.parked, { pump with sink })
    | (.ready (.error fault), sink) => (.going, { pump with sink, stage := .finished (.error fault) })
    | (.ready (.ok 0), sink) =>
      (.going, { pump with sink, stage := .finished (.error (.io .writeZero "write zero")) })
    | (.ready (.ok taken), sink) =>
      (.going, { pump with sink, stage := .sending (rest.drop taken) contents })

def step (pump : Outbound ι ω) (producer : π) (s : σ) : Pace × Outbound ι ω × π × σ :=
  match pump.stage with
  | .starting =>
    match pump.settings.validate with
    | .error fault => (.going, pump.stop (.error fault), producer, s)
    | .ok () => (.going, { pump with stage := .producing }, producer, s)
  | .producing =>
    match Outflow.produce producer pump.channel s with
    | (.error fault, producer, s) => (.going, pump.stop (.error fault), producer, s)
    | (.ok (), producer, s) => (.going, { pump with stage := .taking }, producer, s)
  | .taking =>
    let (contents, window) := (WindowAccess.window pump.channel s).take
    (.going, { pump with stage := .sending contents.chunk contents }, producer,
      WindowAccess.update pump.channel window s)
  | .sending rest contents =>
    let (pace, pump) := pump.send rest contents
    (pace, pump, producer, s)
  | .flushing =>
    match ByteSink.flush pump.sink with
    | (.pending, sink) => (.parked, { pump with sink }, producer, s)
    | (.ready result, sink) =>
      (.going, { pump with sink, stage := .finished (result.map fun () => pump.total) }, producer, s)
  | .listening =>
    let (awake, bell) := (WindowAccess.window pump.channel s).bell.listen
    let window := { WindowAccess.window pump.channel s with bell }
    let s := WindowAccess.update pump.channel window s
    if awake then (.going, { pump with stage := .producing }, producer, s)
    else (.parked, pump, producer, s)
  | .finished _ => (.finished, pump, producer, s)

def run : Nat → Outbound ι ω → π → σ → Pace × Outbound ι ω × π × σ
  | 0, pump, producer, s => (.going, pump, producer, s)
  | steps + 1, pump, producer, s =>
    match pump.step producer s with
    | (.going, pump, producer, s) => run steps pump producer s
    | stopped => stopped

end Outbound
end Sluice
