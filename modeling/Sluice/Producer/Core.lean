import Sluice.Producer.Coder

/-!
The part of a producer that its source, its writers and its turns share. Each operation here is
one critical section.
-/
namespace Sluice

/-- The life of a producer: the application may write, the rest is on its way, all of it is staged
or sent. -/
inductive StreamState
  | active
  | flushing
  | ended
  deriving DecidableEq

/-- Stage and coder of a producer, how far its life has come, whether the channel was told of the
end, and the channel of the last turn. -/
structure Core (γ ι : Type) where
  stage : Stage
  coder : γ
  state : StreamState
  endSignalled : Bool
  channel : Option ι
  deriving DecidableEq

namespace Core

variable {γ κ ι σ : Type} [Coder γ κ] [Transport ι σ]

def initial (capacity : Nat) (coder : γ) : Core γ ι := ⟨.empty capacity, coder, .active, false, none⟩

/-- Hand data to the coder, which drains into the channel of the last turn. -/
def write (core : Core γ ι) (hint : Nat) (data : κ) (s : σ) : Except Fault Nat × Core γ ι × σ :=
  if core.state = .active then
    let (result, coder, stage, s) := Coder.accept core.coder core.stage data hint core.channel s
    (result, { core with coder, stage }, s)
  else (.error .writeAfterEnd, core, s)

def endStream (core : Core γ ι) : Core γ ι :=
  if core.state = .active then { core with state := .flushing } else core

def openTurn (core : Core γ ι) (ch : ι) : Core γ ι := { core with channel := some ch }

/-- Let the coder stage what it held back, once the application has ended. -/
def finishCoding (core : Core γ ι) : Except Fault Unit × Core γ ι :=
  if core.state = .flushing then
    match Coder.finish core.coder core.stage with
    | (.error fault, coder, stage) => (.error fault, { core with coder, stage })
    | (.ok false, coder, stage) => (.ok (), { core with coder, stage })
    | (.ok true, coder, stage) => (.ok (), { core with coder, stage, state := .ended })
  else (.ok (), core)

/-- Whether the stage is to be drained at the end of a turn. -/
def isDue (core : Core γ ι) (hint : Nat) (requested : Bool) : Bool :=
  core.state ≠ .active || core.stage.isFull || decide (hint ≤ core.stage.length) || requested

/-- Drain the stage into the channel if it is due. -/
def drain (core : Core γ ι) (hint : Nat) (ch : ι) (s : σ) : Except Fault Unit × Core γ ι × σ :=
  let (requested, coder) := Coder.takeFlushRequest core.coder
  let core := { core with coder }
  if core.isDue hint requested then
    let (result, stage, s) := core.stage.flushTo ch s
    (result.map fun _ => (), { core with stage }, s)
  else (.ok (), core, s)

/-- Tell the channel of the end once everything was taken; as long as something is left after the
application's end, ask for another turn. -/
def signal (core : Core γ ι) (ch : ι) (s : σ) : Except Fault Unit × Core γ ι × σ :=
  if core.state = .ended ∧ core.stage.isEmpty then
    match Transport.endStream ch none s with
    | (.error fault, s) => (.error fault, core, s)
    | (.ok (), s) => (.ok (), { core with endSignalled := true }, s)
  else if core.state = .active then (.ok (), core, s)
  else (.ok (), core, Transport.requestOutput ch s)

/-- End a turn. After the end was signalled there is nothing to do. -/
def closeTurn (core : Core γ ι) (hint : Nat) (ch : ι) (s : σ) : Except Fault Unit × Core γ ι × σ :=
  if core.endSignalled then (.ok (), core, s)
  else match core.finishCoding with
    | (.error fault, core) => (.error fault, core, s)
    | (.ok (), core) =>
      match core.drain hint ch s with
      | (.error fault, core, s) => (.error fault, core, s)
      | (.ok (), core, s) => core.signal ch s

/-- Forget the message and start over. -/
def release (core : Core γ ι) : Core γ ι :=
  { stage := core.stage.clear
    coder := Coder.reset core.coder
    state := .active
    endSignalled := false
    channel := none }

end Core
end Sluice
