import Sluice.Bench
import Sluice.Outlet.Writing

/-!
A body that goes through an outlet as a whole: a worker writes and completes it, while the reactor
flushes.
-/
namespace Sluice

/-- The worker of a transfer with what it still has to write, and the results so far. -/
structure Transfer where
  writing : Writing Line
  written : Option (Except Fault Unit)
  flushed : Except Fault Unit

namespace Transfer

def ofBytes (bytes : List UInt8) : Transfer := ⟨.ofRest bytes, none, .ok ()⟩

def work (t : Transfer) (outlet : Outlet Line) (b : Bench) : Transfer × Outlet Line × Bench :=
  match t.written with
  | some _ => (t, outlet, b)
  | none =>
    let (writing, outlet, b) := t.writing.settle outlet b
    match writing with
    | .done (.ok ()) =>
      let (result, outlet, b) := outlet.writeCompleted b
      ({ t with writing, written := some result }, outlet, b)
    | .done result => ({ t with writing, written := some result }, outlet, b)
    | _ => ({ t with writing }, outlet, b)

/-- Let worker and reactor take turns until the channel has seen the end, for at most the given number
of rounds. A failed flush aborts the outlet. -/
def run (place : Nat) : Nat → Transfer → Outlet Line → Bench → Transfer × Outlet Line × Bench
  | 0, t, outlet, b => (t, outlet, b)
  | rounds + 1, t, outlet, b =>
    let (t, outlet, b) := t.work outlet b
    match outlet.flush (Line.outside place) b with
    | (.error fault, outlet, b) =>
      let (outlet, b) := outlet.abortAndAsk b
      { t with flushed := .error fault }.work outlet b
    | (.ok (), outlet, b) =>
      if (b.recorder place).isEnded then t.work outlet b else run place rounds t outlet b

end Transfer
end Sluice
