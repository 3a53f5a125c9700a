import Sluice.Exchange.Handler

/-!
The task that runs a handler on a worker of its own.
-/
namespace Sluice

/-- Where a task stands. After the handler has returned, the input is drained and the output
completed; a failure is recorded and aborts both buffers; then the exchange is complete. -/
inductive Progress (ι κ : Type)
  | submitted
  | thinking
  | calling (call : Call ι κ)
  | closingInput (call : Call ι κ)
  | closingOutput (call : Call ι κ)
  | failing (cause : Fault)
  | abortingInlet
  | abortingOutlet
  | asking (channel : Option ι)
  | completing
  | finished

/-- A task with what its handler holds. -/
structure Task (ι κ : Type) where
  session : Session
  progress : Progress ι κ

namespace Progress

variable {ι κ : Type}

def crashed : Progress ι κ := .failing (.handler "handler panicked")

def afterHandler (session : Session) : Except Fault Unit → Progress ι κ
  | .ok () => .closingInput (Call.closeInput session)
  | .error cause => .failing cause

def isFinished : Progress ι κ → Bool
  | .finished => true
  | _ => false

end Progress

/-- The result of closing a stream. A stream that is not there is closed. -/
def Answer.closed : Answer → Except Fault Unit
  | .plain result => result
  | _ => .ok ()

namespace Task

variable {ι κ : Type}

def ofSession (session : Session) : Task ι κ := ⟨session, .submitted⟩

def think {τ : Type} [Handler τ] (task : Task ι κ) (handler : τ) : Pace × Task ι κ × τ :=
  match Handler.next task.session handler with
  | (.act act, handler) =>
    let (call, session) := Call.start task.session act
    (.going, ⟨session, .calling call⟩, handler)
  | (.finish result, handler) =>
    (.going, { task with progress := .afterHandler task.session result }, handler)
  | (.crash, handler) => (.going, { task with progress := .crashed }, handler)
  | (.rest, handler) => (.parked, task, handler)

def afterInput (task : Task ι κ) : Except Fault Unit → Task ι κ
  | .ok () =>
    let (call, session) := Call.closeOutput task.session
    ⟨session, .closingOutput call⟩
  | .error cause => { task with progress := .failing cause }

def afterOutput (task : Task ι κ) : Except Fault Unit → Task ι κ
  | .ok () => { task with progress := .completing }
  | .error cause => { task with progress := .failing cause }

end Task
end Sluice
