import Sluice.Exchange

/-!
One request and its response: the worker's side, which runs the task of an exchange section by
section.
-/
namespace Sluice.Exchange

variable {ι κ σ τ : Type} [Handler τ] [Transport ι σ] [CapacityChannel κ σ] [ResponseChannel σ]

def withTask (x : Exchange ι κ τ) (task : Task ι κ) : Exchange ι κ τ := { x with task := some task }

def moveOn (x : Exchange ι κ τ) (task : Task ι κ) (progress : Progress ι κ) : Exchange ι κ τ :=
  x.withTask { task with progress }

def ground (x : Exchange ι κ τ) (task : Task ι κ) (outlet : Outlet ι) : Call.Ground ι κ :=
  ⟨task.session, x.inlet, outlet⟩

/-- A step of a call of the task, which stands at `progress` with it. -/
def stepCall (x : Exchange ι κ τ) (task : Task ι κ) (progress : Call ι κ → Progress ι κ)
    (call : Call ι κ) (s : σ) : Pace × Exchange ι κ τ × σ :=
  match x.outlet with
  | none => (.parked, x, s)
  | some outlet =>
    let (pace, call, g, s) := call.step (x.ground task outlet) s
    let x := { x with inlet := g.inlet, outlet := some g.outlet }
    (pace, x.withTask ⟨g.session, progress call⟩, s)

def stepTask (x : Exchange ι κ τ) (task : Task ι κ) (s : σ) : Pace × Exchange ι κ τ × σ :=
  match task.progress with
  | .submitted => (.going, { x with runs := x.runs + 1 }.moveOn task .thinking, s)
  | .thinking =>
    let (pace, task, handler) := task.think x.handler
    (pace, { x with handler }.withTask task, s)
  | .calling (.done answer) =>
    (.going, { x with handler := Handler.hear answer x.handler }.moveOn task .thinking, s)
  | .calling call => x.stepCall task .calling call s
  | .closingInput (.done answer) => (.going, x.withTask (task.afterInput answer.closed), s)
  | .closingInput call => x.stepCall task .closingInput call s
  | .closingOutput (.done answer) => (.going, x.withTask (task.afterOutput answer.closed), s)
  | .closingOutput call => x.stepCall task .closingOutput call s
  | .failing cause => (.going, (x.recordFailure cause).moveOn task .abortingInlet, s)
  | .abortingInlet => (.going, x.abortInlet.moveOn task .abortingOutlet, s)
  | .abortingOutlet =>
    let (ch, x) := x.abortOutlet
    (.going, x.moveOn task (.asking ch), s)
  | .asking ch => (.going, x.moveOn task .completing, Outlet.ask ch s)
  | .completing => (.going, x.complete.moveOn task .finished, s)
  | .finished => (.finished, x, s)

def step (x : Exchange ι κ τ) (s : σ) : Pace × Exchange ι κ τ × σ :=
  match x.task with
  | none => (.finished, x, s)
  | some task => x.stepTask task s

def run : Nat → Exchange ι κ τ → σ → Pace × Exchange ι κ τ × σ
  | 0, x, s => (.going, x, s)
  | steps + 1, x, s =>
    match x.step s with
    | (.going, x, s) => run steps x s
    | stopped => stopped

/-- The patience of a worker that sleeps in a call may come to its end. -/
def timeOut (x : Exchange ι κ τ) : Exchange ι κ τ :=
  match x.task, x.outlet with
  | some task, some outlet =>
    let expire (call : Call ι κ) := call.timeOut (x.ground task outlet)
    match task.progress with
    | .calling call => x.moveOn task (.calling (expire call))
    | .closingInput call => x.moveOn task (.closingInput (expire call))
    | .closingOutput call => x.moveOn task (.closingOutput (expire call))
    | _ => x
  | _, _ => x

def isCalling (x : Exchange ι κ τ) : Bool :=
  match x.task.map Task.progress with
  | some (.calling _) | some (.closingInput _) | some (.closingOutput _) => true
  | _ => false

/-- Run the worker until it has nothing left to do but to wait for the handler. Calls that sleep on
the way time out, at most the given number of them. -/
def runOut (steps : Nat) : Nat → Exchange ι κ τ → σ → Exchange ι κ τ × σ
  | 0, x, s => (x.run steps s).2
  | timeOuts + 1, x, s =>
    let (_, x, s) := x.run steps s
    if x.isCalling then runOut steps timeOuts x.timeOut s else (x, s)

def isRunning (x : Exchange ι κ τ) : Bool :=
  match x.task with
  | some task => !task.progress.isFinished
  | none => false

end Sluice.Exchange
