import Sluice.Exchange.Task
import Sluice.Executor
import Sluice.Pump.Inbound

/-!
One request and its response: the reactor's side. The handler runs on a worker and is connected to
the reactor by an inlet, if the request has a body, and an outlet. A failure on either side aborts
both, so that nobody waits in vain.
-/
namespace Sluice

/-- The life of an exchange. -/
inductive Phase
  | idle
  | active
  | completed
  deriving DecidableEq

/-- An exchange with its first failure, its buffers once they are there, the handler, the task once
it was accepted, and how often the handler was started. -/
structure Exchange (ι κ τ : Type) where
  limits : BufferSettings
  executor : Executor
  phase : Phase
  failure : Option Fault
  inlet : Option (Inlet κ)
  outlet : Option (Outlet ι)
  handler : τ
  task : Option (Task ι κ)
  runs : Nat

namespace Exchange

variable {ι κ σ τ : Type}

def ofHandler (limits : BufferSettings) (executor : Executor) (handler : τ) :
    Except Fault (Exchange ι κ τ) :=
  limits.validate.map fun () => ⟨limits, executor, .idle, none, none, none, handler, none, 0⟩

def recordFailure (x : Exchange ι κ τ) (cause : Fault) : Exchange ι κ τ :=
  { x with failure := x.failure.or (some cause) }

def abortInlet (x : Exchange ι κ τ) : Exchange ι κ τ := { x with inlet := x.inlet.map Inlet.abort }

/-- Abort the outlet and answer the channel to be asked. -/
def abortOutlet (x : Exchange ι κ τ) : Option ι × Exchange ι κ τ :=
  match x.outlet with
  | none => (none, x)
  | some outlet =>
    let (ch, outlet) := outlet.abort
    (ch, { x with outlet := some outlet })

def complete (x : Exchange ι κ τ) : Exchange ι κ τ := { x with phase := .completed }

/-- Occupy an idle exchange. Only one caller can succeed. -/
def occupy (x : Exchange ι κ τ) : Bool × Exchange ι κ τ :=
  match x.phase with
  | .idle => (true, { x with phase := .active })
  | _ => (false, x)

def allocate (x : Exchange ι κ τ) (hasBody : Bool) :
    Except Fault (Option (Inlet κ) × Outlet ι) := do
  let inlet ← if hasBody then (Inlet.ofSettings x.limits).map some else pure none
  let outlet ← Outlet.ofSettings x.limits
  return (inlet, outlet)

def equip (x : Exchange ι κ τ) (inlet : Option (Inlet κ)) (outlet : Outlet ι) : Exchange ι κ τ :=
  { x with inlet, outlet := some outlet }

def submit (x : Exchange ι κ τ) (session : Session) : Except Fault Unit × Exchange ι κ τ :=
  match x.executor.submit with
  | (.error fault, executor) => (.error fault, { x with executor })
  | (.ok (), executor) => (.ok (), { x with executor, task := some (.ofSession session) })

/-- The input of the exchange, which a request without a body does not have. -/
def input (x : Exchange ι κ τ) : Except Fault (Inlet κ) :=
  x.inlet.elim (.error (.illegalState "no input buffer")) .ok

/-- The output of the exchange, which is not there before its start. -/
def output (x : Exchange ι κ τ) : Except Fault (Outlet ι) :=
  x.outlet.elim (.error (.illegalState "no output buffer")) .ok

def consume (x : Exchange ι κ τ) (bytes : List UInt8) : Except Fault Nat × Exchange ι κ τ :=
  match x.input with
  | .error fault => (.error fault, x)
  | .ok inlet =>
    let (result, inlet) := inlet.fill bytes
    (result, { x with inlet := some inlet })

def streamEnd (x : Exchange ι κ τ) : Except Fault Unit × Exchange ι κ τ :=
  match x.input with
  | .error fault => (.error fault, x)
  | .ok inlet => (.ok (), { x with inlet := some inlet.markEnd })

/-- Announce room on a channel. Without a body there is nothing to announce. -/
def updateCapacity [CapacityChannel κ σ] (x : Exchange ι κ τ) (ch : κ) (s : σ) :
    Except Fault Unit × Exchange ι κ τ × σ :=
  match x.inlet with
  | none => (.ok (), x, s)
  | some inlet =>
    let (result, inlet, s) := inlet.updateCapacity ch s
    (result, { x with inlet := some inlet }, s)

def available (x : Exchange ι κ τ) : Nat := x.outlet.elim 0 Outlet.length

variable [Transport ι σ]

def produce (x : Exchange ι κ τ) (ch : ι) (s : σ) : Except Fault Unit × Exchange ι κ τ × σ :=
  match x.output with
  | .error fault => (.error fault, x, s)
  | .ok outlet =>
    let (result, outlet, s) := outlet.flush ch s
    (result, { x with outlet := some outlet }, s)

def abortBuffers (x : Exchange ι κ τ) (s : σ) : Exchange ι κ τ × σ :=
  let (ch, x) := x.abortInlet.abortOutlet
  (x, Outlet.ask ch s)

/-- The request has arrived. On an exchange that is not idle nothing happens. If the executor refuses
the task, the exchange is over. -/
def start (x : Exchange ι κ τ) (request : Request) (hasBody : Bool) (context : Context) (s : σ) :
    Except Fault Unit × Exchange ι κ τ × σ :=
  match x.occupy with
  | (false, x) => (.ok (), x, s)
  | (true, x) =>
    match x.allocate hasBody with
    | .error fault => (.error fault, x.complete, s)
    | .ok (inlet, outlet) =>
      match (x.equip inlet outlet).submit (.start request context hasBody) with
      | (.ok (), x) => (.ok (), x, s)
      | (.error fault, x) =>
        let (x, s) := x.abortBuffers s
        (.error fault, x.complete, s)

def release [Handler τ] (x : Exchange ι κ τ) : Exchange ι κ τ :=
  { x with handler := Handler.release x.handler }

def failed [Handler τ] (x : Exchange ι κ τ) (cause : Fault) (s : σ) : Exchange ι κ τ × σ :=
  let (x, s) := (x.recordFailure cause).abortBuffers s
  (x.release, s)

instance : Outflow (Exchange ι κ τ) ι σ where
  produce := produce

instance [CapacityChannel κ σ] : Inflow (Exchange ι κ τ) κ σ where
  updateCapacity := updateCapacity
  consume x bytes s :=
    let (result, x) := x.consume bytes
    (result, x, s)
  streamEnd x s :=
    let (result, x) := x.streamEnd
    (result, x, s)

end Exchange
end Sluice
