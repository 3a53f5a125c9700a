import Sluice.Exchange.Session
import Sluice.Inlet.Reading
import Sluice.Outlet.Writing

/-!
The calls a handler makes, section by section. The first write, or closing the output without one,
commits the head and sends it before anything is placed in the outlet.
-/
namespace Sluice

/-- What a handler can do. -/
inductive Act
  | read (room : Nat)
  | closeInput
  | write (bytes : List UInt8)
  | flush
  | closeOutput
  | setStatus (status : Http.Status)
  | setVersion (version : Http.Version)
  | setHeader (name : Http.HeaderName) (value : Http.HeaderValue)
  | addHeader (name : Http.HeaderName) (value : Http.HeaderValue)
  | removeHeader (name : String)

/-- What a handler hears. Reads and writes fail like those of any byte stream. -/
inductive Answer
  | noInput
  | bytes (result : Except SystemError (List UInt8))
  | count (result : Except SystemError Nat)
  | plain (result : Except Fault Unit)

/-- Where a call stands. `announcing` has the head to be sent and what is to be written behind it,
if the call is a write; `draining` discards what comes in. -/
inductive Call (ι κ : Type)
  | reading (room : Nat) (reading : Reading κ)
  | draining (reading : Reading κ)
  | announcing (head : Http.Head) (bytes : Option (List UInt8))
  | writing (count : Nat) (writing : Writing ι)
  | completing
  | asking (channel : Option ι)
  | done (answer : Answer)

namespace Call

variable {ι κ σ : Type}

def drainChunk : Nat := 1024

/-- A write of bytes, or the completion of the body, behind the head. -/
def behindHead : Option (List UInt8) → Call ι κ
  | some bytes => .writing bytes.length (.ofRest bytes)
  | none => .completing

/-- Commit the head, and send it first if nobody else has that to do. -/
def commit (session : Session) (bytes : Option (List UInt8)) : Call ι κ × Session :=
  match session.response.commit with
  | (some head, response) => (.announcing head bytes, { session with response })
  | (none, response) => (behindHead bytes, { session with response })

def change (session : Session) (result : Except Fault Unit × Response) : Call ι κ × Session :=
  (.done (.plain result.1), { session with response := result.2 })

def read (session : Session) (room : Nat) : Call ι κ :=
  if !session.hasInput then .done .noInput
  else if session.inputClosed then .done (.bytes (.ok []))
  else .reading room (.ofRoom room)

def closeInput (session : Session) : Call ι κ :=
  if !session.hasInput then .done .noInput
  else if session.inputClosed then .done (.plain (.ok ()))
  else .draining (.ofRoom drainChunk)

def closeOutput (session : Session) : Call ι κ × Session :=
  if session.outputClosed then (.done (.plain (.ok ())), session)
  else commit session none

def start (session : Session) : Act → Call ι κ × Session
  | .read room => (read session room, session)
  | .closeInput => (closeInput session, session)
  | .write bytes => commit session (some bytes)
  | .flush => (.done (.plain (.ok ())), session)
  | .closeOutput => closeOutput session
  | .setStatus status => change session (session.response.setStatus status)
  | .setVersion version => change session (session.response.setVersion version)
  | .setHeader name value => change session (session.response.setHeader name value)
  | .addHeader name value => change session (session.response.addHeader name value)
  | .removeHeader name => change session (session.response.removeHeader name)

/-- How the failure to send the head ends a call. -/
def unannounced (fault : Fault) : Option (List UInt8) → Call ι κ
  | some _ => .done (.count (.error fault.toSystem))
  | none => .done (.plain (.error fault))

/-- The state a call acts on: its session and the buffers of its exchange. -/
structure Ground (ι κ : Type) where
  session : Session
  inlet : Option (Inlet κ)
  outlet : Outlet ι

variable [Transport ι σ] [CapacityChannel κ σ] [ResponseChannel σ]

def stepReading (room : Nat) (r : Reading κ) (g : Ground ι κ) (s : σ) :
    Pace × Reading κ × Ground ι κ × σ :=
  match g.inlet with
  | none => (.going, .done (.ok []), g, s)
  | some inlet =>
    let (pace, r, inlet, s) := r.step room inlet s
    (pace, r, { g with inlet := some inlet }, s)

def step (call : Call ι κ) (g : Ground ι κ) (s : σ) : Pace × Call ι κ × Ground ι κ × σ :=
  match call with
  | .reading _ (.done result) => (.going, .done (.bytes (result.mapError Fault.toSystem)), g, s)
  | .reading room r =>
    let (pace, r, g, s) := stepReading room r g s
    (pace, .reading room r, g, s)
  | .draining (.done (.error fault)) => (.going, .done (.plain (.error fault)), g, s)
  | .draining (.done (.ok [])) =>
    (.going, .done (.plain (.ok ())), { g with session := { g.session with inputClosed := true } }, s)
  | .draining (.done (.ok _)) => (.going, .draining (.ofRoom drainChunk), g, s)
  | .draining r =>
    let (pace, r, g, s) := stepReading drainChunk r g s
    (pace, .draining r, g, s)
  | .announcing head bytes =>
    match ResponseChannel.send head head.entity s with
    | (.error fault, s) => (.going, unannounced fault bytes, g, s)
    | (.ok (), s) => (.going, behindHead bytes, g, s)
  | .writing count (.done result) =>
    (.going, .done (.count ((result.mapError Fault.toSystem).map fun () => count)), g, s)
  | .writing count w =>
    let (pace, w, outlet, s) := w.step g.outlet s
    (pace, .writing count w, { g with outlet }, s)
  | .completing =>
    match g.outlet.complete with
    | (.error fault, outlet) => (.going, .done (.plain (.error fault)), { g with outlet }, s)
    | (.ok ch, outlet) => (.going, .asking ch, { g with outlet }, s)
  | .asking ch =>
    (.going, .done (.plain (.ok ())), { g with session := { g.session with outputClosed := true } },
      Transport.requestOutput ch s)
  | .done _ => (.finished, call, g, s)

/-- The patience of a sleeping call may come to its end. -/
def timeOut (call : Call ι κ) (g : Ground ι κ) : Call ι κ :=
  match call, g.inlet with
  | .reading room r, some inlet => .reading room (r.timeOut inlet)
  | .draining r, some inlet => .draining (r.timeOut inlet)
  | .writing count w, _ => .writing count (w.timeOut g.outlet)
  | _, _ => call

end Call
end Sluice
