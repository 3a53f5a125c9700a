import Sluice.Outlet
import Sluice.Pace

/-!
Blocking writes to an outlet, section by section. A write places as much as fits at a time, asks the
reactor for a flush after each piece, and sleeps while the outlet is full.
-/
namespace Sluice

/-- Where a write stands: `rest` is what it has not placed yet. -/
inductive Writing (ι : Type)
  | placing (rest : List UInt8)
  | asleep (rest : List UInt8) (since : Nat)
  | asking (channel : ι) (rest : List UInt8)
  | done (result : Except Fault Unit)

variable {ι σ : Type}

namespace Writing

/-- A write that has `rest` left to place. -/
def ofRest (rest : List UInt8) : Writing ι := if rest.isEmpty then .done (.ok ()) else .placing rest

end Writing

/-- Place as much of `rest` as fits, or fall asleep in front of a full outlet. -/
def Outlet.place (outlet : Outlet ι) (rest : List UInt8) : Writing ι × Outlet ι :=
  if outlet.conduit.aborted then (.done (.error .aborted), outlet)
  else if outlet.conduit.ended then (.done (.error .writeAfterEnd), outlet)
  else if outlet.conduit.free = 0 then (.asleep rest outlet.conduit.wakes, outlet)
  else
    let (taken, conduit) := outlet.conduit.put rest
    let outlet := { outlet with conduit }
    match outlet.channel with
    | none => (.ofRest (rest.drop taken), outlet)
    | some ch => (.asking ch (rest.drop taken), outlet)

namespace Writing

variable [Transport ι σ]

def step (writing : Writing ι) (outlet : Outlet ι) (s : σ) : Pace × Writing ι × Outlet ι × σ :=
  match writing with
  | .placing rest =>
    let (writing, outlet) := outlet.place rest
    (.going, writing, outlet, s)
  | .asleep rest since =>
    if since = outlet.conduit.wakes then (.parked, writing, outlet, s)
    else
      let (writing, outlet) := outlet.place rest
      (.going, writing, outlet, s)
  | .asking ch rest => (.going, .ofRest rest, outlet, Transport.requestOutput ch s)
  | .done _ => (.finished, writing, outlet, s)

/-- The patience of a sleeping write may come to its end. What it has placed stays. -/
def timeOut (writing : Writing ι) (outlet : Outlet ι) : Writing ι :=
  match writing with
  | .asleep _ since =>
    if outlet.conduit.losesPatience since then .done (.error .timeout) else writing
  | _ => writing

def result? (writing : Writing ι) : Option (Except Fault Unit) :=
  match writing with
  | .done result => some result
  | _ => none

def run : Nat → Writing ι → Outlet ι → σ → Pace × Writing ι × Outlet ι × σ
  | 0, writing, outlet, s => (.going, writing, outlet, s)
  | steps + 1, writing, outlet, s =>
    match writing.step outlet s with
    | (.going, writing, outlet, s) => run steps writing outlet s
    | stopped => stopped

/-- Run a write until it sleeps or is over. Left alone it can place one piece at the most, since
after that it is over or the outlet is full. -/
def settle (writing : Writing ι) (outlet : Outlet ι) (s : σ) : Writing ι × Outlet ι × σ :=
  (run 6 writing outlet s).2

end Writing

namespace Outlet

variable [Transport ι σ]

/-- Ask the reactor for a flush, if a channel is known for that. -/
def ask (ch : Option ι) (s : σ) : σ := Transport.requestOutput ch s

/-- A write with nobody else around: if it falls asleep, it times out. `none` if it never ends. -/
def write (outlet : Outlet ι) (bytes : List UInt8) (s : σ) :
    Option (Except Fault Unit) × Outlet ι × σ :=
  let (writing, outlet, s) := Writing.settle (.ofRest bytes) outlet s
  ((writing.timeOut outlet).result?, outlet, s)

def writeCompleted (outlet : Outlet ι) (s : σ) : Except Fault Unit × Outlet ι × σ :=
  match outlet.complete with
  | (.error fault, outlet) => (.error fault, outlet, s)
  | (.ok ch, outlet) => (.ok (), outlet, ask ch s)

def abortAndAsk (outlet : Outlet ι) (s : σ) : Outlet ι × σ :=
  let (ch, outlet) := outlet.abort
  (outlet, ask ch s)

end Outlet
end Sluice
