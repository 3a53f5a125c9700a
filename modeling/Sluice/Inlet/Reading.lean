import Sluice.Inlet
import Sluice.Pace

/-!
Blocking reads from an inlet, section by section. The room a read makes is announced outside the
sections; if that fails, the read keeps its bytes and the next one reports the fault.
-/
namespace Sluice

/-- Where a read stands. Once it has bytes it may have to announce the room they took, and if that
fails to take the grant back and to leave the fault. -/
inductive Reading (κ : Type)
  | entering
  | asleep (since : Nat)
  | announcing (bytes : List UInt8) (channel : κ) (increment : Nat)
  | revoking (bytes : List UInt8) (increment : Nat) (fault : Fault)
  | postponing (bytes : List UInt8) (fault : Fault)
  | done (result : Except Fault (List UInt8))

variable {κ σ : Type}

namespace Inlet

/-- What a read does with the bytes it has taken: room is announced as long as the stream goes on
and a channel is known. -/
def afterTake (inlet : Inlet κ) (bytes : List UInt8) : Reading κ × Inlet κ :=
  match inlet.channel with
  | none => (.done (.ok bytes), inlet)
  | some ch =>
    if inlet.conduit.ended then (.done (.ok bytes), inlet)
    else match inlet.grant with
      | (0, inlet) => (.done (.ok bytes), inlet)
      | (increment, inlet) => (.announcing bytes ch increment, inlet)

/-- Take at most `room` bytes, or fall asleep if there are none and some may come. -/
def take (inlet : Inlet κ) (room : Nat) : Reading κ × Inlet κ :=
  if inlet.conduit.aborted then (.done (.error .aborted), inlet)
  else if inlet.conduit.bytes.isEmpty then
    if inlet.conduit.ended then (.done (.ok []), inlet)
    else (.asleep inlet.conduit.wakes, inlet)
  else
    { inlet with conduit := inlet.conduit.drop room }.afterTake (inlet.conduit.bytes.take room)

/-- Enter a read: a fault that was left behind comes first. -/
def enter (inlet : Inlet κ) (room : Nat) : Reading κ × Inlet κ :=
  match inlet.deferred with
  | some fault => (.done (.error fault), { inlet with deferred := none })
  | none => inlet.take room

end Inlet

namespace Reading

/-- A read of at most `room` bytes. Without room it is over at once. -/
def ofRoom (room : Nat) : Reading κ := if room = 0 then .done (.ok []) else .entering

variable [CapacityChannel κ σ]

def step (room : Nat) (reading : Reading κ) (inlet : Inlet κ) (s : σ) :
    Pace × Reading κ × Inlet κ × σ :=
  match reading with
  | .entering =>
    let (reading, inlet) := inlet.enter room
    (.going, reading, inlet, s)
  | .asleep since =>
    if since = inlet.conduit.wakes then (.parked, reading, inlet, s)
    else
      let (reading, inlet) := inlet.take room
      (.going, reading, inlet, s)
  | .announcing bytes ch increment =>
    match CapacityChannel.update ch increment s with
    | (.ok (), s) => (.going, .done (.ok bytes), inlet, s)
    | (.error fault, s) => (.going, .revoking bytes increment fault, inlet, s)
  | .revoking bytes increment fault =>
    (.going, .postponing bytes fault, inlet.revoke increment, s)
  | .postponing bytes fault => (.going, .done (.ok bytes), inlet.postpone fault, s)
  | .done _ => (.finished, reading, inlet, s)

/-- The patience of a sleeping read may come to its end. -/
def timeOut (reading : Reading κ) (inlet : Inlet κ) : Reading κ :=
  match reading with
  | .asleep since => if inlet.conduit.losesPatience since then .done (.error .timeout) else reading
  | _ => reading

def result? (reading : Reading κ) : Option (Except Fault (List UInt8)) :=
  match reading with
  | .done result => some result
  | _ => none

def run (room : Nat) : Nat → Reading κ → Inlet κ → σ → Pace × Reading κ × Inlet κ × σ
  | 0, reading, inlet, s => (.going, reading, inlet, s)
  | steps + 1, reading, inlet, s =>
    match reading.step room inlet s with
    | (.going, reading, inlet, s) => run room steps reading inlet s
    | stopped => stopped

/-- Run a read until it sleeps or is over. Left alone, a read passes through at most five sections,
and the sixth step finds it at rest. -/
def settle (room : Nat) (reading : Reading κ) (inlet : Inlet κ) (s : σ) :
    Reading κ × Inlet κ × σ :=
  (run room 6 reading inlet s).2

end Reading

/-- A read with nobody else around: if it falls asleep, it times out. `none` if it never ends. -/
def Inlet.read [CapacityChannel κ σ] (inlet : Inlet κ) (room : Nat) (s : σ) :
    Option (Except Fault (List UInt8)) × Inlet κ × σ :=
  let (reading, inlet, s) := Reading.settle room (.ofRoom room) inlet s
  ((reading.timeOut inlet).result?, inlet, s)

end Sluice
