import Sluice.Conduit
import Sluice.Transport

/-!
The buffer through which a body comes in: the reactor fills, the worker reads. Room is announced to
the peer once, and counts as announced until bytes have arrived for it. Each operation that does not
take a world is one critical section.
-/
namespace Sluice

/-- A conduit for bytes on their way in, the channel for announcements, the room announced and not
yet used, and the fault of an announcement that no read has reported yet. -/
structure Inlet (κ : Type) where
  conduit : Conduit
  channel : Option κ
  granted : Nat
  deferred : Option Fault
  deriving DecidableEq

namespace Inlet

variable {κ σ : Type}

def ofSettings (settings : BufferSettings) : Except Fault (Inlet κ) :=
  (Conduit.ofSettings settings).map fun conduit => ⟨conduit, none, 0, none⟩

def fill (inlet : Inlet κ) (bytes : List UInt8) : Except Fault Nat × Inlet κ :=
  if inlet.conduit.aborted then (.error .aborted, inlet)
  else if inlet.conduit.ended then (.error .fillAfterEnd, inlet)
  else
    let (taken, conduit) := inlet.conduit.put bytes
    let conduit := if 0 < taken then conduit.wake else conduit
    (.ok taken, { inlet with conduit, granted := inlet.granted - taken })

/-- Count the room not yet announced as announced, and answer how much that is. -/
def grant (inlet : Inlet κ) : Nat × Inlet κ :=
  let increment := inlet.conduit.free - inlet.granted
  (increment, { inlet with granted := inlet.granted + increment })

/-- Keep a channel for announcements and grant it the room that is left. -/
def register (inlet : Inlet κ) (ch : κ) : Except Fault Nat × Inlet κ :=
  if inlet.conduit.aborted then (.error .aborted, inlet)
  else
    let (increment, inlet) := { inlet with channel := some ch }.grant
    (.ok increment, inlet)

def revoke (inlet : Inlet κ) (increment : Nat) : Inlet κ :=
  { inlet with granted := inlet.granted - increment }

def postpone (inlet : Inlet κ) (fault : Fault) : Inlet κ := { inlet with deferred := some fault }

/-- Announce the room that is left on a channel, and from now on all room there. -/
def updateCapacity [CapacityChannel κ σ] (inlet : Inlet κ) (ch : κ) (s : σ) :
    Except Fault Unit × Inlet κ × σ :=
  match inlet.register ch with
  | (.error fault, inlet) => (.error fault, inlet, s)
  | (.ok 0, inlet) => (.ok (), inlet, s)
  | (.ok increment, inlet) =>
    match CapacityChannel.update ch increment s with
    | (.error fault, s) => (.error fault, inlet.revoke increment, s)
    | (.ok (), s) => (.ok (), inlet, s)

def markEnd (inlet : Inlet κ) : Inlet κ := { inlet with conduit := inlet.conduit.finish.wake }

def abort (inlet : Inlet κ) : Inlet κ := { inlet with conduit := inlet.conduit.abort }

def length (inlet : Inlet κ) : Nat := inlet.conduit.length

def text (inlet : Inlet κ) : String :=
  "SharedInputBuffer \x7b length: " ++ toString inlet.length ++ ", capacity: " ++
    toString inlet.conduit.capacity ++ ", end_stream: " ++ toString inlet.conduit.ended ++
    ", aborted: " ++ toString inlet.conduit.aborted ++ " \x7d"

end Inlet
end Sluice
