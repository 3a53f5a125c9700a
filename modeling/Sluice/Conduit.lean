import Sluice.Settings

/-!
A bounded region of bytes between a worker, who may sleep, and a reactor, who never does. Whatever
a sleeper may be waiting for wakes all sleepers, and that is counted: who fell asleep at some count
is awake again as soon as the count has changed.
-/
namespace Sluice

structure Conduit where
  capacity : Nat
  waitMillis : Option Nat
  bytes : List UInt8
  ended : Bool
  aborted : Bool
  wakes : Nat
  deriving DecidableEq

namespace Conduit

def ofSettings (settings : BufferSettings) : Except Fault Conduit :=
  settings.validate.map fun () => ⟨settings.bufferSize, settings.waitMillis, [], false, false, 0⟩

def length (c : Conduit) : Nat := c.bytes.length

def free (c : Conduit) : Nat := c.capacity - c.length

def wake (c : Conduit) : Conduit := { c with wakes := c.wakes + 1 }

/-- Append as much as fits and answer how much that was. -/
def put (c : Conduit) (bytes : List UInt8) : Nat × Conduit :=
  let taken := min c.free bytes.length
  (taken, { c with bytes := c.bytes ++ bytes.take taken })

def drop (c : Conduit) (n : Nat) : Conduit := { c with bytes := c.bytes.drop n }

/-- Nothing follows the bytes that are here. -/
def finish (c : Conduit) : Conduit := { c with ended := true }

/-- Throw the bytes away, wake everybody, and fail from now on. -/
def abort (c : Conduit) : Conduit := { c with bytes := [], aborted := true }.wake

/-- Whether a sleeper who fell asleep at a count gives up. -/
def losesPatience (c : Conduit) (since : Nat) : Bool := c.waitMillis.isSome && since == c.wakes

end Conduit
end Sluice
