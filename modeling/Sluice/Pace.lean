/-!
How the machines of this library come to rest. A machine makes one step at a time and tells after
each whether it can go on.
-/
namespace Sluice

/-- Whether a machine can go on at once, has to be woken, or has come to its end. -/
inductive Pace
  | going
  | parked
  | finished
  deriving DecidableEq

/-- The answer to a poll: a value, or nothing yet. -/
inductive Poll (α : Type)
  | ready (a : α)
  | pending
  deriving DecidableEq

end Sluice
