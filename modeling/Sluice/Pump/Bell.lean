/-!
A bell that wakes one listener. Ringing it while nobody listens is remembered, but only once.
-/
namespace Sluice

/-- Where the listener of a bell is: elsewhere, asleep behind the bell, or called by it and not yet
back. -/
inductive Listener
  | absent
  | asleep
  | called
  deriving DecidableEq

/-- A bell: whether a ring is stored, and its listener. -/
structure Bell where
  stored : Bool
  listener : Listener
  deriving DecidableEq

namespace Bell

def silent : Bell := ⟨false, .absent⟩

/-- Call a sleeping listener, else store the ring. -/
def ring (bell : Bell) : Bell :=
  match bell.listener with
  | .asleep => { bell with listener := .called }
  | _ => { bell with stored := true }

/-- Listen, or look again after falling asleep: whether the listener may go on. A stored ring is
used up by a listener who has just come. -/
def listen (bell : Bell) : Bool × Bell :=
  match bell.listener with
  | .asleep => (false, bell)
  | .called => (true, { bell with listener := .absent })
  | .absent => if bell.stored then (true, ⟨false, .absent⟩) else (false, ⟨false, .asleep⟩)

end Bell
end Sluice
