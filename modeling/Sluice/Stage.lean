import Sluice.Transport

/-!
The staging buffer of a producer: bytes are appended at the back, drained from the front, and
never more than the capacity.
-/
namespace Sluice

structure Stage where
  capacity : Nat
  bytes : List UInt8
  deriving DecidableEq

/-- What somebody did with a window of zero bytes: the bytes put at its front, how many bytes of it
should count, and an answer for the caller. -/
structure Filled (α : Type) where
  answer : α
  claimed : Nat
  front : List UInt8

/-- The first `n` bytes of a window that was filled from the front. -/
def windowPrefix (front : List UInt8) (n : Nat) : List UInt8 :=
  front.take n ++ List.replicate (n - front.length) 0

/-- A window after bytes were written to it from its front. Bytes behind its end are not written. -/
def overwrite (window front : List UInt8) : List UInt8 :=
  front.take window.length ++ window.drop front.length

theorem length_overwrite (window front : List UInt8) : (overwrite window front).length = window.length := by
  simp only [overwrite, List.length_append, List.length_take, List.length_drop]
  omega

/-- What is left of a window by somebody who may write anywhere in it but not move its bounds, and
how that ended: with a failure, or with an answer and the number of bytes that should count. -/
structure Touched (window : List UInt8) (α : Type) where
  bytes : List UInt8
  sized : bytes.length = window.length
  outcome : Except Fault (α × Nat)

/-- A window filled from its front. A failure has written nothing. -/
def Touched.ofFilled {α : Type} (window : List UInt8) : Except Fault (Filled α) → Touched window α
  | .error fault => ⟨window, rfl, .error fault⟩
  | .ok filled =>
    ⟨overwrite window filled.front, length_overwrite .., .ok (filled.answer, filled.claimed)⟩

namespace Stage

def empty (capacity : Nat) : Stage := ⟨capacity, []⟩

def length (stage : Stage) : Nat := stage.bytes.length

def remaining (stage : Stage) : Nat := stage.capacity - stage.length

def isEmpty (stage : Stage) : Bool := stage.bytes.isEmpty

def isFull (stage : Stage) : Bool := stage.remaining == 0

/-- Append as much as fits and answer how much that was. -/
def put (stage : Stage) (bytes : List UInt8) : Nat × Stage :=
  let taken := min stage.remaining bytes.length
  (taken, { stage with bytes := stage.bytes ++ bytes.take taken })

/-- Grow to the capacity with zeros, let `fill` write into what has been added, and cut back: to what
there was before if it fails, else behind the bytes that it claims, as far as there is room for them. -/
def writeInto {α : Type} (stage : Stage) (fill : (window : List UInt8) → Touched window α) :
    Except Fault α × Stage :=
  let start := stage.length
  let grown := stage.bytes.rightpad stage.capacity 0
  let touched := fill (grown.drop start)
  let written := grown.take start ++ touched.bytes
  match touched.outcome with
  | .error fault => (.error fault, { stage with bytes := written.take start })
  | .ok (answer, claimed) =>
    let kept := min claimed (stage.capacity - start)
    (.ok answer, { stage with bytes := written.take (start + kept) })

section
variable {α : Type} {stage : Stage} {fill : (window : List UInt8) → Touched window α}

theorem take_grown (stage : Stage) :
    (stage.bytes.rightpad stage.capacity 0).take stage.length = stage.bytes :=
  List.take_left

theorem drop_grown (stage : Stage) :
    (stage.bytes.rightpad stage.capacity 0).drop stage.length = List.replicate stage.remaining 0 :=
  List.drop_left

/-- A failure leaves the stage as it was, whatever was written before it. -/
theorem writeInto_error {fault : Fault}
    (failed : (fill (List.replicate stage.remaining 0)).outcome = .error fault) :
    stage.writeInto fill = (.error fault, stage) := by
  have cut : (stage.bytes ++ (fill (List.replicate stage.remaining 0)).bytes).take stage.length =
      stage.bytes := List.take_left
  unfold writeInto
  dsimp only
  rw [take_grown, drop_grown, failed, cut]

/-- What is claimed of the window goes behind the bytes that are there. -/
theorem writeInto_ok {answer : α} {claimed : Nat}
    (done : (fill (List.replicate stage.remaining 0)).outcome = .ok (answer, claimed)) :
    stage.writeInto fill = (.ok answer, { stage with bytes := stage.bytes ++
      (fill (List.replicate stage.remaining 0)).bytes.take (min claimed stage.remaining) }) := by
  have cut (n : Nat) (window : List UInt8) : (stage.bytes ++ window).take (stage.length + n) =
      stage.bytes ++ window.take n := List.take_length_add_append n
  unfold writeInto
  dsimp only
  rw [take_grown, drop_grown, done]
  dsimp only
  rw [cut]
  rfl

end

def writeWith {α : Type} (stage : Stage) (fill : Nat → Except Fault (Filled α)) :
    Except Fault α × Stage :=
  stage.writeInto fun window => .ofFilled window (fill window.length)

theorem take_overwrite (front : List UInt8) {n room : Nat} (within : n ≤ room) :
    (overwrite (List.replicate room 0) front).take n = windowPrefix front n := by
  rw [overwrite, List.length_replicate, List.drop_replicate, windowPrefix, List.take_append,
    List.take_take, List.take_replicate, List.length_take, Nat.min_eq_left within]
  congr 2
  omega

/-- Bytes are written behind the ones that are there, as many as are claimed and fit. -/
theorem writeWith_eq {α : Type} (stage : Stage) (fill : Nat → Except Fault (Filled α)) :
    stage.writeWith fill = match fill stage.remaining with
      | .error fault => (.error fault, stage)
      | .ok filled => (.ok filled.answer, { stage with
          bytes := stage.bytes ++ windowPrefix filled.front (min filled.claimed stage.remaining) }) := by
  rw [writeWith]
  have touched : Touched.ofFilled (List.replicate stage.remaining 0)
      (fill (List.replicate stage.remaining (0 : UInt8)).length) = .ofFilled _ (fill stage.remaining) := by
    rw [List.length_replicate]
  cases outcome : fill stage.remaining with
  | error fault =>
    rw [outcome] at touched
    exact writeInto_error (by rw [touched]; rfl)
  | ok filled =>
    rw [outcome] at touched
    have done : (Touched.ofFilled (List.replicate stage.remaining 0)
        (fill (List.replicate stage.remaining (0 : UInt8)).length)).outcome =
          .ok (filled.answer, filled.claimed) := by rw [touched]; rfl
    rw [writeInto_ok done, touched]
    dsimp only [Touched.ofFilled]
    rw [take_overwrite _ (Nat.min_le_right ..)]

/-- Offer everything staged to a channel and drop what it reports to have taken, as far as that is
there. The answer is the report itself. An empty stage offers nothing. -/
def flushTo {ι σ : Type} [Transport ι σ] (stage : Stage) (ch : ι) (s : σ) :
    Except Fault Nat × Stage × σ :=
  if stage.isEmpty then (.ok 0, stage, s)
  else match Transport.write ch stage.bytes s with
    | (.error fault, s) => (.error fault, stage, s)
    | (.ok written, s) =>
      (.ok written, { stage with bytes := stage.bytes.drop (min written stage.length) }, s)

/-- A report beyond what is staged drops all of it. -/
theorem flushTo_eq {ι σ : Type} [Transport ι σ] (stage : Stage) (ch : ι) (s : σ) :
    stage.flushTo ch s = if stage.isEmpty then (.ok 0, stage, s)
      else match Transport.write ch stage.bytes s with
        | (.error fault, s) => (.error fault, stage, s)
        | (.ok written, s) => (.ok written, { stage with bytes := stage.bytes.drop written }, s) := by
  have dropped (n : Nat) : stage.bytes.drop (min n stage.length) = stage.bytes.drop n := by
    rcases Nat.le_total n stage.length with within | beyond
    · rw [Nat.min_eq_left within]
    · rw [Nat.min_eq_right beyond, List.drop_eq_nil_of_le beyond]
      exact List.drop_length
  simp only [flushTo, dropped]

def clear (stage : Stage) : Stage := { stage with bytes := [] }

end Stage
end Sluice
