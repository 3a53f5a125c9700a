import Mathlib.Logic.Function.Iterate
import Sluice.Bench.Recorder
import Sluice.Stage

/-! The stage against a queue that takes and gives one byte at a time. Whatever windows are filled with, whatever is
claimed of them and whatever channels report, both hold the same bytes, and never more than there is room for. -/
namespace Sluice

/-- A queue of at most `capacity` bytes. -/
structure ByteQueue (capacity : Nat) where
  bytes : List UInt8
  within : bytes.length ≤ capacity

namespace ByteQueue

variable {capacity : Nat}

def empty (capacity : Nat) : ByteQueue capacity := ⟨[], Nat.zero_le capacity⟩

def length (q : ByteQueue capacity) : Nat := q.bytes.length

def free (q : ByteQueue capacity) : Nat := capacity - q.length

def push (q : ByteQueue capacity) (byte : UInt8) : ByteQueue capacity :=
  if room : q.length < capacity then ⟨q.bytes ++ [byte], by rw [List.length_append]; exact room⟩ else q

def pop (q : ByteQueue capacity) : ByteQueue capacity :=
  ⟨q.bytes.tail, by rw [List.length_tail]; exact Nat.le_trans (Nat.sub_le ..) q.within⟩

/-- One byte after the other goes to the back, as long as there is room. -/
def pushAll (q : ByteQueue capacity) (bytes : List UInt8) : ByteQueue capacity := bytes.foldl push q

/-- One byte after the other leaves, as long as there are any. -/
def popTimes (q : ByteQueue capacity) (n : Nat) : ByteQueue capacity := pop^[n] q

private theorem bytes_push_room {q : ByteQueue capacity} (room : q.length < capacity) (byte : UInt8) :
    (q.push byte).bytes = q.bytes ++ [byte] := by
  rw [push, dif_pos room]

private theorem push_full {q : ByteQueue capacity} (full : q.free = 0) (byte : UInt8) : q.push byte = q :=
  dif_neg (Nat.not_lt.mpr (Nat.sub_eq_zero_iff_le.mp full))

private theorem bytes_pushAll (q : ByteQueue capacity) (bytes : List UInt8) :
    (q.pushAll bytes).bytes = q.bytes ++ bytes.take (min bytes.length q.free) := by
  induction bytes generalizing q with
  | nil => exact (List.append_nil _).symm
  | cons byte bytes ih =>
    rw [pushAll, List.foldl_cons, ← pushAll, ih]
    rcases Nat.eq_zero_or_pos q.free with full | room
    · rw [push_full full, full, Nat.min_zero, Nat.min_zero]
      rfl
    · have pushed := bytes_push_room (Nat.lt_of_sub_pos room) byte
      have less : (q.push byte).free + 1 = q.free := by
        rw [free, length, pushed, List.length_append, ← Nat.sub_sub]
        exact Nat.sub_add_cancel room
      rw [pushed, ← less, List.length_cons, Nat.add_min_add_right, List.take_succ_cons, List.append_assoc]
      rfl

private theorem bytes_popTimes (q : ByteQueue capacity) (n : Nat) :
    (q.popTimes n).bytes = q.bytes.drop (min n q.length) := by
  induction n generalizing q with
  | zero =>
    rw [Nat.zero_min]
    rfl
  | succ n ih =>
    rw [popTimes, Function.iterate_succ_apply, ← popTimes, ih]
    cases held : q.bytes with
    | nil => simp [pop, held]
    | cons byte bytes => simp [pop, length, held, Nat.add_min_add_right]

def stage (q : ByteQueue capacity) : Stage := ⟨capacity, q.bytes⟩

private theorem stage_pushAll (q : ByteQueue capacity) (bytes : List UInt8) :
    (q.pushAll bytes).stage = ⟨capacity, q.bytes ++ bytes.take (min bytes.length q.free)⟩ :=
  congrArg (Stage.mk capacity) (q.bytes_pushAll bytes)

end ByteQueue

namespace Stage

/-- What is done to a stage. -/
inductive Operation (ι α : Type)
  | put (bytes : List UInt8)
  | writeInto (fill : (window : List UInt8) → Touched window α)
  | flushTo (ch : ι)
  | clear

/-- What an operation is answered with. -/
inductive Answer (α : Type)
  | taken (count : Nat)
  | filled (result : Except Fault α)
  | flushed (result : Except Fault Nat)
  | cleared

def Answer.failed {α : Type} : Answer α → Bool
  | filled (.error _) | flushed (.error _) => true
  | _ => false

end Stage

section
variable {ι σ α : Type} [Transport ι σ] {capacity : Nat}

def Stage.perform (stage : Stage) (s : σ) : Operation ι α → Answer α × Stage × σ
  | .put bytes =>
    let (count, stage) := stage.put bytes
    (.taken count, stage, s)
  | .writeInto fill =>
    let (result, stage) := stage.writeInto fill
    (.filled result, stage, s)
  | .flushTo ch =>
    let (result, stage, s) := stage.flushTo ch s
    (.flushed result, stage, s)
  | .clear => (.cleared, stage.clear, s)

/-- The same operations on a queue. Of a window of zeros the bytes that are claimed go to the back, and as many bytes as
a channel reports leave at the front. -/
def ByteQueue.perform (q : ByteQueue capacity) (s : σ) :
    Stage.Operation ι α → Stage.Answer α × ByteQueue capacity × σ
  | .put bytes => (.taken ((q.pushAll bytes).length - q.length), q.pushAll bytes, s)
  | .writeInto fill =>
    let touched := fill (List.replicate q.free 0)
    match touched.outcome with
    | .error fault => (.filled (.error fault), q, s)
    | .ok (answer, claimed) => (.filled (.ok answer), q.pushAll (touched.bytes.take claimed), s)
  | .flushTo ch =>
    if q.bytes = [] then (.flushed (.ok 0), q, s)
    else match Transport.write ch q.bytes s with
      | (.error fault, s) => (.flushed (.error fault), q, s)
      | (.ok reported, s) => (.flushed (.ok reported), q.popTimes reported, s)
  | .clear => (.cleared, .empty capacity, s)

def performAll {τ o β : Type} (perform : τ → σ → o → β × τ × σ) : τ → σ → List o → List β × τ × σ
  | t, s, [] => ([], t, s)
  | t, s, operation :: operations =>
    let (answer, t, s) := perform t s operation
    let (answers, t, s) := performAll perform t s operations
    (answer :: answers, t, s)

/-- What holds of one operation holds of any number of them: done to the picture of something, they give the same
answers and the picture of what they make of it. -/
theorem performAll_picture {τ τ' o β : Type} {perform : τ → σ → o → β × τ × σ}
    {perform' : τ' → σ → o → β × τ' × σ} {picture : τ → τ'}
    (square : ∀ t s operation, perform' (picture t) s operation =
      ((perform t s operation).1, picture (perform t s operation).2.1, (perform t s operation).2.2))
    (operations : List o) (t : τ) (s : σ) : performAll perform' (picture t) s operations =
      ((performAll perform t s operations).1, picture (performAll perform t s operations).2.1,
        (performAll perform t s operations).2.2) := by
  induction operations generalizing t s with
  | nil => rfl
  | cons operation operations ih => simp only [performAll, square, ih]

namespace ByteQueue

variable (q : ByteQueue capacity)

private theorem put_stage (bytes : List UInt8) :
    q.stage.put bytes = ((q.pushAll bytes).length - q.length, (q.pushAll bytes).stage) := by
  have taken : min q.stage.remaining bytes.length = min bytes.length q.free := Nat.min_comm ..
  have grown : (q.pushAll bytes).length - q.length = min bytes.length q.free := by
    rw [length, length, bytes_pushAll, List.length_append, List.length_take]
    omega
  rw [grown, stage_pushAll, Stage.put, taken]
  rfl

private theorem writeInto_stage_ok {fill : (window : List UInt8) → Touched window α} {answer : α} {claimed : Nat}
    (done : (fill (List.replicate q.free 0)).outcome = .ok (answer, claimed)) :
    q.stage.writeInto fill =
      (.ok answer, (q.pushAll ((fill (List.replicate q.free 0)).bytes.take claimed)).stage) := by
  have sized := (fill (List.replicate q.free 0)).sized
  have counted : min (min (min claimed q.free) q.free) claimed = min claimed q.stage.remaining := by
    have room : q.stage.remaining = q.free := rfl
    omega
  rw [Stage.writeInto_ok done, stage_pushAll, List.length_take, sized, List.length_replicate, List.take_take, counted]
  rfl

private theorem stage_popTimes (n : Nat) : (q.popTimes n).stage =
    { q.stage with bytes := q.stage.bytes.drop (min n q.stage.length) } :=
  congrArg (Stage.mk capacity) (q.bytes_popTimes n)

/-- An operation on the stage that holds the bytes of a queue is that operation on the queue. -/
theorem perform_stage (s : σ) (operation : Stage.Operation ι α) : q.stage.perform s operation =
    ((q.perform s operation).1, (q.perform s operation).2.1.stage, (q.perform s operation).2.2) := by
  cases operation with
  | put bytes =>
    rw [Stage.perform, put_stage]
    rfl
  | writeInto fill =>
    rw [Stage.perform, perform]
    cases outcome : (fill (List.replicate q.free 0)).outcome with
    | error fault => rw [Stage.writeInto_error outcome]
    | ok kept => rw [q.writeInto_stage_ok outcome]
  | flushTo ch =>
    have loaded : q.stage.isEmpty = true ↔ q.bytes = [] := List.isEmpty_iff
    rw [Stage.perform, perform, Stage.flushTo]
    by_cases empty : q.bytes = []
    · rw [if_pos empty, if_pos (loaded.mpr empty)]
    · rw [if_neg empty, if_neg (mt loaded.mp empty)]
      have offered : q.stage.bytes = q.bytes := rfl
      rw [offered]
      rcases Transport.write ch q.bytes s with ⟨fault | reported, s'⟩
      · rfl
      · exact congrArg (fun stage => (_, stage, s')) (q.stage_popTimes reported).symm
  | clear => rfl

/-- An operation that fails leaves the queue as it was. -/
theorem perform_failed {s : σ} {operation : Stage.Operation ι α} (failed : (q.perform s operation).1.failed = true) :
    (q.perform s operation).2.1 = q := by
  cases operation with
  | put bytes => cases failed
  | writeInto fill =>
    simp only [perform] at failed ⊢
    split at failed
    next => rfl
    next => cases failed
  | flushTo ch =>
    simp only [perform] at failed ⊢
    split at failed
    next => cases failed
    next loaded =>
      rw [if_neg loaded]
      split at failed
      next => rfl
      next => cases failed
  | clear => cases failed

end ByteQueue

/-- Whatever is done to a new stage, it gives the answers of a queue that takes and gives single bytes, offers channels
the same bytes, and holds the same ones. So it never holds more than its capacity, and its room is what is missing
to that. An operation that fails changes nothing. Of the bytes that go to such a queue the longest prefix that fits is
appended, and as many bytes leave it as are asked for and are there. -/
theorem stage_refines_queue (capacity : Nat) (operations : List (Stage.Operation ι α)) (s : σ) :
    let run := performAll Stage.perform (Stage.empty capacity) s operations
    let reference := performAll ByteQueue.perform (ByteQueue.empty capacity) s operations
    run.1 = reference.1 ∧ run.2.2 = reference.2.2 ∧
    run.2.1.capacity = capacity ∧ run.2.1.bytes = reference.2.1.bytes ∧
    run.2.1.length ≤ capacity ∧ run.2.1.remaining + run.2.1.length = capacity ∧
    (∀ operation : Stage.Operation ι α, (run.2.1.perform run.2.2 operation).1.failed = true →
      (run.2.1.perform run.2.2 operation).2.1 = run.2.1) ∧
    ∀ (q : ByteQueue capacity) (bytes : List UInt8) (n : Nat),
      (q.pushAll bytes).bytes = q.bytes ++ bytes.take (min bytes.length q.free) ∧
      (q.popTimes n).bytes = q.bytes.drop (min n q.length) := by
  intro run reference
  have same : run = (reference.1, reference.2.1.stage, reference.2.2) :=
    performAll_picture ByteQueue.perform_stage operations (ByteQueue.empty capacity) s
  have within : reference.2.1.bytes.length ≤ capacity := reference.2.1.within
  rw [same]
  refine ⟨rfl, rfl, rfl, rfl, within, Nat.sub_add_cancel within, fun operation failed => ?_,
    fun q bytes n => ⟨q.bytes_pushAll bytes, q.bytes_popTimes n⟩⟩
  rw [ByteQueue.perform_stage] at failed ⊢
  exact congrArg ByteQueue.stage (reference.2.1.perform_failed failed)

end

/-- A stage of four bytes in front of a channel that takes two and reports five: a byte too many is put, more is
claimed than was written, and the last write fails after it has written. -/
theorem stage_refines_queue_four :
    let world : List FaultyRecorder := [⟨.withLimit (some 2), ⟨false, false, 3⟩⟩]
    let fills (front : List UInt8) (outcome : Except Fault (Unit × Nat)) : Stage.Operation Nat Unit :=
      .writeInto fun window => ⟨overwrite window front, length_overwrite .., outcome⟩
    let operations := [.put [1, 2, 3, 4, 5], .flushTo 0, .put [6], fills [7] (.ok ((), 9))]
    let failing := fills [8, 8, 8] (.error (.encoding "fill failed"))
    let run := performAll Stage.perform (Stage.empty 4) world operations
    run.1 = [.taken 4, .flushed (.ok 5), .taken 1, .filled (.ok ())] ∧
    run.2.1.bytes = [6, 7, 0, 0] ∧ run.2.1.length ≤ 4 ∧
    (run.2.1.perform run.2.2 failing).1.failed = true ∧ (run.2.1.perform run.2.2 failing).2.1 = run.2.1 := by
  intro world fills operations failing run
  obtain ⟨answers, _, _, bytes, within, _, unchanged, _⟩ := stage_refines_queue 4 operations world
  exact ⟨answers.trans rfl, bytes.trans rfl, within, rfl, unchanged failing rfl⟩

end Sluice
