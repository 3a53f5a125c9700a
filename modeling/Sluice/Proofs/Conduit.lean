import Sluice.Conduit
import Sluice.Proofs.Chronicle

/-! What the operations of a conduit do to its bytes. -/
namespace Sluice

theorem ok_of_map {ε α β : Type} {f : α → β} {result : Except ε α} {b : β} (h : result.map f = .ok b) :
    ∃ a, result = .ok a ∧ b = f a := by
  cases result with
  | error fault => cases h
  | ok a => exact ⟨a, rfl, (Except.ok.inj h).symm⟩

theorem error_of_map {ε α β : Type} {f : α → β} {result : Except ε α} {fault : ε}
    (h : result.map f = .error fault) : result = .error fault := by
  cases result with
  | error fault => exact congrArg Except.error (Except.error.inj h)
  | ok a => cases h

namespace Conduit

/-- A new conduit has the size it was asked for, and nothing in it. -/
theorem ofSettings_ok {settings : BufferSettings} {c : Conduit} (valid : ofSettings settings = .ok c) :
    c = ⟨settings.bufferSize, settings.waitMillis, [], false, false, 0⟩ := by
  obtain ⟨_, _, rfl⟩ := ok_of_map valid
  rfl

/-- Bytes that fit go to the back of a conduit. -/
theorem put_spec (c : Conduit) (bytes : List UInt8) :
    (c.put bytes).1 ≤ bytes.length ∧
    (c.put bytes).2 = { c with bytes := c.bytes ++ takenOf bytes (.ok (c.put bytes).1) } ∧
    (c.length ≤ c.capacity → (c.put bytes).2.length ≤ c.capacity) := by
  refine ⟨Nat.min_le_right _ _, rfl, ?_⟩
  intro within
  simp only [put, length, free, List.length_append, List.length_take] at within ⊢
  omega

/-- The bytes at the front of a conduit that are not there any more. -/
def removed (before after : Conduit) : List UInt8 := before.bytes.take (before.length - after.length)

theorem removed_drop (c : Conduit) (n : Nat) : removed c (c.drop n) = c.bytes.take n := by
  simp only [removed, drop, length, List.length_drop]
  rcases Nat.le_total n c.bytes.length with h | h
  · rw [Nat.sub_sub_self h]
  · rw [Nat.sub_eq_zero_of_le h, Nat.sub_zero, List.take_length, List.take_of_length_le h]

@[simp] theorem removed_self (c : Conduit) : removed c c = [] := by simp [removed]

/-- The bytes at the back of a conduit that were not there before. -/
def added (before after : Conduit) : List UInt8 := after.bytes.drop before.length

theorem added_append (c : Conduit) (piece : List UInt8) :
    added c { c with bytes := c.bytes ++ piece } = piece :=
  List.drop_left

theorem added_same {c c' : Conduit} (same : c'.bytes = c.bytes) : added c c' = [] := by
  rw [added, same]
  exact List.drop_length

end Conduit
end Sluice
