import Mathlib
import Sluice.Text.Blank

/-! Texts that are trimmed, lowered and cut. What a text has lost by trimming or lowering it does not lose a
second time, the two do not interfere, and what is cut at a character was put together with it. -/
namespace Sluice.Text

variable {p : Char → Bool} {sep : Char} {s t : List Char}

private theorem trimBy_eq_rdropWhile (p : Char → Bool) (s : List Char) :
    trimBy p s = (s.dropWhile p).rdropWhile p := rfl

theorem mem_of_mem_trimBy {c : Char} (h : c ∈ trimBy p s) : c ∈ s := by
  rw [trimBy_eq_rdropWhile] at h
  exact (List.dropWhile_suffix p).subset ((List.rdropWhile_prefix p _).subset h)

theorem mem_trimBy {c : Char} (kept : p c = false) : c ∈ trimBy p s ↔ c ∈ s := by
  have stays : ∀ t : List Char, c ∈ t → c ∈ t.dropWhile p := by
    intro t h
    rw [← List.takeWhile_append_dropWhile (p := p) (l := t), List.mem_append] at h
    rcases h with dropped | rest
    · rw [List.mem_takeWhile_imp dropped] at kept
      cases kept
    · exact rest
  refine ⟨mem_of_mem_trimBy, fun h => ?_⟩
  rw [trimBy, List.mem_reverse]
  exact stays _ (List.mem_reverse.mpr (stays s h))

theorem trimBy_eq_self (first : ∀ c ∈ s.head?, p c = false) (last : ∀ c ∈ s.getLast?, p c = false) :
    trimBy p s = s := by
  have front : s.dropWhile p = s := by
    cases s with
    | nil => rfl
    | cons c s => exact List.dropWhile_cons_of_neg (Bool.eq_false_iff.mp (first c rfl))
  rw [trimBy_eq_rdropWhile, front, List.rdropWhile_eq_self_iff]
  intro some
  exact Bool.eq_false_iff.mp (last _ (List.getLast_mem_getLast? some))

@[simp] theorem trimBy_trimBy (p : Char → Bool) (s : List Char) : trimBy p (trimBy p s) = trimBy p s := by
  simp only [trimBy_eq_rdropWhile]
  have front : ((s.dropWhile p).rdropWhile p).dropWhile p = (s.dropWhile p).rdropWhile p := by
    rcases kept : (s.dropWhile p).rdropWhile p with - | ⟨c, rest⟩
    · rfl
    · obtain ⟨more, whole⟩ := List.rdropWhile_prefix p (s.dropWhile p)
      have first := List.head?_dropWhile_not p s
      rw [← whole, kept] at first
      exact List.dropWhile_cons_of_neg (Bool.eq_false_iff.mp first)
  rw [front, List.rdropWhile_idempotent]

@[simp] theorem trim_trim (s : List Char) : trim (trim s) = trim s := trimBy_trimBy isBlank s

theorem trimBy_append_left (blank : ∀ c ∈ s, p c = true) (t : List Char) : trimBy p (s ++ t) = trimBy p t := by
  rw [trimBy_eq_rdropWhile, trimBy_eq_rdropWhile, List.dropWhile_append_of_pos blank]

theorem trimBy_append_right (blank : ∀ c ∈ t, p c = true) (s : List Char) : trimBy p (s ++ t) = trimBy p s := by
  have behind : ∀ s : List Char, (s ++ t).rdropWhile p = s.rdropWhile p := by
    intro s
    rw [List.rdropWhile, List.reverse_append, List.dropWhile_append_of_pos (by simpa using blank), List.rdropWhile]
  rw [trimBy_eq_rdropWhile, trimBy_eq_rdropWhile, List.dropWhile_append]
  split
  next nothing =>
    rw [List.isEmpty_iff.mp nothing, List.dropWhile_eq_nil_iff.mpr blank]
  · exact behind _

private theorem dropWhile_lower (same : ∀ c, p c.toLower = p c) (s : List Char) :
    (lower s).dropWhile p = lower (s.dropWhile p) := by
  simp only [lower, List.dropWhile_map]
  congr 2
  exact funext same

private theorem trimBy_lower (same : ∀ c, p c.toLower = p c) (s : List Char) :
    trimBy p (lower s) = lower (trimBy p s) := by
  have back : ∀ t : List Char, (lower t).reverse = lower t.reverse := fun t => List.map_reverse.symm
  rw [trimBy, dropWhile_lower same, back, dropWhile_lower same, back, trimBy]

private theorem toLower_cases (c : Char) :
    c.toLower = c ∨ 65 ≤ c.toNat ∧ c.toNat ≤ 90 ∧ c.toLower.toNat = c.toNat + 32 := by
  unfold Char.toLower
  split
  next capital =>
    have above : 65 ≤ c.val.toNat := capital.1
    have below : c.val.toNat ≤ 90 := capital.2
    refine .inr ⟨above, below, ?_⟩
    change (c.val + 32).toNat = c.val.toNat + 32
    rw [UInt32.toNat_add]
    change (c.val.toNat + 32) % 2 ^ 32 = c.val.toNat + 32
    omega
  · exact .inl rfl

@[simp] theorem lower_lower (s : List Char) : lower (lower s) = lower s := by
  simp [lower]

private theorem isBlank_toLower (c : Char) : isBlank c.toLower = isBlank c := by
  rcases toLower_cases c with same | ⟨above, below, lowered⟩
  · rw [same]
  · simp only [isBlank, lowered]
    grind

@[simp] theorem trim_lower (s : List Char) : trim (lower s) = lower (trim s) := trimBy_lower isBlank_toLower s

/-- A character that is no letter is in a lowered text only if it was there before. -/
theorem mem_lower {c : Char} (noCapital : c.toNat < 65 ∨ 90 < c.toNat) (noSmall : c.toNat < 97 ∨ 122 < c.toNat) :
    c ∈ lower s ↔ c ∈ s := by
  have same : ∀ d : Char, d.toLower = c ↔ d = c := by
    intro d
    rcases toLower_cases d with same | ⟨above, below, lowered⟩
    · rw [same]
    · constructor
      · rintro rfl
        omega
      · rintro rfl
        omega
  simp [lower, same]

theorem pieces_of_not_mem (whole : sep ∉ s) : pieces sep s = [s] := by
  induction s with
  | nil => rfl
  | cons c s ih =>
    obtain ⟨other, rest⟩ := List.ne_and_not_mem_of_not_mem_cons whole
    rw [pieces, if_neg (Ne.symm other), ih rest]

theorem pieces_ne_nil (sep : Char) (s : List Char) : pieces sep s ≠ [] := by
  cases s with
  | nil => exact List.cons_ne_nil _ _
  | cons c s =>
    rw [pieces]
    split
    · exact List.cons_ne_nil _ _
    · split
      · exact List.cons_ne_nil _ _
      · exact List.cons_ne_nil _ _

theorem pieces_append (sep : Char) (s t : List Char) :
    pieces sep (s ++ sep :: t) = pieces sep s ++ pieces sep t := by
  induction s with
  | nil => simp [pieces]
  | cons c s ih =>
    rw [List.cons_append, pieces, pieces, ih]
    split
    · rfl
    · rcases cut : pieces sep s with - | ⟨first, rest⟩
      · exact absurd cut (pieces_ne_nil sep s)
      · rfl

/-- What holds no separator goes to the first piece of what follows it. -/
theorem pieces_append_left {first : List Char} {rest : List (List Char)} (whole : sep ∉ s)
    (cut : pieces sep t = first :: rest) : pieces sep (s ++ t) = (s ++ first) :: rest := by
  induction s with
  | nil => exact cut
  | cons c s ih =>
    obtain ⟨other, behind⟩ := List.ne_and_not_mem_of_not_mem_cons whole
    rw [List.cons_append, pieces, if_neg (Ne.symm other), ih behind]
    rfl

/-- The pieces of a text hold no separator. -/
theorem not_mem_of_mem_pieces {piece : List Char} (h : piece ∈ pieces sep s) : sep ∉ piece := by
  induction s generalizing piece with
  | nil =>
    obtain rfl := List.mem_singleton.mp h
    exact List.not_mem_nil
  | cons c s ih =>
    rw [pieces] at h
    split at h
    · rcases List.mem_cons.mp h with rfl | later
      · exact List.not_mem_nil
      · exact ih later
    next other =>
      split at h
      · obtain rfl := List.mem_singleton.mp h
        exact fun inside => other (List.mem_singleton.mp inside).symm
      next first rest cut =>
        rcases List.mem_cons.mp h with rfl | later
        · exact List.not_mem_cons_of_ne_of_not_mem (Ne.symm other) (ih (cut ▸ List.mem_cons_self))
        · exact ih (cut ▸ List.mem_cons_of_mem _ later)

theorem cut?_append (whole : sep ∉ s) (t : List Char) : cut? sep (s ++ sep :: t) = some (s, t) := by
  induction s with
  | nil => simp [cut?]
  | cons c s ih =>
    obtain ⟨other, rest⟩ := List.ne_and_not_mem_of_not_mem_cons whole
    rw [List.cons_append, cut?, if_neg (Ne.symm other), ih rest]
    rfl

end Sluice.Text
