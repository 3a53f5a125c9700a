import Sluice.Proofs.Json.Skipping

/-! Values that are read: strings for the characters they mean, whole numbers that fit a word, and objects whose
members set fields of a record. -/
namespace Sluice.Json

variable {s t rest : List Char}

section Strings

/-- A string is read for the characters that it means, behind those that were read before. -/
theorem scanString_spelled (h : Spelled s t) (acc rest : List Char) :
    scanString true .plain acc (s ++ '"' :: rest) = .ok (acc.reverse ++ t, rest) := by
  induction h generalizing acc with
  | nil =>
    rw [List.append_nil]
    rfl
  | @plain c s t plain _ ih =>
    obtain ⟨visible, quote, backslash⟩ := plain
    rw [List.cons_append, scanString, if_neg quote, if_neg backslash, if_neg (Nat.not_lt.mpr visible), ih,
      List.reverse_cons, List.append_assoc]
    rfl
  | @short e c s t means _ ih =>
    have noUnit : e ≠ 'u' := by
      rintro rfl
      cases means
    rw [List.cons_append, List.cons_append, scanString, if_neg (by decide), if_pos rfl, scanString, if_neg noUnit,
      means]
    dsimp only
    rw [ih, List.reverse_cons, List.append_assoc]
    rfl
  | @unit u s t n unit whole _ ih =>
    have means : unitMeaning none n = .char (Char.ofNat n) := by
      simp only [unitMeaning]
      rw [if_neg (by omega), if_neg (by omega)]
    rw [List.cons_append, List.cons_append, List.append_assoc, scanString, if_neg (by decide), if_pos rfl, scanString,
      if_pos rfl, if_neg (unit_whole unit _), scanString_unit true none acc unit, if_pos rfl, means]
    dsimp only
    rw [ih, List.reverse_cons, List.append_assoc]
    rfl
  | @pair u v s t h l first second high low _ ih =>
    have half : unitMeaning none h = .half h := by
      simp only [unitMeaning]
      rw [if_neg (by omega), if_pos high]
    have means : unitMeaning (some h) l = .char (Char.ofNat ((h - 0xD800) * 1024 + (l - 0xDC00) + 0x10000)) := by
      simp only [unitMeaning]
      rw [if_pos low]
    rw [List.cons_append, List.cons_append, List.append_assoc, scanString, if_neg (by decide), if_pos rfl, scanString,
      if_pos rfl, if_neg (unit_whole first _), scanString_unit true none acc first, if_pos rfl, half]
    dsimp only
    rw [List.cons_append, List.cons_append, List.append_assoc, scanString, if_pos rfl, scanString, if_pos rfl,
      if_neg (unit_whole second _), scanString_unit true (some h) acc second, if_pos rfl, means]
    dsimp only
    rw [ih, List.reverse_cons, List.append_assoc]
    rfl

theorem readString_append (h : Spelled s t) (rest : List Char) : readString (s ++ '"' :: rest) = .ok (t, rest) :=
  scanString_spelled h [] rest

/-- Characters that may stand as they are mean themselves. -/
theorem spelled_append (plain : ArePlain s) {u : List Char} (h : Spelled t u) :
    Spelled (s ++ t) (s ++ u) := by
  induction s with
  | nil => exact h
  | cons c s ih =>
    obtain ⟨first, others⟩ := List.forall_mem_cons.mp plain
    exact .plain first (ih others)

theorem spelled_self (plain : ArePlain s) : Spelled s s := by
  have text := spelled_append plain .nil
  rwa [List.append_nil] at text

end Strings

/-- A reader that yields `a` from texts of some kind, whatever blanks are before them. -/
def Yields {α : Type} (read : Reader α) (Text : List Char → Prop) (a : α) : Prop :=
  ∀ blanks v rest, Blanks blanks → Text v → NumberEnds rest → read (blanks ++ (v ++ rest)) = .ok (a, rest)

section Words

/-- A whole number that fits a word, as it is written. -/
structure WordText (n : Nat) (s : List Char) : Prop where
  whole : WholePart s
  value : Nat.ofDigitChars 10 s 0 = n
  fits : n ≤ maxWord

private theorem le_ofDigitChars (ds : List Char) (n : Nat) : n ≤ Nat.ofDigitChars 10 ds n := by
  induction ds generalizing n with
  | nil => exact Nat.le_refl n
  | cons d ds ih =>
    rw [Nat.ofDigitChars_cons]
    exact Nat.le_trans (by omega) (ih _)

private theorem takeDigits_append {ds : List Char} (digits : AreDigits ds) (ends : ∀ c ∈ rest.head?, c.isDigit = false)
    (value taken : Nat) (fits : Nat.ofDigitChars 10 ds value ≤ maxWord) :
    takeDigits value taken (ds ++ rest) = ⟨Nat.ofDigitChars 10 ds value, taken + ds.length, false, rest⟩ := by
  induction ds generalizing value taken with
  | nil =>
    cases rest with
    | nil => rfl
    | cons c rest =>
      rw [List.nil_append, takeDigits, if_neg (Bool.eq_false_iff.mp (ends c rfl))]
      rfl
  | cons d ds ih =>
    obtain ⟨digit, more⟩ := List.forall_mem_cons.mp digits
    rw [Nat.ofDigitChars_cons] at fits
    have next : 10 * value + (d.toNat - '0'.toNat) = value * 10 + (d.toNat - 48) := by
      rw [Nat.mul_comm]
      rfl
    rw [next] at fits
    have small := Nat.le_trans (le_ofDigitChars ds _) fits
    rw [List.cons_append, takeDigits, if_pos digit, if_neg (Nat.not_lt.mpr small), ih more _ _ fits,
      Nat.ofDigitChars_cons, next, List.length_cons]
    congr 1
    omega

private theorem afterWhole_ends (value : Nat) (ends : NumberEnds rest) :
    afterWhole true value rest = .ok (.whole value, rest) := by
  unfold afterWhole
  split
  · exact absurd rfl (ends _ rfl).2.1
  · exact absurd rfl (ends _ rfl).2.2.1
  · exact absurd rfl (ends _ rfl).2.2.2
  · rfl

private theorem readNumber_append {n : Nat} (h : WordText n s) (ends : NumberEnds rest) :
    readNumber true (s ++ rest) = .ok (.whole n, rest) := by
  obtain ⟨whole, rfl, fits⟩ := h
  have behind := fun value => afterWhole_ends value ends
  cases whole with
  | zero =>
    cases rest with
    | nil => rfl
    | cons c rest =>
      rw [List.singleton_append, readNumber.eq_def]
      dsimp only
      rw [if_pos rfl, if_neg (Bool.eq_false_iff.mp (ends c rfl).1)]
      exact behind 0
  | @digits d ds digit nonzero more =>
    have taken := takeDigits_append (List.forall_mem_cons.mpr ⟨digit, more⟩) (fun c first => (ends c first).1) 0 0 fits
    rw [List.cons_append] at taken ⊢
    rw [readNumber.eq_def]
    dsimp only
    rw [if_neg nonzero, if_pos digit, taken]
    exact behind _

theorem readWord_yields (n : Nat) : Yields readWord (WordText n) n := by
  intro blanks s rest before word ends
  have read := readNumber_append word ends
  obtain ⟨d, ds, rfl, digit⟩ := word.whole.head
  rw [List.cons_append] at read ⊢
  rw [readWord, skipBlanks_append before, skipBlanks_cons (isBlank_of_isDigit digit)]
  dsimp only
  rw [if_pos digit, read]

private theorem toDigits_head {n : Nat} (positive : n ≠ 0) : ∃ d ds, Nat.toDigits 10 n = d :: ds ∧ d ≠ '0' := by
  induction n using Nat.strongRecOn with
  | ind n ih =>
    by_cases small : n < 10
    · exact ⟨n.digitChar, [], Nat.toDigits_of_lt_base small, mt Nat.digitChar_eq_zero.mp positive⟩
    · obtain ⟨d, ds, before, nonzero⟩ := ih (n / 10) (by omega) (by omega)
      refine ⟨d, ds ++ [(n % 10).digitChar], ?_, nonzero⟩
      rw [Nat.toDigits_of_base_le (by decide) (Nat.le_of_not_lt small), before, List.cons_append]

theorem wordText_toString {n : Nat} (fits : n ≤ maxWord) : WordText n (toString n).toList := by
  have written : (toString n).toList = Nat.toDigits 10 n := by
    rw [Nat.toString_eq_ofList_toDigits, String.toList_ofList]
  rw [written]
  refine ⟨?_, Nat.ofDigitChars_ten_toDigits, fits⟩
  have digits : ∀ c ∈ Nat.toDigits 10 n, c.isDigit = true :=
    fun c member => Nat.isDigit_of_mem_toDigits (by decide) (by decide) member
  by_cases positive : n = 0
  · rw [positive]
    exact .zero
  · obtain ⟨d, ds, whole, nonzero⟩ := toDigits_head positive
    rw [whole] at digits ⊢
    obtain ⟨digit, more⟩ := List.forall_mem_cons.mp digits
    exact .digits digit nonzero more

/-- Either `null` or such a number. -/
inductive NullableText : Option Nat → List Char → Prop
  | null : NullableText none "null".toList
  | word {n : Nat} {s : List Char} (word : WordText n s) : NullableText (some n) s

theorem readWord?_yields (n : Option Nat) : Yields readWord? (NullableText n) n := by
  intro blanks s rest before value ends
  cases value with
  | null =>
    rw [readWord?, skipBlanks_append before]
    rfl
  | word word =>
    have read := readWord_yields _ [] _ rest nofun word ends
    obtain ⟨d, ds, rfl, digit⟩ := word.whole.head
    rw [List.nil_append, List.cons_append] at read
    rw [List.cons_append, readWord?, skipBlanks_append before, skipBlanks_cons (isBlank_of_isDigit digit)]
    split
    next first =>
      obtain ⟨rfl, _⟩ := List.cons.inj first
      cases digit
    · rw [read]
      rfl

theorem nullableText_elim {n : Option Nat} (fits : ∀ m ∈ n, m ≤ maxWord) :
    NullableText n (n.elim "null" toString).toList := by
  cases n with
  | none => exact .null
  | some n => exact .word (wordText_toString (fits n rfl))

end Words

end Sluice.Json
