import Sluice.Proofs.Charset.Reference

/-! Texts that can go through a window of limited size, character by character, and where an encoder comes
to a halt with another one. -/
namespace Sluice

namespace Text

theorem utf8Length_append (front rest : List Char) :
    utf8Length (front ++ rest) = utf8Length front + utf8Length rest := by
  induction front with
  | nil => simp [utf8Length]
  | cons c front ih =>
    simp only [List.cons_append, utf8Length, ih]
    omega

theorem dropUtf8_append (front rest : List Char) : dropUtf8 (utf8Length front) (front ++ rest) = rest := by
  induction front with
  | nil =>
    rw [utf8Length, List.nil_append]
    exact dropUtf8.eq_1 rest
  | cons c front ih =>
    have positive := c.utf8Size_pos
    obtain ⟨n, length⟩ : ∃ n, c.utf8Size + utf8Length front = n + 1 :=
      ⟨c.utf8Size + utf8Length front - 1, by omega⟩
    rw [utf8Length, length, List.cons_append, dropUtf8, ← length, Nat.add_sub_cancel_left]
    exact ih

end Text

namespace Charset

/-- The bytes that a character takes behind a text: those of its own, and two for the mark where UTF-16 of
unstated byte order begins. -/
def need (charset : Charset) (before : List Char) (c : Char) : Nat :=
  (if charset = .utf16 ∧ before = [] then 2 else 0) + ((charset.unmarked [c]).getD []).length

/-- Whether there is room for each character of a text in a window of the given size. -/
def Fits (charset : Charset) (size : Nat) (text : List Char) : Prop :=
  ∀ before c after, text = before ++ c :: after → charset.need before c ≤ size

variable {charset : Charset} {size : Nat}

theorem fits_nil : charset.Fits size [] := by
  intro before c after h
  exact absurd h (by simp)

/-- A text fits if its front does, and what follows behind that. -/
theorem Fits.append {first second : List Char} (fits : charset.Fits size first)
    (more : ∀ before c after, second = before ++ c :: after → charset.need (first ++ before) c ≤ size) :
    charset.Fits size (first ++ second) := by
  intro before c after h
  rcases List.append_eq_append_iff.mp h with ⟨behind, rfl, later⟩ | ⟨rest, early, here⟩
  · exact more behind c after later
  · cases rest with
    | nil =>
      rw [List.append_nil] at early
      have fresh := more [] c after here.symm
      rw [List.append_nil, early] at fresh
      exact fresh
    | cons d rest =>
      obtain ⟨rfl, _⟩ := List.cons.inj here
      exact fits before c rest early

/-- A front that fits ends where a character does not fit, if not before. -/
theorem Fits.stops {before after : List Char} {c : Char} (tight : size < charset.need before c)
    {front : List Char} (fits : charset.Fits size front) (atFront : front <+: before ++ c :: after) :
    front <+: before := by
  rcases List.prefix_or_prefix_of_prefix atFront (List.prefix_append before (c :: after)) with early | late
  · exact early
  · obtain ⟨more, rfl⟩ := late
    have behind : more <+: c :: after := (List.prefix_append_right_inj before).mp atFront
    cases more with
    | nil => exact (List.append_nil before).symm ▸ List.prefix_rfl
    | cons d more =>
      obtain ⟨rfl, _⟩ := List.cons_prefix_cons.mp behind
      exact absurd (fits before d more rfl) (Nat.not_le_of_lt tight)

private theorem Fits.concat {front : List Char} {c : Char} (fits : charset.Fits size front)
    (room : charset.need front c ≤ size) : charset.Fits size (front ++ [c]) := by
  refine fits.append fun before d after h => ?_
  cases before with
  | nil =>
    obtain ⟨rfl, _⟩ := List.cons.inj h
    rw [List.append_nil]
    exact room
  | cons e before => exact absurd (List.cons.inj h).2 (by simp)

/-- A text fits behind a front that does, or it has a first character that does not fit there. -/
theorem Fits.or_stops {front : List Char} (fits : charset.Fits size front) (rest : List Char) :
    charset.Fits size (front ++ rest) ∨ ∃ before c after, front ++ rest = before ++ c :: after ∧
      charset.Fits size before ∧ size < charset.need before c := by
  induction rest generalizing front with
  | nil =>
    rw [List.append_nil]
    exact .inl fits
  | cons c rest ih =>
    rcases Nat.lt_or_ge size (charset.need front c) with tight | room
    · exact .inr ⟨front, c, rest, rfl, fits, tight⟩
    · rw [List.append_cons]
      exact ih (fits.concat room)

theorem exists_stop {text : List Char} (tight : ¬ charset.Fits size text) :
    ∃ before c after, text = before ++ c :: after ∧ charset.Fits size before ∧ size < charset.need before c := by
  rcases fits_nil.or_stops text with fits | stop
  · exact absurd fits tight
  · exact stop

/-- The parts of a text have bytes if all of it has. -/
theorem unmarked_parts (builtIn : ∀ e, charset ≠ .web e) {first second : List Char} {bytes : List UInt8}
    (whole : charset.unmarked (first ++ second) = some bytes) :
    ∃ xs ys, charset.unmarked first = some xs ∧ charset.unmarked second = some ys := by
  induction first generalizing bytes with
  | nil => exact ⟨[], bytes, unmarked_nil builtIn, whole⟩
  | cons c first ih =>
    rw [List.cons_append, unmarked_cons] at whole
    split at whole
    · cases whole
    next own spelled =>
      obtain ⟨more, mappable, _⟩ := Option.map_eq_some_iff.mp whole
      obtain ⟨xs, ys, here, there⟩ := ih mappable
      refine ⟨own ++ xs, ys, ?_, there⟩
      rw [unmarked_cons, spelled, here]
      rfl

/-- The encoding of a text begins with that of its front. -/
theorem reference_front (builtIn : ∀ e, charset ≠ .web e) {first second : List Char} {bytes : List UInt8}
    (whole : charset.reference (first ++ second) = some bytes) :
    ∃ xs, charset.reference first = some xs ∧ xs <+: bytes := by
  have mappable := whole
  rw [reference_eq] at mappable
  obtain ⟨_, spelled, _⟩ := Option.map_eq_some_iff.mp mappable
  obtain ⟨xs, ys, here, there⟩ := unmarked_parts builtIn spelled
  have front : charset.reference first = some (markOf (charset = .utf16) first ++ xs) := by
    rw [reference_eq, here]
    rfl
  have behind : (charset.unmarked second).map (markOf (charset = .utf16 && first.isEmpty) second ++ ·) =
      some (markOf (charset = .utf16 && first.isEmpty) second ++ ys) := by
    rw [there]
    rfl
  refine ⟨_, front, ?_⟩
  obtain rfl := Option.some.inj ((reference_append builtIn front behind).symm.trans whole)
  exact List.prefix_append _ _

end Charset

namespace BuiltInEncoder

open Charset

variable {charset : Charset}

/-- The bytes of a character with the mark, if that is owed, are what it needs. -/
theorem need_eq (builtIn : ∀ e, charset ≠ .web e) {c : Char} {own : List UInt8} (spelled : charset.bytes c = .ok own)
    (before : List Char) :
    charset.need before c = (markOf (charset = .utf16 && before.isEmpty) [c] ++ own).length := by
  have alone : charset.unmarked [c] = some own := by
    rw [unmarked_cons, spelled, unmarked_nil builtIn]
    simp
  have mark : (markOf (charset = .utf16 && before.isEmpty) [c]).length =
      if charset = .utf16 ∧ before = [] then 2 else 0 := by
    simp only [markOf, Bool.and_eq_true, decide_eq_true_eq, List.isEmpty_iff, ne_eq,
      List.cons_ne_nil, not_false_eq_true,
      and_true]
    split <;> rfl
  rw [List.length_append, mark, need, alone, Option.getD_some]

private theorem need_le (builtIn : ∀ e, charset ≠ .web e) (done : List Char) {front own : _}
    (spelled : charset.unmarked front = some own) {before after : List Char} {c : Char}
    (here : front = before ++ c :: after) :
    charset.need (done ++ before) c ≤ (markOf (charset = .utf16 && done.isEmpty) front ++ own).length := by
  subst here
  obtain ⟨xs, ys, early, late⟩ := unmarked_parts builtIn spelled
  obtain rfl := Option.some.inj ((unmarked_append builtIn early late).symm.trans spelled)
  rw [unmarked_cons] at late
  split at late
  · cases late
  next single letter =>
    obtain ⟨more, _, rfl⟩ := Option.map_eq_some_iff.mp late
    -- the mark stands in front of this character only if it does in front of the whole
    have mark : (markOf (charset = .utf16 && done.isEmpty) (before ++ c :: after)).length =
        (markOf (charset = .utf16 && done.isEmpty) before).length +
          (markOf (charset = .utf16 && (done ++ before).isEmpty) [c]).length := by
      rw [markOf_append, List.length_append, Text.isEmpty_append, ← Bool.and_assoc]
      simp [markOf]
    rw [need_eq builtIn letter]
    simp only [List.length_append] at mark ⊢
    omega

/-- How an encoder gets through a text that has bytes. It reads characters that fit into its window, and it
stops at the end of the text or in front of one that does not fit behind what it wrote. -/
theorem encodeChars_stops (builtIn : ∀ e, charset ≠ .web e) (done : List Char) (room : Nat) {text : List Char}
    {bytes : List UInt8} (mappable : charset.unmarked text = some bytes) :
    ∃ e front rest, (encodeChars charset (charset = .utf16 && done.isEmpty) room text).1 = .ok e ∧
      text = front ++ rest ∧ e.read = Text.utf8Length front ∧
      (∀ before c after, front = before ++ c :: after → charset.need (done ++ before) c ≤ room) ∧
      (e.stop = .inputUsed ∧ rest = [] ∨ e.stop = .outputFull ∧ ∃ c after, rest = c :: after ∧
        room < e.bytes.length + charset.need (done ++ front) c) := by
  obtain ⟨front, rest, own, rfl, spelled, within, halts, _⟩ :=
    encodeChars_proceeds builtIn (charset = .utf16 && done.isEmpty) room text
  have fits : ∀ before c after, front = before ++ c :: after → charset.need (done ++ before) c ≤ room :=
    fun before c after here => Nat.le_trans (need_le builtIn done spelled here) within
  generalize encodeChars charset (charset = .utf16 && done.isEmpty) room (front ++ rest) = outcome at halts
  obtain ⟨result, owed⟩ := outcome
  cases halts with
  | used => exact ⟨_, front, [], rfl, rfl, rfl, fits, .inl ⟨rfl, rfl⟩⟩
  | @full c after single letter tight =>
    refine ⟨_, front, c :: after, rfl, rfl, rfl, fits, .inr ⟨rfl, c, after, rfl, ?_⟩⟩
    rw [need_eq builtIn letter, Text.isEmpty_append, ← Bool.and_assoc]
    exact tight
  | @unmappable c after fault silent =>
    obtain ⟨_, _, _, late⟩ := unmarked_parts builtIn mappable
    simp [unmarked_cons, silent] at late

/-- An encoder gets through a text at once if its window has room for all that the text adds to the encoding of what
came before. -/
theorem encodeChars_roomy (builtIn : ∀ e, charset ≠ .web e) {done text : List Char} {held bytes : List UInt8}
    {room : Nat} (before : charset.reference done = some held) (whole : charset.reference (done ++ text) = some bytes)
    (roomy : bytes.length ≤ held.length + room) :
    ∃ own, bytes = held ++ own ∧ encodeChars charset (charset = .utf16 && done.isEmpty) room text =
      (.ok ⟨.inputUsed, Text.utf8Length text, own⟩, charset = .utf16 && (done ++ text).isEmpty) := by
  obtain ⟨front, rest, own, rfl, spelled, _, halts, owes⟩ :=
    encodeChars_proceeds builtIn (charset = .utf16 && done.isEmpty) room text
  have more : (charset.unmarked front).map (markOf (charset = .utf16 && done.isEmpty) front ++ ·) =
      some (markOf (charset = .utf16 && done.isEmpty) front ++ own) := by
    rw [spelled]
    rfl
  have behind := reference_append builtIn before more
  have owing : (charset = .utf16 && done.isEmpty && front.isEmpty) = (charset = .utf16 && (done ++ front).isEmpty) := by
    rw [Text.isEmpty_append, Bool.and_assoc]
  rw [owing] at owes
  generalize encodeChars charset (charset = .utf16 && done.isEmpty) room (front ++ rest) = outcome at halts owes ⊢
  obtain ⟨result, owed⟩ := outcome
  cases halts with
  | used =>
    rw [List.append_nil] at whole ⊢
    exact ⟨_, Option.some.inj (whole.symm.trans behind), Prod.ext rfl owes⟩
  | @full c after single letter tight =>
    -- the character would fit, since its bytes are part of the whole
    rw [owing] at tight
    have alone : charset.unmarked [c] = some single := by
      rw [unmarked_cons, letter, unmarked_nil builtIn]
      simp
    have next := reference_append builtIn behind (by rw [alone]; rfl)
    rw [List.append_cons, ← List.append_assoc, ← List.append_assoc] at whole
    obtain ⟨xs, here, atFront⟩ := reference_front builtIn whole
    obtain rfl := Option.some.inj (next.symm.trans here)
    have less := atFront.length_le
    simp only [List.length_append] at less tight roomy
    omega
  | @unmappable c after fault silent =>
    rw [reference_eq] at whole
    obtain ⟨_, mappable, _⟩ := Option.map_eq_some_iff.mp whole
    obtain ⟨_, _, _, chunk⟩ := unmarked_parts builtIn mappable
    obtain ⟨_, _, _, late⟩ := unmarked_parts builtIn chunk
    simp [unmarked_cons, silent] at late

end BuiltInEncoder
end Sluice
