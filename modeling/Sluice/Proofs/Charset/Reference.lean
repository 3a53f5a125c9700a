import Sluice.Charset.Web
import Sluice.Proofs.Conduit

/-! The encoding of a whole text by the definition of its charset, and what an encoder that works
window by window makes of it. -/
namespace Sluice

namespace Text

/-- The characters at the front of a text that lie within its first `n` bytes of UTF-8. -/
def takeUtf8 : Nat → List Char → List Char
  | _, [] => []
  | n, c :: cs => if c.utf8Size ≤ n then c :: takeUtf8 (n - c.utf8Size) cs else []

/-- No character of a text lies across the end of its first `n` bytes of UTF-8. -/
def Boundary (text : List Char) (n : Nat) : Prop := ∃ front, front <+: text ∧ utf8Length front = n

theorem takeUtf8_append (front rest : List Char) : takeUtf8 (utf8Length front) (front ++ rest) = front := by
  induction front with
  | nil =>
    cases rest with
    | nil => rfl
    | cons c rest =>
      have some : ¬ c.utf8Size ≤ 0 := Nat.not_le_of_lt c.utf8Size_pos
      simp [utf8Length, takeUtf8, some]
  | cons c front ih =>
    have fits : c.utf8Size ≤ c.utf8Size + utf8Length front := Nat.le_add_right _ _
    simp [utf8Length, takeUtf8, fits, ih]

theorem isEmpty_append (first second : List Char) :
    (first ++ second).isEmpty = (first.isEmpty && second.isEmpty) := by
  cases first with
  | nil => rfl
  | cons c first => rfl

end Text

namespace Charset

/-- One byte for each character, as long as all of them are below a limit. -/
def oneByte (limit : Nat) (text : List Char) : Option (List UInt8) :=
  if text.all (·.toNat < limit) then some (text.map fun c => UInt8.ofNat c.toNat) else none

/-- The code units of UTF-16. A character outside the basic plane takes two of them, which carry the
upper and the lower ten bits of its distance to that plane. -/
def codeUnits (text : List Char) : List Nat :=
  text.flatMap fun c =>
    if c.toNat < 0x10000 then [c.toNat]
    else [0xD800 ||| ((c.toNat - 0x10000) >>> 10), 0xDC00 ||| ((c.toNat - 0x10000) &&& 0x3FF)]

/-- The bytes of a text without any mark, if a built-in charset has bytes for all of its characters. -/
def unmarked (charset : Charset) (text : List Char) : Option (List UInt8) :=
  match charset with
  | usAscii => oneByte 0x80 text
  | latin1 => oneByte 0x100 text
  | utf8 => some (String.ofList text).toUTF8.data.toList
  | utf16be | utf16 =>
    some ((codeUnits text).flatMap fun unit => [UInt8.ofNat (unit >>> 8), UInt8.ofNat (unit &&& 0xFF)])
  | utf16le =>
    some ((codeUnits text).flatMap fun unit => [UInt8.ofNat (unit &&& 0xFF), UInt8.ofNat (unit >>> 8)])
  | web _ => none

/-- The reference encoding of a text. UTF-16 of unstated byte order is big-endian and has a byte order
mark in front, unless the text is empty. -/
def reference (charset : Charset) (text : List Char) : Option (List UInt8) :=
  if charset = .utf16 ∧ text ≠ [] then (charset.unmarked text).map ([0xFE, 0xFF] ++ ·)
  else charset.unmarked text

private theorem oneByte_cons (limit : Nat) (c : Char) (text : List Char) :
    oneByte limit (c :: text) =
      if c.toNat < limit then (oneByte limit text).map ([UInt8.ofNat c.toNat] ++ ·) else none := by
  by_cases first : c.toNat < limit
  · simp only [oneByte, List.all_cons, first, decide_true, Bool.true_and]
    split <;> rfl
  · simp [oneByte, first]

/-- The bits of a code unit are what its sums and quotients say. -/
theorem codeUnits_cons (c : Char) (text : List Char) :
    codeUnits (c :: text) = utf16Units c ++ codeUnits text := by
  have upper : ∀ v, v < 2 ^ 20 → 0xD800 ||| (v >>> 10) = 0xD800 + v / 1024 := by
    intro v small
    have quotient : v / 2 ^ 10 < 2 ^ 10 := by omega
    rw [Nat.shiftRight_eq_div_pow]
    exact (Nat.two_pow_add_eq_or_of_lt quotient 54).symm
  have lower : ∀ v, 0xDC00 ||| (v &&& 0x3FF) = 0xDC00 + v % 1024 := by
    intro v
    rw [show v &&& 0x3FF = v % 2 ^ 10 from Nat.and_two_pow_sub_one_eq_mod v 10]
    exact (Nat.two_pow_add_eq_or_of_lt (Nat.mod_lt v (Nat.two_pow_pos 10)) 55).symm
  have range : c.toNat < 0x110000 := by
    have valid := c.valid
    simp only [UInt32.isValidChar, Nat.isValidChar] at valid
    change c.val.toNat < _
    omega
  simp only [codeUnits, List.flatMap_cons, utf16Units]
  split
  · rfl
  · rw [upper _ (by omega), lower]

theorem bits_eq_div (unit : Nat) : unit >>> 8 = unit / 256 ∧ unit &&& 0xFF = unit % 256 :=
  ⟨Nat.shiftRight_eq_div_pow unit 8, Nat.and_two_pow_sub_one_eq_mod unit 8⟩

theorem encoder_builtIn {charset : Charset} (builtIn : ∀ e, charset ≠ .web e) :
    charset.encoder = .builtIn (.ofCharset charset) := by
  cases charset with
  | web e => exact absurd rfl (builtIn e)
  | _ => rfl

theorem unmarked_nil {charset : Charset} (builtIn : ∀ e, charset ≠ .web e) :
    charset.unmarked [] = some [] := by
  cases charset with
  | web e => exact absurd rfl (builtIn e)
  | _ => simp [unmarked, oneByte, codeUnits]

/-- A text is encoded character by character. -/
theorem unmarked_cons (charset : Charset) (c : Char) (text : List Char) :
    charset.unmarked (c :: text) =
      match charset.bytes c with
      | .error _ => none
      | .ok bytes => (charset.unmarked text).map (bytes ++ ·) := by
  cases charset with
  | usAscii =>
    simp only [unmarked, bytes, oneByte_cons]
    split <;> rfl
  | latin1 =>
    simp only [unmarked, bytes, oneByte_cons]
    split <;> rfl
  | utf8 => simp [unmarked, bytes, List.utf8Encode]
  | utf16be =>
    simp only [unmarked, bytes, codeUnits_cons, List.flatMap_append, bits_eq_div, Option.map_some]
    rfl
  | utf16 =>
    simp only [unmarked, bytes, codeUnits_cons, List.flatMap_append, bits_eq_div, Option.map_some]
    rfl
  | utf16le =>
    simp only [unmarked, bytes, codeUnits_cons, List.flatMap_append, bits_eq_div, Option.map_some]
    rfl
  | web e => rfl

/-- A character without bytes in a built-in charset is named by the fault. -/
theorem bytes_error {charset : Charset} (builtIn : ∀ e, charset ≠ .web e) {c : Char} {fault : Fault}
    (silent : charset.bytes c = .error fault) : fault = .unmappable c charset.name := by
  cases charset with
  | web e => exact absurd rfl (builtIn e)
  | usAscii =>
    simp only [bytes] at silent
    split at silent
    · cases silent
    · exact (Except.error.inj silent).symm
  | latin1 =>
    simp only [bytes] at silent
    split at silent
    · cases silent
    · exact (Except.error.inj silent).symm
  | utf8 => cases silent
  | utf16be => cases silent
  | utf16le => cases silent
  | utf16 => cases silent

theorem unmarked_append {charset : Charset} (builtIn : ∀ e, charset ≠ .web e) {first second : List Char}
    {xs ys : List UInt8} (spelled : charset.unmarked first = some xs)
    (more : charset.unmarked second = some ys) : charset.unmarked (first ++ second) = some (xs ++ ys) := by
  induction first generalizing xs with
  | nil =>
    obtain rfl := Option.some.inj ((unmarked_nil builtIn).symm.trans spelled)
    exact more
  | cons c first ih =>
    rw [unmarked_cons] at spelled
    rw [List.cons_append, unmarked_cons]
    split at spelled
    · cases spelled
    · obtain ⟨bytes, before, rfl⟩ := Option.map_eq_some_iff.mp spelled
      rw [ih before, Option.map_some, List.append_assoc]

end Charset

/-- What stands in front of a text: the mark, if it is owed and the text is not empty. -/
def markOf (owed : Bool) (text : List Char) : List UInt8 := if owed ∧ text ≠ [] then byteOrderMark else []

/-- The mark stands in front of the first part of a text that is not empty. -/
theorem markOf_append (owed : Bool) (first second : List Char) :
    markOf owed (first ++ second) = markOf owed first ++ markOf (owed && first.isEmpty) second := by
  cases first with
  | nil => simp [markOf]
  | cons c first => simp [markOf]

namespace Charset

theorem reference_eq (charset : Charset) (text : List Char) :
    charset.reference text = (charset.unmarked text).map (markOf (charset = .utf16) text ++ ·) := by
  simp only [reference, markOf, byteOrderMark, decide_eq_true_eq]
  split <;> simp

/-- The encoding of a text goes on behind that of its front, with the mark where the text begins. -/
theorem reference_append {charset : Charset} (builtIn : ∀ e, charset ≠ .web e) {first second : List Char}
    {held bytes : List UInt8} (before : charset.reference first = some held)
    (more : (charset.unmarked second).map (markOf (charset = .utf16 && first.isEmpty) second ++ ·) = some bytes) :
    charset.reference (first ++ second) = some (held ++ bytes) := by
  rw [reference_eq] at before ⊢
  obtain ⟨xs, front, rfl⟩ := Option.map_eq_some_iff.mp before
  obtain ⟨ys, back, rfl⟩ := Option.map_eq_some_iff.mp more
  rw [unmarked_append builtIn front back, Option.map_some, markOf_append]
  cases first with
  | nil =>
    obtain rfl := Option.some.inj ((unmarked_nil builtIn).symm.trans front)
    simp
  | cons c first => simp [markOf]

end Charset

/-- What an encoder that owed a mark or not did with a text: it has read some characters at its front
and has written the mark and their bytes, and it owes the mark until it has read one. -/
structure Encoded.Spells (e : Encoded) (charset : Charset) (owed : Bool) (text front : List Char)
    (owed' : Bool) : Prop where
  atFront : front <+: text
  read : e.read = Text.utf8Length front
  bytes : (charset.unmarked front).map (markOf owed front ++ ·) = some e.bytes
  owed : owed' = (owed && front.isEmpty)

theorem Encoded.after_read (c : Char) (bytes : List UInt8) (stop : Stop) (front : List Char) (written : List UInt8) :
    Encoded.after c bytes ⟨stop, Text.utf8Length front, written⟩ =
      ⟨stop, Text.utf8Length (c :: front), bytes ++ written⟩ := by
  rw [after, Text.utf8Length, Nat.add_comm]

namespace BuiltInEncoder

/-- How an encoder comes to a halt behind a front of a text for which it has written some bytes: at the end of
the text, in front of a character that is too long for the room left, or in front of one without bytes. -/
inductive Halts (charset : Charset) (owed : Bool) (room : Nat) (front : List Char) (written : List UInt8) :
    List Char → Except Fault Encoded → Prop
  | used : Halts charset owed room front written [] (.ok ⟨.inputUsed, Text.utf8Length front, written⟩)
  | full {c : Char} {after : List Char} {own : List UInt8} : charset.bytes c = .ok own →
      room < written.length + (markOf (owed && front.isEmpty) [c] ++ own).length →
      Halts charset owed room front written (c :: after) (.ok ⟨.outputFull, Text.utf8Length front, written⟩)
  | unmappable {c : Char} {after : List Char} {fault : Fault} : charset.bytes c = .error fault →
      Halts charset owed room front written (c :: after) (.error fault)

/-- What an encoder does with a text: it reads a front of it, for which it writes the mark if that is owed, and
the bytes of its characters, and halts there. It owes the mark until it has read something. -/
def Proceeds (charset : Charset) (owed : Bool) (room : Nat) (text : List Char)
    (outcome : Except Fault Encoded × Bool) : Prop :=
  ∃ front rest own, text = front ++ rest ∧ charset.unmarked front = some own ∧
    (markOf owed front ++ own).length ≤ room ∧
    Halts charset owed room front (markOf owed front ++ own) rest outcome.1 ∧
    outcome.2 = (owed && front.isEmpty)

variable {charset : Charset}

private theorem Halts.proceeds (builtIn : ∀ e, charset ≠ .web e) {owed : Bool} {room : Nat} {text : List Char}
    {result : Except Fault Encoded} (halts : Halts charset owed room [] [] text result) :
    Proceeds charset owed room text (result, owed) := by
  refine ⟨[], text, [], rfl, Charset.unmarked_nil builtIn, ?_, ?_, by simp⟩
  · simp [markOf]
  · simpa [markOf] using halts

private theorem Halts.after {owed : Bool} {room : Nat} {c : Char} {bytes : List UInt8} (fits : bytes.length ≤ room)
    {front rest : List Char} {written : List UInt8} {result : Except Fault Encoded}
    (halts : Halts charset false (room - bytes.length) front written rest result) :
    Halts charset owed room (c :: front) (bytes ++ written) rest (result.map (·.after c bytes)) := by
  cases halts with
  | used =>
    rw [Except.map, Encoded.after_read]
    exact .used
  | full spelled tight =>
    rw [Except.map, Encoded.after_read]
    refine .full spelled ?_
    simp only [List.isEmpty_cons, Bool.and_false, Bool.false_and, List.length_append] at tight ⊢
    omega
  | unmappable silent => exact .unmappable silent

private theorem Proceeds.cons {owed : Bool} {room : Nat} {c : Char} {own : List UInt8} {text : List Char}
    {outcome : Except Fault Encoded × Bool} (spelled : charset.bytes c = .ok own)
    (fits : (markOf owed [c] ++ own).length ≤ room)
    (proceeds : Proceeds charset false (room - (markOf owed [c] ++ own).length) text outcome) :
    Proceeds charset owed room (c :: text)
      (outcome.1.map (·.after c (markOf owed [c] ++ own)), outcome.2) := by
  obtain ⟨front, rest, more, rfl, behind, within, halts, owes⟩ := proceeds
  have quiet : markOf false front = [] := by simp [markOf]
  have joined : markOf owed (c :: front) ++ (own ++ more) = (markOf owed [c] ++ own) ++ more := by
    cases owed <;> simp [markOf]
  rw [quiet, List.nil_append] at halts within
  refine ⟨c :: front, rest, own ++ more, rfl, ?_, ?_, ?_, by simp [owes]⟩
  · rw [Charset.unmarked_cons, spelled, behind]
    rfl
  · rw [joined, List.length_append]
    omega
  · rw [joined]
    exact halts.after fits

theorem encodeChars_proceeds (builtIn : ∀ e, charset ≠ .web e) (owed : Bool) (room : Nat) (text : List Char) :
    Proceeds charset owed room text (encodeChars charset owed room text) := by
  induction text generalizing owed room with
  | nil => exact Halts.used.proceeds builtIn
  | cons c text ih =>
    cases spelled : charset.bytes c with
    | error fault =>
      simp only [encodeChars, spelled]
      exact (Halts.unmappable spelled).proceeds builtIn
    | ok own =>
      have marked : (if owed then byteOrderMark ++ own else own) = markOf owed [c] ++ own := by
        cases owed <;> rfl
      simp only [encodeChars, spelled, marked]
      split
      next full =>
        refine (Halts.full spelled ?_).proceeds builtIn
        rw [List.isEmpty_nil, Bool.and_true, List.length_nil, Nat.zero_add]
        exact full
      next fits => exact (ih false _).cons spelled (Nat.le_of_not_lt fits)

/-- Encoding characters spells them, within the window. -/
theorem encodeChars_ok (builtIn : ∀ e, charset ≠ .web e) {owed owed' : Bool} {room : Nat} {text : List Char}
    {e : Encoded} (done : encodeChars charset owed room text = (.ok e, owed')) :
    e.bytes.length ≤ room ∧ ∃ front, e.Spells charset owed text front owed' := by
  have proceeds := encodeChars_proceeds builtIn owed room text
  rw [done] at proceeds
  obtain ⟨front, rest, own, rfl, spelled, within, halts, owes⟩ := proceeds
  have spells : (charset.unmarked front).map (markOf owed front ++ ·) = some (markOf owed front ++ own) := by
    rw [spelled]
    rfl
  cases halts with
  | used => exact ⟨within, front, List.prefix_append _ _, rfl, spells, owes⟩
  | full => exact ⟨within, front, List.prefix_append _ _, rfl, spells, owes⟩

/-- UTF-16 has bytes for every character, so whoever fails owed no mark and owes none. -/
theorem encodeChars_error (builtIn : ∀ e, charset ≠ .web e) {owed owed' : Bool} {room : Nat} {text : List Char}
    {fault : Fault} (failed : encodeChars charset owed room text = (.error fault, owed')) :
    charset ≠ .utf16 ∧ (owed = false → owed' = false) := by
  have proceeds := encodeChars_proceeds builtIn owed room text
  rw [failed] at proceeds
  obtain ⟨front, rest, own, _, _, _, halts, owes⟩ := proceeds
  cases halts with
  | unmappable silent =>
    refine ⟨?_, fun none => owes.trans (by simp [none])⟩
    rintro rfl
    simp [Charset.bytes] at silent

end BuiltInEncoder
end Sluice
