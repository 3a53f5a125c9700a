import Sluice.Proofs.Charset.Reference

/-! Encoders whose windows leave no seam. What is written window by window, and by a finish that takes several
windows too, is what a single call and its flush would have written. -/
namespace Sluice

variable {ε : Type}

section Calls

variable [Encoder ε]

/-- What an encoder writes for a text in one last call with room enough, and in the flush behind it. -/
def OneShot (e : ε) (text : List Char) (bytes : List UInt8) : Prop :=
  ∃ own held enough, own ++ held = bytes ∧ ∀ room, enough ≤ room →
    ∃ e', Encoder.encode e text room true = (.ok ⟨.inputUsed, Text.utf8Length text, own⟩, e') ∧
      ∀ room, enough ≤ room → (Encoder.flush e' room).1 = .ok (.inputUsed, held)

theorem OneShot.unique {e : ε} {text : List Char} {bytes bytes' : List UInt8} (once : OneShot e text bytes)
    (again : OneShot e text bytes') : bytes = bytes' := by
  obtain ⟨own, held, enough, rfl, once⟩ := once
  obtain ⟨own', held', enough', rfl, again⟩ := again
  obtain ⟨last, called, flushed⟩ := once (max enough enough') (Nat.le_max_left _ _)
  obtain ⟨last', called', flushed'⟩ := again (max enough enough') (Nat.le_max_right _ _)
  obtain ⟨same, rfl⟩ := Prod.mk.inj (called.symm.trans called')
  have flushed := (flushed _ (Nat.le_max_left _ _)).symm.trans (flushed' _ (Nat.le_max_right _ _))
  cases same
  cases flushed
  rfl

/-- Where a call leaves an encoder: it has read a front of its text, and whoever goes on with the rest, whatever
comes behind that, continues what was written. -/
structure Encoded.Leaves (x : Encoded) (e : ε) (room : Nat) (text : List Char) (e' : ε) (front rest : List Char) :
    Prop where
  cut : text = front ++ rest
  read : x.read = Text.utf8Length front
  within : x.bytes.length ≤ room
  continues : ∀ more bytes, OneShot e' (rest ++ more) bytes → OneShot e (text ++ more) (x.bytes ++ bytes)

/-- Bytes of the end of a text: all that is left of it, or else what is written next continues them. -/
def Ends (e : ε) (bytes : List UInt8) (whole : Bool) (e' : ε) : Prop :=
  if whole then OneShot e [] bytes else ∀ more, OneShot e' [] more → OneShot e [] (bytes ++ more)

/-- What an encoder writes into some room when it is to end its text, and in its flush, are bytes of the end. -/
def Finishes (e : ε) (room : Nat) : Prop :=
  ∃ x e', Encoder.encode e [] room true = (.ok x, e') ∧ x.bytes.length ≤ room ∧
    (x.stop = .outputFull → Ends e x.bytes false e') ∧
    (x.stop = .inputUsed → ∀ room, ∃ stop held e'', Encoder.flush e' room = (.ok (stop, held), e'') ∧
      held.length ≤ room ∧ Ends e (x.bytes ++ held) (stop = .inputUsed) e'')

end Calls

/-- An encoder that does not depend on its windows. After it was stopped, the rest of the text continues one and the
same stream of bytes, and so does the end of the text, which may be stopped before it is encoded and in its flush. -/
class Seamless (ε : Type) [Encoder ε] : Prop where
  encode {e e' : ε} {text : List Char} {room : Nat} {x : Encoded} :
    Encoder.encode e text room false = (.ok x, e') → ∃ front rest, x.Leaves e room text e' front rest
  finish (e : ε) (room : Nat) : Finishes e room

/-- An encoder that holds nothing back for a flush. -/
class Flushless (ε : Type) [Encoder ε] : Prop where
  flush (e : ε) (room : Nat) : Encoder.flush e room = (.ok (.inputUsed, []), e)

section Flushless

variable [Encoder ε] [Flushless ε]

theorem oneShot_iff (e : ε) (text : List Char) (bytes : List UInt8) :
    OneShot e text bytes ↔ ∃ enough, ∀ room, enough ≤ room →
      ∃ e', Encoder.encode e text room true = (.ok ⟨.inputUsed, Text.utf8Length text, bytes⟩, e') := by
  constructor
  · rintro ⟨own, held, enough, rfl, once⟩
    refine ⟨enough, fun room large => ?_⟩
    obtain ⟨e', called, flushed⟩ := once room large
    have none : [] = held := by
      have flushed := flushed room large
      rw [Flushless.flush] at flushed
      exact (Prod.mk.inj (Except.ok.inj flushed)).2
    exact ⟨e', by rw [called, ← none, List.append_nil]⟩
  · rintro ⟨enough, once⟩
    refine ⟨bytes, [], enough, List.append_nil _, fun room large => ?_⟩
    obtain ⟨e', called⟩ := once room large
    exact ⟨e', called, fun room _ => by rw [Flushless.flush]⟩

private theorem OneShot.behind {e e' : ε} {text text' : List Char} {bytes front : List UInt8}
    (once : OneShot e' text' bytes)
    (margin : Nat) (follows : ∀ room bytes last, margin ≤ room →
      Encoder.encode e' text' room true = (.ok ⟨.inputUsed, Text.utf8Length text', bytes⟩, last) →
      Encoder.encode e text (front.length + room) true =
        (.ok ⟨.inputUsed, Text.utf8Length text, front ++ bytes⟩, last)) : OneShot e text (front ++ bytes) := by
  obtain ⟨enough, once⟩ := (oneShot_iff e' text' bytes).mp once
  refine (oneShot_iff e text _).mpr ⟨front.length + (margin + enough), fun room large => ?_⟩
  obtain ⟨left, rfl⟩ := Nat.exists_eq_add_of_le (Nat.le_trans (Nat.le_add_right _ _) large)
  obtain ⟨last, called⟩ := once left (by omega)
  exact ⟨last, follows left bytes last (by omega) called⟩

private theorem ends_flushless {e e' : ε} {bytes : List UInt8} (once : OneShot e [] bytes) (room : Nat) :
    ∃ stop held e'', Encoder.flush e' room = (.ok (stop, held), e'') ∧ held.length ≤ room ∧
      Ends e (bytes ++ held) (stop = .inputUsed) e'' :=
  ⟨.inputUsed, [], e', Flushless.flush e' room, Nat.zero_le _, by simpa [Ends] using once⟩

end Flushless

namespace BuiltInEncoder

instance : Flushless BuiltInEncoder where
  flush _ _ := rfl

private theorem encodeChars_cons {charset : Charset} {c : Char} {own : List UInt8} (letter : charset.bytes c = .ok own)
    (owed : Bool) : ∃ bytes, ∀ room text, encodeChars charset owed room (c :: text) =
      if room < bytes.length then (.ok .full, owed)
      else ((encodeChars charset false (room - bytes.length) text).1.map (·.after c bytes),
        (encodeChars charset false (room - bytes.length) text).2) :=
  ⟨if owed then byteOrderMark ++ own else own, fun room text => by rw [encodeChars, letter]⟩

/-- What a window has taken it takes without the rest too, and it comes in front of what is written for that. -/
theorem encodeChars_resumes (charset : Charset) (text : List Char) :
    ∀ {owed owed' : Bool} {room : Nat} {x : Encoded}, encodeChars charset owed room text = (.ok x, owed') →
      ∃ front rest, text = front ++ rest ∧ x.read = Text.utf8Length front ∧ x.bytes.length ≤ room ∧
        encodeChars charset owed room front = (.ok { x with stop := .inputUsed }, owed') ∧
        ∀ more left bytes last,
          encodeChars charset owed' left (rest ++ more) =
            (.ok ⟨.inputUsed, Text.utf8Length (rest ++ more), bytes⟩, last) →
          encodeChars charset owed (x.bytes.length + left) (text ++ more) =
            (.ok ⟨.inputUsed, Text.utf8Length (text ++ more), x.bytes ++ bytes⟩, last) := by
  induction text with
  | nil =>
    intro owed owed' room x called
    cases called
    refine ⟨[], [], rfl, rfl, Nat.zero_le _, rfl, fun more left bytes last rest => ?_⟩
    simpa using rest
  | cons c cs ih =>
    intro owed owed' room x called
    cases letter : charset.bytes c with
    | error fault => simp [encodeChars, letter] at called
    | ok own =>
      obtain ⟨own, cons⟩ := encodeChars_cons letter owed
      rw [cons] at called
      split at called
      next tight =>
        cases called
        refine ⟨[], c :: cs, rfl, rfl, Nat.zero_le _, rfl, fun more left bytes last rest => ?_⟩
        simpa [Encoded.full] using rest
      next fits =>
        rcases went : encodeChars charset false (room - own.length) cs with ⟨result, owed''⟩
        rw [went] at called
        obtain ⟨passed, rfl⟩ := Prod.mk.inj called
        obtain ⟨y, rfl, rfl⟩ := ok_of_map passed
        obtain ⟨front, rest, rfl, read, within, alone, resumes⟩ := ih went
        refine ⟨c :: front, rest, rfl, ?_, ?_, ?_, fun more left bytes last after => ?_⟩
        · simp [Encoded.after, read, Text.utf8Length, Nat.add_comm]
        · simp only [Encoded.after, List.length_append]
          omega
        · rw [cons, if_neg fits, alone]
          rfl
        · have behind := resumes more left bytes last after
          have room : (y.after c own).bytes.length + left - own.length = y.bytes.length + left := by
            simp only [Encoded.after, List.length_append]
            omega
          rw [List.cons_append, cons, room, behind, if_neg]
          · simp only [Except.map, Encoded.after_read]
            simp [Encoded.after]
          · simp only [Encoded.after, List.length_append]
            omega

instance : Seamless BuiltInEncoder where
  encode {e e' text room x} called := by
    rcases went : encodeChars e.charset e.markOwed room text with ⟨result, owed⟩
    simp only [Encoder.encode, went] at called
    obtain ⟨rfl, rfl⟩ := Prod.mk.inj called
    obtain ⟨front, rest, cut, read, within, _, resumes⟩ := encodeChars_resumes e.charset text went
    refine ⟨front, rest, cut, read, within, fun more bytes once => ?_⟩
    refine once.behind 0 fun left bytes last _ after => ?_
    rcases behind : encodeChars e.charset owed left (rest ++ more) with ⟨result, owed'⟩
    simp only [Encoder.encode, behind] at after
    obtain ⟨rfl, rfl⟩ := Prod.mk.inj after
    simp only [Encoder.encode, resumes more left bytes owed' behind]
  finish e room := by
    have once : OneShot e [] [] := (oneShot_iff e [] []).mpr ⟨0, fun room _ => ⟨e, rfl⟩⟩
    exact ⟨⟨.inputUsed, 0, []⟩, e, rfl, Nat.zero_le _, by simp, fun _ => ends_flushless once⟩

end BuiltInEncoder

namespace WebEncoding

private theorem wideDemand_le (encoding : WebEncoding) (c : Char) : encoding.wideDemand c ≤ 4 := by
  unfold wideDemand
  split
  · exact c.utf8Size_le_four
  all_goals omega

private theorem demand_le (encoding : WebEncoding) (wide : Bool) (c : Char) : encoding.demand wide c ≤ 4 := by
  have most := encoding.wideDemand_le c
  unfold demand
  split
  · split
    · omega
    · split
      · exact most
      · omega
  · exact most

private theorem wideDemand_pos (encoding : WebEncoding) (c : Char) : 0 < encoding.wideDemand c := by
  unfold wideDemand
  split
  · exact c.utf8Size_pos
  all_goals omega

variable [CodeIndex]

/-- The bytes of a text in an encoding without shift states, if all of its characters have some. -/
def spelling? (encoding : WebEncoding) : List Char → Option (List UInt8)
  | [] => some []
  | c :: cs => (encoding.bytes? c).bind fun bytes => (spelling? encoding cs).map (bytes ++ ·)

variable {encoding : WebEncoding}

private theorem spelling?_cons_eq_some {c : Char} {text : List Char} {bytes : List UInt8} :
    encoding.spelling? (c :: text) = some bytes ↔
      ∃ own more, encoding.bytes? c = some own ∧ encoding.spelling? text = some more ∧ own ++ more = bytes := by
  simp [spelling?, Option.bind_eq_some_iff, Option.map_eq_some_iff]

private theorem spelling?_append {first second : List Char} {own more : List UInt8}
    (spelled : encoding.spelling? first = some own) (behind : encoding.spelling? second = some more) :
    encoding.spelling? (first ++ second) = some (own ++ more) := by
  induction first generalizing own with
  | nil =>
    cases spelled
    exact behind
  | cons c first ih =>
    obtain ⟨bytes, rest, letter, there, rfl⟩ := spelling?_cons_eq_some.mp spelled
    exact spelling?_cons_eq_some.mpr ⟨bytes, rest ++ more, letter, ih there, (List.append_assoc _ _ _).symm⟩

private theorem length_wideBytes?_le {c : Char} {bytes : List UInt8} (letter : encoding.wideBytes? c = some bytes) :
    bytes.length ≤ encoding.wideDemand c := by
  unfold wideBytes? at letter
  split at letter
  case h_1 =>
    obtain rfl := Option.some.inj letter
    simp [wideDemand, String.length_utf8EncodeChar]
  case h_8 =>
    obtain ⟨runs, _, letter⟩ := Option.bind_eq_some_iff.mp letter
    obtain ⟨byte, _, rfl⟩ := Option.map_eq_some_iff.mp letter
    exact encoding.wideDemand_pos c
  all_goals exact CodeIndex.length_bytes?_le letter

private theorem length_bytes?_le {c : Char} {bytes : List UInt8}
    (letter : encoding.bytes? c = some bytes) (wide : Bool) :
    bytes.length ≤ encoding.demand wide c := by
  have some := encoding.wideDemand_pos c
  unfold bytes? at letter
  unfold demand
  split at letter
  next narrow =>
    rw [if_pos narrow, ← Option.some.inj letter, List.length_singleton]
    split
    · exact Nat.le_refl 1
    · split
      · exact some
      · exact Nat.le_refl 1
  next broad =>
    rw [if_neg broad]
    exact length_wideBytes?_le letter

private theorem encodeChars_ok {wide : Bool} {room : Nat} {text : List Char} {x : Encoded}
    (called : encoding.encodeChars wide room text = .ok x) :
    ∃ front rest, text = front ++ rest ∧ x.read = Text.utf8Length front ∧ x.bytes.length ≤ room ∧
      encoding.encodeChars wide room front = .ok { x with stop := .inputUsed } ∧
      encoding.spelling? front = some x.bytes ∧ (x.stop = .inputUsed → rest = []) := by
  induction text generalizing wide room x with
  | nil =>
    cases called
    exact ⟨[], [], rfl, rfl, Nat.zero_le _, rfl, rfl, fun _ => rfl⟩
  | cons c cs ih =>
    rw [encodeChars] at called
    split at called
    · cases called
      exact ⟨[], c :: cs, rfl, rfl, Nat.zero_le _, rfl, rfl, fun used => by cases used⟩
    next fits =>
      split at called
      · cases called
      next own letter =>
        obtain ⟨y, went, rfl⟩ := ok_of_map called
        obtain ⟨front, rest, rfl, read, within, alone, spelled, used⟩ := ih went
        have room := length_bytes?_le letter wide
        refine ⟨c :: front, rest, rfl, ?_, ?_, ?_, ?_, used⟩
        · simp [Encoded.after, read, Text.utf8Length, Nat.add_comm]
        · simp only [Encoded.after, List.length_append]
          omega
        · rw [encodeChars, if_neg fits, letter]
          simp only [alone]
          rfl
        · exact spelling?_cons_eq_some.mpr ⟨own, y.bytes, letter, spelled, rfl⟩

private theorem encodeChars_whole {text : List Char} {own : List UInt8} (spelled : encoding.spelling? text = some own)
    (wide : Bool) {room : Nat} (enough : own.length + 4 ≤ room) :
    encoding.encodeChars wide room text = .ok ⟨.inputUsed, Text.utf8Length text, own⟩ := by
  induction text generalizing wide room own with
  | nil =>
    cases spelled
    rfl
  | cons c text ih =>
    obtain ⟨bytes, more, letter, there, rfl⟩ := spelling?_cons_eq_some.mp spelled
    have most := encoding.demand_le wide c
    rw [List.length_append] at enough
    rw [encodeChars, if_neg (by omega), letter]
    have behind := ih there (encoding.wideAfter wide c) (Nat.le_sub_of_add_le (by omega : _ + bytes.length ≤ room))
    simp only [behind, Except.map, Encoded.after_read]

end WebEncoding

namespace Shift

private theorem length_escape_le (shift target : Shift) :
    (if target = shift then [] else target.escape).length ≤ 3 := by
  split
  · exact Nat.zero_le 3
  · cases target with
    | _ => exact Nat.le_refl 3

variable [CodeIndex]

private theorem target?_idem {shift target : Shift} {c : Char} (asked : shift.target? c = some target) :
    target.target? c = some target := by
  unfold target? at asked ⊢
  by_cases narrow : c.toNat < 0x80
  · simp only [if_pos narrow] at asked ⊢
    cases shift with
    | roman =>
      by_cases moved : c.toNat = 0x5C ∨ c.toNat = 0x7E
      · obtain rfl : ascii = target := by simpa [moved] using asked
        rfl
      · obtain rfl : roman = target := by simpa [moved] using asked
        simp [moved]
    | ascii =>
      cases asked
      rfl
    | jis0208 =>
      cases asked
      rfl
  · simp only [if_neg narrow] at asked ⊢
    exact asked

/-- A character behind its escape sequence, if that is needed and there is room for both. -/
theorem encodeChars_cons {shift target : Shift} {c : Char} (asked : shift.target? c = some target)
    (plain : isControl c = false) (last : Bool) {room : Nat} {escape : List UInt8}
    (escaped : escape = if target = shift then [] else target.escape) (enough : escape.length + 3 ≤ room)
    (text : List Char) :
    encodeChars last shift room (c :: text) =
      ((encodeChars last target (room - (escape ++ target.bytes c).length) text).1.map
          (·.after c (escape ++ target.bytes c)),
        (encodeChars last target (room - (escape ++ target.bytes c).length) text).2) := by
  rw [encodeChars, if_neg (by omega), asked]
  simp only [← escaped]
  rw [if_neg (by omega), plain]
  rfl

private theorem length_bytes_le (shift : Shift) (c : Char) : (shift.bytes c).length ≤ 3 := by
  cases shift with
  | ascii => exact Nat.le_add_left 1 2
  | roman => exact Nat.le_add_left 1 2
  | jis0208 =>
    simp only [bytes]
    cases CodeIndex.jisPair? c with
    | none => exact Nat.zero_le 3
    | some pair => exact Nat.le_add_left 2 1

private theorem encodeChars_escaped {shift target : Shift} {c : Char} (asked : shift.target? c = some target)
    {escape : List UInt8} (escaped : escape = if target = shift then [] else target.escape) {text : List Char}
    {left : Nat} {bytes : List UInt8} {last : Shift} (large : 3 ≤ left)
    (behind : encodeChars true target left (c :: text) =
      (.ok ⟨.inputUsed, Text.utf8Length (c :: text), bytes⟩, last)) :
    encodeChars true shift (escape.length + left) (c :: text) =
      (.ok ⟨.inputUsed, Text.utf8Length (c :: text), escape ++ bytes⟩, last) := by
  have again := target?_idem asked
  cases plain : isControl c with
  | true => simp [encodeChars, Nat.not_lt.mpr large, again, plain] at behind
  | false =>
    rw [encodeChars_cons again plain true (if_pos rfl).symm large] at behind
    have room : escape.length + left - (escape ++ target.bytes c).length = left - ([] ++ target.bytes c).length := by
      simp only [List.length_append, List.length_nil]
      omega
    rw [encodeChars_cons asked plain true escaped (Nat.add_le_add_left large _), room]
    generalize encodeChars true target (left - ([] ++ target.bytes c).length) text = went at behind ⊢
    obtain ⟨result, last'⟩ := went
    obtain ⟨passed, rfl⟩ := Prod.mk.inj behind
    obtain ⟨y, rfl, same⟩ := ok_of_map passed
    obtain ⟨stop, read, rfl⟩ := Encoded.mk.inj same
    simp [Except.map, Encoded.after, stop, read]

/-- A window that ends in front of a character, at once or behind its escape sequence, does so whatever comes behind
the character, and whoever goes on with that continues what was written. -/
structure Halts (shift : Shift) (room : Nat) (c : Char) (x : Encoded) (shift' : Shift) : Prop where
  read : x.read = 0
  within : x.bytes.length ≤ room
  alike (text : List Char) : encodeChars false shift room (c :: text) = (.ok x, shift')
  resumes {text : List Char} {left : Nat} {bytes : List UInt8} {last : Shift} : 3 ≤ left →
    encodeChars true shift' left (c :: text) = (.ok ⟨.inputUsed, Text.utf8Length (c :: text), bytes⟩, last) →
    encodeChars true shift (x.bytes.length + left) (c :: text) =
      (.ok ⟨.inputUsed, Text.utf8Length (c :: text), x.bytes ++ bytes⟩, last)

private theorem encodeChars_cons_ok {shift shift' : Shift} {room : Nat} {c : Char} {text : List Char} {x : Encoded}
    (called : encodeChars false shift room (c :: text) = (.ok x, shift')) :
    Halts shift room c x shift' ∨
    ∃ target escape y, shift.target? c = some target ∧ isControl c = false ∧
      escape = (if target = shift then [] else target.escape) ∧ escape.length + 3 ≤ room ∧
      encodeChars false target (room - (escape ++ target.bytes c).length) text = (.ok y, shift') ∧
      x = y.after c (escape ++ target.bytes c) := by
  by_cases tight : room < 3
  · rw [encodeChars, if_pos tight] at called
    cases called
    exact .inl ⟨rfl, Nat.zero_le _, fun _ => if_pos tight, fun _ rest => by simpa [Encoded.full] using rest⟩
  · cases asked : shift.target? c with
    | none => simp [encodeChars, tight, asked] at called
    | some target =>
      generalize escaped : (if target = shift then [] else target.escape) = escape
      have short : escape.length ≤ 3 := escaped ▸ length_escape_le shift target
      rw [encodeChars, if_neg tight, asked] at called
      simp only [escaped] at called
      split at called
      next alone =>
        cases called
        have within : escape.length ≤ room := by omega
        refine .inl ⟨rfl, within, fun text => ?_, encodeChars_escaped asked escaped.symm⟩
        rw [encodeChars, if_neg tight, asked]
        simp only [escaped]
        rw [if_pos alone]
      next roomy =>
        cases plain : isControl c with
        | true => simp [plain] at called
        | false =>
          rw [plain, if_neg (by simp)] at called
          rcases went : encodeChars false target (room - (escape ++ target.bytes c).length) text with
            ⟨result, shift''⟩
          simp only [went] at called
          obtain ⟨passed, rfl⟩ := Prod.mk.inj called
          obtain ⟨y, rfl, same⟩ := ok_of_map passed
          exact .inr ⟨target, escape, y, rfl, rfl, escaped.symm, by omega, went, same⟩

/-- What a window has taken, be it an escape sequence alone, comes in front of what is written for the rest. Of
that only the first character matters. -/
theorem encodeChars_resumes (text : List Char) :
    ∀ {shift shift' : Shift} {room : Nat} {x : Encoded}, encodeChars false shift room text = (.ok x, shift') →
      ∃ front rest, text = front ++ rest ∧ x.read = Text.utf8Length front ∧ x.bytes.length ≤ room ∧
        (∀ other : List Char, other.head? = rest.head? →
          encodeChars false shift room (front ++ other) = (.ok x, shift')) ∧
        ∀ more left bytes last, 3 ≤ left →
          encodeChars true shift' left (rest ++ more) =
            (.ok ⟨.inputUsed, Text.utf8Length (rest ++ more), bytes⟩, last) →
          encodeChars true shift (x.bytes.length + left) (text ++ more) =
            (.ok ⟨.inputUsed, Text.utf8Length (text ++ more), x.bytes ++ bytes⟩, last) := by
  induction text with
  | nil =>
    intro shift shift' room x called
    cases called
    refine ⟨[], [], rfl, rfl, Nat.zero_le _, ?_, fun more left bytes last _ rest => ?_⟩
    · rintro other same
      rw [List.head?_eq_none_iff.mp same]
      rfl
    · simpa using rest
  | cons c cs ih =>
    intro shift shift' room x called
    rcases encodeChars_cons_ok called with halts | ⟨target, escape, y, asked, plain, escaped, fits, went, rfl⟩
    · refine ⟨[], c :: cs, rfl, halts.read, halts.within, ?_, fun _ _ _ _ => halts.resumes⟩
      rintro other same
      obtain ⟨behind, rfl⟩ := List.head?_eq_some_iff.mp same
      exact halts.alike behind
    · obtain ⟨front, rest, rfl, read, within, alike, resumes⟩ := ih went
      have most := target.length_bytes_le c
      refine ⟨c :: front, rest, rfl, ?_, ?_, fun other same => ?_, fun more left bytes last large after => ?_⟩
      · simp [Encoded.after, read, Text.utf8Length, Nat.add_comm]
      · simp only [Encoded.after, List.length_append] at within ⊢
        omega
      · rw [List.cons_append, encodeChars_cons asked plain false escaped fits, alike other same]
        rfl
      · have behind := resumes more left bytes last large after
        have room : (y.after c (escape ++ target.bytes c)).bytes.length + left -
            (escape ++ target.bytes c).length = y.bytes.length + left := by
          simp only [Encoded.after, List.length_append]
          omega
        have enough : escape.length + 3 ≤ (y.after c (escape ++ target.bytes c)).bytes.length + left := by
          simp only [Encoded.after, List.length_append]
          omega
        rw [List.cons_append, encodeChars_cons asked plain true escaped enough, room, behind]
        simp only [Except.map, Encoded.after_read]
        simp [Encoded.after]

end Shift

namespace WebEncoder

private theorem named_eq_ok {encoding : WebEncoding} {result : Except Char Encoded} {x : Encoded} :
    named encoding result = .ok x ↔ result = .ok x := by
  cases result with
  | error c => simp [named]
  | ok y => simp [named]

variable [CodeIndex]

instance : Flushless WebEncoder where
  flush _ _ := rfl

theorem encode_shifting {e : WebEncoder} (shifts : e.encoding = .iso2022Jp) (text : List Char) (room : Nat)
    (last : Bool) : Encoder.encode e text room last =
      (named e.encoding (Shift.encodeChars last e.shift room text).1,
        { e with shift := (Shift.encodeChars last e.shift room text).2 }) := by
  simp only [Encoder.encode, shifts]

theorem encode_stateless {e : WebEncoder} (stateless : e.encoding ≠ .iso2022Jp) (text : List Char) (room : Nat)
    (last : Bool) :
    Encoder.encode e text room last = (named e.encoding (e.encoding.encodeChars false room text), e) := by
  simp only [Encoder.encode]

/-- Without shift states an encoder writes the spelling of its text. -/
theorem oneShot_iff_spelling {e : WebEncoder} (stateless : e.encoding ≠ .iso2022Jp) (text : List Char)
    (bytes : List UInt8) : OneShot e text bytes ↔ e.encoding.spelling? text = some bytes := by
  rw [oneShot_iff]
  constructor
  · rintro ⟨enough, once⟩
    obtain ⟨e', called⟩ := once enough (Nat.le_refl _)
    rw [encode_stateless stateless] at called
    obtain ⟨front, rest, rfl, _, _, _, spelled, used⟩ :=
      WebEncoding.encodeChars_ok (named_eq_ok.mp (congrArg Prod.fst called))
    rwa [used rfl, List.append_nil]
  · intro spelled
    refine ⟨bytes.length + 4, fun room large => ⟨e, ?_⟩⟩
    rw [encode_stateless stateless, WebEncoding.encodeChars_whole spelled false large]
    rfl

private theorem leaves {e e' : WebEncoder} {text : List Char} {room : Nat} {x : Encoded}
    (called : Encoder.encode e text room false = (.ok x, e')) : ∃ front rest, x.Leaves e room text e' front rest := by
  by_cases shifts : e.encoding = .iso2022Jp
  · rcases went : Shift.encodeChars false e.shift room text with ⟨result, shift⟩
    rw [encode_shifting shifts, went] at called
    obtain ⟨passed, rfl⟩ := Prod.mk.inj called
    obtain rfl := named_eq_ok.mp passed
    have moved : ({ e with shift } : WebEncoder).encoding = .iso2022Jp := shifts
    obtain ⟨front, rest, cut, read, within, _, resumes⟩ := Shift.encodeChars_resumes text went
    refine ⟨front, rest, cut, read, within, fun more bytes once => ?_⟩
    refine once.behind 3 fun left bytes last large after => ?_
    rw [encode_shifting moved] at after
    obtain ⟨passed, rfl⟩ := Prod.mk.inj after
    have behind := resumes more left bytes _ large (Prod.ext (named_eq_ok.mp passed) rfl)
    rw [encode_shifting shifts, behind]
    rfl
  · rw [encode_stateless shifts] at called
    obtain ⟨passed, rfl⟩ := Prod.mk.inj called
    obtain ⟨front, rest, rfl, read, within, _, spelled, _⟩ := WebEncoding.encodeChars_ok (named_eq_ok.mp passed)
    refine ⟨front, rest, rfl, read, within, fun more bytes once => ?_⟩
    rw [oneShot_iff_spelling shifts] at once ⊢
    rw [List.append_assoc]
    exact WebEncoding.spelling?_append spelled once

private theorem finishes (e : WebEncoder) (room : Nat) : Finishes e room := by
  by_cases shifted : e.encoding = .iso2022Jp ∧ e.shift ≠ .ascii
  · obtain ⟨shifts, away⟩ := shifted
    have called : ∀ room, Encoder.encode e [] room true =
        if room < 3 then (.ok .full, e)
        else (.ok ⟨.inputUsed, 0, Shift.ascii.escape⟩, { e with shift := .ascii }) := by
      intro room
      rw [encode_shifting shifts, Shift.encodeChars, if_pos ⟨rfl, away⟩]
      split
      · rfl
      · rfl
    by_cases tight : room < 3
    · refine ⟨.full, e, by rw [called, if_pos tight], Nat.zero_le _, fun _ => ?_, fun used => by cases used⟩
      simp [Ends, Encoded.full]
    · refine ⟨⟨.inputUsed, 0, Shift.ascii.escape⟩, { e with shift := .ascii }, by rw [called, if_neg tight],
        Nat.le_of_not_lt tight, by simp, fun _ => ends_flushless ?_⟩
      refine (oneShot_iff e [] _).mpr ⟨3, fun room large => ⟨{ e with shift := .ascii }, ?_⟩⟩
      rw [called, if_neg (Nat.not_lt.mpr large)]
      rfl
  · have called : ∀ room, Encoder.encode e [] room true = (.ok ⟨.inputUsed, 0, []⟩, e) := by
      intro room
      by_cases shifts : e.encoding = .iso2022Jp
      · have home : e.shift = .ascii := by simpa [shifts] using shifted
        rw [encode_shifting shifts, Shift.encodeChars, if_neg (by simp [home])]
        rfl
      · rw [encode_stateless shifts]
        rfl
    have once : OneShot e [] [] := (oneShot_iff e [] []).mpr ⟨0, fun room _ => ⟨e, called room⟩⟩
    exact ⟨⟨.inputUsed, 0, []⟩, e, called room, Nat.zero_le _, by simp, fun _ => ends_flushless once⟩

instance : Seamless WebEncoder where
  encode := leaves
  finish := finishes

end WebEncoder

namespace CharsetEncoder

variable [CodeIndex]

/-- An encoder that is one of the sum does what it does alone. -/
structure Wraps [Encoder ε] (wrap : ε → CharsetEncoder) : Prop where
  encode (e : ε) (text : List Char) (room : Nat) (last : Bool) :
    Encoder.encode (wrap e) text room last = (Encoder.encode e text room last).map id wrap
  flush (e : ε) (room : Nat) : Encoder.flush (wrap e) room = (Encoder.flush e room).map id wrap

private theorem wraps_builtIn : Wraps builtIn where
  encode _ _ _ _ := rfl
  flush _ _ := rfl

theorem wraps_web : Wraps web where
  encode _ _ _ _ := rfl
  flush _ _ := rfl

section Wraps

variable [Encoder ε] {wrap : ε → CharsetEncoder} (wraps : Wraps wrap)
include wraps

theorem Wraps.oneShot {e : ε} {text : List Char} {bytes : List UInt8} :
    OneShot (wrap e) text bytes ↔ OneShot e text bytes := by
  constructor
  · rintro ⟨own, held, enough, same, once⟩
    refine ⟨own, held, enough, same, fun room large => ?_⟩
    obtain ⟨last, called, flushed⟩ := once room large
    rw [wraps.encode] at called
    obtain ⟨result, rfl⟩ := Prod.mk.inj called
    refine ⟨_, Prod.ext result rfl, fun room large => ?_⟩
    have flushed := flushed room large
    rw [wraps.flush] at flushed
    exact flushed
  · rintro ⟨own, held, enough, same, once⟩
    refine ⟨own, held, enough, same, fun room large => ?_⟩
    obtain ⟨last, called, flushed⟩ := once room large
    refine ⟨wrap last, by rw [wraps.encode, called]; rfl, fun room large => ?_⟩
    rw [wraps.flush]
    exact flushed room large

private theorem Wraps.ends {e e' : ε} {bytes : List UInt8} {whole : Bool} (ends : Ends e bytes whole e') :
    Ends (wrap e) bytes whole (wrap e') := by
  simpa [Ends, wraps.oneShot] using ends

private theorem Wraps.leaves [Seamless ε] {e : ε} {last : CharsetEncoder} {text : List Char} {room : Nat} {x : Encoded}
    (called : Encoder.encode (wrap e) text room false = (.ok x, last)) :
    ∃ front rest, x.Leaves (wrap e) room text last front rest := by
  rw [wraps.encode] at called
  obtain ⟨result, rfl⟩ := Prod.mk.inj called
  obtain ⟨front, rest, cut, read, within, continues⟩ := Seamless.encode (Prod.ext result rfl)
  refine ⟨front, rest, cut, read, within, fun more bytes once => ?_⟩
  exact wraps.oneShot.mpr (continues more bytes (wraps.oneShot.mp once))

private theorem Wraps.finishes [Seamless ε] (e : ε) (room : Nat) : Finishes (wrap e) room := by
  obtain ⟨x, last, called, within, full, used⟩ := Seamless.finish e room
  refine ⟨x, wrap last, by rw [wraps.encode, called]; rfl, within, wraps.ends ∘ full, fun stop room => ?_⟩
  obtain ⟨stop, held, after, flushed, fits, ends⟩ := used stop room
  exact ⟨stop, held, wrap after, by rw [wraps.flush, flushed]; rfl, fits, wraps.ends ends⟩

end Wraps

instance : Seamless CharsetEncoder where
  encode {e _ _ _ _} called := by
    cases e with
    | builtIn e => exact wraps_builtIn.leaves called
    | web e => exact wraps_web.leaves called
  finish e room := by
    cases e with
    | builtIn e => exact wraps_builtIn.finishes e room
    | web e => exact wraps_web.finishes e room

/-- An encoder that writes escape sequences, each in front of the character that asks for it. -/
def Escapes : CharsetEncoder → Prop
  | builtIn _ => False
  | web e => e.encoding = .iso2022Jp

/-- Without escape sequences a call does nothing in view of a character that it does not read. -/
theorem encode_alone {e e' : CharsetEncoder} (plain : ¬ e.Escapes) {text : List Char} {room : Nat} {x : Encoded}
    (called : Encoder.encode e text room false = (.ok x, e')) :
    ∃ front rest, text = front ++ rest ∧ x.read = Text.utf8Length front ∧
      Encoder.encode e front room false = (.ok { x with stop := .inputUsed }, e') := by
  cases e with
  | builtIn e =>
    rcases went : BuiltInEncoder.encodeChars e.charset e.markOwed room text with ⟨result, owed⟩
    simp only [Encoder.encode, went] at called
    obtain ⟨rfl, rfl⟩ := Prod.mk.inj called
    obtain ⟨front, rest, cut, read, _, alone, _⟩ := BuiltInEncoder.encodeChars_resumes e.charset text went
    refine ⟨front, rest, cut, read, ?_⟩
    simp only [Encoder.encode, alone]
    rfl
  | web e =>
    rw [wraps_web.encode, WebEncoder.encode_stateless plain] at called
    obtain ⟨passed, rfl⟩ := Prod.mk.inj called
    obtain ⟨front, rest, cut, read, _, alone, _⟩ := WebEncoding.encodeChars_ok (WebEncoder.named_eq_ok.mp passed)
    refine ⟨front, rest, cut, read, ?_⟩
    rw [wraps_web.encode, WebEncoder.encode_stateless plain, alone]
    rfl

/-- With them a call does no more than to write one for the next character. -/
theorem encode_alike {e e' : CharsetEncoder} (escapes : e.Escapes) {text : List Char} {room : Nat} {x : Encoded}
    (called : Encoder.encode e text room false = (.ok x, e')) :
    ∃ front rest, text = front ++ rest ∧ x.read = Text.utf8Length front ∧
      ∀ other : List Char, other.head? = rest.head? →
        Encoder.encode e (front ++ other) room false = (.ok x, e') := by
  cases e with
  | builtIn e => exact escapes.elim
  | web e =>
    rcases went : Shift.encodeChars false e.shift room text with ⟨result, shift⟩
    rw [wraps_web.encode, WebEncoder.encode_shifting escapes, went] at called
    obtain ⟨passed, rfl⟩ := Prod.mk.inj called
    obtain rfl := WebEncoder.named_eq_ok.mp passed
    obtain ⟨front, rest, cut, read, _, alike, _⟩ := Shift.encodeChars_resumes text went
    refine ⟨front, rest, cut, read, fun other same => ?_⟩
    rw [wraps_web.encode, WebEncoder.encode_shifting escapes, alike other same]
    rfl

end CharsetEncoder

end Sluice
