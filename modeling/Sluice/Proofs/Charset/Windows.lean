import Sluice.Proofs.Charset.Fitting

/-! A text that goes through an encoder string by string and window by window. However it is cut, and whatever
room there is for each call, its bytes are those of a single call. -/
namespace Sluice

/-- What a call has done whose encoder had turned a text into some bytes before: it has read a front of its own
text, and has stopped at the end of it or in front of a character that is too long for what its window had left. -/
structure Encoded.Continues (e : Encoded) (charset : Charset) (done : List Char) (held : List UInt8) (room : Nat)
    (text front rest : List Char) : Prop where
  cut : text = front ++ rest
  read : e.read = Text.utf8Length front
  within : e.bytes.length ≤ room
  spelled : charset.reference (done ++ front) = some (held ++ e.bytes)
  used : e.stop = .inputUsed ↔ rest = []
  full : e.stop = .outputFull ↔
    ∃ c after, rest = c :: after ∧ room - e.bytes.length < charset.need (done ++ front) c

namespace BuiltInEncoder

variable {charset : Charset} (builtIn : ∀ e, charset ≠ .web e)

/-- The encoder behind a text. It owes the mark if there is one and the text is empty. -/
def behind (charset : Charset) (done : List Char) : BuiltInEncoder := ⟨charset, charset = .utf16 && done.isEmpty⟩

private theorem behind_nil (charset : Charset) : behind charset [] = .ofCharset charset := by
  simp [behind, ofCharset]

include builtIn

/-- With room for all of its bytes a text goes through in one call. -/
theorem encodeChars_whole {owed : Bool} {room : Nat} {text : List Char} {own : List UInt8}
    (spelled : charset.unmarked text = some own) (enough : (markOf owed text ++ own).length ≤ room) :
    encodeChars charset owed room text =
      (.ok ⟨.inputUsed, Text.utf8Length text, markOf owed text ++ own⟩, owed && text.isEmpty) := by
  obtain ⟨front, rest, xs, rfl, here, _, halts, owes⟩ := encodeChars_proceeds builtIn owed room text
  obtain ⟨xs', ys, here', there⟩ := Charset.unmarked_parts builtIn spelled
  obtain rfl := Option.some.inj (here.symm.trans here')
  obtain rfl := Option.some.inj ((Charset.unmarked_append builtIn here there).symm.trans spelled)
  generalize encodeChars charset owed room (front ++ rest) = outcome at halts owes
  obtain ⟨result, owed'⟩ := outcome
  cases halts with
  | used =>
    obtain rfl := owes
    obtain rfl := Option.some.inj ((Charset.unmarked_nil builtIn).symm.trans there)
    simp
  | @full c after single letter tight =>
    -- the character behind the front has room, as the whole of the text has
    rw [Charset.unmarked_cons, letter] at there
    obtain ⟨more, _, rfl⟩ := Option.map_eq_some_iff.mp there
    have mark : markOf (owed && front.isEmpty) (c :: after) = markOf (owed && front.isEmpty) [c] := by
      simp [markOf]
    rw [markOf_append, mark] at enough
    simp only [List.length_append] at enough tight
    omega
  | unmappable silent => simp [Charset.unmarked_cons, silent] at there

/-- A new encoder with room for all of a text's encoding writes it in one call. -/
theorem encode_whole {text : List Char} {encoded : List UInt8} (spelled : charset.reference text = some encoded)
    {room : Nat} (enough : encoded.length ≤ room) (last : Bool) :
    Encoder.encode (ofCharset charset) text room last =
      (.ok ⟨.inputUsed, Text.utf8Length text, encoded⟩, behind charset text) := by
  rw [Charset.reference_eq] at spelled
  obtain ⟨own, own_spelled, rfl⟩ := Option.map_eq_some_iff.mp spelled
  simp only [Encoder.encode, ofCharset, encodeChars_whole builtIn own_spelled enough, behind]

/-- A call continues where the calls before it have come to. One that fails has met a character without bytes, and
leaves the encoder as it was. -/
theorem encode_behind {done : List Char} {held : List UInt8} (before : charset.reference done = some held)
    (text : List Char) (room : Nat) (last : Bool) :
    match Encoder.encode (behind charset done) text room last with
    | (.ok e, encoder) => ∃ front rest, e.Continues charset done held room text front rest ∧
        encoder = behind charset (done ++ front)
    | (.error fault, encoder) => encoder = behind charset done ∧
        ∃ front c rest, text = front ++ c :: rest ∧ charset.bytes c = .error fault := by
  obtain ⟨front, rest, own, rfl, spelled, within, halts, owes⟩ :=
    encodeChars_proceeds builtIn (charset = .utf16 && done.isEmpty) room text
  have whole : charset.reference (done ++ front) =
      some (held ++ (markOf (charset = .utf16 && done.isEmpty) front ++ own)) := by
    refine Charset.reference_append builtIn before ?_
    rw [spelled]
    rfl
  simp only [Encoder.encode, behind, Text.isEmpty_append]
  generalize encodeChars charset (charset = .utf16 && done.isEmpty) room (front ++ rest) = outcome at halts owes
  obtain ⟨result, owed'⟩ := outcome
  obtain rfl := owes
  cases halts with
  | used =>
    refine ⟨front, [], ⟨rfl, rfl, within, whole, by simp, by simp⟩, ?_⟩
    rw [Bool.and_assoc]
  | @full c after single letter tight =>
    refine ⟨front, c :: after, ⟨rfl, rfl, within, whole, by simp, fun _ => ⟨c, after, rfl, ?_⟩, fun _ => rfl⟩, ?_⟩
    · rw [need_eq builtIn letter, Text.isEmpty_append, ← Bool.and_assoc]
      dsimp only
      omega
    · rw [Bool.and_assoc]
  | @unmappable c after fault silent =>
    refine ⟨?_, front, c, after, rfl, silent⟩
    have other : charset ≠ .utf16 := by
      rintro rfl
      simp [Charset.bytes] at silent
    simp [other]

end BuiltInEncoder

open BuiltInEncoder (behind)

/-- A text on its way through an encoder: the strings that are left of it, of which the first may have been begun,
and the characters read and the bytes written so far. -/
structure Passage where
  encoder : BuiltInEncoder
  pending : List (List Char)
  consumed : List Char
  output : List UInt8

namespace Passage

def start (encoder : BuiltInEncoder) (parts : List (List Char)) : Passage := ⟨encoder, parts, [], []⟩

/-- Offer the string at hand to the encoder, with a window of some room and told whether it is the last. The next
call resumes it where this one has stopped reading, or goes on to the next string. -/
def step (p : Passage) (call : Nat × Bool) : Passage :=
  match p.pending with
  | [] => p
  | text :: parts =>
    match Encoder.encode p.encoder text call.1 call.2 with
    | (.error _, encoder) => { p with encoder }
    | (.ok e, encoder) =>
      { encoder
        pending := if e.stop = .inputUsed then parts else Text.dropUtf8 e.read text :: parts
        consumed := p.consumed ++ Text.takeUtf8 e.read text
        output := p.output ++ e.bytes }

def run (calls : List (Nat × Bool)) (p : Passage) : Passage := calls.foldl step p

/-- What holds of a text on its way: nothing of it is lost, what was written is the encoding of what was read,
and the encoder is behind that. -/
structure Sound (charset : Charset) (text : List Char) (p : Passage) : Prop where
  whole : p.consumed ++ p.pending.flatten = text
  spelled : charset.reference p.consumed = some p.output
  encoder : p.encoder = behind charset p.consumed

variable {charset : Charset} (builtIn : ∀ e, charset ≠ .web e)
include builtIn

private theorem sound_start (parts : List (List Char)) :
    (start (.ofCharset charset) parts).Sound charset parts.flatten := by
  refine ⟨rfl, ?_, (BuiltInEncoder.behind_nil charset).symm⟩
  rw [start, Charset.reference_eq, Charset.unmarked_nil builtIn]
  simp [markOf]

theorem Sound.step {text : List Char} {p : Passage} (h : p.Sound charset text) (call : Nat × Bool) :
    (p.step call).Sound charset text := by
  obtain ⟨encoder, pending, consumed, output⟩ := p
  obtain ⟨rfl, spelled, at_consumed⟩ := h
  obtain rfl : encoder = behind charset consumed := at_consumed
  cases pending with
  | nil => exact ⟨rfl, spelled, rfl⟩
  | cons string parts =>
    have called := BuiltInEncoder.encode_behind builtIn spelled string call.1 call.2
    simp only [Passage.step]
    generalize Encoder.encode (behind charset consumed) string call.1 call.2 = answer at called
    obtain ⟨fault | e, encoder⟩ := answer
    · exact ⟨rfl, spelled, called.1⟩
    · obtain ⟨front, rest, continues, rfl⟩ := called
      obtain rfl := continues.cut
      have taken : Text.takeUtf8 e.read (front ++ rest) = front := by
        rw [continues.read, Text.takeUtf8_append]
      refine ⟨?_, ?_, ?_⟩
      · simp only [taken, List.flatten_cons, List.append_assoc]
        congr 2
        split
        next used => rw [continues.used.mp used, List.nil_append]
        next => rw [List.flatten_cons, continues.read, Text.dropUtf8_append]
      · simpa only [taken] using continues.spelled
      · simp only [taken]

theorem Sound.run {text : List Char} {p : Passage} (h : p.Sound charset text) (calls : List (Nat × Bool)) :
    (p.run calls).Sound charset text := by
  induction calls generalizing p with
  | nil => exact h
  | cons call calls ih => exact ih (h.step builtIn call)

end Passage

/-- A text in a built-in charset, cut into strings in any way, goes through an encoder that is new or was reset, in
windows of any sizes. Nothing of it is lost, the bytes so far are the encoding of what was read so far, with one
mark in front for UTF-16 of unstated byte order, and a single call on that text would have written them and left the
encoder in the same state. A call reads up to a character, writes within its window, and stops at the end of its
string or else in front of a character that is too long for the room left, with the mark if that is still owed. It
fails over a character without bytes only, and then the encoder is as it was. -/
theorem encoding_in_windows (charset : Charset) (builtIn : ∀ e, charset ≠ .web e) (first : BuiltInEncoder)
    (fresh : first = .ofCharset charset ∨
      ∃ used : BuiltInEncoder, used.charset = charset ∧ first = Encoder.reset used)
    (parts : List (List Char)) (calls : List (Nat × Bool)) :
    let p := (Passage.start first parts).run calls
    p.consumed ++ p.pending.flatten = parts.flatten ∧
    charset.reference p.consumed = some p.output ∧
    (∀ room last, p.output.length ≤ room → Encoder.encode first p.consumed room last =
      (.ok ⟨.inputUsed, Text.utf8Length p.consumed, p.output⟩, p.encoder)) ∧
    ∀ text room last,
      (∀ e encoder, Encoder.encode p.encoder text room last = (.ok e, encoder) →
        ∃ front rest, e.Continues charset p.consumed p.output room text front rest) ∧
      (∀ fault encoder, Encoder.encode p.encoder text room last = (.error fault, encoder) → encoder = p.encoder ∧
        ∃ front c rest, text = front ++ c :: rest ∧ charset.unmarked [c] = none ∧
          fault = .unmappable c charset.name) ∧
      (charset.unmarked text ≠ none → ∃ e, (Encoder.encode p.encoder text room last).1 = .ok e) := by
  intro p
  have new : first = .ofCharset charset := by
    rcases fresh with rfl | ⟨used, rfl, rfl⟩
    · rfl
    · rfl
  subst new
  have sound : p.Sound charset parts.flatten := (Passage.sound_start builtIn parts).run builtIn calls
  obtain ⟨whole, spelled, encoder⟩ := sound
  refine ⟨whole, spelled, fun room last enough => ?_, fun text room last => ?_⟩
  · rw [encoder]
    exact BuiltInEncoder.encode_whole builtIn spelled enough last
  · have called := BuiltInEncoder.encode_behind builtIn spelled text room last
    rw [← encoder] at called
    refine ⟨fun e after ran => ?_, fun fault after ran => ?_, fun mappable => ?_⟩
    · rw [ran] at called
      obtain ⟨front, rest, continues, _⟩ := called
      exact ⟨front, rest, continues⟩
    · rw [ran] at called
      obtain ⟨same, front, c, rest, cut, silent⟩ := called
      exact ⟨same, front, c, rest, cut, by simp [Charset.unmarked_cons, silent], Charset.bytes_error builtIn silent⟩
    · generalize Encoder.encode p.encoder text room last = answer at called
      obtain ⟨fault | e, after⟩ := answer
      · obtain ⟨_, front, c, rest, rfl, silent⟩ := called
        refine absurd (Option.eq_none_iff_forall_ne_some.mpr fun own spelled => ?_) mappable
        obtain ⟨_, _, _, there⟩ := Charset.unmarked_parts builtIn spelled
        simp [Charset.unmarked_cons, silent] at there
      · exact ⟨e, rfl⟩

/-- An encoder of UTF-16 that was used before and reset. The first window is too small for the mark and a letter, one
in front of an empty string has no room at all, and one ends in the midst of a string. -/
theorem encoding_in_windows_utf16 :
    let first : BuiltInEncoder := Encoder.reset (⟨.utf16, false⟩ : BuiltInEncoder)
    let parts := [['a'], [], ['😀', 'b']]
    let p := (Passage.start first parts).run [(3, false), (4, false), (0, false), (3, false), (5, false), (2, true)]
    (∀ e, Charset.utf16 ≠ .web e) ∧
    (∃ used : BuiltInEncoder, used.charset = .utf16 ∧ first = Encoder.reset used) ∧
    p.pending = [] ∧ p.output = [0xFE, 0xFF, 0, 97, 0xD8, 0x3D, 0xDE, 0, 0, 98] ∧
    Charset.utf16.reference parts.flatten = some p.output ∧
    Encoder.encode first parts.flatten 10 true = (.ok ⟨.inputUsed, 6, p.output⟩, p.encoder) := by
  intro first parts p
  have fresh : ∃ used : BuiltInEncoder, used.charset = .utf16 ∧ first = Encoder.reset used :=
    ⟨⟨.utf16, false⟩, rfl, rfl⟩
  obtain ⟨whole, spelled, once, _⟩ := encoding_in_windows .utf16 nofun first (.inr fresh) parts
    [(3, false), (4, false), (0, false), (3, false), (5, false), (2, true)]
  have finished : p.pending = [] := by decide +kernel
  have output : p.output = [0xFE, 0xFF, 0, 97, 0xD8, 0x3D, 0xDE, 0, 0, 98] := by decide +kernel
  have consumed : p.consumed = parts.flatten := by decide +kernel
  change Charset.utf16.reference p.consumed = some p.output at spelled
  refine ⟨nofun, fresh, finished, output, consumed ▸ spelled, ?_⟩
  have called := once 10 true (by decide +kernel)
  change Encoder.encode first p.consumed 10 true =
    (.ok ⟨.inputUsed, Text.utf8Length p.consumed, p.output⟩, p.encoder) at called
  rw [consumed] at called
  exact called

end Sluice
