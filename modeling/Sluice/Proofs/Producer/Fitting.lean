import Sluice.Bench.Index
import Sluice.Bench.Recorder
import Sluice.Proofs.Charset.Fitting
import Sluice.Proofs.Producer.Progress
import Sluice.Proofs.Producer.Transcription

/-! A producer of text comes to its end if and only if its stage has room for every single character. If not,
it stands in front of the first one that does not fit, for ever. -/
namespace Sluice

variable {ι σ : Type} [Transport ι σ]

namespace TextCoder

/-- What the coder does with a chunk behind a text that it has taken: the front of the chunk goes to the stage,
and if something is left, the stage is to be flushed. If that is empty then, it has no room for what is left. -/
structure Cuts (charset : Charset) (done front left : List Char) (stage : Stage) (result : Except Fault Nat)
    (coder' : TextCoder CharsetEncoder) (stage' : Stage) (c' : Chronicle ι σ) : Prop where
  answered : result = .ok (Text.utf8Length front)
  sized : stage'.capacity = stage.capacity
  within : stage'.length ≤ stage.capacity
  fits : charset.Fits stage.capacity (done ++ front)
  spelled : charset.reference (done ++ front) = some (c'.output ++ stage'.bytes)
  encoder : coder'.encoder = .builtIn ⟨charset, charset = .utf16 && (done ++ front).isEmpty⟩
  flushes : left ≠ [] → coder'.overflowed = true
  stops : left ≠ [] → stage'.bytes = [] →
    ∃ d after, left = d :: after ∧ stage.capacity < charset.need (done ++ front) d

private theorem accept_cuts [CodeIndex] {charset : Charset} (builtIn : ∀ e, charset ≠ .web e)
    {coder : TextCoder CharsetEncoder}
    {stage : Stage} (within : stage.length ≤ stage.capacity) {done : List Char}
    (fits : charset.Fits stage.capacity done) {c : Chronicle ι σ}
    (spelled : charset.reference done = some (c.output ++ stage.bytes))
    (encoder : coder.encoder = .builtIn ⟨charset, charset = .utf16 && done.isEmpty⟩) {chunk : List Char}
    {own : List UInt8} (mappable : charset.unmarked chunk = some own) (hint : Nat) (ch : ι) :
    let after := accept coder stage chunk hint (some ch) c
    ∃ front left, chunk = front ++ left ∧
      Cuts charset done front left stage after.1 after.2.1 after.2.2.1 after.2.2.2 := by
  have legit : (decide (charset = .utf16) && done.isEmpty) = true → charset = .utf16 := by
    simp only [Bool.and_eq_true, decide_eq_true_eq]
    exact And.left
  obtain ⟨e, front, left, answered, rfl, read, room, stops⟩ :=
    BuiltInEncoder.encodeChars_stops builtIn done stage.remaining mappable
  cases encoded : BuiltInEncoder.encodeChars charset (decide (charset = .utf16) && done.isEmpty)
      stage.remaining (front ++ left) with
  | mk outcome owed' =>
    obtain rfl : outcome = .ok e := (congrArg Prod.fst encoded).symm.trans answered
    obtain ⟨small, _⟩ := BuiltInEncoder.encodeChars_ok builtIn encoded
    have accepted := accept_encoded encoder encoded small hint (some ch) c
    obtain ⟨⟨_, ⟨bytes, staged, more⟩, encoder'⟩, output, _⟩ :=
      accept_transcribes builtIn legit encoder stage (front ++ left) hint (some ch) c
    have taken : textOf (front ++ left) (.ok e.read) = front := by
      rw [textOf, read, Text.takeUtf8_append]
    rw [accepted] at staged encoder' output more
    rw [taken] at more encoder'
    refine ⟨front, left, rfl, ?_⟩
    rw [accepted]
    constructor
    · exact congrArg Except.ok read
    · rfl
    · simp only [Stage.length, Stage.remaining, List.length_append] at small within ⊢
      omega
    · exact fits.append fun before d after h => Nat.le_trans (room before d after h) (Nat.sub_le _ _)
    · rw [Charset.reference_append builtIn spelled more, output, List.append_assoc]
      exact congrArg (fun bytes => some (c.output ++ bytes)) staged.symm
    · rw [Text.isEmpty_append, ← Bool.and_assoc]
      exact encoder'
    · intro some
      rcases stops with ⟨_, none⟩ | ⟨stopped, _⟩
      · exact absurd none some
      · simp [stopped]
    · intro some empty
      obtain ⟨before, own⟩ := List.append_eq_nil_iff.mp empty
      rcases stops with ⟨_, none⟩ | ⟨_, d, after, rfl, tight⟩
      · exact absurd none some
      · -- with an empty stage all of its room was there, and still it was too little
        refine ⟨d, after, rfl, ?_⟩
        simp only [own, Stage.remaining, Stage.length, before, List.length_nil] at tight
        omega

/-- How far the coder has come with a text: some front of it that fits the stage was taken, what has gone out
or is staged is its encoding, and the encoder is where that leaves it. -/
def Reaches (charset : Charset) (capacity : Nat) (text : List Char) (rest : List (List Char))
    (coder : TextCoder CharsetEncoder) (held : List UInt8) : Prop :=
  ∃ done, done ++ rest.flatten = text ∧ charset.Fits capacity done ∧ charset.reference done = some held ∧
    coder.encoder = .builtIn ⟨charset, charset = .utf16 && done.isEmpty⟩

/-- Whether a goal is reached where a text stops to fit, if it does. -/
def Reachable (charset : Charset) (capacity : Nat) (text : List Char) (goal : Nat) : Prop :=
  ∀ before c after held, text = before ++ c :: after → charset.Fits capacity before →
    capacity < charset.need before c → charset.reference before = some held → goal ≤ held.length

/-- The coder of text comes on with a text up to a character that does not fit the empty stage. -/
theorem coderProgress [CodeIndex] {charset : Charset} (builtIn : ∀ e, charset ≠ .web e)
    {capacity goal : Nat} {text : List Char}
    {encoded : List UInt8} (mappable : charset.reference text = some encoded)
    (reachable : Reachable charset capacity text goal) :
    CoderProgress capacity goal (Reaches charset capacity text) where
  accept {ι σ} _ {coder stage chunk rest} hint {ch c} sized within stands _ := by
    obtain ⟨done, rfl, fits, spelled, encoder⟩ := stands
    subst sized
    -- the chunk has bytes, since all of the text has
    obtain ⟨own, own_spelled⟩ : ∃ own, charset.unmarked chunk = some own := by
      rw [Charset.reference_eq] at mappable
      obtain ⟨_, mappable, _⟩ := Option.map_eq_some_iff.mp mappable
      obtain ⟨_, _, _, behind⟩ := Charset.unmarked_parts builtIn mappable
      rw [List.flatten_cons] at behind
      obtain ⟨own, _, here, _⟩ := Charset.unmarked_parts builtIn behind
      exact ⟨own, here⟩
    obtain ⟨front, left, rfl, cuts⟩ := accept_cuts builtIn within fits spelled encoder own_spelled hint ch
    have reaches : ∀ rest' : List (List Char), rest'.flatten = left ++ rest.flatten →
        Reaches charset stage.capacity (done ++ ((front ++ left) :: rest).flatten) rest' _ _ :=
      fun rest' same => ⟨done ++ front, by simp [same], cuts.fits, cuts.spelled, cuts.encoder⟩
    refine ⟨cuts.sized, cuts.within, _, cuts.answered, ?_⟩
    change if Text.utf8Length front < Text.utf8Length (front ++ left) then _ else _
    rw [Text.utf8Length_append]
    cases left with
    | nil =>
      rw [if_neg (by simp [Text.utf8Length])]
      exact reaches rest rfl
    | cons d after =>
      have positive := d.utf8Size_pos
      rw [if_pos (by simp only [Text.utf8Length]; omega)]
      refine ⟨reaches _ ?_, .inr ⟨cuts.flushes (by simp), fun empty => ?_⟩⟩
      · exact congrArg (· ++ rest.flatten) (Text.dropUtf8_append front (d :: after))
      · obtain ⟨_, _, same, tight⟩ := cuts.stops (by simp) empty
        obtain ⟨rfl, rfl⟩ := List.cons.inj same
        have empty : (coder.accept stage (front ++ d :: after) hint (some ch) c).2.2.1.bytes = [] := empty
        have spelled := cuts.spelled
        rw [empty, List.append_nil] at spelled
        exact reachable (done ++ front) d (after ++ rest.flatten) _ (by simp) cuts.fits tight spelled
  finish stands stage := by
    obtain ⟨_, _, _, _, encoder⟩ := stands
    exact finish_builtIn encoder stage
  forgets stands := stands

private theorem reachable_of_fits {charset : Charset} {capacity : Nat} {text : List Char}
    (fits : charset.Fits capacity text) (goal : Nat) : Reachable charset capacity text goal := by
  intro before c after _ same _ tight _
  exact absurd (fits before c after same) (Nat.not_le_of_lt tight)

private theorem reachable_of_stops {charset : Charset} {capacity : Nat} {before after : List Char} {c : Char}
    (fits : charset.Fits capacity before) (tight : capacity < charset.need before c) {front : List UInt8}
    (spelled : charset.reference before = some front) :
    Reachable charset capacity (before ++ c :: after) front.length := by
  intro other d more held same fits' tight' spelled'
  have early : other <+: before := fits'.stops tight (same ▸ List.prefix_append other (d :: more))
  have late : before <+: other := fits.stops tight' (same ▸ List.prefix_append before (c :: after))
  obtain rfl : other = before := early.eq_of_length (Nat.le_antisymm early.length_le late.length_le)
  obtain rfl := Option.some.inj (spelled'.symm.trans spelled)
  exact Nat.le_refl _

private theorem Reaches.stops {charset : Charset} (builtIn : ∀ e, charset ≠ .web e) {capacity : Nat}
    {before after : List Char} {c : Char} (tight : capacity < charset.need before c) {front : List UInt8}
    (spelled : charset.reference before = some front) {rest : List (List Char)}
    {coder : TextCoder CharsetEncoder} {held : List UInt8}
    (reaches : Reaches charset capacity (before ++ c :: after) rest coder held) : held <+: front := by
  obtain ⟨done, same, fits, here, _⟩ := reaches
  obtain ⟨more, rfl⟩ := fits.stops tight (same ▸ List.prefix_append done rest.flatten)
  obtain ⟨held', here', early⟩ := Charset.reference_front builtIn spelled
  obtain rfl := Option.some.inj (here.symm.trans here')
  exact early

private theorem Reaches.held {charset : Charset} (builtIn : ∀ e, charset ≠ .web e) {capacity : Nat} {text : List Char}
    {encoded : List UInt8} (mappable : charset.reference text = some encoded) {rest : List (List Char)}
    {coder : TextCoder CharsetEncoder} {held : List UInt8} (reaches : Reaches charset capacity text rest coder held) :
    held <+: encoded := by
  obtain ⟨done, rfl, _, here, _⟩ := reaches
  obtain ⟨held', here', early⟩ := Charset.reference_front builtIn mappable
  obtain rfl := Option.some.inj (here.symm.trans here')
  exact early

end TextCoder

section Finishing

variable [CodeIndex] {settings : ProducerSettings} {contentType : Option MediaType} {charset : Charset}
  (builtIn : ∀ e, charset ≠ .web e) {parts : List (List Char)} {encoded : List UInt8}
  (mappable : charset.reference parts.flatten = some encoded)
  {p : Producer (TextCoder CharsetEncoder) ι (Script (List Char))}
  (made : Producer.textWith settings contentType charset.encoder (Script.ofActions (Script.supply parts)) = .ok p)
  {world : σ} {chs : List ι} (obliging : (p.turns chs (Chronicle.start (ι := ι) world)).2.2.Obliging)
include builtIn mappable made obliging

private theorem Producer.textWith_turns {goal : Nat}
    (reachable : TextCoder.Reachable charset settings.bufferSize parts.flatten goal) :
    let after := p.turns chs (Chronicle.start (ι := ι) world)
    after.2.1.core.Arrived (TextCoder.Reaches charset settings.bufferSize parts.flatten) after.2.2 ∨
    (∀ result ∈ after.1, result = .ok ()) ∧
      after.2.1.Underway settings.bufferSize (TextCoder.Reaches charset settings.bufferSize parts.flatten) after.2.2 ∧
      (chs.length ≤ after.2.2.output.length ∨ goal ≤ after.2.2.output.length) := by
  have fresh : TextCoder.Reaches charset settings.bufferSize parts.flatten parts (.ofEncoder charset.encoder) [] := by
    refine ⟨[], rfl, Charset.fits_nil, ?_, ?_⟩
    · rw [Charset.reference_eq, Charset.unmarked_nil builtIn]
      simp [markOf]
    · rw [Charset.encoder_builtIn builtIn]
      simp [TextCoder.ofEncoder, BuiltInEncoder.ofCharset]
  have start := Producer.underway_start made fresh world
  have far := start.turns (TextCoder.coderProgress builtIn mappable reachable) obliging
  rwa [show (Chronicle.start (ι := ι) world).output.length = 0 from rfl, Nat.zero_add] at far

end Finishing

/-- A producer of text in a built-in charset with strings that have bytes there, with a stage and a hint of any
size, and channels that take at least one byte of all they are offered. If the stage has room for every single
character, a channel is told of the end in one turn more than there are bytes at the latest, and then exactly
the encoding has gone out. If not, no turn ever comes to the end. All of them succeed, and exactly what stands
before the first character that does not fit goes out, in as many turns as it has bytes at the latest. -/
theorem text_producer_finishes_iff [CodeIndex] (settings : ProducerSettings) (contentType : Option MediaType)
    (charset : Charset) (builtIn : ∀ e, charset ≠ .web e) (parts : List (List Char)) (encoded : List UInt8)
    (mappable : charset.reference parts.flatten = some encoded)
    (p : Producer (TextCoder CharsetEncoder) ι (Script (List Char)))
    (made : Producer.textWith settings contentType charset.encoder (Script.ofActions (Script.supply parts)) = .ok p)
    (world : σ) (chs : List ι) (obliging : (p.turns chs (Chronicle.start (ι := ι) world)).2.2.Obliging) :
    let after := p.turns chs (Chronicle.start (ι := ι) world)
    (after.2.2.told = false → ∀ result ∈ after.1, result = .ok ()) ∧
    (after.2.2.told = true → after.2.2.output = encoded) ∧
    (encoded.length < chs.length → (after.2.2.told = true ↔ charset.Fits settings.bufferSize parts.flatten)) ∧
    (¬ charset.Fits settings.bufferSize parts.flatten →
      ∃ before c rest front, parts.flatten = before ++ c :: rest ∧ charset.Fits settings.bufferSize before ∧
        settings.bufferSize < charset.need before c ∧ charset.reference before = some front ∧
        after.2.2.told = false ∧ after.2.2.output <+: front ∧
        (front.length ≤ chs.length → after.2.2.output = front)) := by
  intro after
  have arrives : after.2.1.core.Arrived (TextCoder.Reaches charset settings.bufferSize parts.flatten) after.2.2 →
      charset.Fits settings.bufferSize parts.flatten ∧ after.2.2.output = encoded := by
    intro arrived
    obtain ⟨done, same, fits, spelled, _⟩ := arrived.stands
    rw [List.flatten_nil, List.append_nil] at same
    subst same
    exact ⟨fits, Option.some.inj (spelled.symm.trans mappable)⟩
  by_cases fits : charset.Fits settings.bufferSize parts.flatten
  · have reachable := TextCoder.reachable_of_fits fits (encoded.length + 1)
    rcases Producer.textWith_turns builtIn mappable made obliging reachable with arrived | ⟨passed, underway, far⟩
    · refine ⟨fun untold => ?_, fun _ => (arrives arrived).2, fun _ => ⟨fun _ => fits, fun _ => arrived.told⟩,
        fun tight => absurd fits tight⟩
      exact absurd arrived.told (Bool.eq_false_iff.mp untold)
    · obtain ⟨rest, here, _⟩ := underway
      have early : after.2.2.output <+: encoded :=
        (List.prefix_append _ _).trans (here.stands.held builtIn mappable)
      have bound := early.length_le
      refine ⟨fun _ => passed, fun told => ?_, fun enough => ?_, fun tight => absurd fits tight⟩
      · exact absurd told (Bool.eq_false_iff.mp here.untold)
      · change chs.length ≤ after.2.2.output.length ∨ encoded.length + 1 ≤ after.2.2.output.length at far
        omega
  · obtain ⟨before, c, rest, same, first, tight⟩ := Charset.exists_stop fits
    obtain ⟨front, spelled, _⟩ := Charset.reference_front builtIn (same ▸ mappable)
    have reachable : TextCoder.Reachable charset settings.bufferSize parts.flatten front.length := by
      rw [same]
      exact TextCoder.reachable_of_stops first tight spelled
    rcases Producer.textWith_turns builtIn mappable made obliging reachable with arrived | ⟨passed, underway, far⟩
    · exact absurd (arrives arrived).1 fits
    · obtain ⟨_, here, _⟩ := underway
      have never : after.2.2.told ≠ true := Bool.eq_false_iff.mp here.untold
      have reaches := here.stands
      rw [same] at reaches
      have early : after.2.2.output <+: front :=
        (List.prefix_append _ _).trans (reaches.stops builtIn tight spelled)
      refine ⟨fun _ => passed, fun told => absurd told never, fun _ => ?_,
        fun _ => ⟨before, c, rest, front, same, first, tight, spelled, here.untold, early, fun enough => ?_⟩⟩
      · exact ⟨fun told => absurd told never, fun whole => absurd whole fits⟩
      · change chs.length ≤ after.2.2.output.length ∨ front.length ≤ after.2.2.output.length at far
        exact early.eq_of_length_le (by omega)

section Sample

attribute [local instance] sampleIndex

/-- In UTF-16 a stage for four bytes has room for a pair of surrogates, yet not behind the mark. The channel
takes byte by byte. -/
theorem text_producer_finishes_iff_utf16 :
    let settings : ProducerSettings := ⟨4, some 6⟩
    let behind : List (List Char) := [['a'], [], ['b', '😀']]
    let first : List (List Char) := [['😀', 'a']]
    let producer : List (List Char) → Producer (TextCoder CharsetEncoder) Nat (Script (List Char)) := fun parts =>
      ⟨.initial 4 (.ofEncoder (.builtIn ⟨.utf16, true⟩)), .ofActions (Script.supply parts), 6, none⟩
    let world : List FaultyRecorder := [⟨.withLimit (some 1), ⟨false, false, 0⟩⟩]
    let turns := List.replicate 11 0
    (∀ parts, Producer.textWith settings none Charset.utf16.encoder (Script.ofActions (Script.supply parts)) =
      .ok (producer parts)) ∧
    ((producer behind).turns turns (Chronicle.start (ι := Nat) world)).2.2.Obliging ∧
    Charset.utf16.Fits 4 behind.flatten ∧
    ((producer behind).turns turns (Chronicle.start (ι := Nat) world)).2.2.output =
      [0xFE, 0xFF, 0, 97, 0, 98, 0xD8, 0x3D, 0xDE, 0] ∧
    ((producer first).turns turns (Chronicle.start (ι := Nat) world)).2.2.Obliging ∧
    ¬ Charset.utf16.Fits 4 first.flatten ∧
    (∀ result ∈ ((producer first).turns turns (Chronicle.start (ι := Nat) world)).1, result = .ok ()) := by
  intro settings behind first producer world turns
  have through : ((producer behind).turns turns (Chronicle.start (ι := Nat) world)).2.2.Obliging := by decide +kernel
  have stuck : ((producer first).turns turns (Chronicle.start (ι := Nat) world)).2.2.Obliging := by decide +kernel
  have ended : ((producer behind).turns turns (Chronicle.start (ι := Nat) world)).2.2.told = true := by decide +kernel
  have open' : ((producer first).turns turns (Chronicle.start (ι := Nat) world)).2.2.told = false := by decide +kernel
  have law := text_producer_finishes_iff settings none .utf16 nofun behind
    [0xFE, 0xFF, 0, 97, 0, 98, 0xD8, 0x3D, 0xDE, 0] (by decide +kernel) (producer behind) rfl world turns through
  have law' := text_producer_finishes_iff settings none .utf16 nofun first
    [0xFE, 0xFF, 0xD8, 0x3D, 0xDE, 0, 0, 97] (by decide +kernel) (producer first) rfl world turns stuck
  refine ⟨fun _ => rfl, through, (law.2.2.1 (by decide)).mp ended, law.2.1 ended, stuck, ?_, law'.1 open'⟩
  intro fits
  exact absurd ((law'.2.2.1 (by decide)).mpr fits) (Bool.eq_false_iff.mp open')

end Sample

end Sluice
