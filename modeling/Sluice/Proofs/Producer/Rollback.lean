import Sluice.Bench.Index
import Sluice.Proofs.Producer.Finalization
import Sluice.Proofs.Producer.Renewal
import Sluice.Proofs.Producer.Stranding
import Sluice.Proofs.Producer.Transcription

/-! A write of text that fails. The stage is what it was, and no channel has noticed anything. Only the encoder has
been through the text: where it writes shifts, it stays in the one that the text has led to, while the escape
sequences for that are gone. -/
namespace Sluice

variable {ε ι σ : Type}

namespace Shift

variable [CodeIndex]

private theorem target?_control {shift target : Shift} {c : Char} (control : isControl c = true)
    (asked : shift.target? c = some target) : target ≠ .jis0208 := by
  have point : c.toNat < 0x80 := by
    simp only [isControl, Bool.or_eq_true, beq_iff_eq] at control
    rcases control with (rfl | rfl) | rfl <;> decide
  rintro rfl
  cases shift with
  | roman =>
    simp only [target?, if_pos point] at asked
    split at asked <;> cases asked
  | _ =>
    simp only [target?, if_pos point] at asked
    cases asked

private theorem encodeChars_error (last : Bool) (text : List Char) :
    ∀ {shift after : Shift} {room : Nat} {c : Char}, encodeChars last shift room text = (.error c, after) →
      3 ≤ room ∧ after ≠ .jis0208 := by
  induction text with
  | nil =>
    intro shift after room c failed
    rw [encodeChars] at failed
    split at failed
    · split at failed <;> cases failed
    · cases failed
  | cons first rest ih =>
    intro shift after room c failed
    rw [encodeChars] at failed
    split at failed
    · cases failed
    next roomy =>
      refine ⟨Nat.le_of_not_lt roomy, ?_⟩
      split at failed
      · obtain ⟨_, rfl⟩ := Prod.mk.inj failed
        cases shift <;> decide
      next target asked =>
        generalize (if target = shift then [] else target.escape) = escape at failed
        dsimp only at failed
        split at failed
        · cases failed
        · split at failed
          next control =>
            obtain ⟨_, rfl⟩ := Prod.mk.inj failed
            exact target?_control control asked
          · obtain ⟨mapped, rfl⟩ := Prod.mk.inj failed
            exact (ih (Prod.ext (error_of_map mapped) rfl)).2

private theorem encodeChars_letter {room : Nat} (roomy : 3 ≤ room) (shift : Shift) :
    ∃ x, (encodeChars false shift room ['a']).1 = .ok x ∧
      x.bytes.head? = some (if shift = .jis0208 then 0x1B else 0x61) := by
  have tight : ¬ room < 3 := Nat.not_lt.mpr roomy
  have target : shift.target? 'a' = some (if shift = .jis0208 then .ascii else shift) := by
    cases shift <;> rfl
  have plain : isControl 'a' = false := by decide
  cases shift with
  | jis0208 =>
    by_cases escaped : room - 3 < 3
    · exact ⟨⟨.outputFull, 0, ascii.escape⟩, by simp [encodeChars, tight, target, escape, escaped], rfl⟩
    · exact ⟨⟨.inputUsed, 1, ascii.escape ++ [0x61]⟩,
        by simp [encodeChars, tight, target, escape, escaped, plain, Except.map, Encoded.after]; exact ⟨rfl, rfl⟩, rfl⟩
  | _ =>
    exact ⟨⟨.inputUsed, 1, [0x61]⟩,
      by simp [encodeChars, tight, target, plain, Except.map, Encoded.after]; exact ⟨rfl, rfl⟩, rfl⟩
end Shift

/-- The encoders that a charset is written with, wherever they are in a text. -/
def CharsetEncoder.Writes (charset : Charset) : CharsetEncoder → Prop
  | builtIn e => e.charset = charset ∧ (∀ w, charset ≠ .web w) ∧ (e.markOwed = true → charset = .utf16)
  | web e => charset = .web e.encoding

namespace CharsetEncoder

variable [CodeIndex] {charset : Charset} {e : CharsetEncoder}

/-- A text that has no bytes leaves an encoder as it is, but for the shift. -/
theorem Writes.failed (h : e.Writes charset) {text : List Char} {room : Nat} {fault : Fault} {e' : CharsetEncoder}
    (failed : Encoder.encode e text room false = (.error fault, e')) :
    e' = e ∨ ∃ before after, charset = .web .iso2022Jp ∧ e = .web ⟨.iso2022Jp, before⟩ ∧
      e' = .web ⟨.iso2022Jp, after⟩ ∧ after = (Shift.encodeChars false before room text).2 ∧ after ≠ before ∧
      after ≠ .jis0208 ∧ 3 ≤ room := by
  cases e with
  | builtIn e =>
    obtain ⟨charset', owed⟩ := e
    obtain ⟨rfl, builtIn, legit⟩ := h
    rcases called : BuiltInEncoder.encodeChars charset' owed room text with ⟨result, owed'⟩
    have whole : (result, CharsetEncoder.builtIn ⟨charset', owed'⟩) = (.error fault, e') := by
      simpa [Encoder.encode, called] using failed
    obtain ⟨rfl, rfl⟩ := Prod.mk.inj whole
    obtain ⟨other, quiet⟩ := BuiltInEncoder.encodeChars_error builtIn called
    have none : owed = false := Bool.eq_false_iff.mpr fun owed => other (legit owed)
    exact .inl (by rw [none, quiet none])
  | web e =>
    obtain ⟨encoding, before⟩ := e
    by_cases shifts : encoding = .iso2022Jp
    · subst shifts
      rcases called : Shift.encodeChars false before room text with ⟨result, after⟩
      have whole : (WebEncoder.named .iso2022Jp result, CharsetEncoder.web ⟨.iso2022Jp, after⟩) =
          (.error fault, e') := by
        simpa [Encoder.encode, called] using failed
      obtain ⟨unnamed, rfl⟩ := Prod.mk.inj whole
      cases result with
      | ok x => cases unnamed
      | error c =>
        obtain ⟨roomy, narrow⟩ := Shift.encodeChars_error false text called
        by_cases same : after = before
        · exact .inl (by rw [same])
        · exact .inr ⟨before, after, h, rfl, rfl, by rw [called], same, narrow, roomy⟩
    · have stays := WebEncoder.encode_stateless (e := ⟨encoding, before⟩) shifts text room false
      have whole : (Encoder.encode (⟨encoding, before⟩ : WebEncoder) text room false).map id web =
          (.error fault, e') := failed
      rw [stays] at whole
      exact .inl (Prod.mk.inj whole).2.symm

end CharsetEncoder

/-- A failure of the encoder takes back what was written, but not where the encoder is. -/
theorem TextCoder.accept_error [Encoder ε] [Transport ι σ] {coder : TextCoder ε} {stage : Stage} {text : List Char}
    {hint : Nat} {ch : ι} {s : σ} {fault : Fault} (failed : (accept coder stage text hint ch s).1 = .error fault) :
    ∃ encoder, Encoder.encode coder.encoder text stage.remaining false = (.error fault, encoder) ∧
      accept coder stage text hint ch s = (.error fault, { coder with encoder }, stage, s) := by
  rcases called : Encoder.encode coder.encoder text stage.remaining false with ⟨result, encoder⟩
  cases result with
  | error fault' =>
    have same : accept coder stage text hint ch s = (.error fault', { coder with encoder }, stage, s) := by
      simp [accept, called, Stage.writeWith_eq, Except.map]
    rw [same] at failed ⊢
    cases failed
    exact ⟨encoder, rfl, rfl⟩
  | ok x =>
    cases stopped : x.stop <;>
      simp [accept, called, Stage.writeWith_eq, Except.map, filled, stopped] at failed

namespace CoreRun

section
variable {γ κ : Type} [Coder γ κ] [Transport ι σ]

private theorem run_unwritten (hint : Nat) (sections : List (Section κ ι σ)) :
    ∀ {l l' : CoreRun γ κ ι σ}, l'.core = l.core → l'.channels = l.channels →
      (l'.run hint sections).channels = (l.run hint sections).channels := by
  induction sections with
  | nil => exact fun _ channels => channels
  | cons s rest ih =>
    intro l l' core channels
    obtain ⟨_, _, writes⟩ := l'
    obtain ⟨rfl, rfl⟩ : _ = l.core ∧ _ = l.channels := ⟨core, channels⟩
    have same : (perform hint ⟨l.core, l.channels, writes⟩ s).core = (l.perform hint s).core ∧
        (perform hint ⟨l.core, l.channels, writes⟩ s).channels = (l.perform hint s).channels := by
      cases s <;> exact ⟨rfl, rfl⟩
    exact ih same.1 same.2

end

variable [Transport ι σ]

/-- The encoder of a producer of text is one that its charset is written with. -/
theorem writes_run [CodeIndex] (charset : Charset) (capacity hint : Nat) (world : σ)
    (sections : List (Section (List Char) ι σ)) :
    ((initial capacity (.ofEncoder charset.encoder) world : CoreRun (TextCoder CharsetEncoder) _ ι σ).run
      hint sections).core.coder.encoder.Writes charset := by
  by_cases builtIn : ∀ w, charset ≠ .web w
  · rw [(tracked_run builtIn capacity hint world sections).encoder]
    refine ⟨rfl, builtIn, fun owed => ?_⟩
    exact of_decide_eq_true (Bool.and_eq_true_iff.mp owed).1
  · obtain ⟨encoding, rfl⟩ : ∃ w, charset = .web w := by simpa using builtIn
    have released := release_run hint sections
      (initial capacity (.ofEncoder (Charset.web encoding).encoder) world : CoreRun (TextCoder CharsetEncoder) _ ι σ)
    generalize run hint sections (initial capacity (.ofEncoder (Charset.web encoding).encoder) world :
      CoreRun (TextCoder CharsetEncoder) _ ι σ) = l at released ⊢
    have reset : Encoder.reset l.core.coder.encoder = CharsetEncoder.web (.ofEncoding encoding) :=
      congrArg (fun core => core.coder.encoder) released
    cases here : l.core.coder.encoder with
    | builtIn e =>
      rw [here] at reset
      cases reset
    | web e =>
      rw [here] at reset
      have same : WebEncoder.ofEncoding e.encoding = .ofEncoding encoding := CharsetEncoder.web.inj reset
      exact congrArg Charset.web (congrArg WebEncoder.encoding same).symm

end CoreRun

namespace Core

variable {γ κ : Type} [Transport ι σ] [Coder γ κ] {core : Core γ ι} {c : Chronicle ι σ} {ch : ι} {stage : Stage}

private theorem closeTurn_delivers (flushing : core.state = .flushing)
    (going : core.endSignalled = false) {whole : Bool}
    {coder : γ} (finished : Coder.finish core.coder core.stage = (.ok whole, coder, stage))
    (willing : (Transport.write ch stage.bytes c.world).1 = .ok stage.bytes.length) (hint : Nat) :
    (core.closeTurn hint ch c).2.2.output = c.output ++ stage.bytes := by
  obtain ⟨core', coded, rfl, behind⟩ : ∃ core', core.finishCoding = (.ok (), core') ∧ core'.stage = stage ∧
      core'.state ≠ .active := by
    rw [finishCoding, if_pos flushing, finished]
    cases whole with
    | true => exact ⟨_, rfl, rfl, StreamState.noConfusion⟩
    | false => exact ⟨_, rfl, rfl, flushing ▸ StreamState.noConfusion⟩
  have due : core'.isDue hint (Coder.takeFlushRequest core'.coder).1 = true := by
    simp [isDue, behind]
  obtain ⟨⟨n, passed⟩, empty⟩ := core'.stage.flushTo_taken (c := c) willing
  have drained : (core'.drain hint ch c).1 = .ok () ∧ (core'.drain hint ch c).2.1.stage.bytes = [] := by
    rw [drain_due due, passed]
    exact ⟨rfl, empty⟩
  have told := (core'.drain hint ch c).2.1.signal_keeps ch (core'.drain hint ch c).2.2
  rw [core'.drain_keeps, held, held, stage_signal, drained.2, List.append_nil] at told
  rw [closeTurn_drains going coded drained.1]
  exact told

end Core

namespace CoreRun

def withEncoder (l : CoreRun (TextCoder ε) (List Char) ι σ) (encoder : ε) : CoreRun (TextCoder ε) (List Char) ι σ :=
  { l with core := { l.core with coder := { l.core.coder with encoder } } }

section
variable [Encoder ε] [Seamless ε] [Transport ι σ] {l : CoreRun (TextCoder ε) (List Char) ι σ} {ch : ι} {world : σ}

private theorem output_ending (active : l.core.state = .active) (going : l.core.endSignalled = false)
    (willing : ∀ bytes, (Transport.write ch bytes world).1 = .ok bytes.length) (hint : Nat) :
    (l.run hint [.endStream, .become world, .closeTurn ch]).channels.output =
      l.channels.output ++ (TextCoder.finish l.core.coder l.core.stage).2.2.bytes := by
  obtain ⟨whole, encoder, front, finished, _⟩ := l.core.coder.finish_ends l.core.stage
  have ended : l.core.endStream = { l.core with state := .flushing } := if_pos active
  have flushing : l.core.endStream.state = .flushing := by rw [ended]
  have unsignalled : l.core.endStream.endSignalled = false := by rw [ended]; exact going
  have coded := (congrArg (fun core => Coder.finish core.coder core.stage) ended).trans finished
  rw [finished]
  exact Core.closeTurn_delivers (c := { l.channels with world }) flushing unsignalled coded (willing _) hint

private theorem output_written (active : l.core.state = .active) (going : l.core.endSignalled = false)
    (willing : ∀ bytes, (Transport.write ch bytes world).1 = .ok bytes.length) (hint : Nat) (text : List Char) :
    ∃ rest, (l.run hint [.write text, .endStream, .become world, .closeTurn ch]).channels.output =
      l.channels.output ++ (l.core.stage.bytes ++
        (EncoderCall.written ⟨l.core.coder.encoder, l.core.stage.remaining, text⟩ ++ rest)) := by
  obtain ⟨_, _, staged, output, _⟩ :=
    l.core.coder.accept_offers l.core.stage text hint l.core.channel l.channels
  have after : (l.perform hint (.write text)).core.state = .active ∧
      (l.perform hint (.write text)).core.endSignalled = false ∧
      (l.perform hint (.write text)).channels.output = l.channels.output ∧
      (l.perform hint (.write text)).core.stage.bytes = l.core.stage.bytes ++
        EncoderCall.written ⟨l.core.coder.encoder, l.core.stage.remaining, text⟩ := by
    simp only [perform, Core.write, if_pos active]
    exact ⟨active, going, output, staged⟩
  obtain ⟨still, unsignalled, same, bytes⟩ := after
  obtain ⟨_, _, front, finished, _⟩ := (l.perform hint (.write text)).core.coder.finish_ends
    (l.perform hint (.write text)).core.stage
  refine ⟨front, ?_⟩
  rw [run_cons, output_ending still unsignalled willing, same, finished, bytes, List.append_assoc]

end

section
variable [CodeIndex] {l : CoreRun (TextCoder CharsetEncoder) (List Char) ι σ}

private theorem finish_shifted (roomy : 3 ≤ l.core.stage.remaining) (shift : Shift) :
    (TextCoder.finish (l.withEncoder (.web ⟨.iso2022Jp, shift⟩)).core.coder l.core.stage).2.2.bytes =
      l.core.stage.bytes ++ if shift = .ascii then [] else Shift.ascii.escape := by
  have tight : ¬ l.core.stage.remaining < 3 := Nat.not_lt.mpr roomy
  cases shift <;>
    simp [withEncoder, TextCoder.finish, TextCoder.ending, Encoder.encode, Encoder.flush, Shift.encodeChars, tight,
      WebEncoder.named, Stage.writeWith_eq, windowPrefix, Shift.escape, Nat.min_eq_left roomy]

private theorem letter_shifted (roomy : 3 ≤ l.core.stage.remaining) (shift : Shift) :
    (EncoderCall.written ⟨(l.withEncoder (.web ⟨.iso2022Jp, shift⟩)).core.coder.encoder, l.core.stage.remaining,
      ['a']⟩).head? = some (if shift = .jis0208 then 0x1B else 0x61) := by
  obtain ⟨x, called, head⟩ := Shift.encodeChars_letter roomy shift
  rcases whole : Shift.encodeChars false shift l.core.stage.remaining ['a'] with ⟨result, after⟩
  obtain rfl : result = .ok x := (congrArg Prod.fst whole).symm.trans called
  simpa [withEncoder, EncoderCall.written, EncoderCall.outcome, Encoder.encode, whole,
    WebEncoder.named, Prod.map] using head

/-- A producer that has lost its shift is found out by what comes next: by the end of the text if one of the shifts
is ASCII, by a letter otherwise. -/
theorem shifts_differ [Transport ι σ] {before after : Shift} (here : l.core.coder.encoder = .web ⟨.iso2022Jp, before⟩)
    (distinct : after ≠ before) (narrow : after ≠ .jis0208) (roomy : 3 ≤ l.core.stage.remaining)
    (active : l.core.state = .active) (going : l.core.endSignalled = false) (hint : Nat) {ch : ι} {world : σ}
    (willing : ∀ bytes, (Transport.write ch bytes world).1 = .ok bytes.length) :
    ∃ later, ((l.withEncoder (.web ⟨.iso2022Jp, after⟩)).run hint later).channels.output ≠
      (l.run hint later).channels.output := by
  have same : l.withEncoder (.web ⟨.iso2022Jp, before⟩) = l := by
    rw [← here]
    rfl
  have ending : ∀ shift, ((l.withEncoder (.web ⟨.iso2022Jp, shift⟩)).run hint
      [.endStream, .become world, .closeTurn ch]).channels.output =
      l.channels.output ++ (l.core.stage.bytes ++ if shift = .ascii then [] else Shift.ascii.escape) := by
    intro shift
    rw [← finish_shifted roomy]
    exact output_ending (l := l.withEncoder (.web ⟨.iso2022Jp, shift⟩)) active going willing hint
  have writing : ∀ shift, ∃ bytes, ((l.withEncoder (.web ⟨.iso2022Jp, shift⟩)).run hint
      [.write ['a'], .endStream, .become world, .closeTurn ch]).channels.output =
      l.channels.output ++ (l.core.stage.bytes ++ bytes) ∧
      bytes.head? = some (if shift = .jis0208 then 0x1B else 0x61) := by
    intro shift
    obtain ⟨rest, output⟩ :=
      output_written (l := l.withEncoder (.web ⟨.iso2022Jp, shift⟩)) active going willing hint ['a']
    refine ⟨_, output, ?_⟩
    rw [List.head?_append]
    exact congrArg (·.or rest.head?) (letter_shifted roomy shift)
  by_cases ascii : after = .ascii ↔ before = .ascii
  · -- Both are other shifts, so that one of them is the wide one.
    have wide : before = .jis0208 := by
      cases before <;> cases after <;> simp_all
    refine ⟨[.write ['a'], .endStream, .become world, .closeTurn ch], fun equal => ?_⟩
    obtain ⟨bytes, output, head⟩ := writing after
    obtain ⟨bytes', output', head'⟩ := writing before
    rw [same] at output'
    rw [output, output'] at equal
    have first : bytes = bytes' := List.append_cancel_left (List.append_cancel_left equal)
    rw [first, head', if_neg narrow, if_pos wide] at head
    exact absurd head (by decide)
  · refine ⟨[.endStream, .become world, .closeTurn ch], fun equal => ?_⟩
    have plain := ending before
    rw [same] at plain
    rw [ending after, plain] at equal
    have tail := List.append_cancel_left (List.append_cancel_left equal)
    by_cases back : after = .ascii
    · rw [if_pos back, if_neg fun also => ascii (iff_of_true back also)] at tail
      cases tail
    · have also : before = .ascii := Decidable.of_not_not fun other => ascii (iff_of_false back other)
      rw [if_neg back, if_pos also] at tail
      cases tail

end

end CoreRun

private theorem CoreRun.perform_failing [Encoder ε] [Transport ι σ] {l : CoreRun (TextCoder ε) (List Char) ι σ}
    {hint : Nat} {text : List Char} {detail : String}
    (failing : (l.core.write hint text l.channels).1 = .error (.encoding detail)) :
    l.core.state = .active ∧ ∃ encoder,
      Encoder.encode l.core.coder.encoder text l.core.stage.remaining false = (.error (.encoding detail), encoder) ∧
      l.perform hint (.write text) =
        { l.withEncoder encoder with writes := l.writes ++ [⟨text, .error (.encoding detail)⟩] } := by
  have active : l.core.state = .active := Decidable.of_not_not fun behind => by
    rw [Core.write, if_neg behind] at failing
    cases failing
  rw [Core.write, if_pos active] at failing
  obtain ⟨encoder, called, took⟩ := TextCoder.accept_error failing
  refine ⟨active, encoder, called, ?_⟩
  have step : Coder.accept l.core.coder l.core.stage text hint l.core.channel l.channels = _ := took
  simp only [CoreRun.perform, Core.write, if_pos active, step]
  rfl

private theorem CoreRun.unsignalled [CodeIndex] [Transport ι σ] (charset : Charset) (capacity hint : Nat) (world : σ)
    (sections : List (Section (List Char) ι σ)) :
    let l := CoreRun.run hint sections (.initial capacity (TextCoder.ofEncoder charset.encoder) world)
    l.core.state = .active → l.core.endSignalled = false := by
  intro l active
  have sound := (EncodingRun.sound_initial capacity charset.encoder world).run hint sections
  obtain ⟨_, _, speaks⟩ := sound.speaks
  have same : (EncodingRun.run hint sections (.initial capacity charset.encoder world)).coreRun = l :=
    EncodingRun.coreRun_run hint sections _
  rw [same] at speaks
  refine Bool.eq_false_iff.mpr fun signalled => ?_
  have ended := (speaks.settled (.inr signalled)).1
  rw [active] at ended
  cases ended

/-- A write of text that fails takes the stage back, and no channel notices it. In every charset but ISO-2022-JP, what
comes later comes as if it had not been made. In ISO-2022-JP the encoder stays in the shift that the text in front of
the fault has led to. If that is another one than before, there is always something that comes out differently later. -/
theorem failed_write_moves_shift [CodeIndex] {τ : Type} [Source τ (List Char)] [Transport ι σ]
    (settings : ProducerSettings) (contentType : Option MediaType) (charset : Charset) (source : τ)
    (first : Producer (TextCoder CharsetEncoder) ι τ)
    (made : Producer.textWith settings contentType charset.encoder source = .ok first) (world : σ)
    (sections : List (Section (List Char) ι σ)) (text : List Char) (detail : String) :
    let l := CoreRun.run first.hint sections ⟨first.core, .start world, []⟩
    (l.core.write first.hint text l.channels).1 = .error (.encoding detail) →
    let failed := l.perform first.hint (.write text)
    ∃ encoder, failed = { l.withEncoder encoder with writes := l.writes ++ [⟨text, .error (.encoding detail)⟩] } ∧
      ((encoder = l.core.coder.encoder ∧
          ∀ later, (failed.run first.hint later).channels = (l.run first.hint later).channels) ∨
        ∃ before after, charset = .web .iso2022Jp ∧ l.core.coder.encoder = .web ⟨.iso2022Jp, before⟩ ∧
          encoder = .web ⟨.iso2022Jp, after⟩ ∧
          after = (Shift.encodeChars false before l.core.stage.remaining text).2 ∧ after ≠ before ∧
          ∀ (ch : ι) (willing : σ), (∀ bytes, (Transport.write ch bytes willing).1 = .ok bytes.length) →
            ∃ later, (failed.run first.hint later).channels.output ≠ (l.run first.hint later).channels.output) := by
  intro l failing failed
  obtain ⟨_, _, fresh⟩ := ok_of_map made
  have begun : l = CoreRun.run first.hint sections
      (.initial settings.bufferSize (.ofEncoder charset.encoder) world) := by
    rw [CoreRun.initial]
    simp only [l, fresh]
  have writes : l.core.coder.encoder.Writes charset := by
    rw [begun]
    exact CoreRun.writes_run charset settings.bufferSize first.hint world sections
  obtain ⟨active, encoder, called, result⟩ := CoreRun.perform_failing failing
  have going : l.core.endSignalled = false := by
    rw [begun] at active ⊢
    exact CoreRun.unsignalled charset settings.bufferSize first.hint world sections active
  have later : ∀ more, (failed.run first.hint more).channels =
      ((l.withEncoder encoder).run first.hint more).channels := by
    intro more
    rw [show failed = _ from result]
    exact CoreRun.run_unwritten first.hint more rfl rfl
  refine ⟨encoder, result, ?_⟩
  rcases writes.failed called with same | ⟨before, after, shifts, here, rfl, shift, distinct, narrow, roomy⟩
  · refine .inl ⟨same, fun more => ?_⟩
    rw [later, same]
    rfl
  · refine .inr ⟨before, after, shifts, here, rfl, shift, distinct, fun ch willing accepts => ?_⟩
    obtain ⟨more, differ⟩ := CoreRun.shifts_differ here distinct narrow roomy active going first.hint accepts
    exact ⟨more, by rwa [later]⟩

section Sample

attribute [local instance] sampleIndex

/-- An emoji leaves Japanese text in ASCII, without the bytes for that. -/
theorem failed_write_moves_shift_emoji :
    let charset : Charset := .web .iso2022Jp
    let source : Script (List Char) := .ofActions []
    let first : Producer (TextCoder CharsetEncoder) Nat (Script (List Char)) :=
      ⟨.initial 16 (.ofEncoder charset.encoder), source, 8, none⟩
    let world : List FaultyRecorder := [⟨.withLimit none, ⟨false, false, 0⟩⟩]
    let l : CoreRun (TextCoder CharsetEncoder) (List Char) Nat (List FaultyRecorder) :=
      CoreRun.run first.hint [.write ['あ']] ⟨first.core, .start world, []⟩
    let failed := l.perform first.hint (.write ['😀'])
    Producer.textWith ⟨16, none⟩ none charset.encoder source = .ok first ∧
      (l.core.write first.hint ['😀'] l.channels).1 =
        .error (.encoding "unmappable character U+1F600 for ISO-2022-JP") ∧
      l.core.coder.encoder = .web ⟨.iso2022Jp, .jis0208⟩ ∧ failed.core.coder.encoder = .web ⟨.iso2022Jp, .ascii⟩ ∧
      failed.core.stage = l.core.stage ∧ failed.channels = l.channels ∧
      ∃ later, (failed.run first.hint later).channels.output ≠ (l.run first.hint later).channels.output := by
  intro charset source first world l failed
  have made : Producer.textWith ⟨16, none⟩ none charset.encoder source = .ok first := rfl
  have failing : (l.core.write first.hint ['😀'] l.channels).1 =
      .error (.encoding "unmappable character U+1F600 for ISO-2022-JP") := by decide
  have wide : l.core.coder.encoder = .web ⟨.iso2022Jp, .jis0208⟩ := by decide
  have lost : failed.core.coder.encoder = .web ⟨.iso2022Jp, .ascii⟩ := by decide
  obtain ⟨encoder, result, stays | ⟨_, _, _, _, _, _, _, differs⟩⟩ :=
    failed_write_moves_shift ⟨16, none⟩ none charset source first made world [.write ['あ']] ['😀'] _ failing
  · have moved : failed.core.coder.encoder = encoder := congrArg (fun l => l.core.coder.encoder) result
    rw [lost, stays.1] at moved
    exact absurd (moved.trans wide) (by decide)
  · exact ⟨made, failing, wide, lost, congrArg (fun l => l.core.stage) result, congrArg (fun l => l.channels) result,
      differs 0 world (FaultyRecorder.takes_all rfl rfl)⟩

/-- Two letters behind the emoji have no escape sequence in front of them and are read as a Kanji. -/
theorem failed_write_garbles_text :
    let charset : Charset := .web .iso2022Jp
    let source : Script (List Char) := .ofActions []
    let first : Producer (TextCoder CharsetEncoder) Nat (Script (List Char)) :=
      ⟨.initial 16 (.ofEncoder charset.encoder), source, 8, none⟩
    let world : List FaultyRecorder := [⟨.withLimit none, ⟨false, false, 0⟩⟩]
    let l : CoreRun (TextCoder CharsetEncoder) (List Char) Nat (List FaultyRecorder) :=
      CoreRun.run first.hint [.write ['あ']] ⟨first.core, .start world, []⟩
    let failed := l.perform first.hint (.write ['😀'])
    let later : List (Section (List Char) Nat (List FaultyRecorder)) :=
      [.write ['a', 'b'], .endStream, .openTurn 0, .closeTurn 0]
    Producer.textWith ⟨16, none⟩ none charset.encoder source = .ok first ∧
      (l.core.write first.hint ['😀'] l.channels).1 =
        .error (.encoding "unmappable character U+1F600 for ISO-2022-JP") ∧
      (l.run first.hint later).channels.output =
        [0x1B, 0x24, 0x42, 0x24, 0x22, 0x1B, 0x28, 0x42, 0x61, 0x62] ∧
      (failed.run first.hint later).channels.output = [0x1B, 0x24, 0x42, 0x24, 0x22, 0x61, 0x62] := by
  exact ⟨rfl, by decide, by decide, by decide⟩

end Sample

end Sluice
