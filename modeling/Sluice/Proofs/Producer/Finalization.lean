import Sluice.Bench.Index
import Sluice.Bench.Recorder
import Sluice.Proofs.Charset.Fitting
import Sluice.Proofs.Charset.Seamless
import Sluice.Proofs.Producer.Renewal

/-! A producer of text at the end of its message. Whatever its encoder holds back is staged turn by turn, behind the
text and before the end, and together they are what a single call would have written for the accepted text. -/
namespace Sluice

variable {ε ι σ : Type} [Encoder ε]

/-- A call of an encoder with a text that is not told to be the last. -/
structure EncoderCall (ε : Type) where
  encoder : ε
  room : Nat
  text : List Char
  deriving DecidableEq

private theorem CharsetEncoder.escapes_congr [CodeIndex] {e e' : CharsetEncoder}
    (same : Encoder.reset e' = Encoder.reset e) :
    e'.Escapes ↔ e.Escapes := by
  cases e' with
  | builtIn e' =>
    cases e with
    | builtIn e => exact Iff.rfl
    | web e => cases same
  | web e' =>
    cases e with
    | builtIn e => cases same
    | web e =>
      have renewed : Encoder.reset e' = Encoder.reset e := CharsetEncoder.web.inj same
      have kept := congrArg WebEncoder.encoding renewed
      exact (congrArg (· = WebEncoding.iso2022Jp) kept).to_iff

namespace EncoderCall

def outcome (o : EncoderCall ε) : Except Fault Encoded × ε := Encoder.encode o.encoder o.text o.room false

def accepted (o : EncoderCall ε) : List Char := textOf o.text (o.outcome.1.map (·.read))

def written (o : EncoderCall ε) : List UInt8 :=
  match o.outcome.1 with
  | .ok x => x.bytes
  | .error _ => []

def after (o : EncoderCall ε) : ε := o.outcome.2

/-- The call would have done the same if it had seen, of the text that it did not accept, only a beginning of what is
accepted later. -/
def Heeds (o : EncoderCall ε) (later : List Char) : Prop :=
  ∃ stop rest, rest <+: later ∧ Encoder.encode o.encoder (o.accepted ++ rest) o.room false =
    (.ok ⟨stop, Text.utf8Length o.accepted, o.written⟩, o.after)

/-- So would every call, in view of what the calls behind it accept. -/
inductive Heeded : List (EncoderCall ε) → Prop
  | nil : Heeded []
  | cons {o : EncoderCall ε} {os : List (EncoderCall ε)} (heeds : o.Heeds (os.flatMap accepted)) (rest : Heeded os) :
    Heeded (o :: os)

/-- Each call begins where the one before it has left the encoder. -/
def Linked : ε → List (EncoderCall ε) → ε → Prop
  | e, [], last => e = last
  | e, o :: os, last => o.encoder = e ∧ Linked o.after os last

private theorem Linked.append_one {e last : ε} {os : List (EncoderCall ε)} (h : Linked e os last) {o : EncoderCall ε}
    (next : o.encoder = last) : Linked e (os ++ [o]) o.after := by
  induction os generalizing e with
  | nil =>
    obtain rfl := h
    exact ⟨next, rfl⟩
  | cons first os ih => exact ⟨h.1, ih h.2⟩

private theorem Linked.oneShot [Seamless ε] {e last : ε} {os : List (EncoderCall ε)} (linked : Linked e os last)
    (heeded : Heeded os) {bytes : List UInt8} (ends : OneShot last [] bytes) :
    OneShot e (os.flatMap accepted) (os.flatMap written ++ bytes) := by
  induction os generalizing e with
  | nil =>
    obtain rfl := linked
    exact ends
  | cons o os ih =>
    obtain ⟨rfl, linked⟩ := linked
    obtain _ | ⟨⟨stop, rest, ⟨more, later⟩, called⟩, heeded⟩ := heeded
    have behind := ih linked heeded
    obtain ⟨front, left, cut, read, _, continues⟩ := Seamless.encode called
    -- both fronts are as long as what was read, so that they are the same
    have front_eq : front = o.accepted := by
      have taken := Text.takeUtf8_append front left
      rw [← read, ← cut, Text.takeUtf8_append] at taken
      exact taken.symm
    obtain rfl : rest = left := List.append_cancel_left (front_eq ▸ cut)
    rw [← later] at behind
    rw [List.flatMap_cons, List.flatMap_cons, ← later, ← List.append_assoc, List.append_assoc o.written]
    exact continues more _ behind

private theorem Heeds.of_nil {o : EncoderCall ε} (h : o.Heeds []) (later : List Char) : o.Heeds later := by
  obtain ⟨stop, rest, none, called⟩ := h
  obtain rfl := List.prefix_nil.mp none
  exact ⟨stop, [], List.nil_prefix, called⟩

private theorem accepted_eq {o : EncoderCall ε} {x : Encoded} (went : o.outcome.1 = .ok x) {front rest : List Char}
    (cut : o.text = front ++ rest) (read : x.read = Text.utf8Length front) : o.accepted = front := by
  rw [accepted, went, cut, Except.map, textOf, read, Text.takeUtf8_append]

/-- A call that has stopped in front of a character is followed by calls that accept this character first. -/
inductive Resumed : List (EncoderCall ε) → Prop
  | nil : Resumed []
  | cons {o : EncoderCall ε} {os : List (EncoderCall ε)}
      (next : (o.text.drop o.accepted.length).take 1 <+: os.flatMap accepted)
      (rest : Resumed os) : Resumed (o :: os)

section Charsets

variable [CodeIndex] {o : EncoderCall CharsetEncoder} {x : Encoded}

private theorem heeds_escaped (escapes : o.encoder.Escapes) (went : o.outcome.1 = .ok x) {later : List Char}
    (next : (o.text.drop o.accepted.length).take 1 <+: later) : o.Heeds later := by
  obtain ⟨front, rest, cut, read, alike⟩ := CharsetEncoder.encode_alike escapes (Prod.ext went rfl)
  obtain rfl := accepted_eq went cut read
  rw [cut, List.drop_left] at next
  refine ⟨x.stop, rest.take 1, next, ?_⟩
  rw [alike _ (by cases rest with | _ => rfl), ← read, written, went]
  rfl

private theorem heeds_plain (plain : ¬ o.encoder.Escapes) (went : o.outcome.1 = .ok x) : o.Heeds [] := by
  obtain ⟨front, rest, cut, read, alone⟩ := CharsetEncoder.encode_alone plain (Prod.ext went rfl)
  obtain rfl := accepted_eq went cut read
  refine ⟨.inputUsed, [], List.nil_prefix, ?_⟩
  rw [List.append_nil, alone, ← read, written, went]
  rfl

/-- An encoder of a charset needs no more than that no call fails and, if it writes escape sequences, that none of them
loses its character. -/
theorem Linked.heeded {e last : CharsetEncoder} {os : List (EncoderCall CharsetEncoder)} (linked : Linked e os last)
    (went : ∀ o ∈ os, o.outcome.1.isOk = true) (resumed : e.Escapes → Resumed os) : Heeded os := by
  induction os generalizing e with
  | nil => exact .nil
  | cons o os ih =>
    obtain ⟨rfl, linked⟩ := linked
    rw [List.forall_mem_cons] at went
    have family : o.after.Escapes ↔ o.encoder.Escapes :=
      CharsetEncoder.escapes_congr (RenewingEncoder.encode o.encoder o.text o.room false)
    cases result : o.outcome.1 with
    | error fault => simp [result, Except.isOk, Except.toBool] at went
    | ok x =>
      by_cases escapes : o.encoder.Escapes
      · obtain _ | ⟨next, rest⟩ := resumed escapes
        exact .cons (heeds_escaped escapes result next) (ih linked went.2 fun _ => rest)
      · exact .cons ((heeds_plain escapes result).of_nil _)
          (ih linked went.2 fun also => absurd (family.mp also) escapes)

end Charsets

end EncoderCall

namespace TextCoder

variable [Seamless ε]

/-- A write is one call of the encoder, and what that has written goes behind what is staged. -/
theorem accept_offers [Transport ι σ] (coder : TextCoder ε) (stage : Stage) (text : List Char) (hint : Nat)
    (ch : Option ι) (c : Chronicle ι σ) :
    let o : EncoderCall ε := ⟨coder.encoder, stage.remaining, text⟩
    let after := accept coder stage text hint ch c
    textOf text after.1 = o.accepted ∧ after.2.1.encoder = o.after ∧
      after.2.2.1.bytes = stage.bytes ++ o.written ∧ after.2.2.2.output = c.output ∧
      after.2.2.2.told = c.told := by
  intro o after
  rcases called : Encoder.encode coder.encoder text stage.remaining false with ⟨result, encoder⟩
  have outcome : o.outcome = (result, encoder) := called
  cases result with
  | error fault =>
    have failed : after = (.error fault, { coder with encoder }, stage, c) := by
      simp [after, accept, called, Stage.writeWith_eq, Except.map]
    simp [failed, EncoderCall.accepted, EncoderCall.after, EncoderCall.written, outcome, Except.map, textOf]
  | ok x =>
    obtain ⟨_, _, leaves⟩ := Seamless.encode called
    have passed : after = _ := accept_ok called leaves.within hint ch c
    rw [passed]
    refine ⟨?_, ?_, ?_, ?_, ?_⟩
    · rw [EncoderCall.accepted, outcome]
      rfl
    · rw [EncoderCall.after, outcome]
    · simp only [EncoderCall.written, outcome]
    · split
      · exact c.output_requestOutput ch
      · rfl
    · split
      · exact c.told_requestOutput ch
      · rfl

/-- Bytes of the end go behind what is staged, and the coder knows whether they are the last ones. -/
theorem finish_ends (coder : TextCoder ε) (stage : Stage) :
    ∃ whole encoder front, finish coder stage =
        (.ok whole, { coder with encoder }, { stage with bytes := stage.bytes ++ front }) ∧
      Ends coder.encoder front whole encoder := by
  have kept : ∀ {front : List UInt8}, front.length ≤ stage.remaining →
      windowPrefix front (min front.length stage.remaining) = front := by
    intro front within
    rw [Nat.min_eq_left within, windowPrefix_length]
  obtain ⟨⟨stop, read, own⟩, last, called, within, full, used⟩ := Seamless.finish coder.encoder stage.remaining
  cases stop with
  | outputFull =>
    refine ⟨false, last, own, ?_, full rfl⟩
    simp [finish, ending, called, Stage.writeWith_eq, kept within]
  | inputUsed =>
    obtain ⟨stop, held, after, flushed, fits, ends⟩ := used rfl (stage.remaining - own.length)
    refine ⟨stop = .inputUsed, after, own ++ held, ?_, ends⟩
    have both : (own ++ held).length ≤ stage.remaining := by
      rw [List.length_append]
      dsimp only at within
      omega
    have window := kept both
    rw [List.length_append] at window
    simp [finish, ending, called, flushed, Stage.writeWith_eq, window]

end TextCoder

namespace Core

/-- What the channels took and what is staged spells some bytes and, once the application has ended the stream,
bytes of the end behind them. -/
structure Speaks (core : Core (TextCoder ε) ι) (c : Chronicle ι σ) (last : ε) (done : List UInt8) : Prop where
  spelled : ∃ closing, core.held c = done ++ closing ∧
    match core.state with
    | .active => core.coder.encoder = last ∧ closing = []
    | .flushing => Ends last closing false core.coder.encoder
    | .ended => OneShot last [] closing
  settled : core.Settled c

private theorem Speaks.same {core core' : Core (TextCoder ε) ι} {c c' : Chronicle ι σ} {last : ε} {done : List UInt8}
    (h : core.Speaks c last done) (state : core'.state = core.state)
    (encoder : core'.coder.encoder = core.coder.encoder) (held : core'.held c' = core.held c)
    (settled : core'.Settled c') : core'.Speaks c' last done := by
  refine ⟨?_, settled⟩
  rw [state, encoder, held]
  exact h.spelled

private theorem Speaks.ends {core : Core (TextCoder ε) ι} {c : Chronicle ι σ} {last : ε} {done : List UInt8}
    (h : core.Speaks c last done) : core.endStream.Speaks c last done := by
  unfold endStream
  split
  next active =>
    obtain ⟨closing, held, phase⟩ := h.spelled
    rw [active] at phase
    obtain ⟨rfl, rfl⟩ := phase
    refine ⟨⟨[], held, fun more ends => ?_⟩, fun ending => ?_⟩
    · exact ends
    · have ended := (h.settled ending).1
      rw [active] at ended
      cases ended
  · exact h

variable [Seamless ε]

private theorem Speaks.finishes {core : Core (TextCoder ε) ι} {c : Chronicle ι σ} {last : ε} {done : List UInt8}
    (h : core.Speaks c last done) :
    core.finishCoding.1 = .ok () ∧ core.finishCoding.2.Speaks c last done := by
  unfold finishCoding
  split
  next flushing =>
    obtain ⟨closing, held, phase⟩ := h.spelled
    rw [flushing] at phase
    obtain ⟨whole, encoder, front, finished, ends⟩ := core.coder.finish_ends core.stage
    have called : Coder.finish core.coder core.stage = _ := finished
    have waiting : ¬ (c.told = true ∨ core.endSignalled = true) := by
      intro ending
      have ended := (h.settled ending).1
      rw [flushing] at ended
      cases ended
    have longer : c.output ++ (core.stage.bytes ++ front) = done ++ (closing ++ front) := by
      rw [← List.append_assoc, ← List.append_assoc]
      exact congrArg (· ++ front) held
    rw [called]
    cases whole with
    | true =>
      refine ⟨rfl, ⟨closing ++ front, longer, ?_⟩, fun ending => absurd ending waiting⟩
      exact phase front ends
    | false =>
      refine ⟨rfl, ⟨closing ++ front, longer, ?_⟩, fun ending => absurd ending waiting⟩
      simp only [flushing]
      intro more after
      rw [List.append_assoc]
      exact phase _ (ends more after)
  · exact ⟨rfl, h⟩

variable [Transport ι σ]

omit [Seamless ε] in
private theorem Speaks.drains {core : Core (TextCoder ε) ι} {c : Chronicle ι σ} {last : ε} {done : List UInt8}
    (h : core.Speaks c last done) (hint : Nat) (ch : ι) :
    (core.drain hint ch c).2.1.Speaks (core.drain hint ch c).2.2 last done :=
  h.same (core.state_drain hint ch c).1 (core.encoder_drain hint ch c) (core.drain_keeps hint ch c)
    (settled_drain h.settled hint ch)

omit [Seamless ε] in
private theorem Speaks.signals {core : Core (TextCoder ε) ι} {c : Chronicle ι σ} {last : ε} {done : List UInt8}
    (h : core.Speaks c last done) (ch : ι) :
    (core.signal ch c).2.1.Speaks (core.signal ch c).2.2 last done :=
  h.same (core.state_signal ch c) (congrArg TextCoder.encoder (core.coder_signal ch c)) (core.signal_keeps ch c)
    (settled_signal h.settled ch)

private theorem Speaks.closes {core : Core (TextCoder ε) ι} {c : Chronicle ι σ} {last : ε} {done : List UInt8}
    (h : core.Speaks c last done) (hint : Nat) (ch : ι) :
    (core.closeTurn hint ch c).2.1.Speaks (core.closeTurn hint ch c).2.2 last done := by
  obtain ⟨passed, finished⟩ := h.finishes
  simp only [closeTurn]
  split
  · exact h
  · generalize core.finishCoding = coded at passed finished
    obtain ⟨result, core'⟩ := coded
    obtain rfl := passed
    have drained := finished.drains hint ch
    split
    next failed => cases failed
    next core'' same =>
      obtain rfl := (Prod.mk.inj same).2
      split
      next failed =>
        rw [failed] at drained
        exact drained
      next passed =>
        rw [passed] at drained
        exact drained.signals ch

private theorem Speaks.unfinished {core : Core (TextCoder ε) ι} {c : Chronicle ι σ} {last : ε} {done : List UInt8}
    (h : core.Speaks c last done) (flushing : core.state = .flushing) {coder : TextCoder ε} {stage : Stage}
    (finished : Coder.finish core.coder core.stage = (.ok false, coder, stage)) (hint : Nat) (ch : ι) :
    let closed := core.closeTurn hint ch c
    closed.2.1.state = .flushing ∧ core.stage.bytes <+: stage.bytes ∧
      closed.2.1.held closed.2.2 = c.output ++ stage.bytes ∧
      (closed.1 = .ok () → closed.2.2.deeds.getLast? = some (.asked ch)) := by
  obtain ⟨whole, encoder, front, called, _⟩ := core.coder.finish_ends core.stage
  obtain ⟨_, rfl, rfl⟩ : whole = false ∧ { core.coder with encoder } = coder ∧
      { core.stage with bytes := core.stage.bytes ++ front } = stage := by
    have same := called.symm.trans finished
    simpa using same
  have going : core.endSignalled = false := by
    cases signalled : core.endSignalled with
    | false => rfl
    | true =>
      have ended := (h.settled (.inr signalled)).1
      rw [flushing] at ended
      cases ended
  intro closed
  generalize staged : ({ core with
    coder := { core.coder with encoder }
    stage := { core.stage with bytes := core.stage.bytes ++ front } } : Core (TextCoder ε) ι) = core'
  have coded : core.finishCoding = (.ok (), core') := by
    rw [finishCoding, if_pos flushing, finished, ← staged]
  have stays : core'.state = .flushing := staged ▸ flushing
  have held : core'.held c = c.output ++ (core.stage.bytes ++ front) := staged ▸ rfl
  have state := (core'.state_drain hint ch c).1
  have drained := core'.drain_keeps hint ch c
  simp only [closed, closeTurn, going, coded, Bool.false_eq_true, if_false]
  split
  next failed =>
    rw [failed] at state drained
    exact ⟨state.trans stays, List.prefix_append _ _, drained.trans held, by simp⟩
  next core'' c' passed =>
    rw [passed] at state drained
    have waits : core''.state = .flushing := state.trans stays
    have asks : core''.signal ch c' = (.ok (), core'', Transport.requestOutput ch c') := by
      simp [signal, waits]
    rw [asks]
    have output : (Transport.requestOutput ch c').output = c'.output := c'.output_requestOutput (some ch)
    refine ⟨waits, List.prefix_append _ _, ?_, fun _ => List.getLast?_concat⟩
    exact (congrArg (· ++ _) output).trans (drained.trans held)

end Core

/-- A run with the encoder that the message began with, and the calls of the encoder since then. -/
structure EncodingRun (ε ι σ : Type) where
  coreRun : CoreRun (TextCoder ε) (List Char) ι σ
  first : ε
  offers : List (EncoderCall ε)

namespace EncodingRun

variable [Transport ι σ]

def initial (capacity : Nat) (encoder : ε) (world : σ) : EncodingRun ε ι σ :=
  ⟨.initial capacity (.ofEncoder encoder) world, encoder, []⟩

/-- Do one section. A text comes to the encoder unless the application has ended the stream. -/
def perform (hint : Nat) (d : EncodingRun ε ι σ) (s : Section (List Char) ι σ) : EncodingRun ε ι σ :=
  let coreRun := d.coreRun.perform hint s
  let core := d.coreRun.core
  match s with
  | .write text =>
    if core.state = .active then
      { d with coreRun, offers := d.offers ++ [⟨core.coder.encoder, core.stage.remaining, text⟩] }
    else { d with coreRun }
  | .release => ⟨coreRun, Encoder.reset core.coder.encoder, []⟩
  | _ => { d with coreRun }

def run (hint : Nat) (sections : List (Section (List Char) ι σ)) (d : EncodingRun ε ι σ) : EncodingRun ε ι σ :=
  sections.foldl (perform hint) d

/-- What holds after any sections: the calls of the encoder are linked, the writes were credited for what these
accepted, and what they have written was staged. -/
structure Sound (d : EncodingRun ε ι σ) : Prop where
  transcribed : transcript d.coreRun.writes = d.offers.flatMap EncoderCall.accepted
  speaks : ∃ last, EncoderCall.Linked d.first d.offers last ∧
    d.coreRun.core.Speaks d.coreRun.channels last (d.offers.flatMap EncoderCall.written)

omit [Transport ι σ] in
theorem sound_initial (capacity : Nat) (encoder : ε) (world : σ) :
    (initial capacity encoder world : EncodingRun ε ι σ).Sound := by
  refine ⟨rfl, encoder, rfl, ⟨[], rfl, rfl, rfl⟩, ?_⟩
  rintro (told | signalled)
  · cases told
  · cases signalled

variable [Seamless ε]

private theorem Sound.writes {d : EncodingRun ε ι σ} (h : d.Sound) (hint : Nat) (text : List Char) :
    (d.perform hint (.write text)).Sound := by
  obtain ⟨last, linked, speaks⟩ := h.speaks
  by_cases active : d.coreRun.core.state = .active
  · obtain ⟨closing, held, phase⟩ := speaks.spelled
    rw [active] at phase
    obtain ⟨rfl, rfl⟩ := phase
    have offers := d.coreRun.core.coder.accept_offers d.coreRun.core.stage text hint d.coreRun.core.channel
      d.coreRun.channels
    rcases took : TextCoder.accept d.coreRun.core.coder d.coreRun.core.stage text hint d.coreRun.core.channel
      d.coreRun.channels with ⟨result, coder, stage, channels⟩
    simp only [took] at offers
    obtain ⟨accepted, encoder, staged, output, told⟩ := offers
    have step : Coder.accept d.coreRun.core.coder d.coreRun.core.stage text hint d.coreRun.core.channel
      d.coreRun.channels = (result, coder, stage, channels) := took
    simp only [perform, CoreRun.perform, Core.write, if_pos active, step]
    refine ⟨?_, _, linked.append_one rfl, ⟨[], ?_, ?_⟩, ?_⟩
    · simpa [transcript, accepted] using h.transcribed
    · rw [Core.held, List.append_nil] at held
      simp only [Core.held, output, staged, ← List.append_assoc, held]
      simp
    · simpa only [active, and_true] using encoder
    · intro ending
      rw [told] at ending
      have ended := (speaks.settled ending).1
      rw [active] at ended
      cases ended
  · simp only [perform, CoreRun.perform, Core.write, if_neg active]
    refine ⟨?_, last, linked, speaks⟩
    simpa [transcript, textOf] using h.transcribed

private theorem Sound.perform {d : EncodingRun ε ι σ} (h : d.Sound) (hint : Nat) (s : Section (List Char) ι σ) :
    (d.perform hint s).Sound := by
  obtain ⟨last, linked, speaks⟩ := h.speaks
  cases s with
  | openTurn ch => exact ⟨h.transcribed, last, linked, speaks.same rfl rfl rfl speaks.settled⟩
  | write text => exact h.writes hint text
  | endStream => exact ⟨h.transcribed, last, linked, speaks.ends⟩
  | closeTurn ch => exact ⟨h.transcribed, last, linked, speaks.closes hint ch⟩
  | ask ch =>
    have output := d.coreRun.channels.output_requestOutput ch
    have told := d.coreRun.channels.told_requestOutput ch
    refine ⟨h.transcribed, last, linked, speaks.same rfl rfl (congrArg (· ++ _) output) fun ending => ?_⟩
    exact speaks.settled (told ▸ ending)
  | release => exact sound_initial d.coreRun.core.stage.capacity (Encoder.reset d.coreRun.core.coder.encoder) _
  | become world => exact ⟨h.transcribed, last, linked, speaks.same rfl rfl rfl speaks.settled⟩

theorem Sound.run {d : EncodingRun ε ι σ} (h : d.Sound) (hint : Nat) (sections : List (Section (List Char) ι σ)) :
    (d.run hint sections).Sound := by
  induction sections generalizing d with
  | nil => exact h
  | cons s rest ih => exact ih (h.perform hint s)

omit [Transport ι σ] in
/-- Whoever is told of the end has all of the text and of its end. -/
theorem Sound.whole {d : EncodingRun ε ι σ} (h : d.Sound) (told : d.coreRun.channels.told = true)
    (heeded : EncoderCall.Heeded d.offers) :
    OneShot d.first (transcript d.coreRun.writes) d.coreRun.channels.output := by
  obtain ⟨last, linked, speaks⟩ := h.speaks
  obtain ⟨ended, empty⟩ := speaks.settled (.inl told)
  obtain ⟨closing, held, phase⟩ := speaks.spelled
  rw [ended] at phase
  rw [Core.held, empty, List.append_nil] at held
  rw [h.transcribed, held]
  exact linked.oneShot heeded phase

/-- What is due at the end of the stream. Whoever is told of it has what a single call would have written, byte for
byte, and a coder that has not finished keeps what it has staged and gets another turn. -/
structure Finalizes (hint : Nat) (d : EncodingRun ε ι σ) : Prop where
  whole : EncoderCall.Heeded d.offers → d.coreRun.channels.told = true →
    OneShot d.first (transcript d.coreRun.writes) d.coreRun.channels.output
  unfinished {coder : TextCoder ε} {stage : Stage} (ch : ι) : d.coreRun.core.state = .flushing →
    Coder.finish d.coreRun.core.coder d.coreRun.core.stage = (.ok false, coder, stage) →
    let (result, core, channels) := d.coreRun.core.closeTurn hint ch d.coreRun.channels
    core.state = .flushing ∧ d.coreRun.core.stage.bytes <+: stage.bytes ∧
      core.held channels = d.coreRun.channels.output ++ stage.bytes ∧
      (result = .ok () → channels.deeds.getLast? = some (.asked ch))

private theorem Sound.finalizes {d : EncodingRun ε ι σ} (h : d.Sound) (hint : Nat) : d.Finalizes hint where
  whole heeded told := h.whole told heeded
  unfinished ch flushing finished := by
    obtain ⟨_, _, speaks⟩ := h.speaks
    exact speaks.unfinished flushing finished hint ch

omit [Seamless ε] in

theorem coreRun_run (hint : Nat) (sections : List (Section (List Char) ι σ)) (d : EncodingRun ε ι σ) :
    (d.run hint sections).coreRun = d.coreRun.run hint sections := by
  induction sections generalizing d with
  | nil => rfl
  | cons s rest ih =>
    have first : (d.perform hint s).coreRun = d.coreRun.perform hint s := by
      cases s with
      | write text =>
        simp only [perform]
        split
        · rfl
        · rfl
      | _ => rfl
    exact (ih _).trans (congrArg (CoreRun.run hint rest) first)

omit [Seamless ε] in
/-- Whatever is released in between, the message begins with an encoder of one kind. -/
theorem reset_first_run [RenewingEncoder ε] (hint : Nat) (sections : List (Section (List Char) ι σ))
    {d : EncodingRun ε ι σ} (begun : Encoder.reset d.coreRun.core.coder.encoder = Encoder.reset d.first) :
    Encoder.reset (d.run hint sections).first = Encoder.reset d.first := by
  induction sections generalizing d with
  | nil => rfl
  | cons s rest ih =>
    have kept : Encoder.reset (d.coreRun.perform hint s).core.coder.encoder =
        Encoder.reset d.coreRun.core.coder.encoder :=
      congrArg (fun core => core.coder.encoder) (d.coreRun.release_perform hint s)
    have first : Encoder.reset (d.perform hint s).first = Encoder.reset d.first := by
      cases s with
      | write text =>
        simp only [perform]
        split
        · rfl
        · rfl
      | release => exact (RenewingEncoder.reset _).trans begun
      | _ => rfl
    have coreRun : (d.perform hint s).coreRun = d.coreRun.perform hint s := d.coreRun_run hint [s]
    exact (ih (by rw [coreRun, kept, begun, first])).trans first

end EncodingRun

/-- A producer of text finalizes a stateful encoder completely, whatever its turns and handles do. It may write in
many windows, provided that no write fails, and that what one has written ahead of a character it did not accept is
for a character that is accepted next. Of the encoders of the charsets only the one that writes escape sequences leaves
this to the application. -/
theorem text_finalized_whole [CodeIndex] {τ : Type} [Source τ (List Char)] [Transport ι σ] [Seamless ε]
    (settings : ProducerSettings) (contentType : Option MediaType) (encoder : ε) (source : τ)
    (first : Producer (TextCoder ε) ι τ) (made : Producer.textWith settings contentType encoder source = .ok first)
    (world : σ) (sections : List (Section (List Char) ι σ)) :
    let d := EncodingRun.run first.hint sections ⟨⟨first.core, .start world, []⟩, encoder, []⟩
    d.Finalizes first.hint ∧
    (∀ p : Producer (TextCoder ε) ι τ, p.core = d.coreRun.core → p.hint = first.hint →
      (∀ data, let (result, q, c) := p.write data d.coreRun.channels
        ∃ more, (d.run first.hint more).coreRun = ⟨q.core, c, d.coreRun.writes ++ [⟨data, result⟩]⟩ ∧
          (d.run first.hint more).Finalizes first.hint) ∧
      ∀ ch, let (_, q, c) := p.produce ch d.coreRun.channels
        ∃ more, (d.run first.hint more).coreRun = ⟨q.core, c, d.coreRun.writes ++ p.writes ch d.coreRun.channels⟩ ∧
          (d.run first.hint more).Finalizes first.hint) ∧
    ∀ (e : CharsetEncoder) (p : Producer (TextCoder CharsetEncoder) ι τ),
      Producer.textWith settings contentType e source = .ok p →
      let d := EncodingRun.run p.hint sections ⟨⟨p.core, .start world, []⟩, e, []⟩
      (∀ o ∈ d.offers, o.outcome.1.isOk = true) → (e.Escapes → EncoderCall.Resumed d.offers) →
        EncoderCall.Heeded d.offers := by
  intro d
  obtain ⟨_, _, same⟩ := ok_of_map made
  have core : first.core = .initial settings.bufferSize (.ofEncoder encoder) := by rw [same]
  have sound : d.Sound := by
    simp only [d, core]
    exact (EncodingRun.sound_initial settings.bufferSize encoder world).run first.hint sections
  refine ⟨sound.finalizes first.hint, fun p hp hint => ⟨fun data => ?_, fun ch => ?_⟩, ?_⟩
  · obtain ⟨more, hm⟩ := p.write_sections data d.coreRun hp
    exact ⟨more, (d.coreRun_run first.hint more).trans (hint ▸ hm), (sound.run _ more).finalizes _⟩
  · obtain ⟨more, hm⟩ := p.produce_sections ch d.coreRun hp
    exact ⟨more, (d.coreRun_run first.hint more).trans (hint ▸ hm), (sound.run _ more).finalizes _⟩
  · intro e p made d went resumed
    obtain ⟨_, _, rfl⟩ := ok_of_map made
    have sound : d.Sound := (EncodingRun.sound_initial settings.bufferSize e world).run settings.hint sections
    have kind : d.first.Escapes ↔ e.Escapes :=
      CharsetEncoder.escapes_congr (EncodingRun.reset_first_run settings.hint sections rfl)
    obtain ⟨_, linked, _⟩ := sound.speaks
    exact linked.heeded went fun escapes => resumed (kind.mp escapes)

section Sample

attribute [local instance] sampleIndex

/-- The escape sequence of a character has to be written ahead of it. The one of the end finds no room behind the
character, waits for a turn, and is taken in two pieces. -/
theorem text_finalized_whole_shifted :
    let encoder : CharsetEncoder := .web (.ofEncoding .iso2022Jp)
    let source : Script (List Char) := .ofActions []
    let first : Producer (TextCoder CharsetEncoder) Nat (Script (List Char)) :=
      ⟨.initial 5 (.ofEncoder encoder), source, 5, none⟩
    let world : List FaultyRecorder := [⟨.withLimit (some 2), ⟨false, false, 0⟩⟩]
    let sections : List (Section (List Char) Nat (List FaultyRecorder)) :=
      [.openTurn 0, .write ['あ'], .closeTurn 0, .openTurn 0, .write ['あ'], .endStream]
    let run := fun sections => EncodingRun.run first.hint sections ⟨⟨first.core, .start world, []⟩, encoder, []⟩
    let d := run sections
    let last := run (sections ++ [.closeTurn 0, .openTurn 0, .closeTurn 0, .openTurn 0, .closeTurn 0])
    Producer.textWith ⟨5, some 5⟩ none encoder source = .ok first ∧
      d.coreRun.core.state = .flushing ∧ (Coder.finish d.coreRun.core.coder d.coreRun.core.stage).1 = .ok false ∧
      d.Finalizes first.hint ∧ last.Finalizes first.hint ∧ EncoderCall.Heeded last.offers ∧
      last.coreRun.channels.told = true ∧
      OneShot encoder ['あ'] [0x1B, 0x24, 0x42, 0x24, 0x22, 0x1B, 0x28, 0x42] := by
  intro encoder source first world sections run d last
  have finalizes : ∀ sections, (run sections).Finalizes first.hint := fun sections =>
    (text_finalized_whole ⟨5, some 5⟩ none encoder source first rfl world sections).1
  have heeds : ∀ sections, (∀ o ∈ (run sections).offers, o.outcome.1.isOk = true) →
      (encoder.Escapes → EncoderCall.Resumed (run sections).offers) →
        EncoderCall.Heeded (run sections).offers := fun sections =>
    (text_finalized_whole ⟨5, some 5⟩ none encoder source first rfl world sections).2.2 encoder first rfl
  have told : last.coreRun.channels.told = true := by decide
  have output : last.coreRun.channels.output = [0x1B, 0x24, 0x42, 0x24, 0x22, 0x1B, 0x28, 0x42] := by decide
  have text : transcript last.coreRun.writes = ['あ'] := by decide
  have begun : last.first = encoder := by decide
  have offers : last.offers = [⟨encoder, 5, ['あ']⟩, ⟨.web ⟨.iso2022Jp, .jis0208⟩, 4, ['あ']⟩] := by decide
  have resumed : EncoderCall.Resumed last.offers := by
    rw [offers]
    exact .cons (by decide) (.cons (by decide) .nil)
  have heeded : EncoderCall.Heeded last.offers := heeds _ (by decide) fun _ => resumed
  have whole := (finalizes _).whole heeded told
  rw [begun, text, output] at whole
  exact ⟨rfl, by decide, by decide, finalizes _, finalizes _, heeded, told, whole⟩

/-- An escape sequence stays although the character that it was for is never accepted, so that what comes behind it
is not what one call would have written. -/
theorem abandoned_escape_stays :
    let encoder : CharsetEncoder := .web (.ofEncoding .iso2022Jp)
    let source : Script (List Char) := .ofActions []
    let first : Producer (TextCoder CharsetEncoder) Nat (Script (List Char)) :=
      ⟨.initial 6 (.ofEncoder encoder), source, 3, none⟩
    let world : List FaultyRecorder := [⟨.withLimit none, ⟨false, false, 0⟩⟩]
    let sections : List (Section (List Char) Nat (List FaultyRecorder)) :=
      [.openTurn 0, .write ['a', 'あ'], .closeTurn 0, .openTurn 0, .write ['b'], .endStream, .closeTurn 0]
    let d := EncodingRun.run first.hint sections ⟨⟨first.core, .start world, []⟩, encoder, []⟩
    Producer.textWith ⟨6, none⟩ none encoder source = .ok first ∧
      (∀ o ∈ d.offers, o.outcome.1.isOk = true) ∧ d.coreRun.channels.told = true ∧
      OneShot d.first (transcript d.coreRun.writes) [0x61, 0x62] ∧
      ¬ OneShot d.first (transcript d.coreRun.writes) d.coreRun.channels.output := by
  intro encoder source first world sections d
  have output : d.coreRun.channels.output = [0x61, 0x1B, 0x24, 0x42, 0x1B, 0x28, 0x42, 0x62] := by decide
  have text : transcript d.coreRun.writes = ['a', 'b'] := by decide
  have begun : d.first = encoder := by decide
  have once : OneShot encoder ['a', 'b'] [0x61, 0x62] := by
    rw [CharsetEncoder.wraps_web.oneShot, oneShot_iff]
    refine ⟨4, fun room large => ⟨.ofEncoding .iso2022Jp, ?_⟩⟩
    have called : Shift.encodeChars true .ascii room ['a', 'b'] = (.ok ⟨.inputUsed, 2, [0x61, 0x62]⟩, .ascii) := by
      rw [Shift.encodeChars_cons (rfl : Shift.ascii.target? 'a' = some .ascii) rfl true rfl (Nat.le_of_lt large),
        Shift.encodeChars_cons (rfl : Shift.ascii.target? 'b' = some .ascii) rfl true rfl
          (Nat.le_sub_of_add_le large)]
      rfl
    rw [WebEncoder.encode_shifting rfl, WebEncoder.ofEncoding, called]
    rfl
  rw [begun, text, output]
  exact ⟨rfl, by decide, by decide, once, fun seamless => by simpa using once.unique seamless⟩

end Sample

end Sluice
