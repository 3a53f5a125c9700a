import Sluice.Bench.Index
import Sluice.Proofs.Charset.Reference
import Sluice.Proofs.Producer.Conservation

/-! A producer of text hands on the encoding of what it was given. Its encoder goes from one window to
the next with nothing but the mark in mind, and what it has put into them is never cut or kept twice. -/
namespace Sluice

/-- The front of a text that a write answered to have taken. -/
def textOf (text : List Char) : Except Fault Nat → List Char
  | .ok n => Text.takeUtf8 n text
  | .error _ => []

def transcript (writes : List (Written (List Char))) : List Char :=
  writes.flatMap fun w => textOf w.data w.result

variable {ι σ : Type} [Transport ι σ]

namespace Chronicle

/-- Whether some channel was told of the end, and be it in vain. -/
def told (c : Chronicle ι σ) : Bool := c.deeds.any Deed.tellsEnd

theorem told_requestOutput (ch : Option ι) (c : Chronicle ι σ) :
    (Transport.requestOutput ch c).told = c.told := by
  cases ch with
  | none => rfl
  | some ch => simp [told, Transport.requestOutput, Deed.tellsEnd]

end Chronicle

theorem Stage.told_flushTo (stage : Stage) (ch : Option ι) (c : Chronicle ι σ) :
    (stage.flushTo ch c).2.2.told = c.told := by
  have written : ∀ bytes, (Transport.write ch bytes c).2.told = c.told := by
    intro bytes
    cases ch with
    | none => rfl
    | some ch => simp [Chronicle.told, Transport.write, Deed.tellsEnd]
  have offered := written stage.bytes
  simp only [Stage.flushTo]
  split
  · rfl
  · split
    next refused =>
      rw [refused] at offered
      exact offered
    next answered =>
      rw [answered] at offered
      exact offered

/-- What a write does to the stage and to the encoder: the bytes of the text it was credited for go
to the back of the stage, behind the mark if that was owed until then. -/
structure Transcribes (charset : Charset) (owed : Bool) (text : List Char) (result : Except Fault Nat)
    (stage stage' : Stage) (encoder' : CharsetEncoder) : Prop where
  bounded : ∀ n, result = .ok n → Text.Boundary text n
  staged : ∃ bytes, stage'.bytes = stage.bytes ++ bytes ∧
    (charset.unmarked (textOf text result)).map (markOf owed (textOf text result) ++ ·) = some bytes
  encoder : encoder' = .builtIn ⟨charset, owed && (textOf text result).isEmpty⟩

namespace TextCoder

/-- What is written into a window at its front counts as a whole if it fits. -/
theorem windowPrefix_length (front : List UInt8) : windowPrefix front front.length = front := by
  simp [windowPrefix]

/-- What an encoder wrote into the free room goes to the back of the stage. If it was stopped there, another
turn is asked for, and the stage is to be flushed. -/
theorem accept_ok {ε : Type} [Encoder ε] {coder : TextCoder ε} {encoder : ε} {stage : Stage} {text : List Char}
    {e : Encoded} (encoded : Encoder.encode coder.encoder text stage.remaining false = (.ok e, encoder))
    (within : e.bytes.length ≤ stage.remaining) (hint : Nat) (ch : ι) (s : σ) :
    accept coder stage text hint ch s =
      (.ok e.read, ⟨encoder, coder.overflowed || e.stop = .outputFull⟩,
        { stage with bytes := stage.bytes ++ e.bytes },
        if e.stop = .outputFull then Transport.requestOutput ch s else s) := by
  have kept : windowPrefix e.bytes (min e.bytes.length stage.remaining) = e.bytes := by
    rw [Nat.min_eq_left within, windowPrefix_length]
  cases stopped : e.stop with
  | inputUsed => simp [accept, encoded, Stage.writeWith_eq, Except.map, filled, stopped, kept]
  | outputFull => simp [accept, encoded, Stage.writeWith_eq, Except.map, filled, stopped, kept]

theorem accept_encoded [CodeIndex] {charset : Charset} {owed owed' : Bool} {coder : TextCoder CharsetEncoder}
    (state : coder.encoder = .builtIn ⟨charset, owed⟩) {stage : Stage} {text : List Char} {e : Encoded}
    (encoded : BuiltInEncoder.encodeChars charset owed stage.remaining text = (.ok e, owed'))
    (within : e.bytes.length ≤ stage.remaining) (hint : Nat) (ch : ι) (s : σ) :
    accept coder stage text hint ch s =
      (.ok e.read, ⟨.builtIn ⟨charset, owed'⟩, coder.overflowed || e.stop = .outputFull⟩,
        { stage with bytes := stage.bytes ++ e.bytes },
        if e.stop = .outputFull then Transport.requestOutput ch s else s) := by
  refine accept_ok ?_ within hint ch s
  simp [state, Encoder.encode, encoded]

/-- The coder adds the encoding of what it answers to have taken, and leaves the channels alone. -/
theorem accept_transcribes [CodeIndex] {charset : Charset} (builtIn : ∀ e, charset ≠ .web e) {owed : Bool}
    (legit : owed = true → charset = .utf16) {coder : TextCoder CharsetEncoder}
    (state : coder.encoder = .builtIn ⟨charset, owed⟩) (stage : Stage) (text : List Char) (hint : Nat)
    (ch : Option ι) (c : Chronicle ι σ) :
    Transcribes charset owed text (accept coder stage text hint ch c).1 stage
      (accept coder stage text hint ch c).2.2.1 (accept coder stage text hint ch c).2.1.encoder ∧
    (accept coder stage text hint ch c).2.2.2.output = c.output ∧
    (accept coder stage text hint ch c).2.2.2.told = c.told := by
  cases encoded : BuiltInEncoder.encodeChars charset owed stage.remaining text with
  | mk outcome owed' =>
    cases outcome with
    | error fault =>
      -- only a charset without a mark can fail, and it goes on as it was
      obtain ⟨other, quiet⟩ := BuiltInEncoder.encodeChars_error builtIn encoded
      have none : owed = false := by
        cases owed with
        | false => rfl
        | true => exact absurd (legit rfl) other
      have empty : (charset.unmarked []).map (markOf owed [] ++ ·) = some [] := by
        rw [Charset.unmarked_nil builtIn]
        simp [markOf]
      have failed : accept coder stage text hint ch c =
          (.error fault, { coder with encoder := .builtIn ⟨charset, owed'⟩ }, stage, c) := by
        simp [accept, state, Encoder.encode, encoded, Stage.writeWith_eq, Except.map]
      rw [failed]
      refine ⟨⟨by simp, ⟨[], (List.append_nil _).symm, empty⟩, ?_⟩, rfl, rfl⟩
      simp [none, quiet none]
    | ok e =>
      obtain ⟨within, front, atFront, read, bytes, owes⟩ := BuiltInEncoder.encodeChars_ok builtIn encoded
      obtain ⟨rest, rfl⟩ := atFront
      have taken : textOf (front ++ rest) (.ok e.read) = front := by
        rw [textOf, read, Text.takeUtf8_append]
      have transcribes : Transcribes charset owed (front ++ rest) (.ok e.read) stage
          { stage with bytes := stage.bytes ++ e.bytes } (.builtIn ⟨charset, owed'⟩) := by
        refine ⟨?_, ⟨e.bytes, rfl, ?_⟩, ?_⟩
        · intro n answered
          obtain rfl := Except.ok.inj answered
          exact ⟨front, List.prefix_append front rest, read.symm⟩
        · rw [taken]
          exact bytes
        · rw [taken, owes]
      rw [accept_encoded state encoded within]
      refine ⟨transcribes, ?_, ?_⟩
      · split
        · exact c.output_requestOutput ch
        · rfl
      · split
        · exact c.told_requestOutput ch
        · rfl

theorem finish_builtIn [CodeIndex] {coder : TextCoder CharsetEncoder} {e : BuiltInEncoder}
    (state : coder.encoder = .builtIn e) (stage : Stage) :
    finish coder stage = (.ok true, coder, stage) := by
  obtain ⟨encoder, overflowed⟩ := coder
  obtain rfl : encoder = .builtIn e := state
  simp [finish, ending, Encoder.encode, Encoder.flush, BuiltInEncoder.encodeChars, Stage.writeWith_eq,
    windowPrefix]

end TextCoder

namespace Core

/-- Channels are told of the end behind all text, of which nothing is staged any more. -/
def Settled {γ : Type} (core : Core γ ι) (c : Chronicle ι σ) : Prop :=
  c.told = true ∨ core.endSignalled = true → core.state = .ended ∧ core.stage.bytes = []

/-- What a part of the end of a turn does: it moves bytes and leaves the encoder as it is. -/
structure Closes (core : Core (TextCoder CharsetEncoder) ι) (c : Chronicle ι σ)
    (core' : Core (TextCoder CharsetEncoder) ι) (c' : Chronicle ι σ) : Prop where
  encoder : core'.coder.encoder = core.coder.encoder
  held : core'.held c' = core.held c
  settled : core.Settled c → core'.Settled c'

omit [Transport ι σ] in
theorem Closes.refl (core : Core (TextCoder CharsetEncoder) ι) (c : Chronicle ι σ) : core.Closes c core c :=
  ⟨rfl, rfl, id⟩

omit [Transport ι σ] in
theorem Closes.trans {core core' core'' : Core (TextCoder CharsetEncoder) ι} {c c' c'' : Chronicle ι σ}
    (first : core.Closes c core' c') (second : core'.Closes c' core'' c'') : core.Closes c core'' c'' :=
  ⟨second.encoder.trans first.encoder, second.held.trans first.held, second.settled ∘ first.settled⟩

omit [Transport ι σ] in
private theorem finishCoding_closes [CodeIndex] {core : Core (TextCoder CharsetEncoder) ι} {e : BuiltInEncoder}
    (state : core.coder.encoder = .builtIn e) (c : Chronicle ι σ) :
    core.Closes c core.finishCoding.2 c := by
  have finished : Coder.finish core.coder core.stage = (.ok true, core.coder, core.stage) :=
    TextCoder.finish_builtIn state core.stage
  simp only [finishCoding, finished]
  split
  next flushing =>
    refine ⟨rfl, rfl, fun settled ending => ?_⟩
    have ended := (settled ending).1
    rw [flushing] at ended
    cases ended
  · exact .refl core c

theorem settled_drain {γ κ : Type} [Coder γ κ] {core : Core γ ι} {c : Chronicle ι σ} (settled : core.Settled c)
    (hint : Nat) (ch : ι) : (core.drain hint ch c).2.1.Settled (core.drain hint ch c).2.2 := by
  have told := core.stage.told_flushTo (some ch) c
  intro ending
  simp only [drain] at ending ⊢
  split at ending
  · obtain ⟨ended, empty⟩ := settled (ending.imp_left told.symm.trans)
    rw [if_pos ‹_›]
    refine ⟨ended, ?_⟩
    simp [Stage.flushTo, Stage.isEmpty, empty]
  · rw [if_neg ‹_›]
    exact settled ending

/-- A channel is told of the end only when nothing is left. -/
theorem settled_signal {γ : Type} {core : Core γ ι} {c : Chronicle ι σ} (settled : core.Settled c) (ch : ι) :
    (core.signal ch c).2.1.Settled (core.signal ch c).2.2 := by
  intro ending
  simp only [signal] at ending ⊢
  split
  next due =>
    have drained : core.stage.bytes = [] := List.isEmpty_iff.mp due.2
    split
    · exact ⟨due.1, drained⟩
    · exact ⟨due.1, drained⟩
  next early =>
    rw [if_neg early] at ending
    split
    next active =>
      rw [if_pos active] at ending
      exact settled ending
    next waiting =>
      rw [if_neg waiting] at ending
      exact settled (c.told_requestOutput (some ch) ▸ ending)

theorem encoder_drain {ε : Type} [Encoder ε] (core : Core (TextCoder ε) ι) (hint : Nat) (ch : ι) (s : σ) :
    (core.drain hint ch s).2.1.coder.encoder = core.coder.encoder := by
  simp only [drain]
  split
  · rfl
  · rfl

theorem coder_signal {γ : Type} (core : Core γ ι) (ch : ι) (s : σ) :
    (core.signal ch s).2.1.coder = core.coder := by
  simp only [signal]
  split
  · split <;> rfl
  · split <;> rfl

theorem stage_signal {γ : Type} (core : Core γ ι) (ch : ι) (s : σ) : (core.signal ch s).2.1.stage = core.stage := by
  simp only [signal]
  split
  · split <;> rfl
  · split <;> rfl

private theorem drain_closes [CodeIndex] (core : Core (TextCoder CharsetEncoder) ι) (hint : Nat)
    (ch : ι) (c : Chronicle ι σ) :
    core.Closes c (core.drain hint ch c).2.1 (core.drain hint ch c).2.2 :=
  ⟨core.encoder_drain hint ch c, core.drain_keeps hint ch c, fun settled => settled_drain settled hint ch⟩

private theorem signal_closes (core : Core (TextCoder CharsetEncoder) ι) (ch : ι) (c : Chronicle ι σ) :
    core.Closes c (core.signal ch c).2.1 (core.signal ch c).2.2 :=
  ⟨congrArg TextCoder.encoder (core.coder_signal ch c), core.signal_keeps ch c,
    fun settled => settled_signal settled ch⟩

private theorem closeTurn_closes [CodeIndex] {core : Core (TextCoder CharsetEncoder) ι} {e : BuiltInEncoder}
    (state : core.coder.encoder = .builtIn e) (hint : Nat) (ch : ι) (c : Chronicle ι σ) :
    core.Closes c (core.closeTurn hint ch c).2.1 (core.closeTurn hint ch c).2.2 := by
  have coded := finishCoding_closes state c
  simp only [closeTurn]
  split
  · exact .refl core c
  · split
    next failed =>
      rw [failed] at coded
      exact coded
    next core' passed =>
      rw [passed] at coded
      have drained := core'.drain_closes hint ch c
      split
      next failed =>
        rw [failed] at drained
        exact coded.trans drained
      next core'' c' passed =>
        rw [passed] at drained
        exact (coded.trans drained).trans (core''.signal_closes ch c')

end Core

namespace CoreRun

/-- The channels and the stage hold the encoding of the text that the writes were credited for, each
of them up to a boundary between characters, and a channel that is told of the end has all of it. -/
structure Transcribed (charset : Charset) (l : CoreRun (TextCoder CharsetEncoder) (List Char) ι σ) : Prop where
  spelled : charset.reference (transcript l.writes) = some (l.core.held l.channels)
  bounded : ∀ w ∈ l.writes, ∀ n, w.result = .ok n → Text.Boundary w.data n
  whole : l.channels.told = true → charset.reference (transcript l.writes) = some l.channels.output

/-- Beyond that, the encoder remembers whether it has written the mark. -/
structure Tracked (charset : Charset) (l : CoreRun (TextCoder CharsetEncoder) (List Char) ι σ) : Prop where
  spelled : charset.reference (transcript l.writes) = some (l.core.held l.channels)
  bounded : ∀ w ∈ l.writes, ∀ n, w.result = .ok n → Text.Boundary w.data n
  encoder : l.core.coder.encoder = .builtIn ⟨charset, charset = .utf16 && (transcript l.writes).isEmpty⟩
  settled : l.core.Settled l.channels

omit [Transport ι σ] in
private theorem Tracked.transcribed {charset : Charset} {l : CoreRun (TextCoder CharsetEncoder) (List Char) ι σ}
    (h : l.Tracked charset) : l.Transcribed charset := by
  refine ⟨h.spelled, h.bounded, fun told => ?_⟩
  have empty := (h.settled (.inl told)).2
  rw [h.spelled, Core.held, empty, List.append_nil]

omit [Transport ι σ] in
private theorem tracked_initial {charset : Charset} (builtIn : ∀ e, charset ≠ .web e) (capacity : Nat) (world : σ) :
    (initial capacity (.ofEncoder charset.encoder) world : CoreRun _ (List Char) ι σ).Tracked charset := by
  have reference : charset.reference [] = some [] := by
    rw [Charset.reference_eq, Charset.unmarked_nil builtIn]
    simp [markOf]
  refine ⟨reference, fun _ member => absurd member List.not_mem_nil, ?_, ?_⟩
  · rw [Charset.encoder_builtIn builtIn]
    simp [initial, Core.initial, TextCoder.ofEncoder, BuiltInEncoder.ofCharset, transcript]
  · rintro (told | signalled)
    · cases told
    · cases signalled

private theorem Tracked.written [CodeIndex] {charset : Charset} (builtIn : ∀ e, charset ≠ .web e) (hint : Nat)
    {l : CoreRun (TextCoder CharsetEncoder) (List Char) ι σ} (h : l.Tracked charset) (data : List Char) :
    (l.perform hint (.write data)).Tracked charset := by
  have bounded : ∀ result, (∀ n, result = .ok n → Text.Boundary data n) →
      ∀ w ∈ l.writes ++ [⟨data, result⟩], ∀ n, w.result = .ok n → Text.Boundary w.data n := by
    intro result here w member
    rcases List.mem_append.mp member with old | new
    · exact h.bounded w old
    · obtain rfl := List.mem_singleton.mp new
      exact here
  by_cases active : l.core.state = .active
  · have legit : (decide (charset = .utf16) && (transcript l.writes).isEmpty) = true → charset = .utf16 := by
      simp only [Bool.and_eq_true, decide_eq_true_eq]
      exact And.left
    have transcribes :=
      TextCoder.accept_transcribes builtIn legit h.encoder l.core.stage data hint l.core.channel l.channels
    rcases took : TextCoder.accept l.core.coder l.core.stage data hint l.core.channel l.channels with
      ⟨result, coder, stage, channels⟩
    simp only [took] at transcribes
    obtain ⟨⟨here, ⟨bytes, staged, spelled⟩, encoder⟩, output, told⟩ := transcribes
    have step : Coder.accept l.core.coder l.core.stage data hint l.core.channel l.channels =
      (result, coder, stage, channels) := took
    have more : transcript (l.writes ++ [⟨data, result⟩]) = transcript l.writes ++ textOf data result := by
      simp [transcript]
    simp only [perform, Core.write, if_pos active, step]
    refine ⟨?_, bounded _ here, ?_, ?_⟩
    · rw [more, Charset.reference_append builtIn h.spelled spelled]
      simp only [Core.held, output, staged, List.append_assoc]
    · simp only [encoder, more, Text.isEmpty_append, Bool.and_assoc]
    · intro ending
      rw [told] at ending
      have ended := (h.settled ending).1
      rw [active] at ended
      cases ended
  · simp only [perform, Core.write, if_neg active]
    have same : transcript (l.writes ++ [⟨data, .error .writeAfterEnd⟩]) = transcript l.writes := by
      simp [transcript, textOf]
    exact ⟨by rw [same]; exact h.spelled, bounded _ (by simp), by rw [same]; exact h.encoder, h.settled⟩

omit [Transport ι σ] in
private theorem Tracked.closed {charset : Charset} {l : CoreRun (TextCoder CharsetEncoder) (List Char) ι σ}
    (h : l.Tracked charset) {core : Core (TextCoder CharsetEncoder) ι} {channels : Chronicle ι σ}
    (closes : l.core.Closes l.channels core channels) : Tracked charset { l with core, channels } :=
  ⟨h.spelled.trans (congrArg some closes.held.symm), h.bounded, closes.encoder.trans h.encoder,
    closes.settled h.settled⟩

private theorem Tracked.perform [CodeIndex] {charset : Charset} (builtIn : ∀ e, charset ≠ .web e) (hint : Nat)
    (l : CoreRun (TextCoder CharsetEncoder) (List Char) ι σ) (h : l.Tracked charset)
    (s : Section (List Char) ι σ) : (l.perform hint s).Tracked charset := by
  cases s with
  | openTurn ch => exact h.closed ⟨rfl, rfl, id⟩
  | write data => exact h.written builtIn hint data
  | endStream =>
    refine h.closed ⟨?_, l.core.held_endStream l.channels, ?_⟩
    · simp only [Core.endStream]
      split
      · rfl
      · rfl
    · intro settled
      simp only [Core.endStream]
      split
      next active =>
        intro ending
        have ended := (settled ending).1
        rw [active] at ended
        cases ended
      · exact settled
  | closeTurn ch => exact h.closed (Core.closeTurn_closes h.encoder hint ch l.channels)
  | ask ch =>
    refine h.closed ⟨rfl, congrArg (· ++ _) (l.channels.output_requestOutput ch), ?_⟩
    intro settled ending
    exact settled (l.channels.told_requestOutput ch ▸ ending)
  | release =>
    have initial := tracked_initial (ι := ι) builtIn l.core.stage.capacity l.channels.world
    have reset : (Coder.reset l.core.coder : TextCoder CharsetEncoder) = .ofEncoder charset.encoder := by
      rw [Charset.encoder_builtIn builtIn]
      exact congrArg (TextCoder.mk · false) (congrArg Encoder.reset h.encoder)
    simp only [CoreRun.perform, Core.release, reset]
    exact initial
  | become world => exact h.closed ⟨rfl, rfl, id⟩

theorem tracked_run [CodeIndex] {charset : Charset} (builtIn : ∀ e, charset ≠ .web e) (capacity hint : Nat) (world : σ)
    (sections : List (Section (List Char) ι σ)) :
    ((initial capacity (.ofEncoder charset.encoder) world : CoreRun _ _ ι σ).run hint sections).Tracked charset :=
  run_induction hint (Tracked.perform builtIn hint) sections _ (tracked_initial builtIn capacity world)

end CoreRun

/-- Whatever turns and handles do in whatever order with a producer of text in a built-in charset, which
`Producer.text` makes for the charset of its content type: the output and the stage behind it hold the
reference encoding of the accepted text, and the output holds all of it when a channel is told of the
end. So they do after a write and after a turn as a whole, whether these fail or not. -/
theorem producer_transcribes [CodeIndex] {τ : Type} [Source τ (List Char)] (settings : ProducerSettings)
    (contentType : Option MediaType) (charset : Charset) (builtIn : ∀ e, charset ≠ .web e) (source : τ)
    (first : Producer (TextCoder CharsetEncoder) ι τ)
    (made : Producer.textWith settings contentType charset.encoder source = .ok first) (world : σ)
    (sections : List (Section (List Char) ι σ)) :
    let l := CoreRun.run first.hint sections ⟨first.core, .start world, []⟩
    l.Transcribed charset ∧
    ∀ p : Producer (TextCoder CharsetEncoder) ι τ, p.core = l.core → p.hint = first.hint →
      (∀ data, let (result, q, c) := p.write data l.channels
        CoreRun.Transcribed charset ⟨q.core, c, l.writes ++ [⟨data, result⟩]⟩) ∧
      (∀ ch, let (_, q, c) := p.produce ch l.channels
        CoreRun.Transcribed charset ⟨q.core, c, l.writes ++ p.writes ch l.channels⟩) := by
  intro l
  obtain ⟨_, _, same⟩ := ok_of_map made
  have core : first.core = .initial settings.bufferSize (.ofEncoder charset.encoder) := by rw [same]
  have transcribed : ∀ more, (l.run first.hint more).Transcribed charset := by
    intro more
    rw [← CoreRun.run_append, core]
    exact (CoreRun.tracked_run builtIn settings.bufferSize first.hint world (sections ++ more)).transcribed
  refine ⟨transcribed [], ?_⟩
  rintro p hp hint
  constructor
  · intro data
    obtain ⟨more, hm⟩ := p.write_sections data l hp
    have after := transcribed more
    rw [← hint, hm] at after
    exact after
  · intro ch
    obtain ⟨more, hm⟩ := p.produce_sections ch l hp
    have after := transcribed more
    rw [← hint, hm] at after
    exact after

section Sample

attribute [local instance] sampleIndex

/-- The mark and a letter are staged, a character that takes four bytes has to wait for the end of the
turn, and what follows in the next turn gets no second mark. -/
theorem producer_transcribes_utf16 :
    let settings : ProducerSettings := ⟨6, some 4⟩
    let source : Script (List Char) := .ofActions []
    let first : Producer (TextCoder CharsetEncoder) Unit (Script (List Char)) :=
      ⟨.initial 6 (.ofEncoder (.builtIn ⟨.utf16, true⟩)), source, 4, none⟩
    let sections : List (Section (List Char) Unit Window) :=
      [.openTurn (), .write ['a', '😀'], .closeTurn (), .openTurn (), .write ['😀'], .endStream, .closeTurn ()]
    let l := CoreRun.run first.hint sections ⟨first.core, .start (Window.ofSize 8), []⟩
    Producer.textWith settings none Charset.utf16.encoder source = .ok first ∧ l.Transcribed .utf16 ∧
      l.channels.told = true ∧ Charset.utf16.reference ['a', '😀'] = some l.channels.output ∧
      l.channels.output = [0xFE, 0xFF, 0, 97, 0xD8, 0x3D, 0xDE, 0] := by
  intro settings source first sections l
  obtain ⟨transcribed, _⟩ := producer_transcribes settings none .utf16 nofun source first rfl (Window.ofSize 8)
    sections
  have told : l.channels.told = true := by decide
  have text : transcript l.writes = ['a', '😀'] := by decide
  have whole := transcribed.whole told
  rw [text] at whole
  exact ⟨rfl, transcribed, told, whole, by decide⟩

end Sample

end Sluice
