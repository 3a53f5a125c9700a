import Sluice.Bench.Index
import Sluice.Proofs.Producer.Run
import Sluice.Proofs.Producer.Progress

/-! A producer behind its release. No section of a turn or of a handle changes what a release would make of the
producer, so that this is always the producer as it was made. -/
namespace Sluice

/-- An encoder that a reset takes to the same state, wherever it stands. -/
class RenewingEncoder (ε : Type) [Encoder ε] : Prop where
  encode (e : ε) (text : List Char) (room : Nat) (last : Bool) :
    Encoder.reset (Encoder.encode e text room last).2 = Encoder.reset e
  flush (e : ε) (room : Nat) : Encoder.reset (Encoder.flush e room).2 = Encoder.reset e
  reset (e : ε) : Encoder.reset (Encoder.reset e) = Encoder.reset e

/-- So does a coder, and it leaves the stage its capacity. -/
class RenewingCoder (γ : Type) {κ : outParam Type} [Coder γ κ] : Prop where
  accept {ι σ : Type} [Transport ι σ] (coder : γ) (stage : Stage) (data : κ) (hint : Nat) (ch : ι) (s : σ) :
    let after := Coder.accept coder stage data hint ch s
    Coder.reset after.2.1 = Coder.reset coder ∧ after.2.2.1.capacity = stage.capacity
  finish (coder : γ) (stage : Stage) :
    let after := Coder.finish coder stage
    Coder.reset after.2.1 = Coder.reset coder ∧ after.2.2.capacity = stage.capacity
  takeFlushRequest (coder : γ) : Coder.reset (Coder.takeFlushRequest coder).2 = Coder.reset coder
  reset (coder : γ) : Coder.reset (Coder.reset coder) = Coder.reset coder

section Encoders

instance : RenewingEncoder BuiltInEncoder where
  encode _ _ _ _ := rfl
  flush _ _ := rfl
  reset _ := rfl

instance [CodeIndex] : RenewingEncoder WebEncoder where
  encode e text room last := by
    have kept : (Encoder.encode e text room last).2.encoding = e.encoding := by
      simp only [Encoder.encode]
      split
      · rfl
      · rfl
    exact congrArg WebEncoder.ofEncoding kept
  flush _ _ := rfl
  reset _ := rfl

instance [CodeIndex] : RenewingEncoder CharsetEncoder where
  encode e text room last := by
    cases e with
    | builtIn e => exact congrArg CharsetEncoder.builtIn (RenewingEncoder.encode e text room last)
    | web e => exact congrArg CharsetEncoder.web (RenewingEncoder.encode e text room last)
  flush e room := by
    cases e with
    | builtIn e => exact congrArg CharsetEncoder.builtIn (RenewingEncoder.flush e room)
    | web e => exact congrArg CharsetEncoder.web (RenewingEncoder.flush e room)
  reset e := by
    cases e with
    | builtIn e => rfl
    | web e => rfl

theorem Charset.reset_encoder [CodeIndex] (charset : Charset) : Encoder.reset charset.encoder = charset.encoder := by
  cases charset with
  | _ => rfl

end Encoders

section Coders

variable {ε : Type} [Encoder ε]

private theorem Stage.capacity_writeWith {α : Type} (stage : Stage) (fill : Nat → Except Fault (Filled α)) :
    (stage.writeWith fill).2.capacity = stage.capacity := by
  rw [writeWith_eq]
  split
  · rfl
  · rfl

private theorem BinaryCoder.capacity_makeRoom {ι σ : Type} [Transport ι σ] (stage : Stage)
    (hint : Nat) (ch : ι) (s : σ) :
    (makeRoom stage hint ch s).2.1.capacity = stage.capacity := by
  simp only [makeRoom]
  split
  · exact (stage.flushTo_sized ch s).1
  · rfl

instance : RenewingCoder BinaryCoder where
  accept coder stage bytes hint ch s := by
    refine ⟨rfl, ?_⟩
    have made := BinaryCoder.capacity_makeRoom stage hint ch s
    simp only [Coder.accept, BinaryCoder.accept]
    split
    · rfl
    · split
      next failed =>
        rw [failed] at made
        exact made
      next passed =>
        rw [passed] at made
        split
        · exact made
        · split
          · exact made
          · exact made
  finish _ _ := ⟨rfl, rfl⟩
  takeFlushRequest _ := rfl
  reset _ := rfl

namespace TextCoder

variable [RenewingEncoder ε]

private theorem reset_ending (encoder : ε) (room : Nat) :
    Encoder.reset (ending encoder room).2 = Encoder.reset encoder := by
  have called := RenewingEncoder.encode encoder [] room true
  simp only [ending]
  split
  next failed =>
    rw [failed] at called
    exact called
  next full =>
    rw [full] at called
    exact called
  next bytes encoder' used =>
    rw [used] at called
    have flushed := RenewingEncoder.flush encoder' (room - bytes.length)
    split
    next failed =>
      rw [failed] at flushed
      exact flushed.trans called
    next passed =>
      rw [passed] at flushed
      exact flushed.trans called

instance : RenewingCoder (TextCoder ε) where
  accept coder stage text hint ch s := by
    have called := RenewingEncoder.encode coder.encoder text stage.remaining false
    have sized := stage.capacity_writeWith fun _ =>
      (Encoder.encode coder.encoder text stage.remaining false).1.map filled
    have renewed : ∀ overflowed, Coder.reset (⟨(Encoder.encode coder.encoder text stage.remaining false).2,
        overflowed⟩ : TextCoder ε) = Coder.reset coder := fun _ =>
      congrArg (TextCoder.mk · false) called
    simp only [Coder.accept, accept]
    split
    next failed =>
      rw [failed] at sized
      exact ⟨renewed _, sized⟩
    next used =>
      rw [used] at sized
      exact ⟨renewed _, sized⟩
    next full =>
      rw [full] at sized
      exact ⟨renewed _, sized⟩
  finish coder stage :=
    ⟨congrArg (TextCoder.mk · false) (reset_ending coder.encoder stage.remaining),
      stage.capacity_writeWith fun _ => (ending coder.encoder stage.remaining).1⟩
  takeFlushRequest _ := rfl
  reset coder := congrArg (TextCoder.mk · false) (RenewingEncoder.reset coder.encoder)

end TextCoder

end Coders

namespace Core

variable {γ κ ι σ : Type} [Coder γ κ]

private theorem release_congr {core core' : Core γ ι} (coder : Coder.reset core'.coder = Coder.reset core.coder)
    (capacity : core'.stage.capacity = core.stage.capacity) : core'.release = core.release := by
  simp only [release, Stage.clear, coder, capacity]

private theorem release_initial {coder : γ} (unused : Coder.reset coder = coder) (capacity : Nat) :
    (initial capacity coder : Core γ ι).release = initial capacity coder :=
  congrArg (initial capacity) unused

private theorem release_endStream (core : Core γ ι) : core.endStream.release = core.release := by
  simp only [endStream]
  split
  · rfl
  · rfl

variable [RenewingCoder γ]

private theorem release_release (core : Core γ ι) : core.release.release = core.release :=
  release_congr (RenewingCoder.reset core.coder) rfl

private theorem release_finishCoding (core : Core γ ι) : core.finishCoding.2.release = core.release := by
  have finished := RenewingCoder.finish core.coder core.stage
  simp only [finishCoding]
  split
  · split
    all_goals
      next called =>
        rw [called] at finished
        exact release_congr finished.1 finished.2
  · rfl

variable [Transport ι σ]

private theorem release_write (core : Core γ ι) (hint : Nat) (data : κ) (s : σ) :
    (core.write hint data s).2.1.release = core.release := by
  simp only [write]
  split
  · have accepted := RenewingCoder.accept core.coder core.stage data hint core.channel s
    exact release_congr accepted.1 accepted.2
  · rfl

private theorem release_drain (core : Core γ ι) (hint : Nat) (ch : ι) (s : σ) :
    (core.drain hint ch s).2.1.release = core.release := by
  have told := RenewingCoder.takeFlushRequest core.coder
  simp only [drain]
  split
  · exact release_congr told (core.stage.flushTo_sized ch s).1
  · exact release_congr told rfl

omit [RenewingCoder γ] in
private theorem release_signal (core : Core γ ι) (ch : ι) (s : σ) : (core.signal ch s).2.1.release = core.release := by
  simp only [signal]
  split
  · split
    · rfl
    · rfl
  · split
    · rfl
    · rfl

private theorem release_closeTurn (core : Core γ ι) (hint : Nat) (ch : ι) (s : σ) :
    (core.closeTurn hint ch s).2.1.release = core.release := by
  have coded := core.release_finishCoding
  simp only [closeTurn]
  split
  · rfl
  · generalize core.finishCoding = finished at coded
    obtain ⟨result, core'⟩ := finished
    have drained := (core'.release_drain hint ch s).trans coded
    split
    next failed =>
      obtain rfl := (Prod.mk.inj failed).2
      exact coded
    next passed =>
      obtain rfl := (Prod.mk.inj passed).2
      split
      next failed =>
        rw [failed] at drained
        exact drained
      next core'' s' passed =>
        rw [passed] at drained
        exact (core''.release_signal ch s').trans drained

end Core

section Sections

variable {γ κ ι σ τ : Type} [Coder γ κ] [RenewingCoder γ] [Transport ι σ]

/-- What a producer keeps in all of its life: its settings, and what a release makes of its core. -/
structure Producer.Akin (p q : Producer γ ι τ) : Prop where
  core : q.core.release = p.core.release
  hint : q.hint = p.hint
  contentType : q.contentType = p.contentType

omit [RenewingCoder γ] in
theorem Producer.Akin.trans {p q r : Producer γ ι τ} (h : p.Akin q) (h' : q.Akin r) : p.Akin r :=
  ⟨h'.core.trans h.core, h'.hint.trans h.hint, h'.contentType.trans h.contentType⟩

private theorem TurnStage.step_akin [Source τ κ] (t : TurnStage κ ι τ) (ch : ι) (p : Producer γ ι τ) (s : σ) :
    p.Akin (t.step ch p s).2.1 := by
  match t with
  | opening => exact ⟨rfl, rfl, rfl⟩
  | calling (.done (.error fault, source)) => exact ⟨rfl, rfl, rfl⟩
  | calling (.done (.ok (), source)) => exact ⟨rfl, rfl, rfl⟩
  | calling (.write data next) => exact ⟨p.core.release_write p.hint data s, rfl, rfl⟩
  | calling (.endStream next) => exact ⟨p.core.release_endStream, rfl, rfl⟩
  | asking known rest => exact ⟨rfl, rfl, rfl⟩
  | closing => exact ⟨p.core.release_closeTurn p.hint ch s, rfl, rfl⟩
  | finished result => exact ⟨rfl, rfl, rfl⟩

private theorem HandleCall.step_akin (e : HandleCall κ ι) (p : Producer γ ι τ) (s : σ) : p.Akin (e.step p s).2.1 := by
  match e with
  | writing data =>
    have written := p.core.release_write p.hint data s
    simp only [step]
    split
    all_goals
      next called =>
        rw [called] at written
        exact ⟨written, rfl, rfl⟩
  | ending => exact ⟨p.core.release_endStream, rfl, rfl⟩
  | asking known answer => exact ⟨rfl, rfl, rfl⟩
  | done answer => exact ⟨rfl, rfl, rfl⟩

/-- Nor does any section, in whatever order they come. -/
theorem CoreRun.release_perform (l : CoreRun γ κ ι σ) (hint : Nat) (s : Section κ ι σ) :
    (l.perform hint s).core.release = l.core.release := by
  cases s with
  | openTurn ch => rfl
  | write data => exact l.core.release_write hint data l.channels
  | endStream => exact l.core.release_endStream
  | closeTurn ch => exact l.core.release_closeTurn hint ch l.channels
  | ask ch => rfl
  | release => exact l.core.release_release
  | become world => rfl

theorem CoreRun.release_run (hint : Nat) (sections : List (Section κ ι σ)) (l : CoreRun γ κ ι σ) :
    (l.run hint sections).core.release = l.core.release :=
  run_induction hint (fun l' same s => (l'.release_perform hint s).trans same) sections l rfl

end Sections

namespace ProducerRun

variable {γ κ ι σ τ : Type}

/-- The move of a run that begins behind a number of calls. -/
def Move.behind (calls : Nat) : Move κ ι σ τ → Move κ ι σ τ
  | .resume place => .resume (calls + place)
  | move => move

/-- Two runs that nobody can tell apart but by calls and a turn that were over before. -/
structure Alike (old : List (HandleCall κ ι)) (a b : ProducerRun γ κ ι σ τ) : Prop where
  producer : a.producer = b.producer
  world : a.world = b.world
  events : a.events = b.events
  handleCalls : a.handleCalls = old ++ b.handleCalls
  turn : a.turn = b.turn ∨ b.turn = none ∧ a.busy = false

variable [Coder γ κ] [Transport ι σ] [Source τ κ]

private theorem step_work_idle {w : ProducerRun γ κ ι σ τ} (idle : w.busy = false) : w.step .work = w := by
  obtain ⟨producer, world, turn, handleCalls, events⟩ := w
  cases turn with
  | none => rfl
  | some t =>
    obtain ⟨ch, t⟩ := t
    cases t with
    | finished result => simp [step, TurnStage.step, TurnStage.minutes, Chronicle.start]
    | _ => cases idle

private theorem step_turn_idle {w : ProducerRun γ κ ι σ τ} (idle : w.busy = false) (ch : ι) :
    w.step (.turn ch) = { w with turn := some (ch, .opening) } :=
  if_neg (by simp [idle])

private theorem step_turn_busy {w : ProducerRun γ κ ι σ τ} (going : w.busy = true) (ch : ι) : w.step (.turn ch) = w :=
  if_pos going

theorem Alike.step {old : List (HandleCall κ ι)} {a b : ProducerRun γ κ ι σ τ} (h : Alike old a b)
    (move : Move κ ι σ τ) :
    Alike old (a.step (move.behind old.length)) (b.step move) := by
  obtain ⟨producer, world, turn, handleCalls, events⟩ := a
  obtain ⟨rfl, rfl, rfl, rfl, same⟩ := h
  cases move with
  | turn ch =>
    rcases same with rfl | ⟨none, idle⟩
    · have alike : ProducerRun.busy ⟨b.producer, b.world, b.turn, old ++ b.handleCalls, b.events⟩ = b.busy := rfl
      simp only [Move.behind]
      cases going : b.busy with
      | true =>
        rw [step_turn_busy (alike.trans going), step_turn_busy going]
        exact ⟨rfl, rfl, rfl, rfl, .inl rfl⟩
      | false =>
        rw [step_turn_idle (alike.trans going), step_turn_idle going]
        exact ⟨rfl, rfl, rfl, rfl, .inl rfl⟩
    · simp only [Move.behind]
      rw [step_turn_idle idle, step_turn_idle (by simp [busy, none])]
      exact ⟨rfl, rfl, rfl, rfl, .inl rfl⟩
  | work =>
    rcases same with rfl | ⟨none, idle⟩
    · simp only [Move.behind, ProducerRun.step]
      split
      · exact ⟨rfl, rfl, rfl, rfl, .inl rfl⟩
      · exact ⟨rfl, rfl, rfl, rfl, .inl rfl⟩
    · simp only [Move.behind]
      rw [step_work_idle idle, step_work_idle (by simp [busy, none])]
      exact ⟨rfl, rfl, rfl, rfl, .inr ⟨none, idle⟩⟩
  | write data => exact ⟨rfl, rfl, rfl, List.append_assoc _ _ _, same⟩
  | endStream => exact ⟨rfl, rfl, rfl, List.append_assoc _ _ _, same⟩
  | resume place =>
    have found : (old ++ b.handleCalls)[old.length + place]? = b.handleCalls[place]? := by
      rw [List.getElem?_append_right (Nat.le_add_right _ _), Nat.add_sub_cancel_left]
    simp only [Move.behind, ProducerRun.step, found]
    split
    · exact ⟨rfl, rfl, rfl, rfl, same⟩
    · refine ⟨rfl, rfl, rfl, ?_, same⟩
      simp only [List.set_append_right _ _ (Nat.le_add_right _ _), Nat.add_sub_cancel_left]
  | supply source => exact ⟨rfl, rfl, rfl, rfl, same⟩
  | release => exact ⟨rfl, rfl, rfl, rfl, same⟩
  | become world => exact ⟨rfl, rfl, rfl, rfl, same⟩

theorem Alike.run {old : List (HandleCall κ ι)} {a b : ProducerRun γ κ ι σ τ} (h : Alike old a b)
    (moves : List (Move κ ι σ τ)) : Alike old (a.run (moves.map (.behind old.length))) (b.run moves) := by
  induction moves generalizing a b with
  | nil => exact h
  | cons move rest ih => exact ih (h.step move)

/-- Behind a release that comes between turns the run of a producer is the one of a new producer with the source
as the release has left it, whatever was and whatever comes. Calls that were made before are over, but not their
handles. -/
def Renews (make : τ → Except Fault (Producer γ ι τ)) (first : ProducerRun γ κ ι σ τ) : Prop :=
  ∀ before : List (Move κ ι σ τ), let w := first.run before
    w.busy = false → ∃ fresh, make (Source.release w.producer.source) = .ok fresh ∧
      ∀ after : List (Move κ ι σ τ),
        Alike w.handleCalls ((w.step .release).run (after.map (.behind w.handleCalls.length)))
          ((start fresh w.world).run after)

variable [RenewingCoder γ]

/-- No move takes a producer away from its kin. -/
theorem step_akin {p : Producer γ ι τ} {w : ProducerRun γ κ ι σ τ} (h : p.Akin w.producer) (move : Move κ ι σ τ) :
    p.Akin (w.step move).producer := by
  cases move with
  | turn ch =>
    simp only [step]
    split
    · exact h
    · exact h
  | work =>
    simp only [step]
    split
    · exact h
    next ch t under => exact h.trans (t.step_akin ch w.producer _)
  | write data => exact h
  | endStream => exact h
  | resume place =>
    simp only [step]
    split
    · exact h
    next e under => exact h.trans (e.step_akin w.producer _)
  | supply source => exact h.trans ⟨rfl, rfl, rfl⟩
  | release => exact h.trans ⟨w.producer.core.release_release, rfl, rfl⟩
  | become world => exact h

private theorem run_akin {p : Producer γ ι τ} {w : ProducerRun γ κ ι σ τ} (h : p.Akin w.producer)
    (moves : List (Move κ ι σ τ)) :
    p.Akin (w.run moves).producer := by
  induction moves generalizing w with
  | nil => exact h
  | cons move rest ih => exact ih (step_akin h move)

/-- A producer whose coder has nothing to reset when it is made becomes a new one by a release. -/
theorem renews {settings : ProducerSettings} {contentType : Option MediaType} {coder : γ}
    (unused : Coder.reset coder = coder) {source : τ} {p : Producer γ ι τ}
    (made : Producer.ofCoder settings contentType coder source = .ok p) (world : σ) :
    (start p world).Renews (Producer.ofCoder settings contentType coder) := by
  intro before w idle
  have akin : p.Akin w.producer := run_akin (w := start p world) ⟨rfl, rfl, rfl⟩ before
  obtain ⟨_, valid, rfl⟩ := ok_of_map made
  have released : w.producer.release =
      ⟨.initial settings.bufferSize coder, Source.release w.producer.source, settings.hint, contentType⟩ := by
    rw [Producer.release, akin.core, akin.hint, akin.contentType, Core.release_initial unused]
  have begun : Alike w.handleCalls (w.step .release) (start w.producer.release w.world) :=
    ⟨rfl, rfl, rfl, (List.append_nil _).symm, .inr ⟨rfl, idle⟩⟩
  refine ⟨w.producer.release, ?_, begun.run⟩
  rw [released, Producer.ofCoder, valid]
  rfl

end ProducerRun

/-- A release makes producers of bytes and of text new, whatever state their turns, handles, faults and channels have
left them in. An encoder of the caller's own has to renew as well, and to be new when the producer is made. -/
theorem release_renews_producer [CodeIndex] {ι σ τ υ : Type} [Transport ι σ]
    [Source τ (List UInt8)] [Source υ (List Char)]
    (settings : ProducerSettings) (contentType : Option MediaType) (world : σ) :
    (∀ (source : τ) (p : Producer BinaryCoder ι τ), Producer.binary settings contentType source = .ok p →
      (ProducerRun.start p world).Renews (Producer.binary settings contentType)) ∧
    (∀ (source : υ) (p : Producer (TextCoder CharsetEncoder) ι υ),
      Producer.text settings contentType source = .ok p →
      (ProducerRun.start p world).Renews (Producer.text settings contentType)) ∧
    ∀ {ε : Type} [Encoder ε] [RenewingEncoder ε] (encoder : ε), Encoder.reset encoder = encoder →
      ∀ (source : υ) (p : Producer (TextCoder ε) ι υ), Producer.textWith settings contentType encoder source = .ok p →
        (ProducerRun.start p world).Renews (Producer.textWith settings contentType encoder) := by
  refine ⟨fun _ _ made => ProducerRun.renews rfl made world, fun _ _ made => ?_, fun encoder unused _ _ made => ?_⟩
  · have unused := ((contentType.bind MediaType.charset).getD .usAscii).reset_encoder
    exact ProducerRun.renews (congrArg (TextCoder.mk · false) unused) made world
  · exact ProducerRun.renews (congrArg (TextCoder.mk · false) unused) made world

section Sample

attribute [local instance] sampleIndex

/-- A handle has ended the stream behind a text that stopped in front of a letter, when the producer is released. The
next text that comes through it gets the byte order mark again, and nothing of the one before. -/
theorem release_renews_producer_flushing :
    let settings : ProducerSettings := ⟨4, some 4⟩
    let source : Script (List UInt8) := .ofActions []
    let lines : Script (List Char) := .ofActions []
    let p : Producer BinaryCoder Nat (Script (List UInt8)) := ⟨.initial 4 .initial, source, 4, none⟩
    let q : Producer (TextCoder CharsetEncoder) Nat (Script (List Char)) :=
      ⟨.initial 4 (.ofEncoder Charset.usAscii.encoder), lines, 4, none⟩
    let r : Producer (TextCoder CharsetEncoder) Nat (Script (List Char)) :=
      ⟨.initial 4 (.ofEncoder Charset.utf16.encoder), lines, 4, none⟩
    let world : List FaultyRecorder := [⟨.withLimit none, ⟨false, false, 0⟩⟩]
    let w := (ProducerRun.start r world).run [.write ['a', 'b'], .resume 0, .resume 0, .endStream, .resume 1, .resume 1]
    let last := (w.step .release).run [.write ['c'], .resume 2, .resume 2, .endStream, .resume 3, .resume 3,
      .turn 0, .work, .work]
    Producer.binary settings none source = .ok p ∧
      (ProducerRun.start p world).Renews (Producer.binary settings none) ∧
      Producer.text settings none lines = .ok q ∧ (ProducerRun.start q world).Renews (Producer.text settings none) ∧
      Encoder.reset Charset.utf16.encoder = Charset.utf16.encoder ∧
      Producer.textWith settings none Charset.utf16.encoder lines = .ok r ∧
      (ProducerRun.start r world).Renews (Producer.textWith settings none Charset.utf16.encoder) ∧
      w.busy = false ∧ w.producer.core.coder = ⟨.builtIn ⟨.utf16, false⟩, true⟩ ∧
      w.producer.core.state = .flushing ∧ w.producer.core.stage.bytes = [0xFE, 0xFF, 0, 0x61] ∧
      last.world.map (fun f => f.recorder.data) = [[0xFE, 0xFF, 0, 0x63]] ∧
      last.world.map (fun f => f.recorder.ends) = [1] := by
  intro settings source lines p q r world w last
  obtain ⟨binary, text, custom⟩ := release_renews_producer (ι := Nat) (τ := Script (List UInt8))
    (υ := Script (List Char)) settings none world
  exact ⟨rfl, binary source p rfl, rfl, text lines q rfl, rfl, rfl, custom Charset.utf16.encoder rfl lines r rfl,
    by decide, by decide, by decide, by decide, by decide, by decide⟩

end Sample

end Sluice
