import Sluice.Bench.Index
import Sluice.Bench.Peer
import Sluice.Bench.Script
import Sluice.Proofs.Producer.Turns
import Sluice.Proofs.Pump.Waking

/-! An outbound pump that drives a producer, beside the handles of that. Nothing that is due stays behind
while the pump sleeps. -/
namespace Sluice

namespace Core

variable {γ κ : Type} [Coder γ κ]

/-- Nothing is due: the application goes on, the coder does not want a flush, and what is staged is nothing
or too little for one. -/
def Calm (core : Core γ Unit) (hint : Nat) : Prop :=
  core.state = .active ∧ (Coder.takeFlushRequest core.coder).1 = false ∧
    (core.stage.bytes = [] ∨ core.stage.length < hint ∧ core.stage.length < core.stage.capacity)

/-- What the end of a turn does in front of a window. If it succeeds, there is something in the window for
the pump, or nothing is due. -/
structure ClosesTurn (core : Core γ Unit) (hint : Nat) (w : Window) (result : Except Fault Unit)
    (core' : Core γ Unit) (w' : Window) : Prop where
  channel : core'.channel = core.channel
  size : w'.size = w.size
  signalled : (core.endSignalled = true → w.ended = true) → core'.endSignalled = true → w'.ended = true
  served : (core.endSignalled = true → w.ended = true) → result = .ok () →
    w'.pending ≠ [] ∨ w'.requested = true ∨ w'.ended = true ∨ core'.Calm hint

omit [Coder γ κ] in
private theorem endStream_keeps (core : Core γ Unit) :
    core.endStream.channel = core.channel ∧ core.endStream.endSignalled = core.endSignalled := by
  simp only [endStream]
  split
  · exact ⟨rfl, rfl⟩
  · exact ⟨rfl, rfl⟩

private theorem finishCoding_keeps_channel (core : Core γ Unit) :
    core.finishCoding.2.channel = core.channel ∧ core.finishCoding.2.endSignalled = core.endSignalled := by
  simp only [finishCoding]
  split
  · split
    all_goals exact ⟨rfl, rfl⟩
  · exact ⟨rfl, rfl⟩

private theorem drain_keeps_channel (core : Core γ Unit) (hint : Nat) (w : Window) :
    (core.drain hint () w).2.1.channel = core.channel ∧
      (core.drain hint () w).2.1.endSignalled = core.endSignalled ∧
      (core.drain hint () w).2.2.size = w.size ∧ (core.drain hint () w).2.2.ended = w.ended := by
  obtain ⟨size, ended, _⟩ := core.stage.flushTo_window (some ()) w
  simp only [drain]
  split
  · exact ⟨rfl, rfl, size, ended⟩
  · exact ⟨rfl, rfl, rfl, rfl⟩

private theorem drain_serves [WakingCoder γ] {core core' : Core γ Unit} (hint : Nat) {w w' : Window} (live : 0 < w.size)
    (drained : core.drain hint () w = (.ok (), core', w')) (active : core'.state = .active) :
    w'.pending ≠ [] ∨ core'.Calm hint := by
  have forgets := WakingCoder.forgets core.coder
  simp only [drain] at drained
  split at drained
  next due =>
    obtain ⟨flushed, rfl, rfl⟩ := Prod.mk.inj drained |>.imp_right Prod.mk.inj
    obtain ⟨n, flushed, _⟩ := ok_of_map flushed
    rcases core.stage.flushTo_serves live flushed with pending | ⟨empty, still⟩
    · exact .inl pending
    · refine .inr ⟨active, forgets, .inl ?_⟩
      exact (congrArg Stage.bytes still).trans empty
  next calm =>
    obtain ⟨_, rfl, rfl⟩ := Prod.mk.inj drained |>.imp_right Prod.mk.inj
    simp only [isDue, Stage.isFull, Bool.or_eq_true, decide_eq_true_eq, beq_iff_eq, not_or, Nat.not_le] at calm
    refine .inr ⟨active, forgets, .inr ⟨calm.1.2, ?_⟩⟩
    have room := calm.1.1.2
    simp only [Stage.remaining] at room
    dsimp only
    omega

private theorem closeTurn_window [WakingCoder γ] (core : Core γ Unit) (hint : Nat) {w : Window} (live : 0 < w.size) :
    core.ClosesTurn hint w (core.closeTurn hint () w).1 (core.closeTurn hint () w).2.1
      (core.closeTurn hint () w).2.2 := by
  obtain ⟨channel, signalled⟩ := core.finishCoding_keeps_channel
  simp only [closeTurn]
  split
  next told => exact ⟨rfl, rfl, id, fun fit _ => .inr (.inr (.inl (fit told)))⟩
  · split
    next failed =>
      rw [failed] at channel signalled
      exact ⟨channel, rfl, fun fit now => fit (signalled.symm.trans now), fun _ => nofun⟩
    next core' passed =>
      rw [passed] at channel signalled
      obtain ⟨channel', signalled', size, ended⟩ := core'.drain_keeps_channel hint w
      split
      next failed =>
        rw [failed] at channel' signalled' size ended
        refine ⟨channel'.trans channel, size, fun fit now => ?_, fun _ => nofun⟩
        exact ended.trans (fit ((signalled'.trans signalled).symm.trans now))
      next core'' w' passed =>
        have serves := drain_serves hint live passed
        rw [passed] at channel' signalled' size ended
        have channel := channel'.trans channel
        have passed_on (fit : core.endSignalled = true → w.ended = true) (now : core''.endSignalled = true) :
            w'.ended = true := ended.trans (fit ((signalled'.trans signalled).symm.trans now))
        simp only [signal]
        split
        · exact ⟨channel, size, fun _ _ => rfl, fun _ _ => .inr (.inr (.inl rfl))⟩
        · split
          next active =>
            refine ⟨channel, size, passed_on, fun _ _ => ?_⟩
            exact (serves active).imp_right fun calm => .inr (.inr calm)
          · exact ⟨channel, size, passed_on, fun _ _ => .inr (.inl rfl)⟩

private theorem write_window [WakingCoder γ] (core : Core γ Unit) (hint : Nat) (data : κ) (w : Window) :
    let after := core.write hint data w
    after.2.1.channel = core.channel ∧ after.2.1.endSignalled = core.endSignalled ∧
      after.2.2.size = w.size ∧ after.2.2.ended = w.ended ∧
      (core.channel = some () → (∃ n, after.1 = .ok (n + 1)) ∨
        (after.2.2.requested = true ∧ after.2.2.bell.Answers) ∨ w.ended = true ∨
        after.2.2 = w ∧ (core.Calm hint → after.2.1.Calm hint)) := by
  simp only [write]
  split
  next active =>
    obtain ⟨size, ended, wakes⟩ := WakingCoder.accept core.coder core.stage data hint core.channel w
    refine ⟨rfl, rfl, size, ended, fun known => ?_⟩
    refine (wakes known).imp_right (.imp_right (.imp_right ?_))
    rintro ⟨same, staged, flag⟩
    refine ⟨same, fun ⟨_, quiet, level⟩ => ⟨active, flag.trans quiet, ?_⟩⟩
    rw [show (Coder.accept core.coder core.stage data hint core.channel w).2.2.1 = _ from staged]
    exact level
  · exact ⟨rfl, rfl, rfl, rfl, fun _ => .inr (.inr (.inr ⟨rfl, id⟩))⟩

end Core

namespace HandleCall

variable {γ κ τ : Type} [Coder γ κ]

/-- Whether a call is about to ask for output. -/
def Owes : HandleCall κ Unit → Prop
  | asking (some _) _ => True
  | _ => False

/-- What a step of a call does in front of a window. If the channel is known, whoever makes something due
is about to ask for output, and then does so. -/
structure Moves (e : HandleCall κ Unit) (p : Producer γ Unit τ) (w : Window) (e' : HandleCall κ Unit)
    (p' : Producer γ Unit τ) (w' : Window) : Prop where
  hint : p'.hint = p.hint
  channel : p'.core.channel = p.core.channel
  signalled : p'.core.endSignalled = p.core.endSignalled
  size : w'.size = w.size
  ended : w'.ended = w.ended
  stirs : p.core.channel = some () → e'.Owes ∨ (w'.requested = true ∧ w'.bell.Answers) ∨ w.ended = true ∨
    w' = w ∧ (p.core.Calm p.hint → p'.core.Calm p.hint) ∧ (e.Owes → e'.Owes)

private theorem step_moves [WakingCoder γ] (e : HandleCall κ Unit) (p : Producer γ Unit τ) (w : Window) :
    e.Moves p w (e.step p w).1 (e.step p w).2.1 (e.step p w).2.2 := by
  match e with
  | writing data =>
    obtain ⟨channel, signalled, size, ended, stirs⟩ := p.core.write_window p.hint data w
    dsimp only [step]
    generalize p.core.write p.hint data w = after at channel signalled size ended stirs
    match after with
    | (.error fault, core, w') =>
      refine ⟨rfl, channel, signalled, size, ended, fun known => .inr ?_⟩
      refine ((stirs known).resolve_left nofun).imp_right (.imp_right ?_)
      exact fun ⟨same, calm⟩ => ⟨same, calm, nofun⟩
    | (.ok 0, core, w') =>
      refine ⟨rfl, channel, signalled, size, ended, fun known => .inr ?_⟩
      refine ((stirs known).resolve_left nofun).imp_right (.imp_right ?_)
      exact fun ⟨same, calm⟩ => ⟨same, calm, nofun⟩
    | (.ok (n + 1), core, w') =>
      refine ⟨rfl, channel, signalled, size, ended, fun known => .inl ?_⟩
      change (asking core.channel _ : HandleCall κ Unit).Owes
      rw [show core.channel = some () from channel.trans known]
      trivial
  | ending =>
    obtain ⟨channel, signalled⟩ := p.core.endStream_keeps
    refine ⟨rfl, channel, signalled, rfl, rfl, fun known => .inl ?_⟩
    simp only [step, known]
    trivial
  | asking none answer => exact ⟨rfl, rfl, rfl, rfl, rfl, fun _ => .inr (.inr (.inr ⟨rfl, id, id⟩))⟩
  | asking (some ch) answer => exact ⟨rfl, rfl, rfl, rfl, rfl, fun _ => .inr (.inl w.requestOutput_heard)⟩
  | done answer => exact ⟨rfl, rfl, rfl, rfl, rfl, fun _ => .inr (.inr (.inr ⟨rfl, id, id⟩))⟩

end HandleCall

/-- A producer and the calls of its handles. -/
structure ProducerWithHandles (γ κ τ : Type) where
  producer : Producer γ Unit τ
  handleCalls : List (HandleCall κ Unit)

namespace ProducerWithHandles

variable {γ κ τ : Type} [Coder γ κ]

/-- A handle is called, its call does its next step, or the source is exchanged. -/
inductive Act (κ τ : Type)
  | write (data : κ)
  | endStream
  | resume (place : Nat)
  | supply (source : τ)

def act (a : Act κ τ) (m : ProducerWithHandles γ κ τ) (w : Window) : ProducerWithHandles γ κ τ × Window :=
  match a with
  | .write data => ({ m with handleCalls := m.handleCalls ++ [.writing data] }, w)
  | .endStream => ({ m with handleCalls := m.handleCalls ++ [.ending] }, w)
  | .resume place =>
    match m.handleCalls[place]? with
    | none => (m, w)
    | some e =>
      let (e, producer, w) := e.step m.producer w
      (⟨producer, m.handleCalls.set place e⟩, w)
  | .supply source => ({ m with producer := { m.producer with source } }, w)

/-- A producer that knows its channel is calm when nothing is due. Its turn makes it known at once. -/
instance : Watched (ProducerWithHandles γ κ τ) (TurnStage κ Unit τ) where
  Linked m := m.producer.core.channel = some ()
  Owes m := ∃ e ∈ m.handleCalls, e.Owes
  Calm m := m.producer.core.Calm m.producer.hint
  Fit t m ended := (t = .opening ∨ m.producer.core.channel = some ()) ∧
    (m.producer.core.endSignalled = true → ended = true)

open Watched (Linked Owes Calm Fit)

private theorem aside_join {t : TurnStage κ Unit τ} {m : ProducerWithHandles γ κ τ} {w : Window} (fit : Fit t m w.ended)
    (e : HandleCall κ Unit) : Aside t m w { m with handleCalls := m.handleCalls ++ [e] } w := by
  refine ⟨fit, rfl, rfl, id, fun _ => .inr (.inr (.inr ⟨rfl, id, ?_⟩))⟩
  rintro ⟨other, member, owes⟩
  exact ⟨other, List.mem_append_left _ member, owes⟩

private theorem aside_post [WakingCoder γ] {t : TurnStage κ Unit τ} {m : ProducerWithHandles γ κ τ} {w : Window}
    (fit : Fit t m w.ended) {place : Nat} {e : HandleCall κ Unit} (there : m.handleCalls[place]? = some e) :
    Aside t m w ⟨(e.step m.producer w).2.1, m.handleCalls.set place (e.step m.producer w).1⟩
      (e.step m.producer w).2.2 := by
  obtain ⟨hint, channel, signalled, size, ended, stirs⟩ := e.step_moves m.producer w
  obtain ⟨inside, _⟩ := List.getElem?_eq_some_iff.mp there
  refine ⟨⟨fit.1.imp_right channel.trans, fun now => ?_⟩, size, ended, channel.trans, fun known => ?_⟩
  · exact ended.trans (fit.2 (signalled.symm.trans now))
  · rcases stirs known with owes | heard | closed | ⟨same, calm, keeps⟩
    · exact .inl ⟨_, List.mem_set inside _, owes⟩
    · exact .inr (.inl heard)
    · exact .inr (.inr (.inl closed))
    · refine .inr (.inr (.inr ⟨same, fun before => ?_, exists_mem_set there keeps⟩))
      change Core.Calm _ _
      rw [hint]
      exact calm before

private theorem aside_act [WakingCoder γ] (a : Act κ τ) (t : TurnStage κ Unit τ)
    (m : ProducerWithHandles γ κ τ) (w : Window)
    (fit : Fit t m w.ended) : Aside t m w (act a m w).1 (act a m w).2 := by
  cases a with
  | write data => exact aside_join fit (.writing data)
  | endStream => exact aside_join fit .ending
  | resume place =>
    simp only [act]
    split
    · exact .refl fit
    next e there => exact aside_post fit there
  | supply source => exact ⟨fit, rfl, rfl, id, fun _ => .inr (.inr (.inr ⟨rfl, id, id⟩))⟩

variable [Source τ κ]

instance : Supplier (ProducerWithHandles γ κ τ) (TurnStage κ Unit τ) (Act κ τ) where
  opening := .opening
  advance t m w :=
    let (t, producer, w) := t.step () m.producer w
    (t, { m with producer }, w)
  result? := TurnStage.result?
  act := act

instance : Outflow (ProducerWithHandles γ κ τ) Unit Window where
  produce m ch w :=
    let (result, producer, w) := Outflow.produce m.producer ch w
    (result, { m with producer }, w)

/-- A section of a turn. The last one leaves something in the window, or nothing that is due. -/
theorem onwards_step [WakingCoder γ] (t : TurnStage κ Unit τ) (m : ProducerWithHandles γ κ τ) {w : Window}
    (going : t.result? = none) (live : 0 < w.size) (fit : Fit t m w.ended) :
    Onwards w (t.step () m.producer w).1 { m with producer := (t.step () m.producer w).2.1 }
      (t.step () m.producer w).2.2 := by
  obtain ⟨opened, signalled⟩ := fit
  -- the first section makes the channel known, and a turn in any other stage has that behind it
  have known (under : t ≠ .opening) : m.producer.core.channel = some () := opened.resolve_left under
  match t with
  | .opening =>
    refine ⟨⟨.inr rfl, signalled⟩, rfl, ?_⟩
    dsimp only [TurnStage.step]
    split
    · exact nofun
    · exact nofun
  | .calling (.done (.error fault, source)) => exact ⟨⟨.inr (known nofun), signalled⟩, rfl, nofun⟩
  | .calling (.done (.ok (), source)) => exact ⟨⟨.inr (known nofun), signalled⟩, rfl, nofun⟩
  | .calling (.write data next) =>
    obtain ⟨channel, still, size, ended, _⟩ := m.producer.core.write_window m.producer.hint data w
    refine ⟨⟨.inr (channel.trans (known nofun)), fun now => ?_⟩, size, nofun⟩
    exact ended.trans (signalled (still.symm.trans now))
  | .calling (.endStream next) =>
    obtain ⟨channel, still⟩ := m.producer.core.endStream_keeps
    exact ⟨⟨.inr (channel.trans (known nofun)), fun now => signalled (still.symm.trans now)⟩, rfl, nofun⟩
  | .asking ch rest =>
    refine ⟨⟨.inr (known nofun), fun now => ?_⟩, w.size_requestOutput ch, nofun⟩
    exact (w.ended_requestOutput ch).trans (signalled now)
  | .closing =>
    have closes := m.producer.core.closeTurn_window m.producer.hint live
    have channel := closes.channel.trans (known nofun)
    refine ⟨⟨.inr channel, closes.signalled signalled⟩, closes.size, fun finished => ⟨channel, ?_⟩⟩
    exact closes.served signalled (Option.some.inj finished)
  | .finished result => cases going

private theorem play_run (sections : Nat) (t : TurnStage κ Unit τ) (m : ProducerWithHandles γ κ τ) (w : Window) :
    Supplier.play sections t m w = ((t.run () sections m.producer w).1,
      { m with producer := (t.run () sections m.producer w).2.1 }, (t.run () sections m.producer w).2.2) := by
  induction sections generalizing t m w with
  | zero => rfl
  | succ sections ih =>
    match t with
    | .finished result =>
      have still : Supplier.play sections (.finished result) m w = (.finished result, m, w) :=
        Supplier.play_finished sections rfl m w
      exact still.symm.trans (ih (.finished result) m w)
    | .opening | .calling _ | .asking _ _ | .closing => exact ih _ _ _

instance [WakingCoder γ] : LawfulSupplier (ProducerWithHandles γ κ τ) where
  opens _ _ _ fit := ⟨.inl rfl, fit.2⟩
  opening_result := rfl
  aside := aside_act
  onwards t m _ := onwards_step t m
  alone m w := by
    obtain ⟨sections, alone⟩ := TurnStage.produce_alone () m.producer w
    refine ⟨sections, .finished (m.producer.produce () w).1, rfl, ?_⟩
    refine (play_run sections .opening m w).trans ?_
    rw [alone]
    rfl

private theorem fit_new {settings : ProducerSettings} {contentType : Option MediaType} {coder : γ} {source : τ}
    {p : Producer γ Unit τ} (made : Producer.ofCoder settings contentType coder source = .ok p) :
    Fit (Supplier.opening (ProducerWithHandles γ κ τ)) (mk p ([] : List (HandleCall κ Unit))) false := by
  obtain ⟨_, _, rfl⟩ := ok_of_map made
  exact ⟨.inl rfl, nofun⟩

/-- Whatever handles, pump and sink do in whatever order: while the pump is parked, its window is empty, the
application goes on, and neither the coder nor the level of the stage makes a flush due. -/
def KeepsUp (p : Producer γ Unit τ) : Prop :=
  ∀ (ω : Type) [ByteSink ω] (settings : PumpSettings) (sink : ω) (moves : List (SupplierPump.Move (Act κ τ) ω))
    (d : SupplierPump (ProducerWithHandles γ κ τ) (TurnStage κ Unit τ) ω),
    (SupplierPump.start settings (mk p []) sink).run moves = d → d.Parked →
    d.window.pending = [] ∧ d.supplier.producer.core.Calm d.supplier.producer.hint

private theorem keepsUp [WakingCoder γ] {settings : ProducerSettings} {contentType : Option MediaType} {coder : γ}
    {source : τ} {p : Producer γ Unit τ} (made : Producer.ofCoder settings contentType coder source = .ok p) :
    KeepsUp p := by
  intro ω _ settings sink moves d reached parked
  have sound : d.Sound := reached ▸ (SupplierPump.sound_start (fit_new made) sink).run moves
  exact (sound.parked parked).symm

end ProducerWithHandles

/-- A pump keeps up with a producer of bytes, with one of text in the charset of its content type, and with
one of text with an encoder that is not ahead of its text. -/
theorem producer_pump_keeps_up [CodeIndex] {τ υ ε : Type} [Source τ (List UInt8)] [Source υ (List Char)] [Encoder ε]
    [SparingEncoder ε] (settings : ProducerSettings) (contentType : Option MediaType) :
    (∀ (source : τ) (p : Producer BinaryCoder Unit τ),
      Producer.binary settings contentType source = .ok p → ProducerWithHandles.KeepsUp p) ∧
    (∀ (source : υ) (p : Producer (TextCoder CharsetEncoder) Unit υ),
      Producer.text settings contentType source = .ok p → ProducerWithHandles.KeepsUp p) ∧
    ∀ (encoder : ε) (source : υ) (p : Producer (TextCoder ε) Unit υ),
      Producer.textWith settings contentType encoder source = .ok p → ProducerWithHandles.KeepsUp p :=
  ⟨fun _ _ made => ProducerWithHandles.keepsUp made,
    fun _ _ made => ProducerWithHandles.keepsUp made,
    fun _ _ _ made => ProducerWithHandles.keepsUp made⟩

section Sample

attribute [local instance] sampleIndex

/-- A byte that was staged ahead of the first turn is too little for a fragment, and stays while the pump
waits. -/
theorem producer_pump_keeps_up_staged :
    let settings : ProducerSettings := ⟨4, some 2⟩
    let source : Script (List UInt8) := .ofActions []
    let lines : Script (List Char) := .ofActions []
    let p : Producer BinaryCoder Unit (Script (List UInt8)) := ⟨.initial 4 .initial, source, 2, none⟩
    let q : Producer (TextCoder CharsetEncoder) Unit (Script (List Char)) :=
      ⟨.initial 4 (.ofEncoder (.builtIn ⟨.usAscii, false⟩)), lines, 2, none⟩
    let r : Producer (TextCoder CharsetEncoder) Unit (Script (List Char)) :=
      ⟨.initial 4 (.ofEncoder (.builtIn ⟨.utf16, true⟩)), lines, 2, none⟩
    let sink : PlayedSink := .ofManner ⟨none, none, false, false⟩
    let first : SupplierPump (ProducerWithHandles BinaryCoder (List UInt8) (Script (List UInt8))) _ _ :=
      .start ⟨3, 1⟩ (.mk p []) sink
    let written : List (SupplierPump.Move (ProducerWithHandles.Act (List UInt8) (Script (List UInt8))) PlayedSink) :=
      [.act (.write [9]), .act (.resume 0), .act (.resume 0)]
    let staged : Core BinaryCoder Unit := ⟨⟨4, [9]⟩, .initial, .active, false, some ()⟩
    let last : SupplierPump (ProducerWithHandles BinaryCoder (List UInt8) (Script (List UInt8))) _ _ :=
      ⟨⟨⟨3, 1⟩, (), sink, 0, .listening⟩, TurnStage.opening,
        ⟨⟨staged, source, 2, none⟩, [.done (.ok 1)]⟩, ⟨3, [], false, false, ⟨false, .asleep⟩⟩⟩
    Producer.binary settings none source = .ok p ∧ ProducerWithHandles.KeepsUp p ∧
      Producer.text settings none lines = .ok q ∧ ProducerWithHandles.KeepsUp q ∧
      Producer.textWith settings none Charset.utf16.encoder lines = .ok r ∧ ProducerWithHandles.KeepsUp r ∧
      first.run (written ++ .replicate 4 .pump ++ .replicate 3 .pump) = last ∧ last.Parked ∧ staged.Calm 2 := by
  intro settings source lines p q r sink first written staged last
  obtain ⟨binary, text, textWith⟩ := producer_pump_keeps_up (τ := Script (List UInt8)) (υ := Script (List Char))
    (ε := CharsetEncoder) settings none
  have keepsUp := binary source p rfl
  have run : first.run (written ++ .replicate 4 .pump ++ .replicate 3 .pump) = last := by
    have posted : first.run written = ⟨.start ⟨3, 1⟩ () sink, TurnStage.opening,
        ⟨⟨{ staged with channel := none }, source, 2, none⟩, [.done (.ok 1)]⟩, .ofSize 3⟩ := rfl
    have turned : (first.run written).run (.replicate 4 .pump) = ⟨⟨⟨3, 1⟩, (), sink, 0, .taking⟩,
        TurnStage.opening, ⟨⟨staged, source, 2, none⟩, [.done (.ok 1)]⟩, .ofSize 3⟩ := by
      rw [posted]
      rfl
    rw [SupplierPump.run_append, SupplierPump.run_append, turned]
    rfl
  have parked : last.Parked := by
    refine ⟨rfl, nofun, ?_⟩
    rintro ⟨e, member, owes⟩
    obtain rfl := List.mem_singleton.mp member
    exact owes
  exact ⟨rfl, keepsUp, rfl, text lines q rfl, rfl, textWith _ lines r rfl, run, parked,
    (keepsUp _ _ sink _ last run parked).2⟩

end Sample

end Sluice
