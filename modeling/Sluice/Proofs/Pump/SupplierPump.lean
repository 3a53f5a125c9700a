import Sluice.Proofs.Pump.ConsumerPump
import Sluice.Pump.Outbound

/-! An outbound pump with a window of its own, and a supplier that others act on. The pump does not
sleep over output unless somebody is about to wake it. -/
namespace Sluice

/-- Somebody for whom something holds is still in a list behind the exchange of another one. -/
theorem exists_mem_set {α : Type} {holds : α → Prop} {entries : List α} {place : Nat} {old new : α}
    (there : entries[place]? = some old) (keeps : holds old → holds new) (h : ∃ e ∈ entries, holds e) :
    ∃ e ∈ entries.set place new, holds e := by
  obtain ⟨e, member, he⟩ := h
  obtain ⟨other, at_other⟩ := List.mem_iff_getElem?.mp member
  by_cases same : place = other
  · subst same
    obtain rfl : old = e := Option.some.inj (there.symm.trans at_other)
    obtain ⟨inside, _⟩ := List.getElem?_eq_some_iff.mp there
    exact ⟨new, List.mem_set inside new, keeps he⟩
  · refine ⟨e, List.mem_iff_getElem?.mpr ⟨other, ?_⟩, he⟩
    rw [List.getElem?_set_ne same]
    exact at_other

namespace Window

@[simp] theorem size_requestOutput (known : Option Unit) (w : Window) :
    (Transport.requestOutput known w).size = w.size := by
  cases known with
  | none => rfl
  | some ch => rfl

@[simp] theorem ended_requestOutput (known : Option Unit) (w : Window) :
    (Transport.requestOutput known w).ended = w.ended := by
  cases known with
  | none => rfl
  | some ch => rfl

theorem requestOutput_heard (w : Window) : w.requestOutput.requested = true ∧ w.requestOutput.bell.Answers :=
  ⟨rfl, w.bell.answers_ring⟩

/-- What a write does to a window that is known or not. Only the end makes it fail. -/
theorem write_spec (w : Window) (known : Option Unit) (bytes : List UInt8) :
    (Transport.write known bytes w).2.size = w.size ∧ (Transport.write known bytes w).2.ended = w.ended ∧
      ∀ fault, (Transport.write known bytes w).1 = .error fault → w.ended = true := by
  cases known with
  | none => exact ⟨rfl, rfl, nofun⟩
  | some ch =>
    change (w.write bytes).2.size = w.size ∧ (w.write bytes).2.ended = w.ended ∧
      ∀ fault, (w.write bytes).1 = .error fault → w.ended = true
    simp only [write]
    split
    next ended => exact ⟨rfl, rfl, fun _ _ => ended⟩
    · exact ⟨rfl, rfl, nofun⟩

/-- A window that takes bytes at all holds some behind a write. -/
theorem write_holds {w w' : Window} (live : 0 < w.size) {bytes : List UInt8} (some : bytes ≠ []) {n : Nat}
    (written : w.write bytes = (.ok n, w')) : w'.pending ≠ [] := by
  simp only [write] at written
  split at written
  · cases written
  · obtain ⟨_, rfl⟩ := Prod.mk.inj written
    intro none
    have lengths := congrArg List.length none
    have positive := List.length_pos_iff.mpr some
    simp only [List.length_append, List.length_take, List.length_nil] at lengths
    omega

end Window

/-- What a pump takes bytes from. A turn goes section by section, between which an `α` may come in. -/
class Supplier (π : Type) (θ α : outParam Type) where
  opening : θ
  advance : θ → π → Window → θ × π × Window
  result? : θ → Option (Except Fault Unit)
  act : α → π → Window → π × Window

namespace Supplier

variable {π θ α : Type} [Supplier π θ α]

/-- A number of sections of a turn with nobody around, or fewer if it is over. -/
def play : Nat → θ → π → Window → θ × π × Window
  | 0, t, c, w => (t, c, w)
  | sections + 1, t, c, w =>
    if (result? π t).isSome then (t, c, w)
    else
      let (t, c, w) := advance t c w
      play sections t c w

theorem play_finished (sections : Nat) {t : θ} {result : Except Fault Unit} (finished : result? π t = some result)
    (c : π) (w : Window) : play sections t c w = (t, c, w) := by
  cases sections with
  | zero => rfl
  | succ n => simp [play, finished]

end Supplier

/-- What of a supplier matters to a pump. It is `Linked` once the supplier knows whom to wake, there is
somebody who `Owes` a request for output, and a `Calm` supplier has nothing for the pump. `Fit` holds
of a supplier in a turn as they occur, in front of a window that has ended or not. -/
class Watched (π : Type) (θ : outParam Type) where
  Linked : π → Prop
  Owes : π → Prop
  Calm : π → Prop
  Fit : θ → π → Bool → Prop

open Supplier (opening advance result? act play)
open Watched (Linked Owes Calm Fit)

/-- What somebody may do beside the pump: unless the stream is over, he asks for output, has still to do
so, or leaves everything as it was. -/
def Stirs {π θ : Type} [Watched π θ] (c : π) (w : Window) (c' : π) (w' : Window) : Prop :=
  Owes c' ∨ (w'.requested = true ∧ w'.bell.Answers) ∨ w.ended = true ∨
    w' = w ∧ (Calm c → Calm c') ∧ (Owes c → Owes c')

/-- A section beside the pump. -/
structure Aside {π θ : Type} [Watched π θ] (t : θ) (c : π) (w : Window) (c' : π) (w' : Window) : Prop where
  fit : Fit t c' w'.ended
  size : w'.size = w.size
  ended : w'.ended = w.ended
  known : Linked c → Linked c'
  stirs : Linked c → Stirs c w c' w'

theorem Aside.refl {π θ : Type} [Watched π θ] {t : θ} {c : π} {w : Window} (fit : Fit t c w.ended) :
    Aside t c w c w :=
  ⟨fit, rfl, rfl, id, fun _ => .inr (.inr (.inr ⟨rfl, id, id⟩))⟩

/-- A section of a turn. If it ends the turn well, there is something in the window for the pump, or
nothing anywhere. -/
structure Onwards {π θ α : Type} [Supplier π θ α] [Watched π θ] (w : Window) (t' : θ) (c' : π)
    (w' : Window) : Prop where
  fit : Fit t' c' w'.ended
  size : w'.size = w.size
  served : result? π t' = some (.ok ()) →
    Linked c' ∧ (w'.pending ≠ [] ∨ w'.requested = true ∨ w'.ended = true ∨ Calm c')

/-- A supplier whose sections are such, and whose turn as a whole is that of its sections alone. -/
class LawfulSupplier (π : Type) {θ α : outParam Type} [Supplier π θ α] [Watched π θ]
    [Outflow π Unit Window] : Prop where
  opens (t : θ) (c : π) (ended : Bool) : Fit t c ended → Fit (opening π) c ended
  opening_result : result? π (opening π) = none
  aside (a : α) (t : θ) (c : π) (w : Window) : Fit t c w.ended → Aside t c w (act a c w).1 (act a c w).2
  onwards (t : θ) (c : π) (w : Window) : result? π t = none → 0 < w.size → Fit t c w.ended →
    Onwards w (advance t c w).1 (advance t c w).2.1 (advance t c w).2.2
  alone (c : π) (w : Window) : ∃ n t, result? π t = some (Outflow.produce c () w).1 ∧
    play n (opening π) c w = (t, (Outflow.produce c () w).2)

section Stations

variable {π θ : Type} [Watched π θ]

/-- Why a pump may look away from its window: somebody is about to wake it, or nothing is left. -/
def Guarded (c : π) (w : Window) : Prop := Owes c ∨ w.bell.Answers ∨ Calm c ∧ w.pending = []

/-- What holds where a pump stands. It has to look away between taking from its window and going to
sleep, and sleeps only if what it took told it nothing. -/
def OutboundStage.Stands (c : π) (w : Window) : OutboundStage → Prop
  | starting | flushing | finished _ => True
  | producing => 0 < w.size
  | taking => 0 < w.size ∧ Linked c ∧
    (w.pending ≠ [] ∨ w.requested = true ∨ w.ended = true ∨ Owes c ∨ Calm c)
  | sending _ contents => 0 < w.size ∧ Linked c ∧ w.ended = contents.ended ∧
    (contents.chunk ≠ [] ∨ contents.requested = true ∨ contents.ended = true ∨ Guarded c w)
  | listening => 0 < w.size ∧ Linked c ∧ w.ended = false ∧ Guarded c w

variable {c c' : π} {w w' : Window}

private theorem Guarded.aside (h : Guarded c w) (live : w.ended = false) (stirs : Stirs c w c' w') : Guarded c' w' := by
  rcases stirs with owes | ⟨_, answers⟩ | ended | ⟨rfl, calm, owes⟩
  · exact .inl owes
  · exact .inr (.inl answers)
  · rw [live] at ended
    cases ended
  · rcases h with pending | answers | ⟨quiet, empty⟩
    · exact .inl (owes pending)
    · exact .inr (.inl answers)
    · exact .inr (.inr ⟨calm quiet, empty⟩)

private theorem OutboundStage.Stands.aside {stage : OutboundStage} (h : stage.Stands c w) {t : θ}
    (beside : Aside t c w c' w') : stage.Stands c' w' := by
  cases stage with
  | producing => exact Nat.lt_of_lt_of_eq h beside.size.symm
  | taking =>
    obtain ⟨size, known, found⟩ := h
    refine ⟨beside.size.symm ▸ size, beside.known known, ?_⟩
    rcases beside.stirs known with owes | ⟨requested, _⟩ | ended | ⟨rfl, calm, owes⟩
    · exact .inr (.inr (.inr (.inl owes)))
    · exact .inr (.inl requested)
    · exact .inr (.inr (.inl (beside.ended.trans ended)))
    · exact found.imp_right (.imp_right (.imp_right (.imp owes calm)))
  | sending rest contents =>
    obtain ⟨size, known, ended, found⟩ := h
    refine ⟨beside.size.symm ▸ size, beside.known known, beside.ended.trans ended, ?_⟩
    cases closed : contents.ended with
    | true => exact .inr (.inr (.inl rfl))
    | false =>
      rw [closed] at ended found
      refine found.imp_right (.imp_right (.imp_right fun guarded => ?_))
      exact guarded.aside ended (beside.stirs known)
  | listening =>
    obtain ⟨size, known, live, guarded⟩ := h
    exact ⟨beside.size.symm ▸ size, beside.known known, beside.ended.trans live,
      guarded.aside live (beside.stirs known)⟩
  | _ => trivial

private theorem OutboundStage.Stands.afterChunk {rest : List UInt8} {contents : Window.Contents}
    (h : (OutboundStage.sending rest contents).Stands c w) : (Outbound.afterChunk contents).Stands c w := by
  obtain ⟨size, known, ended, found⟩ := h
  unfold Outbound.afterChunk
  split
  · trivial
  next going =>
    have going := Bool.eq_false_iff.mpr going
    split
    next quiet =>
      simp only [Bool.and_eq_true, List.isEmpty_iff, Bool.not_eq_true'] at quiet
      refine ⟨size, known, ended.trans going, ?_⟩
      simpa [quiet.1, quiet.2, going] using found
    · exact size

end Stations

/-- A pump between its supplier and its sink. -/
structure SupplierPump (π θ ω : Type) where
  pump : Outbound Unit ω
  turn : θ
  supplier : π
  window : Window

namespace SupplierPump

/-- A step of the pump or a section of its turn, what somebody else does to the supplier, or a change of
the sink on its own. -/
inductive Move (α ω : Type)
  | pump
  | act (a : α)
  | arrive (sink : ω)

variable {π θ α ω : Type}

/-- The pump has found nothing and waits, or is about to. No ring of its bell is stored or has called it,
and nobody is about to ask for output. -/
def Parked [Watched π θ] (d : SupplierPump π θ ω) : Prop :=
  d.pump.stage = .listening ∧ ¬ d.window.bell.Answers ∧ ¬ Owes d.supplier

variable [Supplier π θ α]

/-- What holds of a pump at all times. -/
structure Sound [Watched π θ] (d : SupplierPump π θ ω) : Prop where
  going : result? π d.turn = none
  fit : Fit d.turn d.supplier d.window.ended
  size : d.window.size = d.pump.settings.windowSize
  stands : d.pump.stage.Stands d.supplier d.window

/-- A pump that is parked has an empty window and a calm supplier. -/
theorem Sound.parked [Watched π θ] {d : SupplierPump π θ ω} (h : d.Sound) (parked : d.Parked) :
    Calm d.supplier ∧ d.window.pending = [] := by
  obtain ⟨stage, silent, settled⟩ := parked
  have stands := h.stands
  rw [stage] at stands
  exact (stands.2.2.2.resolve_left settled).resolve_left silent

def start (settings : PumpSettings) (supplier : π) (sink : ω) : SupplierPump π θ ω :=
  ⟨.start settings () sink, opening π, supplier, .ofSize settings.windowSize⟩

def behind (pump : Outbound Unit ω) (t : θ) (supplier : π) (window : Window) : SupplierPump π θ ω :=
  match result? π t with
  | none => ⟨pump, t, supplier, window⟩
  | some (.error fault) => ⟨pump.stop (.error fault), opening π, supplier, window⟩
  | some (.ok ()) => ⟨{ pump with stage := .taking }, opening π, supplier, window⟩

variable [Outflow π Unit Window]

theorem sound_start [Watched π θ] [LawfulSupplier π] {settings : PumpSettings} {supplier : π}
    (fit : Fit (opening π) supplier false) (sink : ω) : (start settings supplier sink : SupplierPump π θ ω).Sound :=
  ⟨LawfulSupplier.opening_result, fit, rfl, trivial⟩

private theorem Sound.behind [Watched π θ] [LawfulSupplier π] {d : SupplierPump π θ ω}
    (h : d.Sound) (live : 0 < d.window.size)
    (producing : d.pump.stage = .producing) {t : θ} {c : π} {w : Window} (onwards : Onwards d.window t c w) :
    (SupplierPump.behind d.pump t c w).Sound := by
  have fresh := LawfulSupplier.opens t c w.ended onwards.fit
  have size := onwards.size.trans h.size
  have live : 0 < w.size := Nat.lt_of_lt_of_eq live onwards.size.symm
  simp only [SupplierPump.behind]
  split
  next going =>
    refine ⟨going, onwards.fit, size, ?_⟩
    simp only [producing]
    exact live
  · exact ⟨LawfulSupplier.opening_result, fresh, size, trivial⟩
  next finished =>
    obtain ⟨known, found⟩ := onwards.served finished
    refine ⟨LawfulSupplier.opening_result, fresh, size, live, known, ?_⟩
    exact found.imp_right (.imp_right (.imp_right .inr))

variable [ByteSink ω]

def step (d : SupplierPump π θ ω) : Move α ω → SupplierPump π θ ω
  | .pump =>
    match d.pump.stage with
    | .producing =>
      let (t, supplier, window) := advance d.turn d.supplier d.window
      behind d.pump t supplier window
    | _ =>
      let (_, pump, supplier, window) := d.pump.step d.supplier d.window
      { d with pump, supplier, window }
  | .act a =>
    let (supplier, window) := act a d.supplier d.window
    { d with supplier, window }
  | .arrive sink => { d with pump := { d.pump with sink } }

def run (moves : List (Move α ω)) (d : SupplierPump π θ ω) : SupplierPump π θ ω := moves.foldl step d

theorem run_append (first second : List (Move α ω)) (d : SupplierPump π θ ω) :
    d.run (first ++ second) = (d.run first).run second :=
  List.foldl_append

private theorem run_play {pump : Outbound Unit ω} (producing : pump.stage = .producing) (sections : Nat) {t : θ}
    (going : result? π t = none) (c : π) (w : Window) {result : Except Fault Unit}
    (finished : result? π (play sections t c w).1 = some result) :
    ∃ n, run (.replicate n .pump) (⟨pump, t, c, w⟩ : SupplierPump π θ ω) =
      behind pump (play sections t c w).1 (play sections t c w).2.1 (play sections t c w).2.2 := by
  -- `play` stops where the turn has its result, which is where the pump goes on to another stage
  induction sections generalizing t c w with
  | zero =>
    rw [show result? π (play 0 t c w).1 = _ from going] at finished
    cases finished
  | succ sections ih =>
    have played : play (sections + 1) t c w =
        play sections (advance t c w).1 (advance t c w).2.1 (advance t c w).2.2 := by
      simp [play, going]
    have stepped : (⟨pump, t, c, w⟩ : SupplierPump π θ ω).step .pump =
        behind pump (advance t c w).1 (advance t c w).2.1 (advance t c w).2.2 := by
      simp only [step, producing]
    rw [played] at finished ⊢
    cases ends : result? π (advance t c w).1 with
    | none =>
      obtain ⟨n, hn⟩ := ih ends (advance t c w).2.1 (advance t c w).2.2 finished
      refine ⟨n + 1, ?_⟩
      rw [List.replicate_succ, run, List.foldl_cons, stepped, behind, ends]
      exact hn
    | some result =>
      rw [Supplier.play_finished sections ends]
      exact ⟨1, stepped⟩

/-- With nobody around, the sections of a pump's turn are a step of the pump. -/
theorem pump_alone [Watched π θ] [LawfulSupplier π] (d : SupplierPump π θ ω) (fresh : d.turn = opening π) :
    ∃ n, d.run (.replicate n .pump) =
      let (_, pump, supplier, window) := d.pump.step d.supplier d.window
      ⟨pump, opening π, supplier, window⟩ := by
  obtain ⟨pump, t, c, w⟩ := d
  obtain rfl : t = opening π := fresh
  by_cases producing : pump.stage = .producing
  · obtain ⟨sections, t, finished, played⟩ := LawfulSupplier.alone c w
    obtain ⟨n, hn⟩ := run_play producing sections LawfulSupplier.opening_result c w (by rw [played]; exact finished)
    refine ⟨n, hn.trans ?_⟩
    rw [played]
    have same : Outflow.produce c pump.channel w = Outflow.produce c () w := rfl
    simp only [behind, finished, Outbound.step, producing, same]
    rcases Outflow.produce c () w with ⟨fault | done, c', w'⟩
    · rfl
    · rfl
  · refine ⟨1, ?_⟩
    simp only [List.replicate_one, run, List.foldl_cons, List.foldl_nil, step]

variable [Watched π θ]

omit [Supplier π θ α] [Outflow π Unit Window] in
private theorem stands_send (pump : Outbound Unit ω) {rest : List UInt8}
    {contents : Window.Contents} {c : π} {w : Window}
    (h : (OutboundStage.sending rest contents).Stands c w) :
    (pump.send rest contents).2.stage.Stands c w ∨ (pump.send rest contents).2.stage = pump.stage := by
  simp only [Outbound.send]
  split
  · exact .inl h.afterChunk
  · split
    · exact .inr rfl
    · exact .inl trivial
    · exact .inl trivial
    · exact .inl h

omit [Supplier π θ α] [Watched π θ] [Outflow π Unit Window] in
private theorem settings_send (pump : Outbound Unit ω) (rest : List UInt8) (contents : Window.Contents) :
    (pump.send rest contents).2.settings = pump.settings := by
  simp only [Outbound.send]
  split
  · rfl
  · split
    all_goals rfl

private theorem Sound.starts {d : SupplierPump π θ ω} (h : d.Sound) (stage : d.pump.stage = .starting) :
    (d.step .pump).Sound := by
  simp only [SupplierPump.step, Outbound.step, stage]
  split
  · exact ⟨h.going, h.fit, h.size, trivial⟩
  next valid =>
    refine ⟨h.going, h.fit, h.size, ?_⟩
    have positive : d.pump.settings.windowSize ≠ 0 := by
      intro zero
      simp [PumpSettings.validate, zero] at valid
    exact Nat.lt_of_lt_of_eq (Nat.pos_of_ne_zero positive) h.size.symm

/-- What was found goes with the contents, and a calm supplier is all that is left behind them. -/
private theorem Sound.takes {d : SupplierPump π θ ω} (h : d.Sound) (stage : d.pump.stage = .taking) :
    (d.step .pump).Sound := by
  have stands := h.stands
  rw [stage] at stands
  obtain ⟨live, known, found⟩ := stands
  simp only [SupplierPump.step, Outbound.step, stage]
  refine ⟨h.going, h.fit, h.size, live, known, rfl, ?_⟩
  rcases found with pending | requested | ended | owes | calm
  · exact .inl pending
  · exact .inr (.inl requested)
  · exact .inr (.inr (.inl ended))
  · exact .inr (.inr (.inr (.inl owes)))
  · exact .inr (.inr (.inr (.inr (.inr ⟨calm, rfl⟩))))

private theorem Sound.listens {d : SupplierPump π θ ω} (h : d.Sound) (stage : d.pump.stage = .listening) :
    (d.step .pump).Sound := by
  have stands := h.stands
  rw [stage] at stands
  obtain ⟨live, known, going, guarded⟩ := stands
  simp only [SupplierPump.step, Outbound.step, stage]
  split
  · exact ⟨h.going, h.fit, h.size, live⟩
  next silent =>
    refine ⟨h.going, h.fit, h.size, ?_⟩
    simp only [stage]
    refine ⟨live, known, going, ?_⟩
    exact guarded.imp_right (.imp_left fun answers => absurd answers silent)

variable [LawfulSupplier π]

theorem Sound.pump {d : SupplierPump π θ ω} (h : d.Sound) : (d.step .pump).Sound := by
  have stands := h.stands
  cases stage : d.pump.stage with
  | producing =>
    simp only [SupplierPump.step, stage]
    rw [stage] at stands
    exact h.behind stands stage (LawfulSupplier.onwards d.turn d.supplier d.window h.going stands h.fit)
  | starting => exact h.starts stage
  | taking => exact h.takes stage
  | sending rest contents =>
    rw [stage] at stands
    simp only [SupplierPump.step, Outbound.step, stage]
    refine ⟨h.going, h.fit, h.size.trans (congrArg _ (settings_send d.pump rest contents).symm), ?_⟩
    rcases stands_send d.pump stands with on | same
    · exact on
    · exact same ▸ h.stands
  | flushing =>
    simp only [SupplierPump.step, Outbound.step, stage]
    split
    · exact ⟨h.going, h.fit, h.size, trivial⟩
    · exact ⟨h.going, h.fit, h.size, trivial⟩
  | listening => exact h.listens stage
  | finished result =>
    simp only [SupplierPump.step, Outbound.step, stage]
    exact h

theorem Sound.step {d : SupplierPump π θ ω} (h : d.Sound) (move : Move α ω) : (d.step move).Sound := by
  cases move with
  | pump => exact h.pump
  | act a =>
    have beside := LawfulSupplier.aside a d.turn d.supplier d.window h.fit
    exact ⟨h.going, beside.fit, beside.size.trans h.size, h.stands.aside beside⟩
  | arrive sink => exact ⟨h.going, h.fit, h.size, h.stands⟩

theorem Sound.run {d : SupplierPump π θ ω} (h : d.Sound) (moves : List (Move α ω)) : (d.run moves).Sound := by
  induction moves generalizing d with
  | nil => exact h
  | cons move rest ih => exact ih (h.step move)

end SupplierPump
end Sluice
