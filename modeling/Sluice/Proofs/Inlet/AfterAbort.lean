import Sluice.Proofs.Exchange.Alert
import Sluice.Proofs.Inlet.Grants

/-! An inlet behind an abort. It stays empty, whoever asks it for something is refused, and no
announcement is begun that was not due before. -/
namespace Sluice

variable {κ σ : Type}

/-- Whether a list has an entry of some kind at a place. -/
def HasAt {α : Type} (kind : α → Prop) (entries : List α) (place : Nat) : Prop :=
  ∃ e, entries[place]? = some e ∧ kind e

namespace HasAt

variable {α : Type} {kind : α → Prop} {entries : List α} {place : Nat}

theorem concat (entries : List α) {e : α} (new : kind e) : HasAt kind (entries ++ [e]) entries.length :=
  ⟨e, List.getElem?_concat_length, new⟩

theorem append (h : HasAt kind entries place) (more : List α) : HasAt kind (entries ++ more) place := by
  obtain ⟨e, there, holds⟩ := h
  refine ⟨e, ?_, holds⟩
  rw [List.getElem?_append_left (List.getElem?_eq_some_iff.mp there).1]
  exact there

/-- Some entry is replaced, perhaps this one, by one that is of the kind if the old one was. -/
theorem set (h : HasAt kind entries place) (other : Nat) {e' : α}
    (kept : ∀ e, entries[other]? = some e → kind e → kind e') : HasAt kind (entries.set other e') place := by
  obtain ⟨e, there, holds⟩ := h
  simp only [HasAt, List.getElem?_set]
  split
  next same =>
    subst same
    rw [if_pos (List.getElem?_eq_some_iff.mp there).1]
    exact ⟨e', rfl, kept e there holds⟩
  · exact ⟨e, there, holds⟩

end HasAt

namespace InletCall

/-- Whether a call sleeps only where it has been woken by an abort. -/
def Alert (c : Conduit) : InletCall κ → Prop
  | reading _ r => r.Alert c
  | _ => True

/-- A call that has nothing yet of what it was made for. -/
def Vain : InletCall κ → Prop
  | reading _ r => r.Vain
  | registering _ | done (.error _) => True
  | _ => False

def Failed : InletCall κ → Prop
  | reading _ (.done (.error _)) | done (.error _) => True
  | _ => False

/-- The announcement that a call is going to make. -/
def due : InletCall κ → Multiset (κ × Nat)
  | reading _ (.announcing _ ch increment) | announcing ch increment => {(ch, increment)}
  | _ => 0

def Parked [CapacityChannel κ σ] (e : InletCall κ) (inlet : Inlet κ) (s : σ) : Prop :=
  ∃ room r, e = reading room r ∧ (r.step room inlet s).1 = .parked

private theorem Alert.later {c c' : Conduit} {e : InletCall κ} (h : e.Alert c) (later : c.Later c') : e.Alert c' := by
  cases e with
  | reading room r => exact Reading.Alert.later h later
  | _ => trivial

end InletCall

namespace AnnouncementLog

def increments (g : AnnouncementLog κ σ) : Multiset (κ × Nat) := g.announcements.map fun n => (n.channel, n.increment)

private theorem increments_update [CapacityChannel κ σ] (ch : κ) (increment : Nat) (g : AnnouncementLog κ σ) :
    (CapacityChannel.update ch increment g).2.increments = g.increments + {(ch, increment)} := by
  simp [increments, CapacityChannel.update, ← Multiset.coe_add]

end AnnouncementLog

namespace InletCall

private theorem step_conduit [CapacityChannel κ σ] (e : InletCall κ) (inlet : Inlet κ) (s : σ) :
    ∃ n, (e.step inlet s).2.1.conduit = inlet.conduit.drop n := by
  cases e with
  | reading room r => exact r.step_conduit room inlet s
  | registering ch =>
    have registered := inlet.conduit_register ch
    refine ⟨0, ?_⟩
    simp only [step]
    split
    next refused => exact (congrArg (·.2.conduit) refused).symm.trans registered
    next settled => exact (congrArg (·.2.conduit) settled).symm.trans registered
    next granted => exact (congrArg (·.2.conduit) granted).symm.trans registered
  | announcing ch increment =>
    refine ⟨0, ?_⟩
    simp only [step]
    split <;> rfl
  | _ => exact ⟨0, rfl⟩

private theorem step_alert [CapacityChannel κ σ] {e : InletCall κ} {inlet : Inlet κ}
    (alert : e.Alert inlet.conduit) (s : σ) :
    (e.step inlet s).1.Alert (e.step inlet s).2.1.conduit := by
  cases e with
  | reading room r => exact (r.step_alert room alert s).2
  | registering ch =>
    simp only [step]
    split <;> trivial
  | announcing ch increment =>
    simp only [step]
    split <;> trivial
  | _ => trivial

private theorem timeOut_alert {e : InletCall κ} {inlet : Inlet κ} (alert : e.Alert inlet.conduit) :
    (e.timeOut inlet).Alert inlet.conduit := by
  cases e with
  | reading room r =>
    cases r with
    | asleep since =>
      simp only [timeOut, Reading.timeOut]
      split
      · trivial
      · exact alert
    | _ => trivial
  | _ => trivial

private theorem timeOut_vain {e : InletCall κ} (vain : e.Vain) (inlet : Inlet κ) : (e.timeOut inlet).Vain := by
  cases e with
  | reading room r =>
    cases r with
    | asleep since =>
      simp only [timeOut, Reading.timeOut]
      split <;> trivial
    | _ => exact vain
  | _ => exact vain

private theorem timeOut_due (e : InletCall κ) (inlet : Inlet κ) : (e.timeOut inlet).due = e.due := by
  cases e with
  | reading room r =>
    cases r with
    | asleep since =>
      simp only [timeOut, Reading.timeOut]
      split <;> rfl
    | _ => rfl
  | _ => rfl

private theorem awake [CapacityChannel κ σ] {e : InletCall κ} {inlet : Inlet κ} (alert : e.Alert inlet.conduit)
    (aborted : inlet.conduit.aborted = true) (s : σ) : ¬ e.Parked inlet s := by
  rintro ⟨room, r, rfl, parked⟩
  exact (r.step_aborted room alert aborted s).1 parked

/-- A call that has got nothing from an aborted inlet fails in its next section, and its channel does
not hear of it. -/
theorem step_vain [CapacityChannel κ σ] {e : InletCall κ} {inlet : Inlet κ} (vain : e.Vain)
    (alert : e.Alert inlet.conduit) (aborted : inlet.conduit.aborted = true) (s : σ) :
    (e.step inlet s).1.Failed ∧ (e.step inlet s).2.2 = s := by
  cases e with
  | registering ch => simp [step, Inlet.register, aborted, Failed]
  | reading room r =>
    cases r with
    | entering =>
      simp only [step, Reading.step, Inlet.enter]
      split
      · exact ⟨trivial, trivial⟩
      · rw [(inlet.take_spec room).2.2 aborted]
        exact ⟨trivial, trivial⟩
    | asleep since =>
      have awake : ¬ since = inlet.conduit.wakes := Nat.ne_of_lt (alert.2 aborted)
      simp only [step, Reading.step, awake, if_false]
      rw [(inlet.take_spec room).2.2 aborted]
      exact ⟨trivial, trivial⟩
    | done result =>
      cases result with
      | error fault => exact ⟨trivial, rfl⟩
      | ok bytes => exact False.elim vain
    | _ => exact False.elim vain
  | done result =>
    cases result with
    | error fault => exact ⟨trivial, rfl⟩
    | ok _ => exact False.elim vain
  | _ => exact False.elim vain

private theorem Failed.vain {e : InletCall κ} (failed : e.Failed) : e.Vain := by
  cases e with
  | reading room r =>
    cases r with
    | done result =>
      cases result with
      | error fault => trivial
      | ok bytes => exact False.elim failed
    | _ => exact False.elim failed
  | done result =>
    cases result with
    | error fault => trivial
    | ok _ => exact False.elim failed
  | _ => exact False.elim failed

private theorem step_increments [CapacityChannel κ σ] {e : InletCall κ} {inlet : Inlet κ}
    (aborted : inlet.conduit.aborted = true) (g : AnnouncementLog κ σ) :
    (e.step inlet g).2.2.increments + (e.step inlet g).1.due = g.increments + e.due := by
  have made := g.increments_update
  cases e with
  | registering ch => simp [step, Inlet.register, aborted, due]
  | announcing ch increment =>
    have made := made ch increment
    simp only [step]
    split
    next failed =>
      rw [failed] at made
      exact (add_zero _).trans made
    next passed =>
      rw [passed] at made
      exact (add_zero _).trans made
  | reading room r =>
    have refused := (inlet.take_spec room).2.2 aborted
    cases r with
    | entering =>
      simp only [step, Reading.step, Inlet.enter]
      split
      · rfl
      · rw [refused]
        rfl
    | asleep since =>
      simp only [step, Reading.step]
      split
      · rfl
      · rw [refused]
        rfl
    | announcing bytes ch increment =>
      have made := made ch increment
      simp only [step, Reading.step]
      split
      next passed =>
        rw [passed] at made
        exact (add_zero _).trans made
      next failed =>
        rw [failed] at made
        exact (add_zero _).trans made
    | _ => rfl
  | _ => rfl

end InletCall

namespace SharedInlet

/-- The announcements that were made or are going to be. -/
def increments (t : SharedInlet κ σ) : Multiset (κ × Nat) := t.log.increments + (t.inFlight.map InletCall.due).sum

/-- What holds of the callers of an inlet after any moves: who sleeps is woken by an abort, and an
aborted inlet is empty. -/
structure Watchful (t : SharedInlet κ σ) : Prop where
  alert : ∀ e ∈ t.inFlight, e.Alert t.inlet.conduit
  empty : t.inlet.conduit.aborted = true → t.inlet.conduit.bytes = []

theorem watchful_start {settings : BufferSettings} {inlet : Inlet κ} (made : Inlet.ofSettings settings = .ok inlet)
    (world : σ) : (start inlet world).Watchful := by
  obtain rfl := Inlet.ofSettings_ok made
  exact ⟨nofun, fun _ => rfl⟩

private theorem Watchful.begun {t : SharedInlet κ σ} (h : t.Watchful) {e : InletCall κ}
    (alert : e.Alert t.inlet.conduit) :
    Watchful { t with inFlight := t.inFlight ++ [e] } := by
  refine ⟨fun e' member => ?_, h.empty⟩
  rcases List.mem_append.mp member with old | new
  · exact h.alert e' old
  · exact List.mem_singleton.mp new ▸ alert

private theorem Watchful.moved {t : SharedInlet κ σ} (h : t.Watchful) (place : Nat)
    {e' : InletCall κ} {inlet' : Inlet κ}
    (alert : e'.Alert inlet'.conduit) (later : t.inlet.conduit.Later inlet'.conduit)
    (empty : inlet'.conduit.aborted = true → inlet'.conduit.bytes = []) (log' : AnnouncementLog κ σ) :
    Watchful { t with inlet := inlet', log := log', inFlight := t.inFlight.set place e' } := by
  refine ⟨fun other member => ?_, empty⟩
  rcases List.mem_or_eq_of_mem_set member with old | rfl
  · exact (h.alert other old).later later
  · exact alert

variable [CapacityChannel κ σ]

theorem Watchful.step {t : SharedInlet κ σ} (h : t.Watchful) (move : Move κ σ) : (t.step move).Watchful := by
  cases move with
  | fill bytes =>
    have goes := t.inlet.fill_goes bytes
    refine ⟨fun e member => (h.alert e member).later goes.later, fun aborted => ?_⟩
    have aborted : t.inlet.conduit.aborted = true := goes.aborted.symm.trans aborted
    simp only [SharedInlet.step, Inlet.fill, aborted, if_true]
    exact h.empty aborted
  | read room =>
    exact h.begun (Reading.alert_ofRoom t.inlet.conduit room : (InletCall.reading room (.ofRoom room)).Alert _)
  | register ch => exact h.begun (e := .registering ch) trivial
  | work place =>
    simp only [SharedInlet.step]
    split
    · exact h
    next e flight =>
      have alert := h.alert e (List.mem_of_getElem? flight)
      obtain ⟨n, taken⟩ := e.step_conduit t.inlet t.log
      refine h.moved place (InletCall.step_alert alert t.log) ?_ ?_ _
      · rw [taken]
        exact Conduit.Goes.later ⟨rfl, Nat.le_refl _⟩
      · rw [taken]
        intro aborted
        simp [Conduit.drop, h.empty aborted]
  | timeOut place =>
    simp only [SharedInlet.step]
    split
    · exact h
    next e flight =>
      have alert := h.alert e (List.mem_of_getElem? flight)
      exact h.moved place (InletCall.timeOut_alert alert) (Conduit.Goes.refl _).later h.empty t.log
  | markEnd => exact ⟨fun e member => (h.alert e member).later t.inlet.markEnd_goes.later, h.empty⟩
  | abort => exact ⟨fun e member => (h.alert e member).later t.inlet.conduit.later_abort, fun _ => rfl⟩
  | become world => exact ⟨h.alert, h.empty⟩

theorem Watchful.run {t : SharedInlet κ σ} (h : t.Watchful) (moves : List (Move κ σ)) : (t.run moves).Watchful := by
  induction moves generalizing t with
  | nil => exact h
  | cons move rest ih => exact ih (h.step move)

/-- Whether a move is the begin of a call that asks for bytes or for room to announce. -/
def Move.Asks : Move κ σ → Prop
  | .read room => room ≠ 0
  | .register _ => True
  | _ => False

/-- Whether the call at some place has got nothing so far. -/
def Hopeless (t : SharedInlet κ σ) (place : Nat) : Prop := HasAt InletCall.Vain t.inFlight place

def FailedAt (t : SharedInlet κ σ) (place : Nat) : Prop := HasAt InletCall.Failed t.inFlight place

private theorem step_aborted {t : SharedInlet κ σ} (aborted : t.inlet.conduit.aborted = true) (move : Move κ σ) :
    (t.step move).inlet.conduit.aborted = true := by
  cases move with
  | fill bytes => exact (t.inlet.fill_goes bytes).aborted.trans aborted
  | work place =>
    simp only [step]
    split
    · exact aborted
    next e flight =>
      obtain ⟨n, taken⟩ := e.step_conduit t.inlet t.log
      rw [taken]
      exact aborted
  | timeOut place =>
    simp only [step]
    split
    · exact aborted
    · exact aborted
  | _ => first | exact aborted | rfl

private theorem step_increments {t : SharedInlet κ σ} (aborted : t.inlet.conduit.aborted = true) (move : Move κ σ) :
    (t.step move).increments = t.increments := by
  have begun : ∀ e : InletCall κ, e.due = 0 → increments { t with inFlight := t.inFlight ++ [e] } = t.increments := by
    intro e none
    simp [increments, none]
  cases move with
  | read room =>
    apply begun
    simp only [Reading.ofRoom]
    split <;> rfl
  | register ch => exact begun _ rfl
  | work place =>
    simp only [step]
    split
    · rfl
    next e flight =>
      have made := InletCall.step_increments (e := e) aborted t.log
      have dues := sum_set InletCall.due (e.step t.inlet t.log).1 t.inFlight place e flight
      simp only [increments]
      apply add_right_cancel
      calc
        _ = ((e.step t.inlet t.log).2.2.increments + (e.step t.inlet t.log).1.due) +
            (((t.inFlight.set place (e.step t.inlet t.log).1).map InletCall.due).sum + e.due) :=
          add_add_add_comm _ _ _ _
        _ = (t.log.increments + e.due) +
            ((t.inFlight.map InletCall.due).sum + (e.step t.inlet t.log).1.due) := by rw [made, dues]
        _ = t.log.increments + (t.inFlight.map InletCall.due).sum + ((e.step t.inlet t.log).1.due + e.due) := by
          rw [add_add_add_comm, add_comm e.due]
  | timeOut place =>
    simp only [step]
    split
    · rfl
    next e flight =>
      have dues := sum_set InletCall.due (e.timeOut t.inlet) t.inFlight place e flight
      rw [e.timeOut_due] at dues
      simp only [increments]
      rw [add_right_cancel dues]
  | _ => rfl

/-- A call that has got nothing before an abort gets nothing behind it. -/
theorem Hopeless.step {t : SharedInlet κ σ} {place : Nat} (h : t.Hopeless place) (sound : t.Watchful)
    (aborted : t.inlet.conduit.aborted = true) (move : Move κ σ) : (t.step move).Hopeless place := by
  cases move with
  | read room => exact HasAt.append h _
  | register ch => exact HasAt.append h _
  | work other =>
    simp only [SharedInlet.step]
    split
    · exact h
    next e flight =>
      refine HasAt.set h other fun e' flight' vain => ?_
      obtain rfl := Option.some.inj (flight.symm.trans flight')
      exact (InletCall.step_vain vain (sound.alert e (List.mem_of_getElem? flight)) aborted t.log).1.vain
  | timeOut other =>
    simp only [SharedInlet.step]
    split
    · exact h
    next e flight =>
      refine HasAt.set h other fun e' flight' vain => ?_
      obtain rfl := Option.some.inj (flight.symm.trans flight')
      exact InletCall.timeOut_vain vain t.inlet
  | _ => exact h

/-- Everything that an abort decides stays decided. -/
theorem run_aborted {t : SharedInlet κ σ} (sound : t.Watchful) (aborted : t.inlet.conduit.aborted = true)
    (moves : List (Move κ σ)) :
    (t.run moves).inlet.conduit.aborted = true ∧ (t.run moves).increments = t.increments ∧
    ∀ place, t.Hopeless place → (t.run moves).Hopeless place := by
  induction moves generalizing t with
  | nil => exact ⟨aborted, rfl, fun _ => id⟩
  | cons move rest ih =>
    obtain ⟨still, made, hopeless⟩ := ih (sound.step move) (step_aborted aborted move)
    refine ⟨still, made.trans (step_increments aborted move), fun place h => ?_⟩
    exact hopeless place (h.step sound aborted move)

private theorem Hopeless.work {t : SharedInlet κ σ} {place : Nat} (h : t.Hopeless place) (sound : t.Watchful)
    (aborted : t.inlet.conduit.aborted = true) : (t.step (.work place)).FailedAt place := by
  obtain ⟨e, flight, vain⟩ := h
  have there : place < t.inFlight.length := (List.getElem?_eq_some_iff.mp flight).1
  have failed := (InletCall.step_vain vain (sound.alert e (List.mem_of_getElem? flight)) aborted t.log).1
  simp only [SharedInlet.step, flight]
  exact ⟨_, List.getElem?_set_self there, failed⟩

private theorem Move.Asks.hopeless {move : Move κ σ} (asks : move.Asks) (t : SharedInlet κ σ) :
    (t.step move).Hopeless t.inFlight.length := by
  cases move with
  | read room => exact HasAt.concat t.inFlight (Reading.vain_ofRoom asks : (InletCall.reading room _).Vain)
  | register ch => exact HasAt.concat t.inFlight (trivial : (InletCall.registering ch).Vain)
  | _ => exact False.elim asks

/-- What an abort at one moment leaves of an inlet at a later one. It is empty, nobody sleeps there, and
no announcement was begun in between. It takes no byte and announces no room, and a call that asks for
something fails in the section it does next, whatever happens before. -/
structure AfterAbort (t u : SharedInlet κ σ) : Prop where
  aborted : u.inlet.conduit.aborted = true
  empty : u.inlet.length = 0
  awake : ∀ e ∈ u.inFlight, ¬ e.Parked u.inlet u.log
  increments : u.increments = t.increments
  fill : ∀ bytes, u.inlet.fill bytes = (.error .aborted, u.inlet)
  update : ∀ ch (s : σ), u.inlet.updateCapacity ch s = (.error .aborted, u.inlet, s)
  waiting : ∀ place, t.Hopeless place → (u.step (.work place)).FailedAt place
  begun : ∀ move : Move κ σ, move.Asks → ∀ between,
    (((u.step move).run between).step (.work u.inFlight.length)).FailedAt u.inFlight.length

theorem Watchful.afterAbort {t : SharedInlet κ σ} (h : t.Watchful) (aborted : t.inlet.conduit.aborted = true)
    (moves : List (Move κ σ)) : t.AfterAbort (t.run moves) := by
  obtain ⟨still, made, hopeless⟩ := run_aborted h aborted moves
  have watchful := h.run moves
  constructor
  · exact still
  · exact congrArg List.length (watchful.empty still)
  · exact fun e member => InletCall.awake (watchful.alert e member) still _
  · exact made
  · intro bytes
    rw [Inlet.fill, if_pos still]
  · intro ch s
    rw [Inlet.updateCapacity, Inlet.register, if_pos still]
  · intro place waits
    exact (hopeless place waits).work watchful still
  · intro move asks between
    have aborted' := step_aborted still move
    obtain ⟨still', _, hopeless'⟩ := run_aborted (watchful.step move) aborted' between
    exact (hopeless' _ (asks.hopeless _)).work ((watchful.step move).run between) still'

end SharedInlet
end Sluice
