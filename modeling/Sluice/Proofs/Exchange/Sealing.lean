import Sluice.Bench
import Sluice.Bench.Rehearsal
import Sluice.Proofs.Exchange.Halting

/-! A failure that is recorded after the request has arrived leaves no live buffer, and from then on
calls neither sleep nor succeed. A failure recorded before it does not keep the buffers from being
made and used. -/
namespace Sluice

variable {ι κ σ τ : Type}

def Duty.abort : Side → Duty ι κ
  | .input => .abortInlet
  | .output => .abortOutlet

private theorem Duty.abort_inj {side other : Side} : (abort side : Duty ι κ) = abort other ↔ side = other := by
  cases side <;> cases other <;> simp [abort]

namespace ExchangeRun

/-- What calls of the reactor and a failure of the worker have still before them. -/
def outstanding (c : ExchangeRun ι κ σ τ) : List (Duty ι κ) := c.duties ++ c.exchange.aborting.map .abort

def InVain (c : ExchangeRun ι κ σ τ) : Prop :=
  ∃ task call, c.exchange.task = some task ∧ task.progress = .calling call ∧ call.Vain

/-- Whether since then the handler has first heard of a failure, or still is in a vain call. -/
def Frustrates (c c' : ExchangeRun ι κ σ τ) : Prop :=
  ∃ later, c'.minutes.notes = c.minutes.notes ++ later ∧
    match later.filterMap Occurrence.answer? with
    | [] => c'.InVain
    | answer :: _ => answer.Fails

/-- What holds of an exchange and its minutes at any time. A buffer is aborted if and only if its exchange has halted,
but for what is outstanding. -/
structure Sound (c : ExchangeRun ι κ σ τ) : Prop where
  valid : c.exchange.limits.validate = .ok ()
  idle : c.exchange.phase = .idle ↔ .begun ∉ c.minutes.notes
  fresh : .begun ∉ c.minutes.notes → .refused ∉ c.minutes.notes ∧ c.exchange.task = none ∧
    ∀ side, c.exchange.conduit? side = none
  placed : .begun ∈ c.minutes.notes → ∃ o, c.exchange.conduit? .output = some o
  first : c.exchange.failure = (c.minutes.notes.filterMap Occurrence.cause?).head?
  shut : Halted c.minutes.notes → ∀ side, c.exchange.Shut side ∨ .abort side ∈ c.outstanding
  halted : ∀ side o, c.exchange.conduit? side = some o → o.aborted = true → Halted c.minutes.notes
  owed : .begun ∈ c.minutes.notes → ∀ side, .abort side ∈ c.outstanding → Halted c.minutes.notes
  alert : ∀ task, c.exchange.task = some task → task.Alert c.exchange.conduit?

private theorem Sound.noting {c : ExchangeRun ι κ σ τ} (h : Sound c) {m : Minutes ι σ} {more : List (Occurrence ι)}
    (notes : m.notes = c.minutes.notes ++ more) (tame : Tame more) : Sound { c with minutes := m } := by
  have begun : .begun ∈ m.notes ↔ .begun ∈ c.minutes.notes := notes ▸ tame.begun_mem
  have halted : Halted m.notes ↔ Halted c.minutes.notes := notes ▸ tame.halted_iff
  have causes : m.notes.filterMap Occurrence.cause? = c.minutes.notes.filterMap Occurrence.cause? :=
    notes ▸ tame.causes
  refine ⟨h.valid, h.idle.trans (not_congr begun).symm, fun waiting => ?_, fun going => h.placed (begun.mp going),
    h.first.trans (congrArg List.head? causes.symm), fun stopped => h.shut (halted.mp stopped),
    fun side o here aborted => halted.mpr (h.halted side o here aborted),
    fun going side owed => halted.mpr (h.owed (begun.mp going) side owed), h.alert⟩
  obtain ⟨unrefused, rest⟩ := h.fresh fun going => waiting (begun.mpr going)
  refine ⟨fun refused => ?_, rest⟩
  rw [notes] at refused
  exact (List.mem_append.mp refused).elim unrefused (tame _)

private theorem Sound.goes {c : ExchangeRun ι κ σ τ} (h : Sound c) {x' : Exchange ι κ τ} {duties' : List (Duty ι κ)}
    (goes : c.exchange.Goes x')
    (same : ∀ side, .abort side ∈ outstanding ⟨x', c.minutes, duties'⟩ ↔ .abort side ∈ c.outstanding) :
    Sound ⟨x', c.minutes, duties'⟩ where
  valid := goes.limits ▸ h.valid
  idle := goes.phase.trans h.idle
  fresh waiting := by
    obtain ⟨unrefused, idle, nowhere⟩ := h.fresh waiting
    exact ⟨unrefused, goes.waiting idle, fun side => Conduit.rel_none (nowhere side) (goes.conduits side)⟩
  placed going := by
    obtain ⟨o, here⟩ := h.placed going
    obtain ⟨o', there, _⟩ := Conduit.rel_some here (goes.conduits .output)
    exact ⟨o', there⟩
  first := goes.failure.trans h.first
  shut halted side := by
    refine (h.shut halted side).imp (fun shut o' there => ?_) (same side).mpr
    obtain ⟨o, here, later⟩ := Conduit.some_rel there (goes.conduits side)
    exact later.aborted.trans (shut o here)
  halted side o' there aborted := by
    obtain ⟨o, here, later⟩ := Conduit.some_rel there (goes.conduits side)
    exact h.halted side o here (later.aborted.symm.trans aborted)
  owed going side owed := h.owed going side ((same side).mp owed)
  alert := goes.alert h.alert

private theorem Sound.aborts {c : ExchangeRun ι κ σ τ} (h : Sound c) {side : Side} {x' : Exchange ι κ τ}
    {duties' : List (Duty ι κ)} (aborts : c.exchange.Aborts side x') (due : .abort side ∈ c.outstanding)
    (less : ∀ other, .abort other ∈ outstanding ⟨x', c.minutes, duties'⟩ → .abort other ∈ c.outstanding)
    (kept : ∀ other, other ≠ side → .abort other ∈ c.outstanding →
      .abort other ∈ outstanding ⟨x', c.minutes, duties'⟩) :
    Sound ⟨x', c.minutes, duties'⟩ where
  valid := aborts.limits ▸ h.valid
  idle := aborts.phase ▸ h.idle
  fresh waiting := by
    obtain ⟨unrefused, idle, nowhere⟩ := h.fresh waiting
    exact ⟨unrefused, aborts.waiting idle, fun other => Conduit.rel_none (nowhere other) (aborts.conduits other)⟩
  placed going := by
    obtain ⟨o, here⟩ := h.placed going
    obtain ⟨o', there, _⟩ := Conduit.rel_some here (aborts.conduits .output)
    exact ⟨o', there⟩
  first := aborts.failure.trans h.first
  shut halted other := by
    by_cases same : other = side
    · exact .inl (same ▸ aborts.shut)
    · refine (h.shut halted other).imp (fun shut o there => ?_) (kept other same)
      exact shut o (aborts.others other same ▸ there)
  halted other o' there aborted := by
    obtain ⟨o, here, _⟩ := Conduit.some_rel there (aborts.conduits other)
    by_cases same : other = side
    · -- before the request arrives aborts may be outstanding too, but there is nothing to abort
      by_cases going : .begun ∈ c.minutes.notes
      · exact h.owed going side due
      · exact absurd (((h.fresh going).2.2 other).symm.trans here) nofun
    · exact h.halted other o' (aborts.others other same ▸ there) aborted
  owed going other owed := h.owed going other (less other owed)
  alert := aborts.alert h.alert

private theorem Sound.fails {c : ExchangeRun ι κ σ τ} (h : Sound c) (cause : Fault)
    {x' : Exchange ι κ τ} {m : Minutes ι σ}
    {duties' : List (Duty ι κ)} (goes : (c.exchange.recordFailure cause).Goes x')
    (notes : m.notes = c.minutes.notes ++ [.failed cause])
    (due : ∀ side, .abort side ∈ outstanding ⟨x', m, duties'⟩) : Sound ⟨x', m, duties'⟩ := by
  have begun : .begun ∈ m.notes → .begun ∈ c.minutes.notes := by
    intro member
    rw [notes] at member
    exact (List.mem_append.mp member).resolve_right (by simp)
  have still : .begun ∈ c.minutes.notes → .begun ∈ m.notes := notes ▸ List.mem_append_left _
  have halted : .begun ∈ c.minutes.notes → Halted m.notes := by
    intro going
    have order := (List.singleton_sublist.mpr going).append (List.Sublist.refl [Occurrence.failed cause])
    exact .inr ⟨cause, notes ▸ order⟩
  refine ⟨goes.limits ▸ h.valid, ?_, fun waiting => ?_, fun going => ?_, ?_, fun _ side => .inr (due side),
    fun side o' there aborted => ?_, fun going _ _ => halted (begun going), goes.alert h.alert⟩
  · exact (goes.phase.trans h.idle).trans (not_congr ⟨still, begun⟩)
  · obtain ⟨unrefused, idle, nowhere⟩ := h.fresh fun going => waiting (still going)
    refine ⟨fun refused => ?_, goes.waiting idle, fun side => Conduit.rel_none (nowhere side) (goes.conduits side)⟩
    rw [notes] at refused
    exact unrefused ((List.mem_append.mp refused).resolve_right (by simp))
  · obtain ⟨o, here⟩ := h.placed (begun going)
    obtain ⟨o', there, _⟩ := Conduit.rel_some here (goes.conduits .output)
    exact ⟨o', there⟩
  · have recorded : (c.exchange.recordFailure cause).failure = c.exchange.failure.or (some cause) := rfl
    rw [notes, List.filterMap_append, List.head?_append, ← h.first]
    exact goes.failure.trans recorded
  · obtain ⟨o, here, later⟩ := Conduit.some_rel there (goes.conduits side)
    exact notes ▸ (h.halted side o here (later.aborted.symm.trans aborted)).append _

/-- What comes of it when something happens. -/
structure Keeps (c c' : ExchangeRun ι κ σ τ) : Prop where
  sound : Sound c'
  noted : ∃ more, c'.minutes.notes = c.minutes.notes ++ more
  conduits : .begun ∈ c.minutes.notes →
    ∀ side, Option.Rel Conduit.Later (c.exchange.conduit? side) (c'.exchange.conduit? side)
  vain : c.exchange.Sealed → c.InVain → Frustrates c c'

private theorem Sound.beside {c : ExchangeRun ι κ σ τ} (h : Sound c) {x' : Exchange ι κ τ} {m' : Minutes ι σ}
    {duties' : List (Duty ι κ)} (goes : c.exchange.Goes x') (task : x'.task = c.exchange.task)
    (same : ∀ side, .abort side ∈ duties' ↔ .abort side ∈ c.duties)
    (quietly : c.minutes.Quietly m') : Keeps c ⟨x', m', duties'⟩ := by
  obtain ⟨more, notes, plain⟩ := quietly
  have owed : ∀ side, .abort side ∈ outstanding ⟨x', c.minutes, duties'⟩ ↔ .abort side ∈ c.outstanding := by
    intro side
    simp only [outstanding, Exchange.aborting, task, List.mem_append, same side]
  refine ⟨(h.goes goes owed).noting notes plain.tame, ⟨more, notes⟩,
    fun _ side => Conduit.rel_later_of_goes (goes.conduits side), fun _ vain => ⟨more, notes, ?_⟩⟩
  obtain ⟨t, call, running, calling, vain⟩ := vain
  simp only [plain.unheard]
  exact ⟨t, call, task.trans running, calling, vain⟩

private theorem Sound.accepts {c : ExchangeRun ι κ σ τ} (h : Sound c) (waiting : .begun ∉ c.minutes.notes)
    (free : c.duties = []) {inlet : Option (Inlet κ)} {outlet : Outlet ι} {executor : Executor} {hasBody : Bool}
    (fresh : Outlet.ofSettings c.exchange.limits = .ok outlet) (body : inlet.isSome = hasBody)
    (fresh' : ∀ i, inlet = some i → Inlet.ofSettings c.exchange.limits = .ok i) (request : Request)
    (context : Context) :
    Sound ⟨{ c.exchange with
      phase := .active, inlet, outlet := some outlet, executor
      task := some (.ofSession (.start request context hasBody)) }, c.minutes.noting [.begun], c.duties⟩ := by
  have begun : .begun ∈ (c.minutes.noting [.begun]).notes := List.mem_append_right _ List.mem_cons_self
  have same : (c.minutes.noting [.begun]).notes.filterMap Occurrence.cause? = _ := causes_append rfl
  refine ⟨h.valid, ⟨nofun, fun absent => absurd begun absent⟩, fun absent => absurd begun absent,
    fun _ => ⟨_, rfl⟩, h.first.trans (congrArg List.head? same.symm), fun halted => ?_,
    fun side o here aborted => ?_, fun _ side owed => ?_, fun task running => ?_⟩
  · rcases halted with refused | interrupted
    · exact absurd ((List.mem_append.mp refused).resolve_right (by simp)) (h.fresh waiting).1
    · obtain ⟨cause, order⟩ := interrupted.of_append (by simp)
      exact absurd (order.subset List.mem_cons_self) waiting
  · cases side with
    | input =>
      obtain ⟨i, present, rfl⟩ := Option.map_eq_some_iff.mp here
      rw [Inlet.ofSettings_ok (fresh' i present)] at aborted
      cases aborted
    | output =>
      obtain rfl : outlet.conduit = o := Option.some.inj here
      rw [Outlet.ofSettings_ok fresh] at aborted
      cases aborted
  · have idle : Duty.abort side ∉ c.duties := by simp [free]
    exact absurd ((List.mem_append.mp owed).resolve_right nofun) idle
  · obtain rfl := Option.some.inj running
    refine ⟨⟨fun input => ?_, _, rfl⟩, trivial⟩
    obtain ⟨i, present⟩ := Option.isSome_iff_exists.mp (body.trans input)
    exact ⟨i.conduit, congrArg (Option.map Inlet.conduit) present⟩

private theorem Sound.refuses {c : ExchangeRun ι κ σ τ} (h : Sound c) (waiting : .begun ∉ c.minutes.notes)
    (inlet : Option (Inlet κ)) (outlet : Outlet ι) (executor : Executor) :
    Sound ⟨{ c.exchange with
      phase := .completed, inlet := inlet.map Inlet.abort, outlet := some outlet.abort.2, executor },
      c.minutes.noting [.begun, .refused], c.duties⟩ := by
  have begun : .begun ∈ (c.minutes.noting [.begun, .refused]).notes :=
    List.mem_append_right _ List.mem_cons_self
  have halted : Halted (c.minutes.noting [.begun, .refused]).notes := .inl (List.mem_append_right _ (by simp))
  have same : (c.minutes.noting [.begun, .refused]).notes.filterMap Occurrence.cause? = _ := causes_append rfl
  refine ⟨h.valid, ⟨nofun, fun absent => absurd begun absent⟩, fun absent => absurd begun absent,
    fun _ => ⟨_, rfl⟩, h.first.trans (congrArg List.head? same.symm), fun _ side => .inl fun o here => ?_,
    fun _ _ _ _ => halted, fun _ _ _ => halted, fun task running => ?_⟩
  · cases side with
    | input =>
      obtain ⟨i, present, rfl⟩ := Option.map_eq_some_iff.mp here
      obtain ⟨_, _, rfl⟩ := Option.map_eq_some_iff.mp present
      rfl
    | output =>
      obtain rfl : outlet.abort.2.conduit = o := Option.some.inj here
      exact outlet.abort_aborted
  · exact absurd ((h.fresh waiting).2.1.symm.trans running) nofun

private theorem Sound.start [Transport ι σ] {c : ExchangeRun ι κ σ τ} (h : Sound c) (free : c.duties = [])
    (request : Request) (hasBody : Bool) (context : Context) : Keeps c (c.start request hasBody context) := by
  rcases c.start_outcomes request hasBody context with ⟨_, same⟩ | ⟨idle, outcome⟩
  · rw [same]
    exact h.beside (.refl _) rfl (fun _ => Iff.rfl) (.refl _)
  · have waiting := h.idle.mp idle
    have keeps : ∀ {x' : Exchange ι κ τ} {more : List (Occurrence ι)},
        Sound ⟨x', c.minutes.noting more, c.duties⟩ → Keeps c ⟨x', c.minutes.noting more, c.duties⟩ := by
      intro x' more sound
      refine ⟨sound, ⟨more, rfl⟩, fun going => absurd going waiting, fun _ vain => ?_⟩
      obtain ⟨task, _, running, _⟩ := vain
      exact absurd ((h.fresh waiting).2.1.symm.trans running) nofun
    rcases outcome with ⟨invalid, _⟩ | ⟨inlet, outlet, executor, fresh, body, fresh', same | same⟩
    · exact absurd h.valid invalid
    · rw [same]
      exact keeps (h.accepts waiting free fresh body fresh' request context)
    · rw [same]
      exact keeps (h.refuses waiting inlet outlet executor)

private theorem Sound.abortsNext {c : ExchangeRun ι κ σ τ} (h : Sound c) {side : Side} {x' : Exchange ι κ τ}
    {duties duties' : List (Duty ι κ)} (aborts : c.exchange.Aborts side x') (task : x'.task = c.exchange.task)
    (next : c.duties = .abort side :: duties) (same : ∀ side, .abort side ∈ duties' ↔ .abort side ∈ duties) :
    Keeps c ⟨x', c.minutes, duties'⟩ := by
  have due : .abort side ∈ c.outstanding := List.mem_append_left _ (next ▸ List.mem_cons_self)
  have less : ∀ other, .abort other ∈ outstanding ⟨x', c.minutes, duties'⟩ → .abort other ∈ c.outstanding := by
    intro other owed
    simp only [outstanding, Exchange.aborting, task, next, List.mem_append, same, List.mem_cons] at owed ⊢
    exact owed.imp_left .inr
  have kept : ∀ other, other ≠ side → .abort other ∈ c.outstanding →
      .abort other ∈ outstanding ⟨x', c.minutes, duties'⟩ := by
    intro other outer owed
    simp only [outstanding, Exchange.aborting, task, next, List.mem_append, same, List.mem_cons,
      Duty.abort_inj, outer, false_or] at owed ⊢
    exact owed
  refine ⟨h.aborts aborts due less kept, ⟨[], (List.append_nil _).symm⟩, fun _ => aborts.conduits,
    fun _ vain => ⟨[], (List.append_nil _).symm, ?_⟩⟩
  obtain ⟨t, call, running, calling, vain⟩ := vain
  exact ⟨t, call, task.trans running, calling, vain⟩

private theorem Sound.failed {c : ExchangeRun ι κ σ τ} (h : Sound c) (cause : Fault) :
    Keeps c ⟨c.exchange.recordFailure cause, c.minutes.noting [.failed cause],
      [.abortInlet, .abortOutlet, .release]⟩ := by
  refine ⟨h.fails cause (.refl _) rfl fun side => List.mem_append_left _ ?_, ⟨_, rfl⟩,
    fun _ side => Conduit.rel_later_of_goes (Conduit.rel_goes_refl _), fun _ vain => ⟨_, rfl, vain⟩⟩
  cases side with
  | input => exact List.mem_cons_self
  | output => exact List.mem_cons_of_mem _ List.mem_cons_self

section
variable [Handler τ] [Transport ι σ] [CapacityChannel κ σ] [ResponseChannel σ]

omit [ResponseChannel σ] in
private theorem Sound.discharge {c : ExchangeRun ι κ σ τ} (h : Sound c) {duty : Duty ι κ} {duties : List (Duty ι κ)}
    (next : c.duties = duty :: duties) : Keeps c (discharge { c with duties } duty) := by
  cases duty with
  | announce ch increment =>
    have quiet : (CapacityChannel.update ch increment c.minutes).2.notes = c.minutes.notes := rfl
    simp only [ExchangeRun.discharge]
    split
    next m' passed =>
      rw [passed] at quiet
      refine h.beside (.refl _) rfl (fun side => ?_) (Minutes.quietly_same quiet)
      cases side <;> simp [next, Duty.abort]
    next m' failed =>
      rw [failed] at quiet
      refine h.beside (.refl _) rfl (fun side => ?_) (Minutes.quietly_same quiet)
      cases side <;> simp [next, Duty.abort]
  | revoke increment =>
    refine h.beside (c.exchange.revoke_goes increment) rfl (fun side => ?_) (.refl _)
    cases side <;> simp [next, Duty.abort]
  | abortInlet => exact h.abortsNext c.exchange.abortInlet_aborts rfl next fun _ => Iff.rfl
  | abortOutlet =>
    refine h.abortsNext c.exchange.abortOutlet_aborts c.exchange.task_abortOutlet next fun side => ?_
    cases side <;> simp [Duty.abort]
  | ask ch =>
    refine h.beside (.refl _) rfl (fun side => ?_) (c.minutes.quietly_requestOutput ch)
    cases side <;> simp [next, Duty.abort]
  | release =>
    have goes := c.exchange.goes_handler (Handler.release c.exchange.handler)
    refine h.beside goes rfl (fun side => ?_) (.refl _)
    cases side <;> simp [next, Duty.abort]

omit [ResponseChannel σ] [Transport ι σ] [CapacityChannel κ σ] in
private theorem foretold_tame {x : Exchange ι κ τ} (calm : ∀ task, x.task = some task → task.progress.Calm) :
    Tame (foretold x) := by
  simp only [foretold]
  split
  · exact nofun
  next task running =>
    have calm := calm task running
    split
    · simp [Tame, Occurrence.Tame]
    · simp [Tame, Occurrence.Tame]
    next failing =>
      rw [failing] at calm
      exact calm.elim
    · exact nofun

omit [ResponseChannel σ] [Transport ι σ] [CapacityChannel κ σ] in
/-- No move is foretold of a handler that is not to be asked for one. -/
theorem foretold_unmoved {x : Exchange ι κ τ} {task : Task ι κ} (running : x.task = some task)
    (busy : task.progress ≠ .thinking) : movesOf (foretold x) = [] := by
  simp only [foretold, running]
  split
  next thinking => exact absurd thinking busy
  · rfl
  · rfl
  · rfl

private theorem work_notes (c : ExchangeRun ι κ σ τ) :
    ∃ rest, c.work.minutes.notes = c.minutes.notes ++ (foretold c.exchange ++ rest) ∧ Mute rest := by
  obtain ⟨more, notes, mute⟩ := c.exchange.step_mutely (c.minutes.noting (foretold c.exchange))
  refine ⟨more ++ placedBetween c.exchange c.work.exchange, ?_, mute.append (mute_placedBetween _ _)⟩
  rw [← List.append_assoc, ← List.append_assoc]
  exact congrArg (· ++ placedBetween c.exchange c.work.exchange) notes

theorem work_exchange {c : ExchangeRun ι κ σ τ} {task : Task ι κ} (running : c.exchange.task = some task) :
    c.work.exchange = (c.exchange.stepTask task (c.minutes.noting (foretold c.exchange))).2.1 := by
  simp [ExchangeRun.work, Exchange.step, running]

private theorem work_vain {c : ExchangeRun ι κ σ τ} {task : Task ι κ} (running : c.exchange.task = some task)
    (alert : task.Alert c.exchange.conduit?) (shut : c.exchange.Sealed) (vain : c.InVain) :
    Frustrates c c.work := by
  obtain ⟨rest, notes, mute⟩ := c.work_notes
  have plain := mute.plain
  obtain ⟨t, call, same, calling, vain⟩ := vain
  obtain rfl : t = task := Option.some.inj (same.symm.trans running)
  refine ⟨_, notes, ?_⟩
  rw [List.filterMap_append, plain.unheard, List.append_nil]
  obtain ⟨session, progress⟩ := t
  obtain rfl : progress = .calling call := calling
  -- only an answer that is there already is foretold, and it is the one of a vain call
  have goes : c.exchange.stepTask ⟨session, .calling call⟩ (c.minutes.noting (foretold c.exchange)) =
      c.exchange.stepCall ⟨session, .calling call⟩ .calling call (c.minutes.noting (foretold c.exchange)) →
      c.work.InVain := by
    intro called
    obtain ⟨session', call', there, vain'⟩ := (Exchange.stepCall_sealed shut alert (fun _ _ => rfl) rfl
      (c.minutes.noting (foretold c.exchange))).2 vain
    refine ⟨⟨session', .calling call'⟩, call', ?_, rfl, vain'⟩
    rw [work_exchange running, called]
    exact there
  cases call with
  | done answer =>
    simp only [foretold, running]
    exact vain
  | _ =>
    simp only [foretold, running]
    exact goes rfl

private theorem Sound.workCalm {c : ExchangeRun ι κ σ τ} (h : Sound c) {task : Task ι κ}
    (running : c.exchange.task = some task)
    (calm : task.progress.Calm) : Keeps c c.work := by
  have alert := h.alert task running
  -- a task runs only after the request has arrived, so that to complete makes nothing idle
  have going : .begun ∈ c.minutes.notes := Classical.byContradiction fun waiting =>
    absurd ((h.fresh waiting).2.1.symm.trans running) nofun
  have busy : c.exchange.phase ≠ .idle := fun idle => h.idle.mp idle going
  have goes : c.exchange.Goes c.work.exchange := by
    rw [work_exchange running]
    exact Exchange.stepTask_goes running alert busy calm _
  have same : ∀ side, .abort side ∈ outstanding ⟨c.work.exchange, c.minutes, c.duties⟩ ↔
      .abort side ∈ c.outstanding := by
    intro side
    obtain ⟨task', there, peaceful⟩ :=
      Exchange.stepTask_aborting running calm (c.minutes.noting (foretold c.exchange))
    simp only [outstanding, Exchange.aborting, work_exchange running, there, running, Option.elim_some, peaceful,
      calm.aborting]
  obtain ⟨rest, notes, mute⟩ := c.work_notes
  have plain := mute.plain
  have tame : Tame (foretold c.exchange ++ rest) := by
    refine (foretold_tame fun t there => ?_).append plain.tame
    exact Option.some.inj (running.symm.trans there) ▸ calm
  exact ⟨(h.goes goes same).noting notes tame, ⟨_, notes⟩,
    fun _ side => Conduit.rel_later_of_goes (goes.conduits side), work_vain running alert⟩

private theorem Sound.workFails {c : ExchangeRun ι κ σ τ} (h : Sound c) {session : Session} {cause : Fault}
    (running : c.exchange.task = some ⟨session, .failing cause⟩) : Keeps c c.work := by
  obtain ⟨rest, notes, mute⟩ := c.work_notes
  have plain := mute.plain
  have foreseen : foretold c.exchange = [.failed cause] := by simp [foretold, running]
  have goes : (c.exchange.recordFailure cause).Goes c.work.exchange := by
    rw [work_exchange running]
    exact Exchange.goes_moving running rfl Iff.rfl rfl rfl rfl rfl fun alert => alert.moveOn rfl trivial
  have due : ∀ side, .abort side ∈ outstanding ⟨c.work.exchange, c.minutes.noting [.failed cause], c.duties⟩ := by
    intro side
    rw [work_exchange running]
    cases side <;>
      simp [outstanding, Exchange.aborting, Exchange.stepTask, Exchange.moveOn, Exchange.withTask,
        Progress.aborting]
  rw [foreseen, ← List.append_assoc] at notes
  exact ⟨(h.fails cause goes rfl due).noting notes plain.tame, ⟨_, by rw [notes, List.append_assoc]⟩,
    fun _ side => Conduit.rel_later_of_goes (goes.conduits side), work_vain running (h.alert _ running)⟩

private theorem Sound.workAborts {c : ExchangeRun ι κ σ τ} (h : Sound c) {task : Task ι κ}
    {side : Side} {sides : List Side}
    (running : c.exchange.task = some task) (due : task.progress.aborting = side :: sides)
    (aborts : c.exchange.Aborts side c.work.exchange) (unforeseen : foretold c.exchange = [])
    (left : ∃ task', c.work.exchange.task = some task' ∧ task'.progress.aborting = sides) : Keeps c c.work := by
  obtain ⟨rest, notes, mute⟩ := c.work_notes
  have plain := mute.plain
  obtain ⟨task', there, left⟩ := left
  have next : .abort side ∈ c.outstanding := by simp [outstanding, Exchange.aborting, running, due]
  have less : ∀ other, .abort other ∈ outstanding ⟨c.work.exchange, c.minutes, c.duties⟩ →
      .abort other ∈ c.outstanding := by
    intro other owed
    simp only [outstanding, Exchange.aborting, there, running, Option.elim_some, left, due, List.map_cons,
      List.mem_append, List.mem_cons] at owed ⊢
    exact owed.imp_right .inr
  have kept : ∀ other, other ≠ side → .abort other ∈ c.outstanding →
      .abort other ∈ outstanding ⟨c.work.exchange, c.minutes, c.duties⟩ := by
    intro other outer owed
    simp only [outstanding, Exchange.aborting, there, running, Option.elim_some, left, due, List.map_cons,
      List.mem_append, List.mem_cons, Duty.abort_inj, outer, false_or] at owed ⊢
    exact owed
  refine ⟨(h.aborts aborts next less kept).noting notes ?_, ⟨_, notes⟩, fun _ => aborts.conduits,
    work_vain running (h.alert task running)⟩
  rw [unforeseen]
  exact plain.tame

theorem Sound.work {c : ExchangeRun ι κ σ τ} (h : Sound c) : Keeps c c.work := by
  cases running : c.exchange.task with
  | none =>
    obtain ⟨rest, notes, mute⟩ := c.work_notes
    have plain := mute.plain
    have still : c.work.exchange = c.exchange := by simp [ExchangeRun.work, Exchange.step, running]
    have unforeseen : foretold c.exchange = [] := by simp [foretold, running]
    have keeps : Keeps c ⟨c.work.exchange, c.work.minutes, c.duties⟩ := by
      refine h.beside (still ▸ .refl _) (congrArg Exchange.task still) (fun _ => Iff.rfl) ⟨rest, ?_, plain⟩
      rw [notes, unforeseen, List.nil_append]
    exact keeps
  | some task =>
    obtain ⟨session, progress⟩ := task
    have after := work_exchange running
    -- a failed task has three sections of its own, and all others go on in peace
    cases progress with
    | failing cause => exact h.workFails running
    | abortingInlet =>
      refine h.workAborts running rfl ?_ (by simp [foretold, running]) ⟨_, congrArg Exchange.task after, rfl⟩
      rw [after]
      exact c.exchange.abortInlet_aborts.moveOn running rfl fun _ => trivial
    | abortingOutlet =>
      refine h.workAborts running rfl ?_ (by simp [foretold, running]) ⟨_, congrArg Exchange.task after, rfl⟩
      rw [after]
      exact c.exchange.abortOutlet_aborts.moveOn running c.exchange.task_abortOutlet fun _ => trivial
    | _ => exact h.workCalm running trivial

omit [Handler τ] [CapacityChannel κ σ] [ResponseChannel σ] in
private theorem Sound.produce {c : ExchangeRun ι κ σ τ} (h : Sound c) (ch : ι) :
    Keeps c ⟨(c.exchange.produce ch c.minutes).2.1, (c.exchange.produce ch c.minutes).2.2, c.duties⟩ := by
  have noted : (c.exchange.produce ch c.minutes).2.1.task = c.exchange.task ∧
      c.minutes.Quietly (c.exchange.produce ch c.minutes).2.2 := by
    simp only [Exchange.produce]
    split
    · exact ⟨rfl, .refl _⟩
    next outlet _ =>
      obtain ⟨deeds, notes⟩ := outlet.flush_deeds ch c.minutes
      exact ⟨rfl, _, notes, (mute_deeds deeds).plain⟩
  exact h.beside (c.exchange.produce_goes ch c.minutes) noted.1 (fun _ => Iff.rfl) noted.2

omit [Handler τ] [Transport ι σ] [CapacityChannel κ σ] [ResponseChannel σ] in
private theorem Sound.timeOut {c : ExchangeRun ι κ σ τ} (h : Sound c) :
    Keeps c { c with exchange := c.exchange.timeOut } := by
  have goes := c.exchange.timeOut_goes
  have owed : outstanding { c with exchange := c.exchange.timeOut } = c.outstanding := by
    simp only [outstanding, c.exchange.aborting_timeOut]
  refine ⟨h.goes goes fun side => by rw [owed], ⟨[], (List.append_nil _).symm⟩,
    fun _ side => Conduit.rel_later_of_goes (goes.conduits side), fun _ vain => ⟨[], (List.append_nil _).symm, ?_⟩⟩
  obtain ⟨t, call, running, calling, vain⟩ := vain
  obtain ⟨call', there, vain'⟩ := Exchange.timeOut_vain running (h.alert t running) calling vain
  exact ⟨_, call', there, rfl, vain'⟩

theorem Sound.perform {c : ExchangeRun ι κ σ τ} (h : Sound c) (e : Event ι κ σ τ)
    (free : e.isCall = true → c.duties = []) : Keeps c (c.perform e) := by
  have still : Keeps c c := h.beside (.refl _) rfl (fun _ => Iff.rfl) (.refl _)
  cases e with
  | start request hasBody context => exact h.start (free rfl) request hasBody context
  | consume bytes =>
    have same : (c.exchange.consume bytes).2.task = c.exchange.task := by
      simp only [Exchange.consume]
      split <;> rfl
    exact h.beside (c.exchange.consume_goes bytes) same (fun _ => Iff.rfl) (.refl _)
  | streamEnd =>
    have same : c.exchange.streamEnd.2.task = c.exchange.task := by
      simp only [Exchange.streamEnd]
      split <;> rfl
    exact h.beside c.exchange.streamEnd_goes same (fun _ => Iff.rfl) (.refl _)
  | updateCapacity ch =>
    simp only [ExchangeRun.perform, register]
    cases present : c.exchange.inlet with
    | none => exact still
    | some inlet =>
      have goes : inlet.conduit.Goes (inlet.register ch).2.conduit := by
        rw [inlet.conduit_register]
        exact .refl _
      refine h.beside (Exchange.goes_inlet present goes) rfl (fun side => ?_) (.refl _)
      rw [free rfl]
      split
      · exact Iff.rfl
      · exact Iff.rfl
      · cases side <;> simp [Duty.abort]
  | produce ch => exact h.produce ch
  | failed cause => exact h.failed cause
  | release => exact h.beside (c.exchange.goes_handler _) rfl (fun _ => Iff.rfl) (.refl _)
  | react =>
    simp only [ExchangeRun.perform]
    split
    · exact still
    next duty duties next => exact h.discharge next
  | work => exact h.work
  | timeOut => exact h.timeOut
  | prompt handler => exact h.beside (c.exchange.goes_handler handler) rfl (fun _ => Iff.rfl) (.refl _)
  | become world => exact h.beside (.refl _) rfl (fun _ => Iff.rfl) (.refl _)

/-- What holds once every buffer is aborted. That stays so, no call sleeps, a call that needs a buffer
begins in vain, and what comes of a vain call is a failure. -/
structure Closed (c : ExchangeRun ι κ σ τ) : Prop where
  lasting : ∀ more, (c.run more).exchange.Sealed
  awake : c.exchange.isCalling = true → ∀ m : Minutes ι σ, (c.exchange.step m).1 ≠ .parked
  needing : ∀ task act handler, c.exchange.task = some task → task.progress = .thinking →
    Handler.next task.session c.exchange.handler = (.act act, handler) → act.Needs task.session → c.work.InVain
  vain : c.InVain → ∀ more, Frustrates c (c.run more)

omit [Handler τ] [Transport ι σ] [CapacityChannel κ σ] [ResponseChannel σ] in
private theorem Keeps.sealed {c c' : ExchangeRun ι κ σ τ} (h : Keeps c c') (going : .begun ∈ c.minutes.notes)
    (shut : c.exchange.Sealed) : c'.exchange.Sealed := by
  intro side o' there
  obtain ⟨o, here, later⟩ := Conduit.some_rel there (h.conduits going side)
  exact later.stays (shut side o here)

omit [Handler τ] [Transport ι σ] [CapacityChannel κ σ] [ResponseChannel σ] in
private theorem Frustrates.on {c c' c'' : ExchangeRun ι κ σ τ} (h : Frustrates c c') (next : Keeps c' c'')
    (shut : c'.exchange.Sealed) : Frustrates c c'' := by
  obtain ⟨later, notes, heard⟩ := h
  cases answers : later.filterMap Occurrence.answer? with
  | nil =>
    simp only [answers] at heard
    obtain ⟨more, notes', heard'⟩ := next.vain shut heard
    refine ⟨later ++ more, by rw [notes', notes, List.append_assoc], ?_⟩
    rw [List.filterMap_append, answers]
    exact heard'
  | cons answer rest =>
    simp only [answers] at heard
    obtain ⟨more, notes'⟩ := next.noted
    refine ⟨later ++ more, by rw [notes', notes, List.append_assoc], ?_⟩
    rw [List.filterMap_append, answers]
    exact heard

private theorem Sound.runSealed {c : ExchangeRun ι κ σ τ} (h : Sound c) (going : .begun ∈ c.minutes.notes)
    (shut : c.exchange.Sealed) (events : List (Event ι κ σ τ)) :
    (c.run events).exchange.Sealed ∧ (c.InVain → Frustrates c (c.run events)) := by
  have kept : ∀ c' : ExchangeRun ι κ σ τ,
      (Sound c' ∧ .begun ∈ c'.minutes.notes ∧ c'.exchange.Sealed ∧ (c.InVain → Frustrates c c')) →
      ∀ e : Event ι κ σ τ, (e.isCall = true → c'.duties = []) →
      Sound (c'.perform e) ∧ .begun ∈ (c'.perform e).minutes.notes ∧ (c'.perform e).exchange.Sealed ∧
        (c.InVain → Frustrates c (c'.perform e)) := by
    rintro c' ⟨sound, going, shut, vain⟩ e free
    have next := sound.perform e free
    obtain ⟨more, notes⟩ := next.noted
    exact ⟨next.sound, notes ▸ List.mem_append_left more going, next.sealed going shut,
      fun h => (vain h).on next shut⟩
  exact (run_induction kept events c
    ⟨h, going, shut, fun vain => ⟨[], (List.append_nil _).symm, vain⟩⟩).2.2

private theorem work_needing {c : ExchangeRun ι κ σ τ} {task : Task ι κ} {act : Act} {handler : τ}
    (running : c.exchange.task = some task) (thinking : task.progress = .thinking)
    (next : Handler.next task.session c.exchange.handler = (.act act, handler)) (needs : act.Needs task.session) :
    c.work.InVain := by
  obtain ⟨session, progress⟩ := task
  obtain rfl : progress = .thinking := thinking
  have there : c.work.exchange.task =
      some ⟨(Call.start session act : Call ι κ × Session).2, .calling (Call.start session act).1⟩ := by
    rw [work_exchange running]
    simp only [Exchange.stepTask, Task.think, next]
    rfl
  exact ⟨_, _, there, rfl, Call.start_vain needs⟩

private theorem Sound.closed {c : ExchangeRun ι κ σ τ} (h : Sound c) (going : .begun ∈ c.minutes.notes)
    (shut : c.exchange.Sealed) : Closed c where
  lasting more := (h.runSealed going shut more).1
  awake calling m := by
    cases running : c.exchange.task with
    | none => simp [Exchange.isCalling, running] at calling
    | some task =>
      simp only [Exchange.step, running]
      exact Exchange.stepTask_sealed running shut (h.alert task running) calling m
  needing _ _ _ := work_needing
  vain inVain more := (h.runSealed going shut more).2 inVain

end

theorem sound_before {limits : BufferSettings} {executor : Executor} {handler : τ} {x : Exchange ι κ τ}
    (made : Exchange.ofHandler limits executor handler = .ok x) (world : σ) : Sound (before x world) := by
  obtain ⟨_, valid, new⟩ := ok_of_map made
  have idle : x.phase = .idle := congrArg Exchange.phase new
  have waiting : x.task = none := congrArg Exchange.task new
  have nowhere : ∀ side, x.conduit? side = none := by
    intro side
    rw [new]
    cases side with
    | input => rfl
    | output => rfl
  have calm : ¬ Halted ([] : List (Occurrence ι)) := by
    rintro (refused | ⟨cause, order⟩)
    · cases refused
    · cases order
  refine ⟨(congrArg (·.limits.validate) new).trans valid, ?_, fun _ => ?_,
    fun going => absurd going List.not_mem_nil, congrArg Exchange.failure new, fun halted => absurd halted calm,
    fun side o here => ?_, fun going => absurd going List.not_mem_nil, fun t running => ?_⟩
  · exact ⟨fun _ => List.not_mem_nil, fun _ => idle⟩
  · exact ⟨List.not_mem_nil, waiting, nowhere⟩
  · exact absurd (here.symm.trans (nowhere side)) (Option.some_ne_none o)
  · exact absurd (running.symm.trans waiting) (Option.some_ne_none t)

end ExchangeRun

/-- Whatever a handler and a reactor do in whatever order: the failure of an exchange is the first one
recorded. Once nothing is outstanding, every buffer is aborted if and only if there is none, or the
exchange was refused, or it has failed after its request arrived. And then no call sleeps any more, and
none succeeds that still needs a buffer. -/
theorem failure_seals [Handler τ] [Transport ι σ] [CapacityChannel κ σ] [ResponseChannel σ]
    (limits : BufferSettings) (executor : Executor) (handler : τ) (x : Exchange ι κ τ)
    (made : Exchange.ofHandler limits executor handler = .ok x) (world : σ)
    (events : List (ExchangeRun.Event ι κ σ τ)) :
    let c := (ExchangeRun.before x world).run events
    c.exchange.failure = (c.minutes.notes.filterMap Occurrence.cause?).head? ∧
    (c.outstanding = [] → (c.exchange.Sealed ↔ .begun ∉ c.minutes.notes ∨ Halted c.minutes.notes)) ∧
    (.begun ∈ c.minutes.notes → c.exchange.Sealed → c.Closed) := by
  intro c
  have sound : c.Sound := by
    have kept : ∀ c : ExchangeRun ι κ σ τ, c.Sound → ∀ e : ExchangeRun.Event ι κ σ τ,
        (e.isCall = true → c.duties = []) → (c.perform e).Sound :=
      fun _ sound e free => (sound.perform e free).sound
    exact ExchangeRun.run_induction kept events _ (ExchangeRun.sound_before made world)
  refine ⟨sound.first, fun done => ⟨fun shut => ?_, fun halted side => ?_⟩, sound.closed⟩
  · by_cases going : .begun ∈ c.minutes.notes
    · obtain ⟨o, here⟩ := sound.placed going
      exact .inr (sound.halted .output o here (shut .output o here))
    · exact .inl going
  · rcases halted with waiting | halted
    · intro o here
      exact absurd (((sound.fresh waiting).2.2 side).symm.trans here) nofun
    · exact (sound.shut halted side).resolve_right (by rw [done]; exact List.not_mem_nil)

/-- A handler sleeps in a read when its exchange fails. It wakes up and hears of a failure. -/
theorem failure_seals_reading :
    let limits : BufferSettings := ⟨4, none⟩
    let x : Exchange Line Line Rehearsal := ⟨limits, .runtime, .idle, none, none, none, .silent, none, 0⟩
    let bench := Bench.ofChannels [⟨.withLimit none, ⟨false, false, 0⟩⟩]
    let events : List (ExchangeRun.Event Line Line Bench Rehearsal) :=
      [.start ⟨"POST", "/"⟩ true ⟨0, []⟩, .work, .prompt (Rehearsal.silent.tell (.act (.read 1))), .work,
        .work, .failed .timeout, .react, .react, .react, .react]
    let c := (ExchangeRun.before x bench).run events
    Exchange.ofHandler limits .runtime Rehearsal.silent = .ok x ∧
      c.minutes.notes = [.begun, .moved (.act (.read 1)), .failed .timeout] ∧ c.outstanding = [] ∧
      c.exchange.failure = some .timeout ∧ c.exchange.Sealed ∧ ExchangeRun.Frustrates c (c.run [.work, .work, .work]) ∧
      (c.run [.work, .work, .work]).minutes.notes = [.begun, .moved (.act (.read 1)), .failed .timeout,
        .heard (.bytes (.error (.carrying .connectionAborted .aborted)))] := by
  obtain ⟨_, sealed, closed⟩ := failure_seals ⟨4, none⟩ .runtime Rehearsal.silent
    (⟨⟨4, none⟩, .runtime, .idle, none, none, none, .silent, none, 0⟩ : Exchange Line Line Rehearsal) (by rfl)
    (Bench.ofChannels [⟨.withLimit none, ⟨false, false, 0⟩⟩])
    [.start ⟨"POST", "/"⟩ true ⟨0, []⟩, .work, .prompt (Rehearsal.silent.tell (.act (.read 1))), .work,
      .work, .failed .timeout, .react, .react, .react, .react]
  have halted : Halted [.begun, .moved (.act (.read 1)), (.failed .timeout : Occurrence Line)] :=
    .inr ⟨.timeout, .cons_cons _ (.cons _ (List.Sublist.refl _))⟩
  have shut := (sealed (by rfl)).mpr (.inr halted)
  have vain := (closed List.mem_cons_self shut).vain ⟨_, .reading 1 (.asleep 0), by rfl, rfl, trivial⟩
  exact ⟨by rfl, by rfl, by rfl, by rfl, shut, vain _, by rfl⟩

/-- An exchange fails before its request arrives. Its buffers are made all the same, and its handler
sleeps in a read. -/
theorem early_failure_seals_nothing :
    let x : Exchange Line Line Rehearsal := ⟨⟨4, none⟩, .runtime, .idle, none, none, none, .silent, none, 0⟩
    let bench := Bench.ofChannels [⟨.withLimit none, ⟨false, false, 0⟩⟩]
    let events : List (ExchangeRun.Event Line Line Bench Rehearsal) :=
      [.failed .timeout, .react, .react, .react, .react, .start ⟨"POST", "/"⟩ true ⟨0, []⟩, .work,
        .prompt (Rehearsal.silent.tell (.act (.read 1))), .work, .work]
    let c := (ExchangeRun.before x bench).run events
    c.exchange.failure = some .timeout ∧ c.outstanding = [] ∧ c.exchange.isCalling = true ∧
      (c.exchange.step c.minutes).1 = .parked ∧ ¬ c.exchange.Sealed := by
  refine ⟨by rfl, by rfl, by rfl, by rfl, fun shut => ?_⟩
  exact absurd (shut .input ⟨4, none, [], false, false, 0⟩ (by rfl)) (by decide)

end Sluice
