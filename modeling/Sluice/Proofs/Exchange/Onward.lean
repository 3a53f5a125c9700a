import Sluice.Proofs.Exchange.Alert

/-! What the sections of an exchange do to its conduits. Its worker sleeps nowhere where an abort does
not wake it, whoever moves. -/
namespace Sluice

variable {ι κ σ τ : Type}

namespace Exchange

def conduit? (x : Exchange ι κ τ) : Side → Option Conduit
  | .input => x.inlet.map Inlet.conduit
  | .output => x.outlet.map Outlet.conduit

/-- Whether there is no live buffer in a direction. -/
def Shut (x : Exchange ι κ τ) (side : Side) : Prop := ∀ c, x.conduit? side = some c → c.aborted = true

/-- Whether every buffer is aborted. -/
def Sealed (x : Exchange ι κ τ) : Prop := ∀ side, x.Shut side

end Exchange

/-- Whether a task sleeps in a call only where it has been woken by an abort. -/
def Progress.Alert (conduit? : Side → Option Conduit) : Progress ι κ → Prop
  | .calling call | .closingInput call | .closingOutput call => call.Alert conduit?
  | _ => True

/-- Whether a task has its conduits and sleeps only where it has been woken by an abort. -/
structure Task.Alert (task : Task ι κ) (conduit? : Side → Option Conduit) : Prop where
  furnished : Call.Furnished task.session conduit?
  progress : task.progress.Alert conduit?

private theorem Task.Alert.later {task : Task ι κ} {conduit? conduit?' : Side → Option Conduit}
    (h : task.Alert conduit?) (later : ∀ side, Option.Rel Conduit.Later (conduit? side) (conduit?' side)) :
    task.Alert conduit?' := by
  have found : ∀ side, (∃ c, conduit? side = some c) → ∃ c, conduit?' side = some c := by
    rintro side ⟨c, here⟩
    obtain ⟨c', there, _⟩ := Conduit.rel_some here (later side)
    exact ⟨c', there⟩
  refine ⟨⟨fun input => found .input (h.furnished.input input), found .output h.furnished.output⟩, ?_⟩
  have alert := h.progress
  cases progress : task.progress with
  | calling call =>
    rw [progress] at alert
    exact Call.Alert.later alert later
  | closingInput call =>
    rw [progress] at alert
    exact Call.Alert.later alert later
  | closingOutput call =>
    rw [progress] at alert
    exact Call.Alert.later alert later
  | _ => trivial

/-- The directions whose buffers a failed task has still to abort. -/
def Progress.aborting : Progress ι κ → List Side
  | .abortingInlet => [.input, .output]
  | .abortingOutlet => [.output]
  | _ => []

/-- The directions whose buffers the worker has still to abort. -/
def Exchange.aborting (x : Exchange ι κ τ) : List Side := x.task.elim [] fun task => task.progress.aborting

/-- Whether a task goes on in peace, neither about to record a failure nor to abort a buffer. -/
def Progress.Calm : Progress ι κ → Prop
  | .failing _ | .abortingInlet | .abortingOutlet => False
  | _ => True

theorem Progress.Calm.aborting {p : Progress ι κ} (calm : p.Calm) : p.aborting = [] := by
  cases p with
  | abortingInlet => exact calm.elim
  | abortingOutlet => exact calm.elim
  | _ => rfl

/-- A change of an exchange by which it neither begins nor fails, and no buffer is aborted. -/
structure Exchange.Goes (x x' : Exchange ι κ τ) : Prop where
  limits : x'.limits = x.limits
  phase : x'.phase = .idle ↔ x.phase = .idle
  failure : x'.failure = x.failure
  conduits : ∀ side, Option.Rel Conduit.Goes (x.conduit? side) (x'.conduit? side)
  waiting : x.task = none → x'.task = none
  alert : (∀ task, x.task = some task → task.Alert x.conduit?) →
    ∀ task, x'.task = some task → task.Alert x'.conduit?

namespace Exchange

private theorem goes_beside {x x' : Exchange ι κ τ} (limits : x'.limits = x.limits) (phase : x'.phase = x.phase)
    (failure : x'.failure = x.failure) (task : x'.task = x.task)
    (conduits : ∀ side, Option.Rel Conduit.Goes (x.conduit? side) (x'.conduit? side)) : x.Goes x' where
  limits := limits
  phase := by rw [phase]
  failure := failure
  conduits := conduits
  waiting := task.trans
  alert h t running := (h t (task.symm.trans running)).later fun side => Conduit.rel_later_of_goes (conduits side)

theorem Goes.refl (x : Exchange ι κ τ) : x.Goes x := goes_beside rfl rfl rfl rfl fun _ => Conduit.rel_goes_refl _

theorem goes_handler (x : Exchange ι κ τ) (handler : τ) : x.Goes { x with handler } :=
  goes_beside rfl rfl rfl rfl fun _ => Conduit.rel_goes_refl _

theorem goes_moving {x x' : Exchange ι κ τ} {task task' : Task ι κ} (running : x.task = some task)
    (limits : x'.limits = x.limits) (phase : x'.phase = .idle ↔ x.phase = .idle)
    (failure : x'.failure = x.failure) (inlet : x'.inlet = x.inlet) (outlet : x'.outlet = x.outlet)
    (moved : x'.task = some task') (alert : task.Alert x.conduit? → task'.Alert x.conduit?) : x.Goes x' := by
  have same : x'.conduit? = x.conduit? := by
    funext side
    cases side with
    | input => exact congrArg (Option.map Inlet.conduit) inlet
    | output => exact congrArg (Option.map Outlet.conduit) outlet
  refine ⟨limits, phase, failure, fun side => same ▸ Conduit.rel_goes_refl _, fun waiting => ?_, fun h t here => ?_⟩
  · exact absurd (running.symm.trans waiting) nofun
  · obtain rfl : task' = t := Option.some.inj (moved.symm.trans here)
    exact same ▸ alert (h task running)

theorem goes_inlet {x : Exchange ι κ τ} {inlet inlet' : Inlet κ} (present : x.inlet = some inlet)
    (goes : inlet.conduit.Goes inlet'.conduit) : x.Goes { x with inlet := some inlet' } := by
  refine goes_beside rfl rfl rfl rfl fun side => ?_
  cases side with
  | input =>
    have here : x.conduit? .input = some inlet.conduit := congrArg (Option.map Inlet.conduit) present
    exact here ▸ .some goes
  | output => exact Conduit.rel_goes_refl _

private theorem goes_outlet {x : Exchange ι κ τ} {outlet outlet' : Outlet ι} (present : x.outlet = some outlet)
    (goes : outlet.conduit.Goes outlet'.conduit) : x.Goes { x with outlet := some outlet' } := by
  refine goes_beside rfl rfl rfl rfl fun side => ?_
  cases side with
  | input => exact Conduit.rel_goes_refl _
  | output =>
    have here : x.conduit? .output = some outlet.conduit := congrArg (Option.map Outlet.conduit) present
    exact here ▸ .some goes

theorem consume_goes (x : Exchange ι κ τ) (bytes : List UInt8) : x.Goes (x.consume bytes).2 := by
  simp only [consume, input]
  cases present : x.inlet with
  | none => exact .refl x
  | some inlet => exact goes_inlet present (inlet.fill_goes bytes)

theorem streamEnd_goes (x : Exchange ι κ τ) : x.Goes x.streamEnd.2 := by
  simp only [streamEnd, input]
  cases present : x.inlet with
  | none => exact .refl x
  | some inlet => exact goes_inlet present inlet.markEnd_goes

theorem revoke_goes (x : Exchange ι κ τ) (increment : Nat) :
    x.Goes { x with inlet := x.inlet.map (·.revoke increment) } := by
  cases present : x.inlet with
  | none =>
    refine goes_beside rfl rfl rfl rfl fun side => ?_
    cases side with
    | input =>
      have none : x.conduit? .input = none := congrArg (Option.map Inlet.conduit) present
      exact none ▸ .none
    | output => exact Conduit.rel_goes_refl _
  | some inlet => exact goes_inlet present (.refl _)

theorem produce_goes [Transport ι σ] (x : Exchange ι κ τ) (ch : ι) (s : σ) : x.Goes (x.produce ch s).2.1 := by
  simp only [produce, output]
  cases present : x.outlet with
  | none => exact .refl x
  | some outlet => exact goes_outlet present (outlet.flush_goes ch s)

/-- A call of the worker acts on the conduits of its exchange. -/
theorem conduit?_ground (x : Exchange ι κ τ) (task : Task ι κ) {outlet : Outlet ι}
    (placed : x.outlet = some outlet) : (x.ground task outlet).conduit? = x.conduit? := by
  funext side
  cases side with
  | input => rfl
  | output => exact (congrArg (Option.map Outlet.conduit) placed).symm

theorem timeOut_goes (x : Exchange ι κ τ) : x.Goes x.timeOut := by
  simp only [timeOut]
  split
  next task outlet running placed =>
    have same := x.conduit?_ground task placed
    have expires : ∀ {call : Call ι κ}, call.Alert x.conduit? →
        (call.timeOut (x.ground task outlet)).Alert x.conduit? := by
      intro call alert
      have after := Call.timeOut_alert (g := x.ground task outlet) (same ▸ alert)
      exact same ▸ after.1
    have moves : ∀ {call : Call ι κ} {progress : Call ι κ → Progress ι κ},
        (∀ call, (progress call).Alert x.conduit? = call.Alert x.conduit?) → task.progress = progress call →
        x.Goes (x.moveOn task (progress (call.timeOut (x.ground task outlet)))) := by
      intro call progress same at_
      refine goes_moving running rfl Iff.rfl rfl rfl rfl rfl fun alert => ⟨alert.furnished, ?_⟩
      have before := alert.progress
      rw [at_, same] at before
      exact (same _).mpr (expires before)
    split
    next call calling => exact moves (fun _ => rfl) calling
    next call closing => exact moves (fun _ => rfl) closing
    next call closing => exact moves (fun _ => rfl) closing
    · exact .refl x
  · exact .refl x

theorem aborting_timeOut (x : Exchange ι κ τ) : x.timeOut.aborting = x.aborting := by
  simp only [timeOut]
  split
  next task outlet running _ =>
    split
    next calling => simp [aborting, moveOn, withTask, running, calling, Progress.aborting]
    next closing => simp [aborting, moveOn, withTask, running, closing, Progress.aborting]
    next closing => simp [aborting, moveOn, withTask, running, closing, Progress.aborting]
    · rfl
  · rfl

/-- A call that has failed, or needs a buffer, does not get it from the end of its patience. -/
theorem timeOut_vain {x : Exchange ι κ τ} {task : Task ι κ} {call : Call ι κ} (running : x.task = some task)
    (alert : task.Alert x.conduit?) (calling : task.progress = .calling call) (vain : call.Vain) :
    ∃ call', x.timeOut.task = some { task with progress := .calling call' } ∧ call'.Vain := by
  obtain ⟨o, here⟩ := alert.furnished.output
  obtain ⟨outlet, placed, _⟩ := Option.map_eq_some_iff.mp here
  have awake := alert.progress
  rw [calling] at awake
  have after := Call.timeOut_alert (g := x.ground task outlet) (x.conduit?_ground task placed ▸ awake)
  exact ⟨_, by simp only [timeOut, running, placed, calling]; rfl, after.2 vain⟩

end Exchange

/-- A change of an exchange by which the buffer of a direction is aborted, and perhaps its task goes on. -/
structure Exchange.Aborts (side : Side) (x x' : Exchange ι κ τ) : Prop where
  limits : x'.limits = x.limits
  phase : x'.phase = x.phase
  failure : x'.failure = x.failure
  conduits : ∀ side, Option.Rel Conduit.Later (x.conduit? side) (x'.conduit? side)
  shut : x'.Shut side
  others : ∀ other, other ≠ side → x'.conduit? other = x.conduit? other
  waiting : x.task = none → x'.task = none
  alert : (∀ task, x.task = some task → task.Alert x.conduit?) →
    ∀ task, x'.task = some task → task.Alert x'.conduit?

namespace Exchange

private theorem aborts_beside {side : Side} {x x' : Exchange ι κ τ} (limits : x'.limits = x.limits)
    (phase : x'.phase = x.phase) (failure : x'.failure = x.failure) (task : x'.task = x.task)
    (later : Option.Rel Conduit.Later (x.conduit? side) (x'.conduit? side)) (shut : x'.Shut side)
    (others : ∀ other, other ≠ side → x'.conduit? other = x.conduit? other) : Aborts side x x' := by
  have conduits : ∀ side, Option.Rel Conduit.Later (x.conduit? side) (x'.conduit? side) := by
    intro other
    by_cases same : other = side
    · exact same ▸ later
    · rw [others other same]
      exact Conduit.rel_later_of_goes (Conduit.rel_goes_refl _)
  refine ⟨limits, phase, failure, conduits, shut, others, task.trans, fun h t running => ?_⟩
  exact (h t (task.symm.trans running)).later conduits

theorem abortInlet_aborts (x : Exchange ι κ τ) : Aborts .input x x.abortInlet := by
  have after : x.abortInlet.conduit? .input = (x.conduit? .input).map Conduit.abort := by
    simp only [abortInlet, conduit?, Option.map_map]
    rfl
  refine aborts_beside rfl rfl rfl rfl ?_ (fun c there => ?_) fun other outer => ?_
  · rw [after]
    cases x.conduit? .input with
    | none => exact .none
    | some c => exact .some c.later_abort
  · rw [after] at there
    obtain ⟨c', _, rfl⟩ := Option.map_eq_some_iff.mp there
    rfl
  · cases other with
    | input => exact absurd rfl outer
    | output => rfl

theorem task_abortOutlet (x : Exchange ι κ τ) : x.abortOutlet.2.task = x.task := by
  simp only [abortOutlet]
  split
  · rfl
  · rfl

theorem abortOutlet_aborts (x : Exchange ι κ τ) : Aborts .output x x.abortOutlet.2 := by
  simp only [abortOutlet]
  split
  next absent =>
    have nowhere : x.conduit? .output = none := congrArg (Option.map Outlet.conduit) absent
    refine aborts_beside rfl rfl rfl rfl ?_ (fun c there => ?_) fun _ _ => rfl
    · exact Conduit.rel_later_of_goes (Conduit.rel_goes_refl _)
    · exact absurd (nowhere.symm.trans there) nofun
  next outlet placed =>
    have here : x.conduit? .output = some outlet.conduit := congrArg (Option.map Outlet.conduit) placed
    refine aborts_beside rfl rfl rfl rfl ?_ (fun c there => ?_) fun other outer => ?_
    · rw [here]
      exact .some outlet.abort_later
    · obtain rfl : outlet.abort.2.conduit = c := Option.some.inj there
      exact outlet.abort_aborted
    · cases other with
      | input => rfl
      | output => exact absurd rfl outer

theorem Aborts.moveOn {side : Side} {x x' : Exchange ι κ τ} (h : Aborts side x x') {task : Task ι κ}
    (running : x.task = some task) (same : x'.task = x.task) {progress : Progress ι κ}
    (awake : ∀ conduit?, progress.Alert conduit?) : Aborts side x (x'.moveOn task progress) where
  limits := h.limits
  phase := h.phase
  failure := h.failure
  conduits := h.conduits
  shut := h.shut
  others := h.others
  waiting idle := absurd (running.symm.trans idle) nofun
  alert alert t there := by
    obtain rfl : { task with progress } = t := Option.some.inj there
    exact ⟨(h.alert alert task (same.trans running)).furnished, awake _⟩

end Exchange

namespace Task

theorem Alert.moveOn {task : Task ι κ} {conduit? : Side → Option Conduit} (h : task.Alert conduit?)
    {session : Session} (hasInput : session.hasInput = task.session.hasInput) {progress : Progress ι κ}
    (awake : progress.Alert conduit?) : Alert ⟨session, progress⟩ conduit? :=
  ⟨⟨fun input => h.furnished.input (hasInput.symm.trans input), h.furnished.output⟩, awake⟩

private theorem Alert.think [Handler τ] {task : Task ι κ} {conduit? : Side → Option Conduit} (h : task.Alert conduit?)
    (handler : τ) : (task.think handler).2.1.Alert conduit? := by
  simp only [Task.think]
  split
  next act _ _ =>
    obtain ⟨alert, hasInput⟩ := Call.start_alert (κ := κ) (ι := ι) h.furnished act
    exact h.moveOn hasInput alert
  next result _ _ =>
    cases result with
    | ok _ => exact h.moveOn rfl (Call.alert_closeInput h.furnished)
    | error cause => exact h.moveOn rfl trivial
  · exact h.moveOn rfl trivial
  · exact h

private theorem Alert.afterInput {task : Task ι κ} {conduit? : Side → Option Conduit} (h : task.Alert conduit?)
    (result : Except Fault Unit) : (task.afterInput result).Alert conduit? := by
  cases result with
  | ok _ =>
    obtain ⟨alert, hasInput⟩ := Call.closeOutput_alert (κ := κ) (ι := ι) h.furnished
    exact h.moveOn hasInput alert
  | error cause => exact h.moveOn rfl trivial

private theorem Alert.afterOutput {task : Task ι κ} {conduit? : Side → Option Conduit} (h : task.Alert conduit?)
    (result : Except Fault Unit) : (task.afterOutput result).Alert conduit? := by
  cases result with
  | ok _ => exact h.moveOn rfl trivial
  | error cause => exact h.moveOn rfl trivial

end Task

namespace Exchange

variable [Handler τ] [Transport ι σ] [CapacityChannel κ σ] [ResponseChannel σ]

omit [Handler τ] in
theorem stepCall_placed (x : Exchange ι κ τ) {task : Task ι κ} {outlet : Outlet ι}
    (placed : x.outlet = some outlet) (progress : Call ι κ → Progress ι κ) (call : Call ι κ) (s : σ) :
    x.stepCall task progress call s =
      let (pace, call, g, s) := call.step (x.ground task outlet) s
      (pace, { x with inlet := g.inlet, outlet := some g.outlet, task := some ⟨g.session, progress call⟩ }, s) := by
  simp only [stepCall, placed]
  rfl

omit [Handler τ] in
private theorem stepCall_goes {x : Exchange ι κ τ} {task : Task ι κ} {call : Call ι κ}
    {progress : Call ι κ → Progress ι κ} (running : x.task = some task) (alert : task.Alert x.conduit?)
    (same : ∀ conduit? call, (progress call).Alert conduit? = call.Alert conduit?)
    (calling : task.progress = progress call) (s : σ) : x.Goes (x.stepCall task progress call s).2.1 := by
  obtain ⟨o, here⟩ := alert.furnished.output
  obtain ⟨outlet, placed, _⟩ := Option.map_eq_some_iff.mp here
  have awake := alert.progress
  rw [calling, same, ← x.conduit?_ground task placed] at awake
  have steps := Call.step_alert awake s
  have after : { x with
      inlet := (call.step (x.ground task outlet) s).2.2.1.inlet
      outlet := some (call.step (x.ground task outlet) s).2.2.1.outlet
      task := some ⟨(call.step (x.ground task outlet) s).2.2.1.session,
        progress (call.step (x.ground task outlet) s).2.1⟩ }.conduit? =
      (call.step (x.ground task outlet) s).2.2.1.conduit? := by
    funext side
    cases side with
    | input => rfl
    | output => rfl
  have goes := steps.goes
  rw [x.conduit?_ground task placed] at goes
  rw [x.stepCall_placed placed]
  refine ⟨rfl, Iff.rfl, rfl, fun side => ?_, fun waiting => ?_, fun _ t there => ?_⟩
  · exact after ▸ goes side
  · exact absurd (running.symm.trans waiting) nofun
  · obtain rfl := Option.some.inj there
    rw [after]
    refine Task.Alert.moveOn (alert.later fun side => ?_) steps.hasInput ((same _ _).mpr steps.alert)
    exact Conduit.rel_later_of_goes (goes side)

omit [Handler τ] in
/-- Among aborted buffers a call does not sleep, and in vain it goes on in vain. -/
theorem stepCall_sealed {x : Exchange ι κ τ} {task : Task ι κ} {call : Call ι κ}
    {progress : Call ι κ → Progress ι κ} (shut : x.Sealed) (alert : task.Alert x.conduit?)
    (same : ∀ conduit? call, (progress call).Alert conduit? = call.Alert conduit?)
    (calling : task.progress = progress call) (s : σ) :
    (x.stepCall task progress call s).1 ≠ .parked ∧
    (call.Vain → ∃ session call', (x.stepCall task progress call s).2.1.task = some ⟨session, progress call'⟩ ∧
      call'.Vain) := by
  obtain ⟨o, here⟩ := alert.furnished.output
  obtain ⟨outlet, placed, _⟩ := Option.map_eq_some_iff.mp here
  have awake := alert.progress
  rw [calling, same, ← x.conduit?_ground task placed] at awake
  have aborted : ∀ side c, (x.ground task outlet).conduit? side = some c → c.aborted = true := by
    rw [x.conduit?_ground task placed]
    exact shut
  obtain ⟨going, vain⟩ := Call.step_aborted awake aborted s
  rw [x.stepCall_placed placed]
  exact ⟨going, fun h => ⟨_, _, rfl, vain h⟩⟩

/-- A section of a task in peace aborts nothing, and it does not go on to an abort. -/
theorem stepTask_goes {x : Exchange ι κ τ} {task : Task ι κ} (running : x.task = some task)
    (alert : task.Alert x.conduit?) (going : x.phase ≠ .idle) (calm : task.progress.Calm) (s : σ) :
    x.Goes (x.stepTask task s).2.1 := by
  obtain ⟨session, progress⟩ := task
  cases progress with
  | submitted => exact goes_moving running rfl Iff.rfl rfl rfl rfl rfl fun h => h.moveOn rfl trivial
  | thinking => exact goes_moving running rfl Iff.rfl rfl rfl rfl rfl fun h => h.think x.handler
  | calling call =>
    cases call with
    | done answer => exact goes_moving running rfl Iff.rfl rfl rfl rfl rfl fun h => h.moveOn rfl trivial
    | _ => exact stepCall_goes running alert (fun _ _ => rfl) rfl s
  | closingInput call =>
    cases call with
    | done answer => exact goes_moving running rfl Iff.rfl rfl rfl rfl rfl fun h => h.afterInput answer.closed
    | _ => exact stepCall_goes running alert (fun _ _ => rfl) rfl s
  | closingOutput call =>
    cases call with
    | done answer => exact goes_moving running rfl Iff.rfl rfl rfl rfl rfl fun h => h.afterOutput answer.closed
    | _ => exact stepCall_goes running alert (fun _ _ => rfl) rfl s
  | asking ch => exact goes_moving running rfl Iff.rfl rfl rfl rfl rfl fun h => h.moveOn rfl trivial
  | completing =>
    have ended : Phase.completed = .idle ↔ x.phase = .idle := ⟨nofun, fun idle => absurd idle going⟩
    exact goes_moving running rfl ended rfl rfl rfl rfl fun h => h.moveOn rfl trivial
  | finished => exact .refl x
  | _ => exact calm.elim

/-- A task in peace does not go on to an abort. -/
theorem stepTask_aborting {x : Exchange ι κ τ} {task : Task ι κ} (running : x.task = some task)
    (calm : task.progress.Calm) (s : σ) :
    ∃ task', (x.stepTask task s).2.1.task = some task' ∧ task'.progress.aborting = [] := by
  have called : ∀ {progress : Call ι κ → Progress ι κ} {call : Call ι κ},
      (∀ call, (progress call).aborting = []) → task.progress = progress call →
      ∃ task', (x.stepCall task progress call s).2.1.task = some task' ∧ task'.progress.aborting = [] := by
    intro progress call quiet calling
    cases placed : x.outlet with
    | none =>
      simp only [stepCall, placed]
      exact ⟨task, running, calling ▸ quiet call⟩
    | some outlet =>
      rw [x.stepCall_placed placed]
      exact ⟨_, rfl, quiet _⟩
  obtain ⟨session, progress⟩ := task
  cases progress with
  | thinking =>
    refine ⟨_, rfl, ?_⟩
    change (Task.think ⟨session, .thinking⟩ x.handler).2.1.progress.aborting = []
    simp only [Task.think]
    split
    · rfl
    next result _ _ => cases result <;> rfl
    · rfl
    · rfl
  | calling call =>
    cases call with
    | done answer => exact ⟨_, rfl, rfl⟩
    | _ => exact called (fun _ => rfl) rfl
  | closingInput call =>
    cases call with
    | done answer =>
      refine ⟨_, rfl, ?_⟩
      cases answer.closed <;> rfl
    | _ => exact called (fun _ => rfl) rfl
  | closingOutput call =>
    cases call with
    | done answer =>
      refine ⟨_, rfl, ?_⟩
      cases answer.closed <;> rfl
    | _ => exact called (fun _ => rfl) rfl
  | finished => exact ⟨_, running, rfl⟩
  | submitted => exact ⟨_, rfl, rfl⟩
  | asking ch => exact ⟨_, rfl, rfl⟩
  | completing => exact ⟨_, rfl, rfl⟩
  | _ => exact calm.elim

/-- Among aborted buffers the worker does not sleep in a call. -/
theorem stepTask_sealed {x : Exchange ι κ τ} {task : Task ι κ} (running : x.task = some task) (shut : x.Sealed)
    (alert : task.Alert x.conduit?) (calling : x.isCalling = true) (s : σ) : (x.stepTask task s).1 ≠ .parked := by
  obtain ⟨session, progress⟩ := task
  cases progress with
  | calling call =>
    cases call with
    | done answer => exact nofun
    | _ => exact (stepCall_sealed shut alert (fun _ _ => rfl) rfl s).1
  | closingInput call =>
    cases call with
    | done answer => exact nofun
    | _ => exact (stepCall_sealed shut alert (fun _ _ => rfl) rfl s).1
  | closingOutput call =>
    cases call with
    | done answer => exact nofun
    | _ => exact (stepCall_sealed shut alert (fun _ _ => rfl) rfl s).1
  | _ => simp [isCalling, running] at calling

end Exchange
end Sluice
