import Sluice.Proofs.Exchange.Run
import Sluice.Proofs.Exchange.Callers

/-! How an exchange stands with the caller that has occupied it, section by section of that call. -/
namespace Sluice

variable {ι κ σ τ : Type}

/-- The life of an exchange goes one way. -/
inductive Phase.Next : Phase → Phase → Prop
  | stays (phase : Phase) : Next phase phase
  | begins : Next .idle .active
  | ends : Next .active .completed

/-- An exchange that is occupied and has no task yet. -/
structure Exchange.Waiting (x : Exchange ι κ τ) : Prop where
  phase : x.phase = .active
  task : x.task = none
  runs : x.runs = 0

/-- What a caller notes before it hands over the task. -/
def furnishing (place : Nat) : List StartEvent :=
  [.occupied place, .furnished .input place, .furnished .output place]

/-- The last thing noted is what a caller was told when it handed over the task. -/
def Submitted (log : List StartEvent) (place : Nat) (reply : Except Fault Unit) : Prop :=
  ∃ noted, log = noted ++ [.submitted place reply] ∧ noted.Sublist (furnishing place)

/-- How an exchange stands with the caller that has occupied it. -/
def StartStage.Stands (x : Exchange ι κ τ) (log : List StartEvent) (place : Nat) : StartStage ι κ → Prop
  | .knocking => False
  | .allocating | .placingInlet _ _ => x.Waiting ∧ log = [.occupied place]
  | .placingOutlet _ => x.Waiting ∧ log.Sublist [.occupied place, .furnished .input place]
  | .submitting => x.Waiting ∧ log.Sublist (furnishing place)
  | .returning | .done (.ok ()) =>
    x.phase ≠ .idle ∧ x.task.isSome = true ∧ x.invocations = 1 ∧ Submitted log place (.ok ())
  | .abortingInlet fault => x.Waiting ∧ Submitted log place (.error fault)
  | .abortingOutlet fault => x.Waiting ∧ Submitted log place (.error fault) ∧ x.Shut .input
  | .asking fault _ | .completing fault => x.Waiting ∧ Submitted log place (.error fault) ∧ x.Sealed
  | .done (.error fault) =>
    x.phase = .completed ∧ x.task = none ∧ x.runs = 0 ∧ Submitted log place (.error fault) ∧ x.Sealed

namespace Exchange

theorem Endures.untasked {x x' : Exchange ι κ τ} (h : x.Endures x') (waiting : x.task = none) : x'.task = none := by
  have task := h.task
  rw [waiting] at task
  exact Option.not_isSome_iff_eq_none.mp (by rw [task]; nofun)

/-- Without a task nothing is started and nothing completed. -/
theorem Endures.idle {x x' : Exchange ι κ τ} (h : x.Endures x') (waiting : x.task = none) :
    x'.phase = x.phase ∧ x'.runs = x.runs := by
  have waiting' := h.untasked waiting
  refine ⟨?_, ?_⟩
  · rcases h.phase with same | ⟨running, _⟩
    · exact same
    · rw [waiting] at running
      cases running
  · have same := h.invocations
    simpa [Exchange.invocations, waiting, waiting'] using same

private theorem Waiting.endures {x x' : Exchange ι κ τ} (h : x.Waiting) (endures : x.Endures x') : x'.Waiting := by
  obtain ⟨phase, runs⟩ := endures.idle h.task
  exact ⟨phase.trans h.phase, endures.untasked h.task, runs.trans h.runs⟩

end Exchange

theorem StartStage.Stands.endures {x x' : Exchange ι κ τ} {log : List StartEvent} {place : Nat} {stage : StartStage ι κ}
    (h : stage.Stands x log place) (endures : x.Endures x') : stage.Stands x' log place := by
  have shut : ∀ {side}, x.Shut side → x'.Shut side := fun shut => shut.lasts endures.lasts
  have accepted : (x.phase ≠ .idle ∧ x.task.isSome = true ∧ x.invocations = 1 ∧ Submitted log place (.ok ())) →
      x'.phase ≠ .idle ∧ x'.task.isSome = true ∧ x'.invocations = 1 ∧ Submitted log place (.ok ()) := by
    rintro ⟨busy, running, once, submitted⟩
    refine ⟨?_, endures.task.trans running, endures.invocations.trans once, submitted⟩
    rcases endures.phase with same | ⟨_, completed⟩
    · rwa [same]
    · rw [completed]
      nofun
  cases stage with
  | knocking => exact h
  | allocating => exact ⟨h.1.endures endures, h.2⟩
  | placingInlet inlet outlet => exact ⟨h.1.endures endures, h.2⟩
  | placingOutlet outlet => exact ⟨h.1.endures endures, h.2⟩
  | submitting => exact ⟨h.1.endures endures, h.2⟩
  | returning => exact accepted h
  | abortingInlet fault => exact ⟨h.1.endures endures, h.2⟩
  | abortingOutlet fault => exact ⟨h.1.endures endures, h.2.1, shut h.2.2⟩
  | asking fault ch => exact ⟨h.1.endures endures, h.2.1, fun side => shut (h.2.2 side)⟩
  | completing fault => exact ⟨h.1.endures endures, h.2.1, fun side => shut (h.2.2 side)⟩
  | done result =>
    cases result with
    | ok value => exact accepted h
    | error fault =>
      obtain ⟨completed, waiting, unstarted, submitted, closed⟩ := h
      obtain ⟨phase, runs⟩ := endures.idle waiting
      exact ⟨phase.trans completed, endures.untasked waiting, runs.trans unstarted, submitted,
        fun side => shut (closed side)⟩

/-- At most one caller is noted, with one attempt to hand over a task. -/
theorem StartStage.Stands.log_sublist {x : Exchange ι κ τ} {log : List StartEvent} {place : Nat}
    {stage : StartStage ι κ}
    (h : stage.Stands x log place) : ∃ reply, log.Sublist (furnishing place ++ [.submitted place reply]) := by
  have submitted : ∀ {reply}, Submitted log place reply →
      ∃ reply, log.Sublist (furnishing place ++ [.submitted place reply]) := by
    rintro reply ⟨noted, rfl, within⟩
    exact ⟨reply, within.append (List.Sublist.refl _)⟩
  have part : ∀ {noted more}, log.Sublist noted → furnishing place = noted ++ more →
      ∃ reply, log.Sublist (furnishing place ++ [.submitted place reply]) := by
    intro noted more within whole
    refine ⟨.ok (), ?_⟩
    rw [whole, List.append_assoc]
    exact List.sublist_append_of_sublist_left within
  have first : log = [.occupied place] → ∃ reply, log.Sublist (furnishing place ++ [.submitted place reply]) := by
    rintro rfl
    exact part (List.Sublist.refl [StartEvent.occupied place]) rfl
  cases stage with
  | knocking => exact h.elim
  | allocating => exact first h.2
  | placingInlet inlet outlet => exact first h.2
  | placingOutlet outlet => exact part h.2 rfl
  | submitting => exact part h.2 (List.append_nil _).symm
  | returning => exact submitted h.2.2.2
  | abortingInlet fault => exact submitted h.2
  | abortingOutlet fault => exact submitted h.2.1
  | asking fault ch => exact submitted h.2.1
  | completing fault => exact submitted h.2.1
  | done result =>
    cases result with
    | ok value => exact submitted h.2.2.2
    | error fault => exact submitted h.2.2.2.1

theorem StartStage.Stands.runs_le {x : Exchange ι κ τ} {log : List StartEvent} {place : Nat} {stage : StartStage ι κ}
    (h : stage.Stands x log place) : x.runs ≤ 1 := by
  have accepted : x.invocations = 1 → x.runs ≤ 1 := fun once => once ▸ Nat.le_add_right _ _
  have unstarted : x.runs = 0 → x.runs ≤ 1 := fun none => none ▸ Nat.zero_le 1
  cases stage with
  | knocking => exact h.elim
  | returning => exact accepted h.2.2.1
  | done result =>
    cases result with
    | ok value => exact accepted h.2.2.1
    | error fault => exact unstarted h.2.2.1
  | _ => exact unstarted h.1.runs

/-- What a section of a caller does to the places of the buffers. A buffer that is there stays, and a new one is
noted. -/
structure Furnishes (x x' : Exchange ι κ τ) (more : List StartEvent) : Prop where
  limits : x'.limits = x.limits
  lasts : ∀ side, (x.conduit? side).isSome = true → Option.Rel Conduit.Lasts (x.conduit? side) (x'.conduit? side)
  noted : ∀ side, (x'.conduit? side).isSome = true ↔
    (x.conduit? side).isSome = true ∨ ∃ place, .furnished side place ∈ more

namespace Exchange

theorem Lasts.isSome_iff {x x' : Exchange ι κ τ} (h : x.Lasts x') (side : Side) :
    (x'.conduit? side).isSome = (x.conduit? side).isSome := by
  have rel := h side
  cases here : x.conduit? side with
  | none => rw [Conduit.rel_none here rel]
  | some c =>
    obtain ⟨c', there, _⟩ := Conduit.rel_some here rel
    rw [there]
    rfl

private theorem Lasts.furnishes {x x' : Exchange ι κ τ} (h : x.Lasts x') (limits : x'.limits = x.limits)
    {more : List StartEvent} (none : ∀ side place, .furnished side place ∉ more) : Furnishes x x' more where
  limits := limits
  lasts side _ := h side
  noted side := by
    rw [h.isSome_iff side]
    exact ⟨.inl, fun here => here.resolve_right fun ⟨place, member⟩ => none side place member⟩

private theorem placeInlet_furnishes (x : Exchange ι κ τ) (inlet : Inlet κ) (place : Nat) :
    Furnishes x { x with inlet := x.inlet.or (some inlet) } [.furnished .input place] := by
  refine ⟨rfl, fun side here => ?_, fun side => ?_⟩
  · cases side with
    | input =>
      obtain ⟨c, here⟩ := Option.isSome_iff_exists.mp here
      obtain ⟨i, present, _⟩ := Option.map_eq_some_iff.mp here
      have kept : x.inlet.or (some inlet) = x.inlet := by rw [present]; rfl
      rw [kept]
      exact Lasts.refl x .input
    | output => exact Lasts.refl x .output
  · cases side with
    | input => simp [conduit?]
    | output => simp [conduit?]

private theorem placeOutlet_furnishes (x : Exchange ι κ τ) (outlet : Outlet ι) (place : Nat) :
    Furnishes x { x with outlet := x.outlet.or (some outlet) } [.furnished .output place] := by
  refine ⟨rfl, fun side here => ?_, fun side => ?_⟩
  · cases side with
    | input => exact Lasts.refl x .input
    | output =>
      obtain ⟨c, here⟩ := Option.isSome_iff_exists.mp here
      obtain ⟨o, present, _⟩ := Option.map_eq_some_iff.mp here
      have kept : x.outlet.or (some outlet) = x.outlet := by rw [present]; rfl
      rw [kept]
      exact Lasts.refl x .output
  · cases side with
    | input => simp [conduit?]
    | output => simp [conduit?]

end Exchange

namespace Caller

variable [Transport ι σ]

theorem step_furnishes (v : Caller ι κ) (place : Nat) (reply : Except Fault Unit × Executor) (x : Exchange ι κ τ)
    (s : σ) : Furnishes x (v.step place reply x s).2.1 (v.step place reply x s).2.2.2 := by
  have same : ∀ {x' : Exchange ι κ τ} {more : List StartEvent}, x'.inlet = x.inlet → x'.outlet = x.outlet →
      x'.limits = x.limits → (∀ side place, .furnished side place ∉ more) → Furnishes x x' more :=
    fun inlet outlet limits none => (Exchange.lasts_same inlet outlet).furnishes limits none
  have nothing : ∀ side place, StartEvent.furnished side place ∉ [] := fun _ _ => List.not_mem_nil
  obtain ⟨request, hasBody, context, stage⟩ := v
  cases stage with
  | knocking =>
    cases phase : x.phase with
    | idle =>
      simp only [step, Exchange.occupy, phase]
      exact same rfl rfl rfl (by simp)
    | active =>
      simp only [step, Exchange.occupy, phase]
      exact same rfl rfl rfl nothing
    | completed =>
      simp only [step, Exchange.occupy, phase]
      exact same rfl rfl rfl nothing
  | allocating =>
    simp only [step]
    split
    · exact same rfl rfl rfl nothing
    · exact same rfl rfl rfl nothing
  | placingInlet inlet outlet =>
    cases inlet with
    | none => exact same rfl rfl rfl nothing
    | some inlet => exact x.placeInlet_furnishes inlet place
  | placingOutlet outlet => exact x.placeOutlet_furnishes outlet place
  | submitting =>
    obtain ⟨answer, executor⟩ := reply
    cases answer with
    | ok done => exact same rfl rfl rfl (by simp [step, Exchange.engage])
    | error fault => exact same rfl rfl rfl (by simp [step, Exchange.engage])
  | abortingInlet fault => exact x.abortInlet_lasts.furnishes rfl nothing
  | abortingOutlet fault => exact x.abortOutlet_lasts.furnishes x.abortOutlet_aborts.limits nothing
  | _ => exact same rfl rfl rfl nothing

private theorem submitting_stands {request : Request} {hasBody : Bool} {context : Context} {place : Nat}
    {x : Exchange ι κ τ} {log : List StartEvent} (h : (StartStage.submitting : StartStage ι κ).Stands x log place)
    (reply : Except Fault Unit × Executor) (s : σ) :
    let after := (Caller.mk request hasBody context .submitting : Caller ι κ).step place reply x s
    after.1.Stands after.2.1 (log ++ after.2.2.2) place := by
  obtain ⟨waiting, noted⟩ := h
  obtain ⟨answer, executor⟩ := reply
  cases answer with
  | ok done =>
    refine ⟨?_, rfl, ?_, log, rfl, noted⟩
    · simp [step, Exchange.engage, waiting.phase]
    · simp [step, Exchange.engage, Exchange.invocations, waiting.runs, Task.ofSession, Progress.pending]
  | error fault => exact ⟨⟨waiting.phase, waiting.task, waiting.runs⟩, log, rfl, noted⟩

private theorem abortingOutlet_stands {request : Request} {hasBody : Bool} {context : Context} {place : Nat}
    {x : Exchange ι κ τ} {log : List StartEvent} {fault : Fault}
    (h : (StartStage.abortingOutlet fault : StartStage ι κ).Stands x log place)
    (reply : Except Fault Unit × Executor) (s : σ) :
    let after := (Caller.mk request hasBody context (.abortingOutlet fault) : Caller ι κ).step place reply x s
    after.1.Stands after.2.1 (log ++ after.2.2.2) place := by
  obtain ⟨waiting, submitted, shut⟩ := h
  have aborts := x.abortOutlet_aborts
  have waiting' : x.abortOutlet.2.Waiting :=
    ⟨aborts.phase.trans waiting.phase, aborts.waiting waiting.task, x.runs_abortOutlet.trans waiting.runs⟩
  simp only [step, List.append_nil]
  refine ⟨waiting', submitted, fun side => ?_⟩
  cases side with
  | input => exact shut.lasts x.abortOutlet_lasts
  | output => exact aborts.shut

/-- The caller that has occupied the exchange goes on. Within valid limits its buffers can be made. -/
theorem step_stands {v : Caller ι κ} {place : Nat} {x : Exchange ι κ τ} {log : List StartEvent}
    (h : v.stage.Stands x log place) (valid : x.limits.validate = .ok ()) (reply : Except Fault Unit × Executor)
    (s : σ) :
    (v.step place reply x s).1.Stands (v.step place reply x s).2.1 (log ++ (v.step place reply x s).2.2.2) place := by
  obtain ⟨request, hasBody, context, stage⟩ := v
  cases stage with
  | knocking => exact h.elim
  | allocating =>
    rcases x.allocate_spec hasBody with ⟨fault, _, invalid⟩ | ⟨inlet, outlet, made, _⟩
    · exact absurd (valid.symm.trans invalid) nofun
    · simp only [step, made, List.append_nil]
      exact h
  | placingInlet inlet outlet =>
    obtain ⟨waiting, rfl⟩ := h
    cases inlet with
    | none => exact ⟨waiting, by simp [step]⟩
    | some inlet => exact ⟨⟨waiting.phase, waiting.task, waiting.runs⟩, List.Sublist.refl _⟩
  | placingOutlet outlet =>
    obtain ⟨waiting, noted⟩ := h
    exact ⟨⟨waiting.phase, waiting.task, waiting.runs⟩, noted.append (List.Sublist.refl _)⟩
  | submitting => exact submitting_stands h reply s
  | abortingInlet fault =>
    obtain ⟨waiting, submitted⟩ := h
    simp only [step, List.append_nil]
    exact ⟨⟨waiting.phase, waiting.task, waiting.runs⟩, submitted, x.abortInlet_aborts.shut⟩
  | abortingOutlet fault => exact abortingOutlet_stands h reply s
  | completing fault =>
    obtain ⟨waiting, submitted, shut⟩ := h
    simp only [step, List.append_nil]
    exact ⟨rfl, waiting.task, waiting.runs, submitted, shut⟩
  | _ =>
    simp only [step, List.append_nil]
    exact h

/-- The caller that has occupied the exchange ends its life at the most. -/
theorem step_next {v : Caller ι κ} {place : Nat} {x : Exchange ι κ τ} {log : List StartEvent}
    (h : v.stage.Stands x log place) (reply : Except Fault Unit × Executor) (s : σ) :
    x.phase.Next (v.step place reply x s).2.1.phase := by
  obtain ⟨request, hasBody, context, stage⟩ := v
  cases stage with
  | knocking => exact h.elim
  | allocating =>
    simp only [step]
    split
    · exact .stays _
    · exact .stays _
  | placingInlet inlet outlet =>
    cases inlet with
    | none => exact .stays _
    | some inlet => exact .stays _
  | submitting =>
    obtain ⟨answer, executor⟩ := reply
    cases answer with
    | ok done => exact .stays _
    | error fault => exact .stays _
  | abortingOutlet fault =>
    have same : x.abortOutlet.2.phase = x.phase := x.abortOutlet_aborts.phase
    simp only [step, same]
    exact .stays _
  | completing fault =>
    simp only [step, Exchange.complete, h.1.phase]
    exact .ends
  | _ => exact .stays _

/-- How many sections a caller has still before it, at the most. -/
def left (v : Caller ι κ) : Nat :=
  match v.stage with
  | .knocking => 9
  | .allocating => 8
  | .placingInlet _ _ => 7
  | .placingOutlet _ => 6
  | .submitting => 5
  | .abortingInlet _ => 4
  | .abortingOutlet _ => 3
  | .asking _ _ => 2
  | .completing _ | .returning => 1
  | .done _ => 0

theorem left_le (v : Caller ι κ) : v.left ≤ 9 := by
  unfold left
  split <;> decide

theorem done_of_left {v : Caller ι κ} (none : v.left = 0) : ∃ result, v.stage = .done result := by
  unfold left at none
  split at none
  case h_11 result ended => exact ⟨result, ended⟩
  all_goals cases none

theorem step_left (v : Caller ι κ) (place : Nat) (reply : Except Fault Unit × Executor) (x : Exchange ι κ τ) (s : σ) :
    (v.goOn (v.step place reply x s).1).left ≤ v.left - 1 := by
  obtain ⟨request, hasBody, context, stage⟩ := v
  cases stage with
  | knocking =>
    cases phase : x.phase <;> simp [step, left, goOn, Exchange.occupy, phase]
  | allocating =>
    simp only [step]
    split
    · simp [left, goOn]
    · simp [left, goOn]
  | placingInlet inlet outlet => cases inlet <;> simp [step, left, goOn]
  | submitting =>
    obtain ⟨answer, executor⟩ := reply
    cases answer <;> simp [step, left, goOn, Exchange.engage]
  | _ => simp [step, left, goOn]

end Caller
end Sluice
