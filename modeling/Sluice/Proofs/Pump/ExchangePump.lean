import Sluice.Exchange.Worker
import Sluice.Proofs.Outlet.Sections
import Sluice.Proofs.Pump.InletPump

/-! An exchange that is fed by a pump. The worker reads the inlet inside the calls of its handler. -/
namespace Sluice
open Attended (Aborted Pending Fit)

variable {ι κ σ τ : Type}

@[simp] theorem bell_requestOutput [Transport ι σ] (ch : Option ι) (w : Belled σ) :
    (Transport.requestOutput ch w).bell = w.bell := by
  cases ch with
  | none => rfl
  | some ch => rfl

private theorem Outlet.bell_drain [Transport ι σ] (outlet : Outlet ι) (ch : ι) (w : Belled σ) :
    (outlet.drain ch w).2.2.bell = w.bell := by
  have quiet : (Transport.write ch outlet.conduit.bytes w).2.bell = w.bell := rfl
  unfold drain
  split
  · rfl
  · split
    next failed =>
      rw [failed] at quiet
      exact quiet
    next passed =>
      rw [passed] at quiet
      exact quiet

private theorem Outlet.bell_flush [Transport ι σ] (outlet : Outlet ι) (ch : ι) (w : Belled σ) :
    (outlet.flush ch w).2.2.bell = w.bell := by
  have quiet := Outlet.bell_drain { outlet with channel := some ch } ch w
  unfold flush
  simp only
  split
  · rfl
  · split
    next failed =>
      rw [failed] at quiet
      exact quiet
    next passed =>
      rw [passed] at quiet
      unfold signal
      split
      · exact quiet
      · exact quiet

def Call.reading? : Call ι κ → Option (Reading κ)
  | reading _ r | draining r => some r
  | _ => none

def Progress.reading? : Progress ι κ → Option (Reading κ)
  | calling call | closingInput call | closingOutput call => call.reading?
  | _ => none

namespace Exchange

/-- What happens to an exchange beside its pump, section by section. -/
inductive Event (ι : Type)
  | start (request : Request) (hasBody : Bool) (context : Context)
  | work
  | timeOut
  | produce (ch : ι)
  | record (cause : Fault)
  | abortInlet
  | abortOutlet
  | ask (ch : Option ι)
  | release

/-- An exchange that has not begun has neither inlet nor task, and an inlet comes with an outlet. -/
instance : Attended (Exchange ι Unit τ) where
  inlet x := x.inlet
  reading x := x.inlet.bind fun _ => x.task.bind fun task => task.progress.reading?
  Fit x := (x.phase = .idle → x.inlet = none ∧ x.task = none) ∧ (x.inlet.isSome → x.outlet.isSome)

variable [Handler τ] [Transport ι σ] [ResponseChannel σ]

def act (e : Event ι) (x : Exchange ι Unit τ) (w : Belled σ) : Exchange ι Unit τ × Belled σ :=
  match e with
  | .start request hasBody context => (x.start request hasBody context w).2
  | .work => (x.step w).2
  | .timeOut => (x.timeOut, w)
  | .produce ch => (x.produce ch w).2
  | .record cause => (x.recordFailure cause, w)
  | .abortInlet => (x.abortInlet, w)
  | .abortOutlet => (x.abortOutlet.2, w)
  | .ask ch => (x, Outlet.ask ch w)
  | .release => (x.release, w)

instance : Host (Exchange ι Unit τ) (Event ι) σ where
  act := act
  work := .work

/-- A failure on the reactor's side is five sections. -/
theorem failed_sections (x : Exchange ι Unit τ) (cause : Fault) (w : Belled σ) :
    x.failed cause w =
      [.record cause, .abortInlet, .abortOutlet, .ask x.abortOutlet.1, .release].foldl
        (fun (x, w) e => act e x w) (x, w) := by
  cases placed : x.outlet with
  | none => simp only [failed, abortBuffers, abortOutlet, abortInlet, recordFailure, placed, act, List.foldl]
  | some outlet =>
    simp only [failed, abortBuffers, abortOutlet, abortInlet, recordFailure, placed, act, List.foldl]

end Exchange

/-- Whether a call has room to announce, if there is an inlet. -/
def Call.Announces (call : Call ι Unit) (inlet : Option (Inlet Unit)) : Prop :=
  inlet.isSome ∧ ∃ r, call.reading? = some r ∧ r.Announces

namespace Call

private theorem idle {call : Call ι Unit} (quiet : ∀ r, call.reading? = some r → ¬ r.Announces)
    (inlet : Option (Inlet Unit)) : ¬ call.Announces inlet :=
  fun ⟨_, r, same, announces⟩ => quiet r same announces

private theorem not_announces {call : Call ι Unit} (none : call.reading? = none) (inlet : Option (Inlet Unit)) :
    ¬ call.Announces inlet :=
  idle (fun _ same => absurd (none.symm.trans same) nofun) inlet

private theorem announces_iff {call : Call ι Unit} {r : Reading Unit} (same : call.reading? = some r)
    (inlet : Option (Inlet Unit)) : call.Announces inlet ↔ inlet.isSome ∧ r.Announces := by
  constructor
  · rintro ⟨present, r', same', announces⟩
    obtain rfl := Option.some.inj (same.symm.trans same')
    exact ⟨present, announces⟩
  · exact fun ⟨present, announces⟩ => ⟨present, r, same, announces⟩

private theorem announces_timeOut (call : Call ι Unit) (g : Ground ι Unit) :
    (∃ r, (call.timeOut g).reading? = some r ∧ r.Announces) ↔ ∃ r, call.reading? = some r ∧ r.Announces := by
  unfold timeOut
  split
  · simp only [reading?, Option.some.injEq, exists_eq_left', Reading.announces_timeOut]
  · simp only [reading?, Option.some.injEq, exists_eq_left', Reading.announces_timeOut]
  · exact .rfl
  · exact .rfl

private theorem stepReading_discreet (room : Nat) (r : Reading Unit) (g : Ground ι Unit) (w : Belled σ) :
    let (_, r', g', w') := stepReading room r g w
    Discreet (g.inlet.map (·.conduit.aborted)) (g'.inlet.map (·.conduit.aborted))
      (g.inlet.isSome ∧ r.Announces) (g'.inlet.isSome ∧ r'.Announces) w.bell w'.bell := by
  cases present : g.inlet with
  | none =>
    simp only [stepReading, present]
    exact .still rfl rfl (fun h => absurd h.1 nofun) fun h => absurd h.1 nofun
  | some inlet =>
    have law := r.step_discreet room inlet w
    simp only [stepReading, present]
    generalize r.step room inlet w = after at law ⊢
    obtain ⟨pace, r', inlet', w'⟩ := after
    refine ⟨law.same, fun h => ?_, fun h live => ?_⟩
    · obtain ⟨bell, settled⟩ := law.rings h.2
      exact ⟨bell, fun h => settled h.2⟩
    · obtain ⟨bell, settled⟩ := law.silent (fun announces => h ⟨rfl, announces⟩) live
      exact ⟨bell, fun h => settled h.2⟩

variable [Transport ι σ] [ResponseChannel σ]

private theorem reading_discreet (room : Nat) (r : Reading Unit) (g : Ground ι Unit) (w : Belled σ) :
    let (_, call', g', w') := (reading room r : Call ι Unit).step g w
    Discreet (g.inlet.map (·.conduit.aborted)) (g'.inlet.map (·.conduit.aborted))
      ((reading room r : Call ι Unit).Announces g.inlet) (call'.Announces g'.inlet) w.bell w'.bell := by
  have reads := stepReading_discreet room r g w
  rw [announces_iff rfl]
  cases r with
  | done result => exact .still rfl rfl (fun h => h.2) (not_announces rfl _)
  | _ =>
    simp only [step]
    simp only [announces_iff (rfl : (Call.reading room _ : Call ι Unit).reading? = some _)]
    exact reads

private theorem draining_discreet (r : Reading Unit) (g : Ground ι Unit) (w : Belled σ) :
    let (_, call', g', w') := (draining r : Call ι Unit).step g w
    Discreet (g.inlet.map (·.conduit.aborted)) (g'.inlet.map (·.conduit.aborted))
      ((draining r : Call ι Unit).Announces g.inlet) (call'.Announces g'.inlet) w.bell w'.bell := by
  have reads := stepReading_discreet drainChunk r g w
  rw [announces_iff rfl]
  cases r with
  | done result =>
    have before : ¬ (g.inlet.isSome ∧ (Reading.done result).Announces) := fun h => h.2
    match result with
    | .error fault => exact .still rfl rfl before (not_announces rfl _)
    | .ok [] => exact .still rfl rfl before (not_announces rfl _)
    | .ok (byte :: rest) =>
      refine .still rfl rfl before (idle (fun r same => ?_) _)
      exact Option.some.inj same ▸ Reading.idle_ofRoom drainChunk
  | _ =>
    simp only [step]
    simp only [announces_iff (rfl : (Call.draining _ : Call ι Unit).reading? = some _)]
    exact reads

private theorem announcing_discreet (head : Http.Head) (bytes : Option (List UInt8)) (g : Ground ι Unit)
    (w : Belled σ) :
    let (_, call', g', w') := (announcing head bytes : Call ι Unit).step g w
    Discreet (g.inlet.map (·.conduit.aborted)) (g'.inlet.map (·.conduit.aborted))
      ((announcing head bytes : Call ι Unit).Announces g.inlet) (call'.Announces g'.inlet) w.bell w'.bell := by
  have quiet : (ResponseChannel.send head head.entity w).2.bell = w.bell := rfl
  simp only [step]
  split
  next failed =>
    rw [failed] at quiet
    exact .still rfl quiet (not_announces rfl _) (not_announces (by cases bytes <;> rfl) _)
  next passed =>
    rw [passed] at quiet
    exact .still rfl quiet (not_announces rfl _) (not_announces (by cases bytes <;> rfl) _)

theorem step_discreet (call : Call ι Unit) (g : Ground ι Unit) (w : Belled σ) :
    let (_, call', g', w') := call.step g w
    Discreet (g.inlet.map (·.conduit.aborted)) (g'.inlet.map (·.conduit.aborted))
      (call.Announces g.inlet) (call'.Announces g'.inlet) w.bell w'.bell := by
  cases call with
  | reading room r => exact reading_discreet room r g w
  | draining r => exact draining_discreet r g w
  | announcing head bytes => exact announcing_discreet head bytes g w
  | writing count writing =>
    obtain ⟨ch, asks⟩ := writing.step_asks g.outlet w
    have quiet := (congrArg Belled.bell asks).trans (bell_requestOutput ch w)
    cases writing with
    | done result => exact .still rfl rfl (not_announces rfl _) (not_announces rfl _)
    | _ => exact .still rfl quiet (not_announces rfl _) (not_announces rfl _)
  | completing =>
    simp only [step]
    split
    · exact .still rfl rfl (not_announces rfl _) (not_announces rfl _)
    · exact .still rfl rfl (not_announces rfl _) (not_announces rfl _)
  | asking ch => exact .still rfl (bell_requestOutput ch w) (not_announces rfl _) (not_announces rfl _)
  | done answer => exact .still rfl rfl (not_announces rfl _) (not_announces rfl _)

end Call

def Progress.Quiet (progress : Progress ι Unit) : Prop :=
  ∀ r, progress.reading? = some r → ¬ r.Announces

namespace Progress

private theorem quiet_none {progress : Progress ι Unit} (none : progress.reading? = none) : progress.Quiet :=
  fun _ same => absurd (none.symm.trans same) nofun

private theorem quiet_ofRoom {progress : Progress ι Unit} {room : Nat}
    (same : progress.reading? = some (.ofRoom room)) : progress.Quiet :=
  fun _ same' => Option.some.inj (same.symm.trans same') ▸ Reading.idle_ofRoom room

private theorem quiet_closeInput (session : Session) :
    (closingInput (Call.closeInput session) : Progress ι Unit).Quiet := by
  unfold Call.closeInput
  split
  · exact quiet_none rfl
  · split
    · exact quiet_none rfl
    · exact quiet_ofRoom rfl

private theorem quiet_commit (session : Session) (bytes : Option (List UInt8)) :
    (Call.commit session bytes : Call ι Unit × Session).1.reading? = none := by
  unfold Call.commit
  split
  · rfl
  · cases bytes with
    | none => rfl
    | some bytes => rfl

private theorem quiet_closeOutput (session : Session) :
    (Call.closeOutput session : Call ι Unit × Session).1.reading? = none := by
  unfold Call.closeOutput
  split
  · rfl
  · exact quiet_commit session none

private theorem quiet_start (session : Session) (a : Act) :
    (calling (Call.start session a).1 : Progress ι Unit).Quiet := by
  cases a with
  | read room =>
    simp only [Call.start, Call.read]
    split
    · exact quiet_none rfl
    · split
      · exact quiet_none rfl
      · exact quiet_ofRoom rfl
  | closeInput => exact quiet_closeInput session
  | write bytes => exact quiet_none (quiet_commit session (some bytes))
  | closeOutput => exact quiet_none (quiet_closeOutput session)
  | _ => exact quiet_none rfl

private theorem quiet_afterHandler (session : Session) (result : Except Fault Unit) :
    (afterHandler session result : Progress ι Unit).Quiet := by
  cases result with
  | ok _ => exact quiet_closeInput session
  | error cause => exact quiet_none rfl

private theorem quiet_afterInput (task : Task ι Unit) (result : Except Fault Unit) :
    (task.afterInput result).progress.Quiet := by
  cases result with
  | ok _ => exact quiet_none (quiet_closeOutput task.session)
  | error cause => exact quiet_none rfl

private theorem quiet_afterOutput (task : Task ι Unit) (result : Except Fault Unit) :
    (task.afterOutput result).progress.Quiet := by
  cases result with
  | ok _ => exact quiet_none rfl
  | error cause => exact quiet_none rfl

private theorem quiet_think [Handler τ] (task : Task ι Unit) (handler : τ) (thinking : task.progress.Quiet) :
    (task.think handler).2.1.progress.Quiet := by
  unfold Task.think
  split
  · exact quiet_start task.session _
  · exact quiet_afterHandler task.session _
  · exact quiet_none rfl
  · exact thinking

end Progress

namespace Exchange

variable {x x' : Exchange ι Unit τ} {w w' : Belled σ}

private theorem aborted_iff (x : Exchange ι Unit τ) :
    Aborted x ↔ x.inlet.map (·.conduit.aborted) = some true :=
  Option.map_eq_some_iff.symm

private theorem pending_iff {task : Task ι Unit} (running : x.task = some task) :
    Pending x ↔ x.inlet.isSome ∧ ∃ r, task.progress.reading? = some r ∧ r.Announces := by
  unfold Attended.Pending
  simp only [Attended.reading, running]
  cases x.inlet with
  | none => exact ⟨fun ⟨_, same, _⟩ => absurd same nofun, fun h => absurd h.1 nofun⟩
  | some inlet => exact ⟨fun h => ⟨rfl, h⟩, fun h => h.2⟩

private theorem pending_congr (task : x'.task = x.task) (inlet : x'.inlet.isSome = x.inlet.isSome) :
    Pending x' ↔ Pending x := by
  unfold Attended.Pending
  simp only [Attended.reading, task]
  cases present' : x'.inlet with
  | none =>
    rw [present', eq_comm, Option.isSome_none, Option.isSome_eq_false_iff, Option.isNone_iff_eq_none] at inlet
    rw [inlet]
  | some inlet' =>
    rw [present', eq_comm] at inlet
    obtain ⟨inlet, present⟩ := Option.isSome_iff_exists.mp inlet
    rw [present]
    exact .rfl

private theorem not_pending (quiet : ∀ task, x.task = some task → task.progress.Quiet) : ¬ Pending x := by
  rintro ⟨r, same, announces⟩
  obtain ⟨_, _, same⟩ := Option.bind_eq_some_iff.mp same
  obtain ⟨task, running, same⟩ := Option.bind_eq_some_iff.mp same
  exact quiet task running r same announces

private theorem fit_of (fit : Fit x) (idle : x'.phase = .idle → x.phase = .idle)
    (task : x.task = none → x'.task = none) (inlet : x'.inlet.isSome = x.inlet.isSome)
    (outlet : x.outlet.isSome → x'.outlet.isSome) : Fit x' := by
  refine ⟨fun h => ?_, fun h => outlet (fit.2 (inlet ▸ h))⟩
  obtain ⟨absent, waiting⟩ := fit.1 (idle h)
  refine ⟨?_, task waiting⟩
  rw [absent] at inlet
  exact Option.not_isSome_iff_eq_none.mp (by rw [inlet]; nofun)

theorem fit_ofHandler {limits : BufferSettings} {executor : Executor} {handler : τ}
    (fresh : ofHandler limits executor handler = .ok x) : Fit x := by
  obtain ⟨_, _, rfl⟩ := ok_of_map fresh
  exact ⟨fun _ => ⟨rfl, rfl⟩, nofun⟩

private theorem beside_outer (fit : Fit x') (inlet : x'.inlet = x.inlet ∨ x'.inlet = x.inlet.map Inlet.abort)
    (bell : w'.bell = w.bell) (pending : Pending x' ↔ Pending x) : Beside x w x' w' where
  fit := fit
  stays aborted := by
    rw [aborted_iff] at aborted ⊢
    rcases inlet with same | same
    · rw [same]
      exact aborted
    · rw [same]
      cases present : x.inlet with
      | none =>
        rw [present] at aborted
        cases aborted
      | some inlet => rfl
  ringing _ := .inl ⟨bell, pending⟩

private theorem beside_task {task task' : Task ι Unit} (fit : Fit x) (running : x.task = some task)
    (running' : x'.task = some task') (before : task.progress.reading? = none) (after : task'.progress.Quiet)
    (phase : x'.phase = .idle → x.phase = .idle)
    (inlet : x'.inlet = x.inlet ∨ x'.inlet = x.inlet.map Inlet.abort)
    (outlet : x.outlet.isSome → x'.outlet.isSome) (bell : w'.bell = w.bell) : Beside x w x' w' := by
  have silent : ¬ Pending x := not_pending fun t same =>
    Option.some.inj (running.symm.trans same) ▸ Progress.quiet_none before
  have silent' : ¬ Pending x' := not_pending fun t same => Option.some.inj (running'.symm.trans same) ▸ after
  have present : x'.inlet.isSome = x.inlet.isSome := by
    rcases inlet with same | same
    · rw [same]
    · rw [same, Option.isSome_map]
  have fit' := fit_of fit phase (fun none => absurd (running.symm.trans none) nofun) present outlet
  exact beside_outer fit' inlet bell ⟨fun h => absurd h silent', fun h => absurd h silent⟩

private theorem beside_begun (absent : x.inlet = none) (waiting : x.task = none) (phase : x'.phase ≠ .idle)
    (outlet : x'.outlet.isSome) (task : ∀ t, x'.task = some t → t.progress.Quiet)
    (bell : w'.bell = w.bell) : Beside x w x' w' where
  fit := ⟨fun idle => absurd idle phase, fun _ => outlet⟩
  stays := fun ⟨_, same, _⟩ => absurd (absent.symm.trans same) nofun
  ringing _ := by
    have silent : ¬ Pending x := not_pending fun _ same => absurd (waiting.symm.trans same) nofun
    exact .inl ⟨bell, fun h => absurd h (not_pending task), fun h => absurd h silent⟩

private theorem submit_spec (x : Exchange ι Unit τ) (session : Session) :
    let (result, x') := x.submit session
    x'.phase = x.phase ∧ x'.outlet = x.outlet ∧
      (result = .ok () ∧ x'.task = some (.ofSession session) ∨ result ≠ .ok () ∧ x'.task = x.task) := by
  unfold submit
  generalize x.executor.submit = answer
  obtain ⟨result, executor⟩ := answer
  cases result with
  | error fault => exact ⟨rfl, rfl, .inr ⟨nofun, rfl⟩⟩
  | ok _ => exact ⟨rfl, rfl, .inl ⟨rfl, rfl⟩⟩

private theorem abortOutlet_keeps (x : Exchange ι Unit τ) :
    x.abortOutlet.2.phase = x.phase ∧ x.abortOutlet.2.inlet = x.inlet ∧
      x.abortOutlet.2.task = x.task ∧ x.abortOutlet.2.outlet.isSome = x.outlet.isSome := by
  unfold abortOutlet
  split
  next none => exact ⟨rfl, rfl, rfl, rfl⟩
  next placed => exact ⟨rfl, rfl, rfl, by rw [placed]; rfl⟩

private theorem beside_expire {task : Task ι Unit} {progress : Call ι Unit → Progress ι Unit} {call : Call ι Unit}
    (fit : Fit x) (running : x.task = some task) (reads : ∀ c, (progress c).reading? = c.reading?)
    (stands : task.progress = progress call) (g : Call.Ground ι Unit) :
    Beside x w (x.moveOn task (progress (call.timeOut g))) w := by
  refine beside_outer ?_ (.inl rfl) rfl ?_
  · exact fit_of fit id (fun none => absurd (running.symm.trans none) nofun) rfl id
  · rw [pending_iff running, pending_iff rfl, stands, reads, reads, call.announces_timeOut g]
    exact .rfl

private theorem beside_timeOut (fit : Fit x) : Beside x w x.timeOut w := by
  unfold timeOut
  split
  next running _ =>
    simp only
    split
    next stands => exact beside_expire fit running (fun _ => rfl) stands _
    next stands => exact beside_expire fit running (fun _ => rfl) stands _
    next stands => exact beside_expire fit running (fun _ => rfl) stands _
    · exact beside_outer fit (.inl rfl) rfl .rfl
  · exact beside_outer fit (.inl rfl) rfl .rfl

private theorem ahead_inlet {inlet inlet' : Inlet Unit} (present : x.inlet = some inlet)
    (same : inlet'.conduit.aborted = inlet.conduit.aborted) : Ahead x { x with inlet := some inlet' } where
  fit fit := fit_of fit id id (congrArg Option.isSome present).symm id
  aborted := by rw [aborted_iff, aborted_iff, present, Option.map_some, Option.map_some, same]
  pending := pending_congr rfl (congrArg Option.isSome present).symm

private theorem ahead_updateCapacity (x : Exchange ι Unit τ) (ch : Unit) (w : Belled σ) :
    Ahead x (x.updateCapacity ch w).2.1 := by
  unfold updateCapacity
  split
  · exact .refl x
  next inlet present => exact ahead_inlet present (inlet.aborted_updateCapacity ch w)

private theorem ahead_consume (x : Exchange ι Unit τ) (bytes : List UInt8) : Ahead x (x.consume bytes).2 := by
  unfold consume input
  cases present : x.inlet with
  | none => exact .refl x
  | some inlet => exact ahead_inlet present (inlet.aborted_fill bytes)

private theorem ahead_streamEnd (x : Exchange ι Unit τ) : Ahead x x.streamEnd.2 := by
  unfold streamEnd input
  cases present : x.inlet with
  | none => exact .refl x
  | some inlet => exact ahead_inlet present rfl

variable [Transport ι σ]

private theorem beside_start (fit : Fit x) (request : Request) (hasBody : Bool) (context : Context) :
    Beside x w (x.start request hasBody context w).2.1 (x.start request hasBody context w).2.2 := by
  unfold start occupy
  cases idle : x.phase with
  | idle =>
    obtain ⟨absent, waiting⟩ := fit.1 idle
    simp only
    split
    next => exact beside_outer ⟨nofun, fit.2⟩ (.inl rfl) rfl .rfl
    next inlet outlet allocated =>
      have law := submit_spec ({ x with phase := .active }.equip inlet outlet)
        (.start request context hasBody)
      split
      next passed =>
        rw [passed] at law
        obtain ⟨phase, placed, ⟨_, task⟩ | ⟨refused, _⟩⟩ := law
        · refine beside_begun absent waiting (phase ▸ nofun) (placed ▸ rfl) (fun t same => ?_) rfl
          exact Option.some.inj (task.symm.trans same) ▸ Progress.quiet_none rfl
        · exact absurd rfl refused
      next x'' failed =>
        rw [failed] at law
        obtain ⟨phase, placed, ⟨accepted, _⟩ | ⟨_, task⟩⟩ := law
        · cases accepted
        · obtain ⟨_, _, task', placed'⟩ := x''.abortInlet.abortOutlet_keeps
          have outlet' := placed'.trans (congrArg Option.isSome placed)
          refine beside_begun absent waiting nofun outlet' (fun t same => ?_) (bell_requestOutput _ w)
          exact absurd ((task'.trans (task.trans waiting)).symm.trans same) nofun
  | _ => exact beside_outer fit (.inl rfl) rfl .rfl

private theorem beside_produce (fit : Fit x) (ch : ι) :
    Beside x w (x.produce ch w).2.1 (x.produce ch w).2.2 := by
  unfold produce output
  cases placed : x.outlet with
  | none => exact beside_outer fit (.inl rfl) rfl .rfl
  | some outlet =>
    have fit' : Fit { x with outlet := some (outlet.flush ch w).2.1 } := fit_of fit id id rfl fun _ => rfl
    exact beside_outer fit' (.inl rfl) (outlet.bell_flush ch w) .rfl

variable [ResponseChannel σ]

private theorem beside_stepCall {task : Task ι Unit} {progress : Call ι Unit → Progress ι Unit} {call : Call ι Unit}
    (fit : Fit x) (running : x.task = some task) (reads : ∀ c, (progress c).reading? = c.reading?)
    (stands : task.progress = progress call) :
    Beside x w (x.stepCall task progress call w).2.1 (x.stepCall task progress call w).2.2 := by
  unfold stepCall
  cases placed : x.outlet with
  | none => exact beside_outer fit (.inl rfl) rfl .rfl
  | some outlet =>
    have law := call.step_discreet (x.ground task outlet) w
    simp only
    generalize call.step (x.ground task outlet) w = after at law ⊢
    obtain ⟨pace, call', g', w'⟩ := after
    have present : g'.inlet.isSome = x.inlet.isSome := by
      have same := congrArg Option.isSome law.same
      rwa [Option.isSome_map, Option.isSome_map] at same
    have pending : Pending x ↔ call.Announces x.inlet := by
      rw [pending_iff running, stands, reads]
      exact .rfl
    refine law.beside (fit_of fit id (fun none => absurd (running.symm.trans none) nofun) present fun _ => rfl)
      ⟨aborted_iff x, pending⟩ ⟨aborted_iff _, ?_⟩
    rw [pending_iff rfl, reads]
    exact .rfl

variable [Handler τ]

private theorem beside_stepTask {task : Task ι Unit} (fit : Fit x) (running : x.task = some task) :
    Beside x w (x.stepTask task w).2.1 (x.stepTask task w).2.2 := by
  unfold stepTask
  split
  next stands =>
    exact beside_task fit running rfl (by rw [stands]; rfl) (Progress.quiet_none rfl) id (.inl rfl) id rfl
  next stands =>
    have before : task.progress.reading? = none := by rw [stands]; rfl
    have after := Progress.quiet_think task x.handler (Progress.quiet_none before)
    exact beside_task fit running rfl before after id (.inl rfl) id rfl
  next stands =>
    exact beside_task fit running rfl (by rw [stands]; rfl) (Progress.quiet_none rfl) id (.inl rfl) id rfl
  next stands => exact beside_stepCall fit running (fun _ => rfl) stands
  next answer stands =>
    have after := Progress.quiet_afterInput task answer.closed
    exact beside_task fit running rfl (by rw [stands]; rfl) after id (.inl rfl) id rfl
  next stands => exact beside_stepCall fit running (fun _ => rfl) stands
  next answer stands =>
    have after := Progress.quiet_afterOutput task answer.closed
    exact beside_task fit running rfl (by rw [stands]; rfl) after id (.inl rfl) id rfl
  next stands => exact beside_stepCall fit running (fun _ => rfl) stands
  next stands =>
    exact beside_task fit running rfl (by rw [stands]; rfl) (Progress.quiet_none rfl) id (.inl rfl) id rfl
  next stands =>
    exact beside_task fit running rfl (by rw [stands]; rfl) (Progress.quiet_none rfl) id (.inr rfl) id rfl
  next stands =>
    obtain ⟨phase, inlet, _, outlet⟩ := x.abortOutlet_keeps
    exact beside_task fit running rfl (by rw [stands]; rfl) (Progress.quiet_none rfl) (phase ▸ id)
      (.inl inlet) (fun h => outlet ▸ h) rfl
  next ch stands =>
    exact beside_task fit running rfl (by rw [stands]; rfl) (Progress.quiet_none rfl) id (.inl rfl) id
      (bell_requestOutput ch w)
  next stands =>
    exact beside_task fit running rfl (by rw [stands]; rfl) (Progress.quiet_none rfl) nofun (.inl rfl) id rfl
  next stands => exact beside_outer fit (.inl rfl) rfl .rfl

private theorem beside_step (fit : Fit x) : Beside x w (x.step w).2.1 (x.step w).2.2 := by
  unfold step
  split
  · exact beside_outer fit (.inl rfl) rfl .rfl
  next running => exact beside_stepTask fit running

private theorem beside_act (e : Event ι) (fit : Fit x) : Beside x w (act e x w).1 (act e x w).2 := by
  cases e with
  | start request hasBody context => exact beside_start fit request hasBody context
  | work => exact beside_step fit
  | timeOut => exact beside_timeOut fit
  | produce ch => exact beside_produce fit ch
  | record cause => exact beside_outer fit (.inl rfl) rfl .rfl
  | abortInlet =>
    have present : (x.inlet.map Inlet.abort).isSome = x.inlet.isSome := Option.isSome_map
    exact beside_outer (fit_of fit id id present id) (.inr rfl) rfl (pending_congr rfl present)
  | abortOutlet =>
    obtain ⟨phase, inlet, task, outlet⟩ := x.abortOutlet_keeps
    have present := congrArg Option.isSome inlet
    refine beside_outer ?_ (.inl inlet) rfl (pending_congr task present)
    exact fit_of fit (phase ▸ id) (task ▸ id) present (outlet ▸ id)
  | ask ch => exact beside_outer fit (.inl rfl) (bell_requestOutput ch w) .rfl
  | release => exact beside_outer fit (.inl rfl) rfl .rfl

private theorem stepTask_reads {task : Task ι Unit} {r : Reading Unit} (reads : task.progress.reading? = some r) :
    ∃ progress call, call.reading? = some r ∧ x.stepTask task w = x.stepCall task progress call w := by
  unfold stepTask
  split
  all_goals
    next stands =>
      rw [stands] at reads
      first
      | exact ⟨_, _, reads, rfl⟩
      | cases reads

private theorem announces_pending (fit : Fit x) (pending : Pending x) : (x.step w).2.2.bell = w.bell.ring := by
  obtain ⟨r, seen, announces⟩ := pending
  obtain ⟨inlet, present, seen⟩ := Option.bind_eq_some_iff.mp seen
  obtain ⟨task, running, reads⟩ := Option.bind_eq_some_iff.mp seen
  obtain ⟨outlet, placed⟩ := Option.isSome_iff_exists.mp (fit.2 (present ▸ rfl))
  obtain ⟨progress, call, same, steps⟩ := stepTask_reads (x := x) (w := w) reads
  have law := call.step_discreet (x.ground task outlet) w
  have rings := law.rings ⟨Option.isSome_of_mem present, r, same, announces⟩
  simp only [step, running, steps, stepCall, placed]
  exact rings.1

instance : LawfulHost (Exchange ι Unit τ) σ where
  beside e _ _ fit := beside_act e fit
  announces _ _ fit pending := announces_pending fit pending
  updateCapacity x ch w := x.ahead_updateCapacity ch w
  consume x bytes _ := x.ahead_consume bytes
  streamEnd x _ := x.ahead_streamEnd
  fails_updateCapacity := by
    rintro x ch w ⟨inlet, present, aborted⟩
    have present : x.inlet = some inlet := present
    simp only [Inflow.updateCapacity, updateCapacity, present]
    exact inlet.updateCapacity_aborted aborted ch w
  fails_consume := by
    rintro x bytes w ⟨inlet, present, aborted⟩
    have present : x.inlet = some inlet := present
    simp only [Inflow.consume, consume, input, present, Option.elim]
    exact inlet.fill_aborted aborted bytes

end Exchange
end Sluice
