import Sluice.Proofs.Exchange.Lasting

/-! Requests that arrive at an exchange from any number of callers, section by section, among the sections
of all other calls and of the worker. What happens besides starts no handler a second time. -/
namespace Sluice

variable {ι κ σ τ : Type}

def Exchange.engage (x : Exchange ι κ τ) (session : Session) :
    Except Fault Unit × Executor → Except Fault Unit × Exchange ι κ τ
  | (.error fault, executor) => (.error fault, { x with executor })
  | (.ok (), executor) => (.ok (), { x with executor, task := some (.ofSession session) })

private theorem Exchange.submit_eq (x : Exchange ι κ τ) (session : Session) :
    x.submit session = x.engage session x.executor.submit := by
  simp only [submit]
  split
  next answered => rw [answered, engage]
  next answered => rw [answered, engage]

/-- Where a call stands by which a request arrives. If it can occupy the exchange, it makes the buffers, puts
them into their places and hands over the task. If that is refused, it aborts what it has made. -/
inductive StartStage (ι κ : Type)
  | knocking
  | allocating
  | placingInlet (inlet : Option (Inlet κ)) (outlet : Outlet ι)
  | placingOutlet (outlet : Outlet ι)
  | submitting
  | returning
  | abortingInlet (fault : Fault)
  | abortingOutlet (fault : Fault)
  | asking (fault : Fault) (channel : Option ι)
  | completing (fault : Fault)
  | done (result : Except Fault Unit)

/-- A request that arrives, and where the call stands by which it does. -/
structure Caller (ι κ : Type) where
  request : Request
  hasBody : Bool
  context : Context
  stage : StartStage ι κ

/-- What is worth noting of callers: who has occupied the exchange, who has put a buffer into its place, who has
handed over a task and what he was told. -/
inductive StartEvent
  | occupied (place : Nat)
  | furnished (side : Side) (place : Nat)
  | submitted (place : Nat) (reply : Except Fault Unit)

/-- An exchange with all callers so far. -/
structure CalledExchange (ι κ σ τ : Type) where
  exchange : Exchange ι κ τ
  world : σ
  callers : List (Caller ι κ)
  log : List StartEvent

namespace Caller

def goOn (v : Caller ι κ) (stage : StartStage ι κ) : Caller ι κ := { v with stage }

/-- The next section of a caller. Buffers are put only into places that are empty. The executor replies if the
section hands over the task. -/
def step [Transport ι σ] (v : Caller ι κ) (place : Nat) (reply : Except Fault Unit × Executor) (x : Exchange ι κ τ)
    (s : σ) : StartStage ι κ × Exchange ι κ τ × σ × List StartEvent :=
  match v.stage with
  | .knocking =>
    match x.occupy with
    | (true, x) => (.allocating, x, s, [.occupied place])
    | (false, x) => (.done (.ok ()), x, s, [])
  | .allocating =>
    match x.allocate v.hasBody with
    | .error fault => (.completing fault, x, s, [])
    | .ok (inlet, outlet) => (.placingInlet inlet outlet, x, s, [])
  | .placingInlet none outlet => (.placingOutlet outlet, x, s, [])
  | .placingInlet (some inlet) outlet =>
    (.placingOutlet outlet, { x with inlet := x.inlet.or (some inlet) }, s, [.furnished .input place])
  | .placingOutlet outlet =>
    (.submitting, { x with outlet := x.outlet.or (some outlet) }, s, [.furnished .output place])
  | .submitting =>
    match x.engage (.start v.request v.context v.hasBody) reply with
    | (.ok (), x) => (.returning, x, s, [.submitted place (.ok ())])
    | (.error fault, x) => (.abortingInlet fault, x, s, [.submitted place (.error fault)])
  | .returning => (.done (.ok ()), x, s, [])
  | .abortingInlet fault => (.abortingOutlet fault, x.abortInlet, s, [])
  | .abortingOutlet fault =>
    let (ch, x) := x.abortOutlet
    (.asking fault ch, x, s, [])
  | .asking fault ch => (.completing fault, x, Outlet.ask ch s, [])
  | .completing fault => (.done (.error fault), x.complete, s, [])
  | .done result => (.done result, x, s, [])

end Caller

/-- A section of another call of the reactor, a section of the worker, or the end of its patience; a change of the
handler's mind, or of the channels, whether on their own or by a section that only uses them. -/
inductive OtherSection (ι κ σ τ : Type)
  | consume (bytes : List UInt8)
  | streamEnd
  | register (channel : κ)
  | revoke (increment : Nat)
  | produce (channel : ι)
  | fail (cause : Fault)
  | abortInlet
  | abortOutlet
  | release
  | work
  | timeOut
  | prompt (handler : τ)
  | become (world : σ)

namespace Exchange

variable [Handler τ] [Transport ι σ] [CapacityChannel κ σ] [ResponseChannel σ]

def undergo (x : Exchange ι κ τ) (s : σ) : OtherSection ι κ σ τ → Exchange ι κ τ × σ
  | .consume bytes => ((x.consume bytes).2, s)
  | .streamEnd => (x.streamEnd.2, s)
  | .register ch => ({ x with inlet := x.inlet.map fun inlet => (inlet.register ch).2 }, s)
  | .revoke increment => ({ x with inlet := x.inlet.map (·.revoke increment) }, s)
  | .produce ch => (x.produce ch s).2
  | .fail cause => (x.recordFailure cause, s)
  | .abortInlet => (x.abortInlet, s)
  | .abortOutlet => (x.abortOutlet.2, s)
  | .release => (x.release, s)
  | .work => (x.step s).2
  | .timeOut => (x.timeOut, s)
  | .prompt handler => ({ x with handler }, s)
  | .become world => (x, world)

end Exchange

namespace CalledExchange

/-- A request arrives, its call goes on with its next section, or something else happens. -/
inductive Event (ι κ σ τ : Type)
  | arrive (request : Request) (hasBody : Bool) (context : Context)
  | proceed (place : Nat) (reply : Except Fault Unit × Executor)
  | befall (other : OtherSection ι κ σ τ)

def Event.isOf (place : Nat) : Event ι κ σ τ → Bool
  | .proceed other _ => other = place
  | _ => false

def before (x : Exchange ι κ τ) (world : σ) : CalledExchange ι κ σ τ := ⟨x, world, [], []⟩

variable [Handler τ] [Transport ι σ] [CapacityChannel κ σ] [ResponseChannel σ]

def step (r : CalledExchange ι κ σ τ) : Event ι κ σ τ → CalledExchange ι κ σ τ
  | .arrive request hasBody context =>
    { r with callers := r.callers ++ [⟨request, hasBody, context, .knocking⟩] }
  | .proceed place reply =>
    match r.callers[place]? with
    | none => r
    | some v =>
      let (stage, exchange, world, more) := v.step place reply r.exchange r.world
      ⟨exchange, world, r.callers.modify place (·.goOn stage), r.log ++ more⟩
  | .befall other =>
    let (exchange, world) := r.exchange.undergo r.world other
    { r with exchange, world }

def run (events : List (Event ι κ σ τ)) (r : CalledExchange ι κ σ τ) : CalledExchange ι κ σ τ := events.foldl step r

/-- A request that arrives with nothing in between starts the exchange. -/
theorem start_alone (x : Exchange ι κ τ) (s : σ) (empty : x.phase = .idle → x.inlet = none ∧ x.outlet = none)
    (request : Request) (hasBody : Bool) (context : Context) :
    let (result, x', s') := x.start request hasBody context s
    let r := (before x s).run (.arrive request hasBody context ::
      List.replicate 9 (.proceed 0 (x.executor.submit)))
    r.exchange = x' ∧ r.world = s' ∧ r.callers = [⟨request, hasBody, context, .done result⟩] := by
  obtain ⟨limits, executor, phase, failure, inlet, outlet, handler, task, runs⟩ := x
  cases phase with
  | idle =>
    obtain ⟨rfl, rfl⟩ := empty rfl
    cases made : (⟨limits, executor, .active, failure, none, none, handler, task, runs⟩ : Exchange ι κ τ).allocate
        hasBody with
    | error fault =>
      simp [Exchange.start, Exchange.occupy, made, before, run, List.replicate, step, Caller.step, Caller.goOn]
    | ok buffers =>
      obtain ⟨inlet, outlet⟩ := buffers
      cases answered : executor.submit with
      | mk reply executor' =>
        cases reply <;> cases inlet <;>
          simp [Exchange.start, Exchange.occupy, made, before, run, List.replicate, step, Caller.step, Caller.goOn,
            Exchange.equip, Exchange.submit_eq, Exchange.engage, answered, Exchange.abortBuffers, Exchange.abortInlet,
            Exchange.abortOutlet, Exchange.complete]
  | active => simp [Exchange.start, Exchange.occupy, before, run, List.replicate, step, Caller.step, Caller.goOn]
  | completed => simp [Exchange.start, Exchange.occupy, before, run, List.replicate, step, Caller.step, Caller.goOn]

end CalledExchange

/-- How often the handler of a task is still to be started. -/
def Progress.pending : Progress ι κ → Nat
  | .submitted => 1
  | _ => 0

namespace Exchange

/-- How often the handler was started, or is to be. -/
def invocations (x : Exchange ι κ τ) : Nat := x.runs + x.task.elim 0 fun task => task.progress.pending

/-- What becomes of an exchange by anything but the arrival of a request. -/
structure Endures (x x' : Exchange ι κ τ) : Prop where
  limits : x'.limits = x.limits
  lasts : x.Lasts x'
  task : x'.task.isSome = x.task.isSome
  invocations : x'.invocations = x.invocations
  phase : x'.phase = x.phase ∨ x.task.isSome = true ∧ x'.phase = .completed

private theorem Lasts.endures {x x' : Exchange ι κ τ} (lasts : x.Lasts x') (limits : x'.limits = x.limits)
    (task : x'.task = x.task) (runs : x'.runs = x.runs) (phase : x'.phase = x.phase) : x.Endures x' :=
  ⟨limits, lasts, congrArg Option.isSome task, by rw [invocations, runs, task, invocations], .inl phase⟩

private theorem Lasts.goesOn {x x' : Exchange ι κ τ} (lasts : x.Lasts x') {task task' : Task ι κ}
    (running : x.task = some task)
    (moved : x'.task = some task') (limits : x'.limits = x.limits) (runs : x'.runs = x.runs)
    (begun : task.progress.pending = 0) (goes : task'.progress.pending = 0)
    (phase : x'.phase = x.phase ∨ x'.phase = .completed) : x.Endures x' where
  limits := limits
  lasts := lasts
  task := by rw [moved, running]; rfl
  invocations := by simp only [invocations, moved, running, runs, Option.elim_some, begun, goes]
  phase := phase.imp_right fun completed => ⟨by rw [running]; rfl, completed⟩

theorem runs_abortOutlet (x : Exchange ι κ τ) : x.abortOutlet.2.runs = x.runs := by
  simp only [abortOutlet]
  split
  · rfl
  · rfl

private theorem timeOut_endures (x : Exchange ι κ τ) : x.Endures x.timeOut := by
  have lasts := x.timeOut_lasts
  simp only [timeOut] at lasts ⊢
  split at lasts
  next task outlet running placed =>
    split at lasts
    next call calling =>
      exact lasts.goesOn running rfl rfl rfl (by rw [calling]; rfl) rfl (.inl rfl)
    next call closing =>
      exact lasts.goesOn running rfl rfl rfl (by rw [closing]; rfl) rfl (.inl rfl)
    next call closing =>
      exact lasts.goesOn running rfl rfl rfl (by rw [closing]; rfl) rfl (.inl rfl)
    · exact lasts.endures rfl rfl rfl rfl
  · exact lasts.endures rfl rfl rfl rfl

variable [Transport ι σ] [CapacityChannel κ σ] [ResponseChannel σ]

private theorem stepCall_endures {x : Exchange ι κ τ} {task : Task ι κ} (running : x.task = some task)
    (progress : Call ι κ → Progress ι κ) (call : Call ι κ) (s : σ) (begun : task.progress.pending = 0)
    (goes : ∀ call, (progress call).pending = 0) : x.Endures (x.stepCall task progress call s).2.1 := by
  have lasts := x.stepCall_lasts task progress call s
  cases placed : x.outlet with
  | none =>
    simp only [stepCall, placed] at lasts ⊢
    exact lasts.endures rfl rfl rfl rfl
  | some outlet =>
    rw [x.stepCall_placed placed] at lasts ⊢
    exact lasts.goesOn running rfl rfl rfl begun (goes _) (.inl rfl)

variable [Handler τ]

theorem step_endures (x : Exchange ι κ τ) (s : σ) : x.Endures (x.step s).2.1 := by
  have lasts := x.step_lasts s
  unfold step at lasts ⊢
  cases running : x.task with
  | none => exact (Lasts.refl x).endures rfl rfl rfl rfl
  | some task =>
    simp only [running] at lasts ⊢
    obtain ⟨session, progress⟩ := task
    cases progress with
    | submitted =>
      refine ⟨rfl, lasts, by rw [running]; rfl, ?_, .inl rfl⟩
      simp [invocations, stepTask, moveOn, withTask, running, Progress.pending]
    | thinking =>
      refine lasts.goesOn running rfl rfl rfl rfl ?_ (.inl rfl)
      split
      · rfl
      next result handler moved =>
        cases result with
        | ok done => rfl
        | error cause => rfl
      · rfl
      · rfl
    | calling call =>
      cases call with
      | done answer => exact lasts.goesOn running rfl rfl rfl rfl rfl (.inl rfl)
      | _ => exact stepCall_endures running _ _ s rfl fun _ => rfl
    | closingInput call =>
      cases call with
      | done answer =>
        refine lasts.goesOn running rfl rfl rfl rfl ?_ (.inl rfl)
        cases answer.closed with
        | ok done => rfl
        | error cause => rfl
      | _ => exact stepCall_endures running _ _ s rfl fun _ => rfl
    | closingOutput call =>
      cases call with
      | done answer =>
        refine lasts.goesOn running rfl rfl rfl rfl ?_ (.inl rfl)
        cases answer.closed with
        | ok done => rfl
        | error cause => rfl
      | _ => exact stepCall_endures running _ _ s rfl fun _ => rfl
    | abortingOutlet =>
      have aborts := x.abortOutlet_aborts
      exact lasts.goesOn running rfl aborts.limits x.runs_abortOutlet rfl rfl (.inl aborts.phase)
    | completing => exact lasts.goesOn running rfl rfl rfl rfl rfl (.inr rfl)
    | finished => exact lasts.endures rfl rfl rfl rfl
    | _ => exact lasts.goesOn running rfl rfl rfl rfl rfl (.inl rfl)

/-- Whatever happens to an exchange but the arrival of a request. -/
theorem undergo_endures (x : Exchange ι κ τ) (s : σ) (other : OtherSection ι κ σ τ) :
    x.Endures (x.undergo s other).1 := by
  have same : ∀ {x' : Exchange ι κ τ}, x'.inlet = x.inlet → x'.outlet = x.outlet → x'.limits = x.limits →
      x'.task = x.task → x'.runs = x.runs → x'.phase = x.phase → x.Endures x' :=
    fun inlet outlet => (lasts_same inlet outlet).endures
  cases other with
  | consume bytes =>
    have lasts := x.consume_lasts bytes
    simp only [undergo, consume] at lasts ⊢
    split at lasts
    · exact same rfl rfl rfl rfl rfl rfl
    · exact lasts.endures rfl rfl rfl rfl
  | streamEnd =>
    have lasts := x.streamEnd_lasts
    simp only [undergo, streamEnd] at lasts ⊢
    split at lasts
    · exact same rfl rfl rfl rfl rfl rfl
    · exact lasts.endures rfl rfl rfl rfl
  | register ch =>
    simp only [undergo]
    cases present : x.inlet with
    | none => exact same present.symm rfl rfl rfl rfl rfl
    | some inlet => exact (register_lasts present ch).endures rfl rfl rfl rfl
  | revoke increment => exact (x.revoke_lasts increment).endures rfl rfl rfl rfl
  | produce ch =>
    have lasts := x.produce_lasts ch s
    simp only [undergo, produce] at lasts ⊢
    split at lasts
    · exact same rfl rfl rfl rfl rfl rfl
    · exact lasts.endures rfl rfl rfl rfl
  | fail cause => exact same rfl rfl rfl rfl rfl rfl
  | abortInlet => exact x.abortInlet_lasts.endures rfl rfl rfl rfl
  | abortOutlet =>
    have aborts := x.abortOutlet_aborts
    exact x.abortOutlet_lasts.endures aborts.limits x.task_abortOutlet x.runs_abortOutlet aborts.phase
  | release => exact same rfl rfl rfl rfl rfl rfl
  | work => exact x.step_endures s
  | timeOut => exact x.timeOut_endures
  | prompt handler => exact same rfl rfl rfl rfl rfl rfl
  | become world => exact same rfl rfl rfl rfl rfl rfl

end Exchange
end Sluice
