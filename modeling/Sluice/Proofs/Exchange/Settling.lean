import Sluice.Bench
import Sluice.Bench.Rehearsal
import Sluice.Proofs.Exchange.Closing
import Sluice.Proofs.Exchange.HeadFirst
import Sluice.Proofs.Exchange.Sealing

/-! How an exchange ends. Either a failure was recorded and all buffers are aborted, or the handler has
returned well, its head was sent and both streams are at their ends. -/
namespace Sluice

variable {ι κ σ τ : Type}

/-- How an exchange can end: it has failed and no buffer is live, or its handler has returned well and both streams
are closed. -/
def Exchange.Resolved (x : Exchange ι κ τ) (notes : List (Occurrence ι)) : Prop :=
  x.failure.isSome = true ∧ x.Sealed ∨ Returned notes ∧ ∀ side, Fulfilled x.conduit? notes side

/-- What a task has come to on its way to the end. -/
def Progress.Settles (x : Exchange ι κ τ) (notes : List (Occurrence ι)) : Progress ι κ → Prop
  | .calling call => call.Honours x.conduit?
  | .closingInput call =>
    Returned notes ∧ call.Honours x.conduit? ∧ call.Closes .input (Fulfilled x.conduit? notes .input)
  | .closingOutput call =>
    Returned notes ∧ Fulfilled x.conduit? notes .input ∧ call.Honours x.conduit? ∧
      call.Closes .output (Fulfilled x.conduit? notes .output)
  | .abortingInlet => x.failure.isSome = true
  | .abortingOutlet => x.failure.isSome = true ∧ x.Shut .input
  | .asking _ => x.failure.isSome = true ∧ x.Sealed
  | .completing => x.Resolved notes
  | .finished => x.phase = .completed ∧ x.Resolved notes
  | _ => True

/-- What a task has come to. Its handler has an input where there is a body, and closes nothing but what is at its
end. -/
structure Task.Settles (x : Exchange ι κ τ) (notes : List (Occurrence ι)) (task : Task ι κ) : Prop where
  body : (x.conduit? .input).isSome = task.session.hasInput
  closed : ∀ side, task.session.HasClosed side → Fulfilled x.conduit? notes side
  progress : task.progress.Settles x notes

/-- An exchange some time later, which is neither unfailed nor uncompleted by anybody. -/
structure Exchange.Abides (x x' : Exchange ι κ τ) : Prop where
  lasts : x.Lasts x'
  failure : x.failure.isSome = true → x'.failure.isSome = true
  phase : x.phase = .completed → x'.phase = .completed

theorem Returned.append {notes more : List (Occurrence ι)} (h : Returned notes) (unmoved : movesOf more = []) :
    Returned (notes ++ more) := by
  rw [Returned, movesOf_append, unmoved, List.append_nil]
  exact h

namespace Exchange

private theorem recordFailure_fails (x : Exchange ι κ τ) (cause : Fault) :
    (x.recordFailure cause).failure.isSome = true := by
  simp [recordFailure]

theorem Abides.refl (x : Exchange ι κ τ) : x.Abides x := ⟨.refl x, id, id⟩

private theorem Lasts.abides {x x' : Exchange ι κ τ} (lasts : x.Lasts x') (failure : x'.failure = x.failure)
    (phase : x'.phase = x.phase) : x.Abides x' :=
  ⟨lasts, fun failed => failure ▸ failed, fun completed => phase.trans completed⟩

private theorem Resolved.abides {x x' : Exchange ι κ τ} {notes more : List (Occurrence ι)} (h : x.Resolved notes)
    (abides : x.Abides x') (unmoved : movesOf more = []) : x'.Resolved (notes ++ more) := by
  rcases h with ⟨failed, shut⟩ | ⟨returned, fulfilled⟩
  · exact .inl ⟨abides.failure failed, fun side => (shut side).lasts abides.lasts⟩
  · exact .inr ⟨returned.append unmoved, fun side => (fulfilled side).lasts abides.lasts⟩

end Exchange

private theorem Progress.Settles.abides {x x' : Exchange ι κ τ} {notes more : List (Occurrence ι)} {p : Progress ι κ}
    (h : p.Settles x notes) (abides : x.Abides x') (unmoved : movesOf more = []) : p.Settles x' (notes ++ more) := by
  have lasts := abides.lasts
  cases p with
  | calling call => exact Call.Honours.lasts h lasts
  | closingInput call =>
    obtain ⟨returned, honours, closes⟩ := h
    exact ⟨returned.append unmoved, honours.lasts lasts, closes.mono fun goal => goal.lasts lasts⟩
  | closingOutput call =>
    obtain ⟨returned, drained, honours, closes⟩ := h
    exact ⟨returned.append unmoved, drained.lasts lasts, honours.lasts lasts,
      closes.mono fun goal => goal.lasts lasts⟩
  | abortingInlet => exact abides.failure h
  | abortingOutlet => exact ⟨abides.failure h.1, h.2.lasts lasts⟩
  | asking ch => exact ⟨abides.failure h.1, fun side => (h.2 side).lasts lasts⟩
  | completing => exact Exchange.Resolved.abides h abides unmoved
  | finished => exact ⟨abides.phase h.1, h.2.abides abides unmoved⟩
  | _ => trivial

private theorem Task.Settles.goesOn {x x' : Exchange ι κ τ} {notes more : List (Occurrence ι)} {task : Task ι κ}
    (h : task.Settles x notes) (lasts : x.Lasts x') {session : Session}
    (same : session = { task.session with response := session.response }) {progress : Progress ι κ}
    (settles : progress.Settles x' (notes ++ more)) : Task.Settles x' (notes ++ more) ⟨session, progress⟩ where
  body := by
    have body := h.body
    have later := lasts .input
    rw [same]
    cases here : x.conduit? .input with
    | none =>
      rw [here] at body
      rwa [Conduit.rel_none here later]
    | some c =>
      obtain ⟨c', there, _⟩ := Conduit.rel_some here later
      rw [here] at body
      rwa [there]
  closed side closed := by
    have before : task.session.HasClosed side := by
      rw [same] at closed
      cases side with
      | input => exact closed
      | output => exact closed
    exact (h.closed side before).lasts lasts
  progress := settles

namespace ExchangeRun

/-- What the task of an exchange has come to at any time. -/
def Settling (x : Exchange ι κ τ) (notes : List (Occurrence ι)) : Prop :=
  ∀ task, x.task = some task → task.Settles x notes

private theorem Settling.of_withTask {x x' : Exchange ι κ τ} {notes : List (Occurrence ι)} {task : Task ι κ}
    (h : task.Settles x notes) (task' : Task ι κ) (lasts : x.Lasts x')
    (same : task'.session = { task.session with response := task'.session.response })
    (after : task'.progress.Settles (x'.withTask task') (notes ++ [])) : Settling (x'.withTask task') notes := by
  intro t there
  obtain rfl := Option.some.inj there
  have lasts : x.Lasts (x'.withTask task') := lasts
  have rest := h.goesOn lasts same after
  rwa [List.append_nil] at rest

private theorem Settling.of_moveOn {x : Exchange ι κ τ} {notes : List (Occurrence ι)} {task : Task ι κ}
    (h : task.Settles x notes) (x' : Exchange ι κ τ) (progress : Progress ι κ) (lasts : x.Lasts x')
    (after : progress.Settles (x'.moveOn task progress) (notes ++ [])) : Settling (x'.moveOn task progress) notes :=
  .of_withTask h { task with progress } lasts rfl after

private theorem Settling.beside {x x' : Exchange ι κ τ} {notes more : List (Occurrence ι)} (h : Settling x notes)
    (task : x'.task = x.task) (abides : x.Abides x') (unmoved : movesOf more = []) : Settling x' (notes ++ more) := by
  intro t running
  have settles := h t (task.symm.trans running)
  exact settles.goesOn abides.lasts rfl (settles.progress.abides abides unmoved)

private theorem Settling.timeOut {x : Exchange ι κ τ} {notes : List (Occurrence ι)} (h : Settling x notes) :
    Settling x.timeOut notes := by
  have lasts := x.timeOut_lasts
  simp only [Exchange.timeOut] at lasts ⊢
  split at lasts
  next task outlet running placed =>
    have settles := h task running
    have progress := settles.progress
    have same := x.conduit?_ground task placed
    have honours : ∀ {call : Call ι κ}, call.Honours x.conduit? →
        (call.timeOut (x.ground task outlet)).Honours x.conduit? := by
      intro call honours
      have after := Call.Honours.timeOut (g := x.ground task outlet) (same ▸ honours)
      exact same ▸ after
    split
    next call calling =>
      rw [calling] at progress
      exact .of_moveOn settles x _ (.refl x) (honours progress)
    next call closing =>
      rw [closing] at progress
      obtain ⟨returned, before, closes⟩ := progress
      exact .of_moveOn settles x _ (.refl x) ⟨returned.append rfl, honours before,
        (closes.timeOut _).mono fun goal => goal.lasts (.refl _)⟩
    next call closing =>
      rw [closing] at progress
      obtain ⟨returned, drained, before, closes⟩ := progress
      exact .of_moveOn settles x _ (.refl x) ⟨returned.append rfl, drained.lasts (.refl _), honours before,
        (closes.timeOut _).mono fun goal => goal.lasts (.refl _)⟩
    · exact h
  · exact h

private theorem Settling.start [Transport ι σ] {c : ExchangeRun ι κ σ τ} (h : Settling c.exchange c.minutes.notes)
    (fresh : c.exchange.phase = .idle → c.exchange.task = none) (request : Request) (hasBody : Bool)
    (context : Context) :
    Settling (c.start request hasBody context).exchange (c.start request hasBody context).minutes.notes := by
  rcases c.start_outcomes request hasBody context with ⟨_, same⟩ | ⟨idle, outcome⟩
  · rwa [same]
  · have waiting := fresh idle
    rcases outcome with ⟨_, same⟩ | ⟨inlet, outlet, executor, _, body, _, same | same⟩
    · rw [same]
      exact fun t running => absurd (running.symm.trans waiting) nofun
    · rw [same]
      rintro t running
      obtain rfl := Option.some.inj running
      refine ⟨?_, fun side closed => ?_, trivial⟩
      · rw [← body]
        exact Option.isSome_map
      · cases side <;> cases closed
    · rw [same]
      exact fun t running => absurd (running.symm.trans waiting) nofun

section
variable [Handler τ] [Transport ι σ] [CapacityChannel κ σ] [ResponseChannel σ]

omit [Handler τ] in
private theorem Settling.stepCall {x : Exchange ι κ τ} {m : Minutes ι σ} {task : Task ι κ} (h : Settling x m.notes)
    (running : x.task = some task) {progress : Call ι κ → Progress ι κ} {call : Call ι κ}
    (founded : call.Founded task.session.response.committed m.notes) (honours : call.Honours x.conduit?)
    (next : ∀ (x' : Exchange ι κ τ) call' more, x.Abides x' → Mute more → call'.Honours x'.conduit? →
      (∀ side, call.Closes side (Fulfilled x.conduit? m.notes side) →
        call'.Closes side (Fulfilled x'.conduit? (m.notes ++ more) side)) →
      (progress call').Settles x' (m.notes ++ more)) :
    Settling (x.stepCall task progress call m).2.1 (x.stepCall task progress call m).2.2.notes := by
  have lasts := x.stepCall_lasts task progress call m
  cases placed : x.outlet with
  | none =>
    simp only [Exchange.stepCall, placed]
    exact h
  | some outlet =>
    have same := x.conduit?_ground task placed
    have advances := Call.step_advances (g := x.ground task outlet) founded (same ▸ honours)
    obtain ⟨more, notes, mute⟩ := call.step_mutely (x.ground task outlet) m
    rw [x.stepCall_placed placed] at lasts ⊢
    generalize call.step (x.ground task outlet) m = after at advances notes lasts ⊢
    obtain ⟨pace, call', g', m'⟩ := after
    dsimp only at advances notes lasts ⊢
    have closes := advances.closes
    have settles := h task running
    generalize after : ({ x with
      inlet := g'.inlet, outlet := some g'.outlet, task := some ⟨g'.session, progress call'⟩ } :
        Exchange ι κ τ) = x' at lasts ⊢
    have there : g'.conduit? = x'.conduit? := by
      subst after
      funext side
      cases side <;> rfl
    have now : x'.task = some ⟨g'.session, progress call'⟩ := after ▸ rfl
    rw [same, there, notes] at closes
    rw [notes]
    have abides : x.Abides x' := lasts.abides (after ▸ rfl) (after ▸ rfl)
    have next := next x' call' more abides mute (there ▸ advances.honours) closes
    have rest : Task.Settles x' (m.notes ++ more) ⟨task.session, progress call'⟩ := settles.goesOn lasts rfl next
    rintro t found
    obtain rfl := Option.some.inj (now.symm.trans found)
    refine ⟨rest.body.trans advances.hasInput.symm, fun side closed => ?_, next⟩
    rcases advances.closed side closed with before | reached
    · exact rest.closed side before
    · rwa [there, notes] at reached

omit [Transport ι σ] [CapacityChannel κ σ] [ResponseChannel σ] in
private theorem Settling.think {x : Exchange ι κ τ} {notes : List (Occurrence ι)} {task : Task ι κ}
    (h : task.Settles x notes) (thinking : task.progress = .thinking) :
    (task.think x.handler).2.1.Settles
      ({ x with handler := (task.think x.handler).2.2 }.withTask (task.think x.handler).2.1)
      (notes ++ [.moved (Handler.next task.session x.handler).1]) := by
  have lasts : ∀ handler task', x.Lasts ({ x with handler }.withTask task') := fun _ _ => .refl x
  simp only [Task.think]
  split
  next act handler moved =>
    rw [moved]
    exact h.goesOn (lasts _ _) (Call.start_session task.session act) (Call.honours_start _ _ act)
  next result handler moved =>
    rw [moved]
    cases result with
    | ok done =>
      refine h.goesOn (lasts _ _) rfl ⟨?_, Call.honours_closeInput _ _, Call.closes_closeInput h.body ?_⟩
      · simp [Returned, movesOf, Occurrence.move?]
      · exact fun closed => (h.closed .input closed).lasts (.refl _)
    | error cause => exact h.goesOn (lasts _ _) rfl trivial
  next handler moved => exact h.goesOn (lasts _ _) rfl trivial
  next handler rests =>
    rw [rests]
    exact h.goesOn (lasts _ _) rfl (thinking ▸ trivial)

section Worker

variable {x : Exchange ι κ τ} {m : Minutes ι σ} {session : Session} {call : Call ι κ}

private theorem Settling.stepClosingInput (h : Settling x m.notes)
    (running : x.task = some ⟨session, .closingInput call⟩)
    (founded : (Progress.closingInput call).Founded session.response.committed m.notes) :
    Settling (x.stepTask ⟨session, .closingInput call⟩ m).2.1
      (x.stepTask ⟨session, .closingInput call⟩ m).2.2.notes := by
  have settles := h _ running
  obtain ⟨returned, honours, closes⟩ := settles.progress
  obtain ⟨input, closable⟩ := founded
  cases call with
  | done answer =>
    simp only [Exchange.stepTask, Task.afterInput]
    split
    next done well =>
      have drained : Fulfilled x.conduit? (m.notes ++ []) .input := (closes well).lasts (.refl _)
      have before : session.HasClosed .output → Fulfilled x.conduit? (m.notes ++ []) .output :=
        fun closed => (settles.closed .output closed).lasts (.refl _)
      exact .of_withTask settles _ (.refl x) (Call.start_session session .closeOutput)
        ⟨returned.append rfl, drained, Call.honours_closeOutput _ _, Call.closes_closeOutput before⟩
    next cause failed => exact .of_withTask settles _ (.refl x) rfl trivial
  | _ =>
    refine h.stepCall running (input.founded closable.known) honours fun x' call' more abides mute honours' next => ?_
    exact ⟨returned.append mute.unmoved, honours', next .input closes⟩

private theorem Settling.stepClosingOutput (h : Settling x m.notes)
    (running : x.task = some ⟨session, .closingOutput call⟩)
    (founded : call.Founded session.response.committed m.notes) :
    Settling (x.stepTask ⟨session, .closingOutput call⟩ m).2.1
      (x.stepTask ⟨session, .closingOutput call⟩ m).2.2.notes := by
  have settles := h _ running
  obtain ⟨returned, drained, honours, closes⟩ := settles.progress
  cases call with
  | done answer =>
    simp only [Exchange.stepTask, Task.afterOutput]
    split
    next done well =>
      refine .of_withTask settles _ (.refl x) rfl (.inr ⟨returned.append rfl, fun side => ?_⟩)
      cases side with
      | input => exact drained.lasts (.refl _)
      | output => exact (closes well).lasts (.refl _)
    next cause failed => exact .of_withTask settles _ (.refl x) rfl trivial
  | _ =>
    refine h.stepCall running founded honours fun x' call' more abides mute honours' next => ?_
    exact ⟨returned.append mute.unmoved, drained.lasts abides.lasts, honours', next .output closes⟩

omit [Handler τ] [Transport ι σ] [CapacityChannel κ σ] [ResponseChannel σ] in
private theorem Settling.abortOutlet {notes : List (Occurrence ι)} (h : Settling x notes)
    (running : x.task = some ⟨session, .abortingOutlet⟩) :
    Settling (x.abortOutlet.2.moveOn ⟨session, .abortingOutlet⟩ (.asking x.abortOutlet.1)) notes := by
  have settles := h _ running
  obtain ⟨failed, shut⟩ := settles.progress
  have aborts := x.abortOutlet_aborts
  refine .of_moveOn settles x.abortOutlet.2 _ x.abortOutlet_lasts ⟨?_, fun side => ?_⟩
  · exact (congrArg Option.isSome aborts.failure).trans failed
  · cases side with
    | input => exact shut.lasts x.abortOutlet_lasts
    | output => exact aborts.shut

omit [Handler τ] [CapacityChannel κ σ] [ResponseChannel σ] in
private theorem Settling.asked (h : Settling x m.notes) {ch : Option ι}
    (running : x.task = some ⟨session, .asking ch⟩) :
    Settling (x.moveOn ⟨session, .asking ch⟩ .completing) (Transport.requestOutput ch m).notes := by
  have settles := h _ running
  obtain ⟨more, notes, mute⟩ := m.mutely_requestOutput ch
  have moved : Settling (x.moveOn ⟨session, .asking ch⟩ .completing) m.notes :=
    .of_moveOn settles x _ (.refl x) (.inl settles.progress)
  exact notes ▸ moved.beside rfl (.refl _) mute.unmoved

private theorem Settling.stepTask {task : Task ι κ} (h : Settling x m.notes) (running : x.task = some task)
    (busy : task.progress ≠ .thinking) (founded : task.progress.Founded task.session.response.committed m.notes) :
    Settling (x.stepTask task m).2.1 (x.stepTask task m).2.2.notes := by
  have settles := h task running
  obtain ⟨session, progress⟩ := task
  cases progress with
  | submitted => exact .of_moveOn settles { x with runs := x.runs + 1 } .thinking (.refl x) trivial
  | thinking => exact absurd rfl busy
  | calling call =>
    cases call with
    | done answer =>
      exact .of_moveOn settles { x with handler := Handler.hear answer x.handler } .thinking (.refl x) trivial
    | _ => exact h.stepCall running founded settles.progress fun _ _ _ _ _ honours _ => honours
  | closingInput call => exact h.stepClosingInput running founded
  | closingOutput call => exact h.stepClosingOutput running founded
  | failing cause =>
    exact .of_moveOn settles (x.recordFailure cause) .abortingInlet (.refl x) (x.recordFailure_fails cause)
  | abortingInlet =>
    exact .of_moveOn settles x.abortInlet .abortingOutlet x.abortInlet_lasts
      ⟨settles.progress, x.abortInlet_aborts.shut⟩
  | abortingOutlet => exact h.abortOutlet running
  | asking ch => exact h.asked running
  | completing =>
    have abides : x.Abides (x.complete.moveOn ⟨session, .completing⟩ .finished) := ⟨.refl x, id, fun _ => rfl⟩
    exact .of_moveOn settles x.complete .finished (.refl x) ⟨rfl, Exchange.Resolved.abides settles.progress abides rfl⟩
  | finished => exact h

end Worker

private theorem Settling.work {c : ExchangeRun ι κ σ τ} (h : Settling c.exchange c.minutes.notes)
    (orderly : Orderly c.exchange (c.minutes.noting (foretold c.exchange))) :
    Settling c.work.exchange c.work.minutes.notes := by
  have stepped : Settling (c.exchange.step (c.minutes.noting (foretold c.exchange))).2.1
      (c.exchange.step (c.minutes.noting (foretold c.exchange))).2.2.notes := by
    cases running : c.exchange.task with
    | none =>
      simp only [Exchange.step, running]
      exact fun t there => absurd (running.symm.trans there) (Option.some_ne_none t).symm
    | some task =>
      simp only [Exchange.step, running]
      by_cases thinking : task.progress = .thinking
      · have after := Settling.think (h task running) thinking
        have thought : foretold c.exchange = [.moved (Handler.next task.session c.exchange.handler).1] := by
          simp only [foretold, running, thinking]
        rw [← thought] at after
        simp only [Exchange.stepTask, thinking]
        rintro t same
        obtain rfl := Option.some.inj same
        exact after
      · have noted := h.beside rfl (.refl c.exchange) (foretold_unmoved running thinking)
        exact Settling.stepTask (m := c.minutes.noting (foretold c.exchange)) noted running thinking
          (orderly.founded task running)
  exact stepped.beside rfl (.refl _) (mute_placedBetween c.exchange c.work.exchange).unmoved

omit [ResponseChannel σ] in
private theorem Settling.discharge {c : ExchangeRun ι κ σ τ}
    (h : Settling c.exchange c.minutes.notes) (duty : Duty ι κ) :
    Settling (c.discharge duty).exchange (c.discharge duty).minutes.notes := by
  have still : ∀ {x' : Exchange ι κ τ}, x'.task = c.exchange.task → c.exchange.Abides x' →
      Settling x' c.minutes.notes := by
    intro x' task abides
    exact List.append_nil c.minutes.notes ▸ h.beside task abides rfl
  cases duty with
  | announce ch increment =>
    have quiet : (CapacityChannel.update ch increment c.minutes).2.notes = c.minutes.notes := rfl
    simp only [ExchangeRun.discharge]
    split
    next passed =>
      rw [passed] at quiet
      exact quiet ▸ h
    next failed =>
      rw [failed] at quiet
      exact quiet ▸ h
  | revoke increment => exact still rfl ((c.exchange.revoke_lasts increment).abides rfl rfl)
  | abortInlet => exact still rfl (c.exchange.abortInlet_lasts.abides rfl rfl)
  | abortOutlet =>
    have aborts := c.exchange.abortOutlet_aborts
    exact still c.exchange.task_abortOutlet (c.exchange.abortOutlet_lasts.abides aborts.failure aborts.phase)
  | ask ch =>
    obtain ⟨more, notes, mute⟩ := c.minutes.mutely_requestOutput ch
    have after := h.beside rfl (.refl c.exchange) mute.unmoved
    exact notes ▸ after
  | release => exact still rfl ⟨Exchange.lasts_same rfl rfl, id, id⟩

/-- Whatever happens, the task comes to what it is to come to. -/
theorem Settling.perform {c : ExchangeRun ι κ σ τ} (h : Settling c.exchange c.minutes.notes)
    (orderly : Orderly c.exchange c.minutes) (e : Event ι κ σ τ) :
    Settling (c.perform e).exchange (c.perform e).minutes.notes := by
  have still : ∀ {x' : Exchange ι κ τ}, c.exchange.Lasts x' → x'.task = c.exchange.task →
      x'.failure = c.exchange.failure → x'.phase = c.exchange.phase → Settling x' c.minutes.notes := by
    intro x' lasts task failure phase
    exact List.append_nil c.minutes.notes ▸ h.beside task (lasts.abides failure phase) rfl
  cases e with
  | start request hasBody context => exact h.start orderly.fresh request hasBody context
  | consume bytes =>
    have lasts := c.exchange.consume_lasts bytes
    simp only [ExchangeRun.perform, Exchange.consume] at lasts ⊢
    split at lasts
    · exact h
    · exact still lasts rfl rfl rfl
  | streamEnd =>
    have lasts := c.exchange.streamEnd_lasts
    simp only [ExchangeRun.perform, Exchange.streamEnd] at lasts ⊢
    split at lasts
    · exact h
    · exact still lasts rfl rfl rfl
  | updateCapacity ch =>
    simp only [ExchangeRun.perform, ExchangeRun.register]
    split
    · exact h
    next inlet present => exact still (Exchange.register_lasts present ch) rfl rfl rfl
  | produce ch =>
    have lasts := c.exchange.produce_lasts ch c.minutes
    simp only [ExchangeRun.perform, Exchange.produce] at lasts ⊢
    split at lasts
    · exact h
    next outlet _ =>
      obtain ⟨deeds, notes⟩ := outlet.flush_deeds ch c.minutes
      rw [notes]
      exact h.beside rfl (lasts.abides rfl rfl) (mute_deeds deeds).unmoved
  | failed cause =>
    have abides : c.exchange.Abides (c.exchange.recordFailure cause) :=
      ⟨.refl _, fun _ => c.exchange.recordFailure_fails cause, id⟩
    exact h.beside rfl abides rfl
  | release => exact still (Exchange.lasts_same rfl rfl) rfl rfl rfl
  | react =>
    simp only [ExchangeRun.perform]
    split
    · exact h
    next duty duties _ => exact Settling.discharge (c := { c with duties }) h duty
  | work => exact h.work orderly.foretelling
  | timeOut => exact h.timeOut
  | prompt handler => exact still (Exchange.lasts_same rfl rfl) rfl rfl rfl
  | become world => exact h

/-- A failure that is recorded stays what it is. -/
theorem Sound.failed_for_ever {c : ExchangeRun ι κ σ τ} (h : Sound c) {cause : Fault}
    (failed : c.exchange.failure = some cause) (more : List (Event ι κ σ τ)) :
    (c.run more).exchange.failure = some cause := by
  have kept : ∀ c : ExchangeRun ι κ σ τ, Sound c ∧ c.exchange.failure = some cause → ∀ e : Event ι κ σ τ,
      (e.isCall = true → c.duties = []) → Sound (c.perform e) ∧ (c.perform e).exchange.failure = some cause := by
    rintro c ⟨sound, failed⟩ e free
    have next := sound.perform e free
    obtain ⟨later, notes⟩ := next.noted
    refine ⟨next.sound, ?_⟩
    rw [next.sound.first, notes, List.filterMap_append, List.head?_append, ← sound.first, failed]
    rfl
  exact (run_induction kept more c ⟨h, failed⟩).2

end

end ExchangeRun

private theorem Unsent.sendingsOf {notes : List (Occurrence ι)} (h : Unsent notes) : sendingsOf notes = [] := by
  apply List.filterMap_eq_nil_iff.mpr
  intro entry member
  cases entry with
  | sent result => exact absurd member (h result)
  | _ => rfl

/-- A head that was sent is the only one. -/
theorem sent_once {notes : List (Occurrence ι)} (lawful : Lawful Occurrence.Law notes) {result : Except Fault Unit}
    (sent : .sent result ∈ notes) : sendingsOf notes = [result] := by
  obtain ⟨before, after, rfl⟩ := List.append_of_mem sent
  have first : Unsent before := lawful before (.sent result) after rfl
  have last : Unsent after := by
    intro other member
    obtain ⟨between, rest, rfl⟩ := List.append_of_mem member
    have second : Unsent (before ++ .sent result :: between) := lawful _ (.sent other) rest (by simp)
    exact second result (by simp)
  have parts : sendingsOf (before ++ .sent result :: after) = sendingsOf before ++ result :: sendingsOf after :=
    List.filterMap_append
  rw [parts, first.sendingsOf, last.sendingsOf, List.nil_append]

/-- Whatever a handler and a reactor do in whatever order: the failure of an exchange is the first one recorded. When
its task has ended the exchange is complete. Either it has failed, for ever with that failure, and every buffer is
aborted; or its handler has returned well, one head was sent, with whatever result, the body of the response is
complete, and that of the request, if there is one, has ended and is read. -/
theorem ended_task_resolves [Handler τ] [Transport ι σ] [CapacityChannel κ σ] [ResponseChannel σ]
    (limits : BufferSettings) (executor : Executor) (handler : τ) (x : Exchange ι κ τ)
    (made : Exchange.ofHandler limits executor handler = .ok x) (world : σ)
    (events : List (ExchangeRun.Event ι κ σ τ)) :
    let c := (ExchangeRun.before x world).run events
    c.exchange.failure = (c.minutes.notes.filterMap Occurrence.cause?).head? ∧
    ∀ session, c.exchange.task = some ⟨session, .finished⟩ →
      c.exchange.phase = .completed ∧
      ((∃ cause, (∀ more, (c.run more).exchange.failure = some cause) ∧ c.exchange.Sealed) ∨
        Returned c.minutes.notes ∧ (∃ result, sendingsOf c.minutes.notes = [result]) ∧
          (∃ outlet, c.exchange.outlet = some outlet ∧ outlet.conduit.ended = true) ∧
          ∀ inlet, c.exchange.inlet = some inlet → inlet.conduit.ended = true ∧ inlet.conduit.bytes = []) := by
  intro c
  obtain ⟨sound, orderly, settling⟩ : c.Sound ∧ ExchangeRun.Orderly c.exchange c.minutes ∧
      ExchangeRun.Settling c.exchange c.minutes.notes := by
    have kept : ∀ c : ExchangeRun ι κ σ τ, (c.Sound ∧ ExchangeRun.Orderly c.exchange c.minutes ∧
        ExchangeRun.Settling c.exchange c.minutes.notes) → ∀ e : ExchangeRun.Event ι κ σ τ,
          (e.isCall = true → c.duties = []) →
        (c.perform e).Sound ∧ ExchangeRun.Orderly (c.perform e).exchange (c.perform e).minutes ∧
          ExchangeRun.Settling (c.perform e).exchange (c.perform e).minutes.notes := by
      rintro c ⟨sound, orderly, settling⟩ e free
      exact ⟨(sound.perform e free).sound, orderly.perform e, settling.perform orderly e⟩
    have before := ExchangeRun.orderly_before (σ := σ) made world
    have waiting : x.task = none := by
      obtain ⟨_, _, new⟩ := ok_of_map made
      exact congrArg Exchange.task new
    exact ExchangeRun.run_induction kept events _ ⟨ExchangeRun.sound_before made world, before,
      fun task running => absurd (waiting.symm.trans running) nofun⟩
  refine ⟨sound.first, fun session ended => ?_⟩
  obtain ⟨completed, resolved⟩ := (settling _ ended).progress
  refine ⟨completed, ?_⟩
  rcases resolved with ⟨failed, shut⟩ | ⟨returned, fulfilled⟩
  · obtain ⟨cause, failed⟩ := Option.isSome_iff_exists.mp failed
    exact .inl ⟨cause, sound.failed_for_ever failed, shut⟩
  · obtain ⟨⟨conduit, there, complete⟩, result, sent⟩ := fulfilled .output
    obtain ⟨outlet, placed, rfl⟩ := Option.map_eq_some_iff.mp there
    have drained := fulfilled .input
    exact .inr ⟨returned, ⟨result, sent_once orderly.lawful sent⟩, ⟨outlet, placed, complete⟩,
      fun inlet present => drained _ (congrArg (Option.map Inlet.conduit) present)⟩

/-- A handler returns while its request has still a byte to come, which its exchange reads before it ends. Another one
dies, and its exchange fails. -/
theorem ended_task_resolves_both :
    let limits : BufferSettings := ⟨4, none⟩
    let x : Exchange Line Line Rehearsal := ⟨limits, .runtime, .idle, none, none, none, .silent, none, 0⟩
    let bench := Bench.ofChannels [⟨.withLimit none, ⟨false, false, 0⟩⟩]
    let returning : ExchangeRun Line Line Bench Rehearsal := (ExchangeRun.before x bench).run
      [.start ⟨"POST", "/"⟩ true ⟨0, []⟩, .work, .prompt (Rehearsal.silent.tell (.finish (.ok ()))), .work, .work,
        .consume [97], .work, .work, .streamEnd, .work, .work, .work, .work, .work, .work, .work, .work]
    let dying : ExchangeRun Line Line Bench Rehearsal := (ExchangeRun.before x bench).run
      [.start ⟨"GET", "/"⟩ false ⟨0, []⟩, .work, .prompt (Rehearsal.silent.tell .crash), .work, .work, .work, .work,
        .work, .work]
    Exchange.ofHandler limits .runtime Rehearsal.silent = .ok x ∧
      returning.exchange.phase = .completed ∧ Returned returning.minutes.notes ∧
      sendingsOf returning.minutes.notes = [.ok ()] ∧
      (∀ inlet, returning.exchange.inlet = some inlet → inlet.conduit.ended = true ∧ inlet.conduit.bytes = []) ∧
      dying.exchange.phase = .completed ∧ dying.exchange.failure = some (.handler "handler panicked") ∧
      dying.exchange.Sealed := by
  have outcome := fun events => ended_task_resolves ⟨4, none⟩ .runtime Rehearsal.silent
    (⟨⟨4, none⟩, .runtime, .idle, none, none, none, .silent, none, 0⟩ : Exchange Line Line Rehearsal) (by rfl)
    (Bench.ofChannels [⟨.withLimit none, ⟨false, false, 0⟩⟩]) events
  obtain ⟨_, well⟩ := outcome
    [.start ⟨"POST", "/"⟩ true ⟨0, []⟩, .work, .prompt (Rehearsal.silent.tell (.finish (.ok ()))), .work, .work,
      .consume [97], .work, .work, .streamEnd, .work, .work, .work, .work, .work, .work, .work, .work]
  obtain ⟨_, badly⟩ := outcome
    [.start ⟨"GET", "/"⟩ false ⟨0, []⟩, .work, .prompt (Rehearsal.silent.tell .crash), .work, .work, .work, .work,
      .work, .work]
  obtain ⟨completed, ends⟩ := well _ (by rfl)
  obtain ⟨completed', ends'⟩ := badly _ (by rfl)
  obtain ⟨returned, _, _, drained⟩ := ends.resolve_left fun ⟨cause, failed, _⟩ => nomatch failed []
  obtain ⟨cause, failed, shut⟩ := ends'.resolve_right fun ⟨returned, _⟩ => nomatch returned
  exact ⟨by rfl, completed, returned, by rfl, drained, completed', by rfl, shut⟩

end Sluice
