import Sluice.Bench
import Sluice.Bench.Rehearsal
import Sluice.Proofs.Exchange.Clearance

/-! The head of a response is sent once and before its body. If it could not be sent, there may be a
body all the same, but only of a handler that has heard of the failure and goes on. -/
namespace Sluice

variable {ι κ σ τ : Type}

namespace ExchangeRun

/-- What holds of an exchange and its minutes at any time. -/
structure Orderly (x : Exchange ι κ τ) (m : Minutes ι σ) : Prop where
  lawful : Lawful Occurrence.Law m.notes
  fresh : x.phase = .idle → x.task = none
  unbegun : x.task = none → Unsent m.notes
  founded : ∀ task, x.task = some task → task.progress.Founded task.session.response.committed m.notes
  silent : Cleared m.notes ∨ ∀ outlet, x.outlet = some outlet → outlet.Silent

private theorem Orderly.beside {x x' : Exchange ι κ τ} {m m' : Minutes ι σ} {more : List (Occurrence ι)}
    (h : Orderly x m) (phase : x'.phase = .idle → x.phase = .idle) (task : x'.task = x.task)
    (outlet : (∀ o, x.outlet = some o → o.Silent) → ∀ o, x'.outlet = some o → o.Silent)
    (notes : m'.notes = m.notes ++ more) (quiet : Unsent more)
    (lawful : Lawful Occurrence.Law m'.notes) : Orderly x' m' where
  lawful := lawful
  fresh idle := task.trans (h.fresh (phase idle))
  unbegun waiting := by
    rw [notes]
    exact (h.unbegun (task.symm.trans waiting)).append quiet
  founded t running := by
    rw [notes]
    exact (h.founded t (task.symm.trans running)).append quiet
  silent := by
    rw [notes]
    exact h.silent.imp (fun cleared => cleared.append more) outlet

private theorem Orderly.noting {x : Exchange ι κ τ} {m : Minutes ι σ} (h : Orderly x m) (more : List (Occurrence ι))
    (quiet : Unsent more) (free : ∀ entry ∈ more, ∀ before, entry.Law before) :
    Orderly x (m.noting more) :=
  h.beside id rfl id rfl quiet (h.lawful.append_free free)

private theorem Orderly.changed {x x' : Exchange ι κ τ} {m : Minutes ι σ} (h : Orderly x m)
    (phase : x'.phase = x.phase) (task : x'.task = x.task)
    (outlet : (∀ o, x.outlet = some o → o.Silent) → ∀ o, x'.outlet = some o → o.Silent) : Orderly x' m :=
  h.beside phase.symm.trans task outlet (List.append_nil _).symm (fun _ => List.not_mem_nil) h.lawful

private theorem Orderly.goesOn {x x' : Exchange ι κ τ} {m : Minutes ι σ} {task' : Task ι κ} (h : Orderly x m)
    (phase : x'.phase = .idle → x.phase = .idle) (running : x.task ≠ none) (task : x'.task = some task')
    (founded : task'.progress.Founded task'.session.response.committed m.notes)
    (outlet : (∀ o, x.outlet = some o → o.Silent) → ∀ o, x'.outlet = some o → o.Silent) : Orderly x' m where
  lawful := h.lawful
  fresh idle := absurd (h.fresh (phase idle)) running
  unbegun waiting := absurd (task.symm.trans waiting) nofun
  founded _ same := Option.some.inj (task.symm.trans same) ▸ founded
  silent := h.silent.imp_right outlet

private theorem Orderly.unchanged {x : Exchange ι κ τ} {m : Minutes ι σ} (h : Orderly x m) (world : σ) :
    Orderly x { m with world } :=
  ⟨h.lawful, h.fresh, h.unbegun, h.founded, h.silent⟩

theorem orderly_before {limits : BufferSettings} {executor : Executor} {handler : τ} {x : Exchange ι κ τ}
    (made : Exchange.ofHandler limits executor handler = .ok x) (world : σ) :
    Orderly x (⟨world, []⟩ : Minutes ι σ) := by
  obtain ⟨_, _, new⟩ := ok_of_map made
  have waiting : x.task = none := congrArg Exchange.task new
  have empty : x.outlet = none := congrArg Exchange.outlet new
  refine ⟨.nil, fun _ => waiting, fun _ _ => List.not_mem_nil, fun _ running => ?_, .inr fun _ placed => ?_⟩
  · exact absurd (waiting.symm.trans running) nofun
  · exact absurd (empty.symm.trans placed) nofun

private theorem answer_known {committed : Bool} {notes : List (Occurrence ι)} {answer : Answer}
    (h : (Call.done answer : Call ι κ).Founded committed notes) : Known committed (notes ++ [.heard answer]) := by
  rcases h with known | ⟨fault, reports, rfl, sent⟩
  · exact known.append (by simp [Unsent])
  · have order := (List.singleton_sublist.mpr sent).append (List.Sublist.refl [Occurrence.heard answer])
    exact .inr ⟨fault, answer, reports, order⟩

private theorem afterInput_founded (task : Task ι κ) (result : Except Fault Unit) {notes : List (Occurrence ι)}
    (closable : Closable task.session.response.committed notes) :
    (task.afterInput result).progress.Founded (task.afterInput result).session.response.committed notes := by
  cases result with
  | ok _ => exact Call.closeOutput_founded task.session closable
  | error cause => trivial

private theorem abortOutlet_keeps (x : Exchange ι κ τ) :
    x.abortOutlet.2.phase = x.phase ∧ x.abortOutlet.2.task = x.task ∧
    ((∀ o, x.outlet = some o → o.Silent) → ∀ o, x.abortOutlet.2.outlet = some o → o.Silent) := by
  simp only [Exchange.abortOutlet]
  split
  next none =>
    exact ⟨rfl, rfl, id⟩
  next outlet placed =>
    refine ⟨rfl, rfl, fun silent o same => ?_⟩
    exact Option.some.inj same ▸ (silent outlet placed).abort

private theorem Orderly.placing {x : Exchange ι κ τ} {m : Minutes ι σ} (h : Orderly x m) (x₀ : Exchange ι κ τ) :
    Orderly x (m.noting (placedBetween x₀ x)) := by
  have quiet : Unsent (placedBetween x₀ x) := by
    simp only [placedBetween]
    split <;> simp [Unsent]
  refine h.beside id rfl id rfl quiet ?_
  simp only [Minutes.noting, placedBetween]
  split
  · rw [List.append_nil]
    exact h.lawful
  next piece some =>
    apply h.lawful.append_one
    rcases h.silent with cleared | silent
    · exact cleared
    · have none : staged x = [] := by
        cases placed : x.outlet with
        | none => simp [staged, placed]
        | some outlet => simpa [staged, placed] using (silent outlet placed).1
      exact absurd (by rw [none, List.drop_nil]) some

private theorem Orderly.timeOut {x : Exchange ι κ τ} {m : Minutes ι σ} (h : Orderly x m) : Orderly x.timeOut m := by
  simp only [Exchange.timeOut]
  split
  next task outlet running _ =>
    have founded := h.founded task running
    have going : x.task ≠ none := fun waiting => absurd (running.symm.trans waiting) nofun
    split
    next call calling =>
      rw [calling] at founded
      exact h.goesOn id going rfl (Call.founded_timeOut _ founded) id
    next call closing =>
      rw [closing] at founded
      exact h.goesOn id going rfl ⟨Call.ofInput_timeOut _ founded.1, founded.2⟩ id
    next call closing =>
      rw [closing] at founded
      exact h.goesOn id going rfl (Call.founded_timeOut _ founded) id
    · exact h
  · exact h

variable [Transport ι σ]

private theorem Orderly.asked {x : Exchange ι κ τ} {m : Minutes ι σ} (h : Orderly x m) (ch : Option ι) :
    Orderly x (Outlet.ask ch m) := by
  have notes := m.notes_requestOutput ch
  exact h.beside id rfl id notes (unsent_asked ch) (notes ▸ lawful_asked h.lawful ch)

private theorem Orderly.produce {x : Exchange ι κ τ} {m : Minutes ι σ} (h : Orderly x m) (ch : ι) :
    Orderly (x.produce ch m).2.1 (x.produce ch m).2.2 := by
  simp only [Exchange.produce]
  split
  · exact h
  next outlet found =>
    have placed : x.outlet = some outlet := by
      cases present : x.outlet with
      | none => simp [Exchange.output, present] at found
      | some o => simpa [Exchange.output, present] using found
    have passes := outlet.flush_passes (h.silent.imp_right fun silent => silent outlet placed) ch
    obtain ⟨deeds, notes⟩ := outlet.flush_deeds ch m
    have quiet : Unsent (deeds.map (.deed : Deed ι → Occurrence ι)) := by simp [Unsent]
    refine ⟨passes.lawful h.lawful, h.fresh, fun waiting => ?_, fun task running => ?_, ?_⟩
    · rw [notes]
      exact (h.unbegun waiting).append quiet
    · rw [notes]
      exact (h.founded task running).append quiet
    · refine passes.silent.imp_right fun silent o same => ?_
      exact Option.some.inj same ▸ silent

private theorem Orderly.start {c : ExchangeRun ι κ σ τ} (h : Orderly c.exchange c.minutes) (request : Request)
    (hasBody : Bool) (context : Context) :
    Orderly (c.start request hasBody context).exchange (c.start request hasBody context).minutes := by
  rcases c.start_outcomes request hasBody context with ⟨_, same⟩ | ⟨idle, outcome⟩
  · rwa [same]
  · have begun : Orderly c.exchange (c.minutes.noting [.begun]) :=
      h.noting _ (by simp [Unsent]) (by simp [Occurrence.Law])
    have refused : Orderly c.exchange (c.minutes.noting [.begun, .refused]) :=
      h.noting _ (by simp [Unsent]) (by simp [Occurrence.Law])
    have waiting := h.fresh idle
    have untasked : ∀ notes : List (Occurrence ι), ∀ task, c.exchange.task = some task →
        task.progress.Founded task.session.response.committed notes :=
      fun _ _ running => absurd (running.symm.trans waiting) (Option.some_ne_none _)
    rcases outcome with ⟨_, same⟩ | ⟨inlet, outlet, executor, fresh, _, _, outcome⟩
    · rw [same]
      exact ⟨refused.lawful, by simp, fun _ => refused.unbegun waiting, untasked _, refused.silent⟩
    · have silent : outlet.Silent := by
        rw [Outlet.ofSettings_ok fresh]
        exact ⟨rfl, rfl⟩
      rcases outcome with same | same
      · rw [same]
        refine ⟨begun.lawful, by simp, by simp, fun task running => ?_, .inr fun o placed => ?_⟩
        · obtain rfl := Option.some.inj running
          exact begun.unbegun waiting
        · exact Option.some.inj placed ▸ silent
      · rw [same]
        refine ⟨refused.lawful, by simp, fun _ => refused.unbegun waiting, untasked _, .inr fun o placed => ?_⟩
        exact Option.some.inj placed ▸ silent.abort

variable [CapacityChannel κ σ] [ResponseChannel σ]

private theorem Orderly.stepCall {x : Exchange ι κ τ} {m : Minutes ι σ} (h : Orderly x m) {task : Task ι κ}
    {progress : Call ι κ → Progress ι κ} {call : Call ι κ} (running : x.task = some task)
    (founded : call.Founded task.session.response.committed m.notes)
    (next : ∀ outlet after, call.step (x.ground task outlet) m = after →
      after.2.1.Founded after.2.2.1.session.response.committed after.2.2.2.notes →
      (progress after.2.1).Founded after.2.2.1.session.response.committed after.2.2.2.notes) :
    Orderly (x.stepCall task progress call m).2.1 (x.stepCall task progress call m).2.2 := by
  simp only [Exchange.stepCall]
  split
  · exact h
  next outlet placed =>
    have silent : Cleared m.notes ∨ outlet.Silent := h.silent.imp_right fun silent => silent outlet placed
    have proceeds := Call.step_proceeds (g := x.ground task outlet) founded silent
    refine ⟨proceeds.lawful h.lawful, fun idle => ?_, nofun, ?_, ?_⟩
    · exact absurd (running.symm.trans (h.fresh idle)) nofun
    · rintro t same
      obtain rfl := Option.some.inj same
      exact next outlet _ rfl proceeds.founded
    · refine proceeds.silent.imp_right fun silent o same => ?_
      obtain rfl := Option.some.inj same
      exact silent

private theorem Orderly.stepClosingInput {x : Exchange ι κ τ} {m : Minutes ι σ} (h : Orderly x m) {task : Task ι κ}
    {call : Call ι κ} (running : x.task = some task) (input : call.OfInput)
    (closable : Closable task.session.response.committed m.notes) :
    Orderly (x.stepCall task .closingInput call m).2.1 (x.stepCall task .closingInput call m).2.2 := by
  apply h.stepCall running (input.founded closable.known)
  rintro outlet after rfl _
  obtain ⟨still, _, response, notes⟩ := Call.step_ofInput input (x.ground task outlet) m
  refine ⟨still, ?_⟩
  rw [notes, response]
  exact closable

variable [Handler τ]

omit [ResponseChannel σ] in
private theorem Orderly.discharge {c : ExchangeRun ι κ σ τ} (h : Orderly c.exchange c.minutes) (duty : Duty ι κ) :
    Orderly (c.discharge duty).exchange (c.discharge duty).minutes := by
  cases duty with
  | announce ch increment =>
    have quiet : (CapacityChannel.update ch increment c.minutes).2 =
      { c.minutes with world := (CapacityChannel.update ch increment c.minutes.world).2 } := rfl
    simp only [ExchangeRun.discharge]
    split
    next m' passed =>
      rw [passed] at quiet
      rw [show m' = _ from quiet]
      exact h.unchanged _
    next m' failed =>
      rw [failed] at quiet
      rw [show m' = _ from quiet]
      exact h.unchanged _
  | revoke increment => exact h.changed rfl rfl id
  | abortInlet => exact h.changed rfl rfl id
  | abortOutlet =>
    obtain ⟨phase, task, outlet⟩ := abortOutlet_keeps c.exchange
    exact h.changed phase task outlet
  | ask ch => exact h.asked ch
  | release => exact h.changed rfl rfl id

private theorem think_founded {task : Task ι κ} (handler : τ) {notes : List (Occurrence ι)}
    (known : Known task.session.response.committed notes) (thinking : task.progress = .thinking) :
    (task.think handler).2.1.progress.Founded (task.think handler).2.1.session.response.committed
      (notes ++ [.moved (Handler.next task.session handler).1]) := by
  have quiet : ∀ move, Unsent [(.moved move : Occurrence ι)] := by simp [Unsent]
  simp only [Task.think]
  split
  next act _ moved =>
    rw [moved]
    exact Call.start_founded task.session act known
  next result _ moved =>
    rw [moved]
    cases result with
    | ok _ => exact ⟨Call.ofInput_closeInput task.session, known.goesOn trivial⟩
    | error cause => trivial
  · trivial
  next rests =>
    simp only [thinking]
    exact known.append (quiet _)

omit [Transport ι σ] [CapacityChannel κ σ] [ResponseChannel σ] in
theorem Orderly.foretelling {x : Exchange ι κ τ} {m : Minutes ι σ} (h : Orderly x m) :
    Orderly x (m.noting (foretold x)) := by
  apply h.noting
  · simp only [foretold]
    split
    · simp [Unsent]
    · split <;> simp [Unsent]
  · simp only [foretold]
    split
    · simp
    · split <;> simp [Occurrence.Law]

/-- A section of the worker, whose intentions are noted in advance. -/
theorem Orderly.stepTask {x : Exchange ι κ τ} {m : Minutes ι σ} (h : Orderly x m) {task : Task ι κ}
    (running : x.task = some task) :
    Orderly (x.stepTask task (m.noting (foretold x))).2.1 (x.stepTask task (m.noting (foretold x))).2.2 := by
  have noted := h.foretelling
  have founded := h.founded task running
  have rests := noted.founded task running
  have going : x.task ≠ none := fun waiting => absurd (running.symm.trans waiting) (Option.some_ne_none _)
  obtain ⟨session, progress⟩ := task
  cases progress with
  | submitted => exact noted.goesOn id going rfl rests id
  | thinking =>
    have thought : foretold x = [.moved (Handler.next session x.handler).1] := by
      simp only [foretold, running]
    have after := think_founded x.handler founded rfl
    rw [← thought] at after
    exact noted.goesOn id going rfl after id
  | calling call =>
    cases call with
    | done answer =>
      have heard : foretold x = [.heard answer] := by
        simp only [foretold, running]
      have after := answer_known (show (Call.done answer : Call ι κ).Founded _ m.notes from founded)
      rw [← heard] at after
      exact noted.goesOn id going rfl after id
    | _ => exact noted.stepCall running rests fun _ _ _ h => h
  | closingInput call =>
    obtain ⟨input, closable⟩ := rests
    cases call with
    | done answer => exact noted.goesOn id going rfl (afterInput_founded _ answer.closed closable) id
    | _ => exact noted.stepClosingInput running input closable
  | closingOutput call =>
    cases call with
    | done answer =>
      refine noted.goesOn id going rfl ?_ id
      simp only [Task.afterOutput]
      split
      · trivial
      · trivial
    | _ => exact noted.stepCall running rests fun _ _ _ h => h
  | failing cause => exact noted.goesOn id going rfl trivial id
  | abortingInlet => exact noted.goesOn id going rfl trivial id
  | abortingOutlet =>
    have task : (x.abortOutlet.2.moveOn ⟨session, .abortingOutlet⟩ (.asking x.abortOutlet.1)).task =
      some ⟨session, .asking x.abortOutlet.1⟩ := rfl
    exact noted.goesOn (fun idle => (abortOutlet_keeps x).1.symm.trans idle) going task trivial
      (abortOutlet_keeps x).2.2
  | asking ch =>
    have after : Orderly (x.moveOn ⟨session, .asking ch⟩ .completing) (m.noting (foretold x)) :=
      noted.goesOn id going rfl trivial id
    exact after.asked ch
  | completing => exact noted.goesOn (fun ended => by cases ended) going rfl trivial id
  | finished => exact noted

private theorem Orderly.work {c : ExchangeRun ι κ σ τ} (h : Orderly c.exchange c.minutes) :
    Orderly c.work.exchange c.work.minutes := by
  have stepped : Orderly (c.exchange.step (c.minutes.noting (foretold c.exchange))).2.1
      (c.exchange.step (c.minutes.noting (foretold c.exchange))).2.2 := by
    cases running : c.exchange.task with
    | none =>
      have silent : foretold c.exchange = [] := by simp [foretold, running]
      simpa [Exchange.step, running, silent, Minutes.noting] using h
    | some task =>
      simp only [Exchange.step, running]
      exact h.stepTask running
  exact stepped.placing c.exchange

/-- Whatever happens keeps the order of head and body. -/
theorem Orderly.perform {c : ExchangeRun ι κ σ τ} (h : Orderly c.exchange c.minutes) (e : Event ι κ σ τ) :
    Orderly (c.perform e).exchange (c.perform e).minutes := by
  cases e with
  | start request hasBody context => exact h.start request hasBody context
  | consume bytes =>
    simp only [ExchangeRun.perform, Exchange.consume]
    split
    · exact h
    · exact h.changed rfl rfl id
  | streamEnd =>
    simp only [ExchangeRun.perform, Exchange.streamEnd]
    split
    · exact h
    · exact h.changed rfl rfl id
  | updateCapacity ch =>
    simp only [ExchangeRun.perform, ExchangeRun.register]
    split
    · exact h
    · exact h.changed rfl rfl id
  | produce ch => exact h.produce ch
  | failed cause =>
    have noted := h.noting [.failed cause] (by simp [Unsent]) (by simp [Occurrence.Law])
    exact noted.changed rfl rfl id
  | release => exact h.changed rfl rfl id
  | react =>
    simp only [ExchangeRun.perform]
    split
    · exact h
    next duty duties _ => exact Orderly.discharge (c := { c with duties }) h duty
  | work => exact h.work
  | timeOut => exact h.timeOut
  | prompt handler => exact h.changed rfl rfl id
  | become world => exact h.unchanged world

end ExchangeRun

/-- Whatever a handler and a reactor do in whatever order: at most one head is sent, and no byte of a
body is placed or written and no end is passed on before the head was sent, or before the handler has
heard that it was not and goes on all the same. -/
theorem body_behind_head [Handler τ] [Transport ι σ] [CapacityChannel κ σ] [ResponseChannel σ]
    (limits : BufferSettings) (executor : Executor) (handler : τ) (x : Exchange ι κ τ)
    (made : Exchange.ofHandler limits executor handler = .ok x) (world : σ)
    (events : List (ExchangeRun.Event ι κ σ τ)) :
    Lawful Occurrence.Law ((ExchangeRun.before x world).run events).minutes.notes := by
  have kept : ∀ c : ExchangeRun ι κ σ τ, ExchangeRun.Orderly c.exchange c.minutes → ∀ e : ExchangeRun.Event ι κ σ τ,
      (e.isCall = true → c.duties = []) → ExchangeRun.Orderly (c.perform e).exchange (c.perform e).minutes :=
    fun _ orderly e _ => orderly.perform e
  exact (ExchangeRun.run_induction kept events _ (ExchangeRun.orderly_before made world)).lawful

/-- A head that is sent, with a byte and the end behind it. -/
theorem body_behind_head_sent :
    let limits : BufferSettings := ⟨4, none⟩
    let x : Exchange Line Line Rehearsal := ⟨limits, .runtime, .idle, none, none, none, .silent, none, 0⟩
    let bench := Bench.ofChannels [⟨.withLimit none, ⟨false, false, 0⟩⟩]
    let events : List (ExchangeRun.Event Line Line Bench Rehearsal) :=
      [.start ⟨"GET", "/"⟩ false ⟨0, []⟩, .work, .prompt (Rehearsal.silent.tell (.act (.write [97]))), .work,
        .work, .work, .work, .work, .prompt (Rehearsal.silent.tell (.finish (.ok ()))), .work, .work, .work,
        .work, .produce (.outside 0)]
    let notes := ((ExchangeRun.before x bench).run events).minutes.notes
    Exchange.ofHandler limits .runtime Rehearsal.silent = .ok x ∧ Lawful Occurrence.Law notes ∧
      notes = [.begun, .moved (.act (.write [97])), .sent (.ok ()), .placed [97], .heard (.count (.ok 1)),
        .moved (.finish (.ok ())), .deed (.wrote (.outside 0) [97] (.ok 1)),
        .deed (.ended (.outside 0) (.ok ()))] := by
  refine ⟨by rfl, ?_, by rfl⟩
  exact body_behind_head ⟨4, none⟩ .runtime .silent _ (by rfl) _ _

/-- Whether an occurrence belongs to a body. -/
def Occurrence.OfBody : Occurrence ι → Prop
  | .placed _ | .deed (.wrote _ _ _) | .deed (.ended _ _) => True
  | _ => False

/-- Whether no body comes before its head has been sent. -/
def HeadFirst (notes : List (Occurrence ι)) : Prop :=
  Lawful (fun before entry => entry.OfBody → .sent (.ok ()) ∈ before) notes

/-- A head is refused, and still its handler can write a byte and leave it to the exchange to end the
body, which reaches the channel as if it had a head. -/
theorem refused_head_has_body :
    let x : Exchange Line Line Rehearsal := ⟨⟨4, none⟩, .runtime, .idle, none, none, none, .silent, none, 0⟩
    let bench : Bench := { Bench.ofChannels [⟨.withLimit none, ⟨false, false, 0⟩⟩] with refusing := true }
    let write := Rehearsal.silent.tell (.act (.write [97]))
    let events : List (ExchangeRun.Event Line Line Bench Rehearsal) :=
      [.start ⟨"GET", "/"⟩ false ⟨0, []⟩, .work, .prompt write, .work, .work, .work, .prompt write, .work,
        .work, .work, .work, .prompt (Rehearsal.silent.tell (.finish (.ok ()))), .work, .work, .work, .work,
        .produce (.outside 0)]
    let notes := ((ExchangeRun.before x bench).run events).minutes.notes
    let fault : Fault := .io .brokenPipe "response channel closed"
    notes = [.begun, .moved (.act (.write [97])), .sent (.error fault),
        .heard (.count (.error fault.toSystem)), .moved (.act (.write [97])), .placed [97],
        .heard (.count (.ok 1)), .moved (.finish (.ok ())), .deed (.wrote (.outside 0) [97] (.ok 1)),
        .deed (.ended (.outside 0) (.ok ()))] ∧
      ¬ HeadFirst notes := by
  refine ⟨by rfl, fun first => ?_⟩
  have sent := first
    [.begun, .moved (.act (.write [97])), .sent (.error (.io .brokenPipe "response channel closed")),
      .heard (.count (.error (.plain .brokenPipe "response channel closed"))), .moved (.act (.write [97]))]
    (.placed [97]) _ (by rfl) trivial
  simp at sent

end Sluice
