import Sluice.Proofs.Exchange.HeadLog
import Sluice.Proofs.Exchange.Sealing

/-! How a task stands with the head of its response, section by section. The head is what the moves of the handler make
of it, and whoever commits it is about to send it. -/
namespace Sluice

variable {ι κ σ τ : Type}

/-- Whether a call that changes the head is over at once, with the answer that it is due. -/
def Call.Tells (moves : List Move) (call : Call ι κ) : Prop :=
  ∀ act, moves.getLast? = some (.act act) → act.Mutates → call = .done (.plain (mutationOf moves))

/-- How a task stands with the head. As long as the handler is asked, the head is committed if and only if one of its
moves has done so. -/
def Progress.Writes (headRecords : List HeadRecord) (moves : List Move) (response : Response) : Progress ι κ → Prop
  | .submitted | .thinking => Filed headRecords response ∧ response.committed = committing moves
  | .calling call => call.Files headRecords response ∧ response.committed = committing moves ∧ call.Tells moves
  | .closingInput call | .closingOutput call => call.Files headRecords response
  | _ => Filed headRecords response

/-- The head is what the handler's moves make of it, and it is committed before the output is closed. -/
structure Task.Writes (headRecords : List HeadRecord) (moves : List Move) (task : Task ι κ) : Prop where
  drafted : Draft.ofHead task.session.response.head = draftOf moves
  closed : task.session.outputClosed = true → task.session.response.committed = true
  progress : task.progress.Writes headRecords moves task.session.response

private theorem Draft.ofHead_mutate (response : Response) {change : Http.Head → Http.Head} {act : Act}
    (amends : ∀ head, ofHead (change head) = (ofHead head).amend act) :
    ofHead (response.mutate change).2.head =
      if response.committed then ofHead response.head else (ofHead response.head).amend act := by
  cases committed : response.committed with
  | true => simp [Response.mutate, committed]
  | false => simpa [Response.mutate, committed] using amends response.head

private theorem Response.committed_mutate (response : Response) (change : Http.Head → Http.Head) :
    (response.mutate change).2.committed = response.committed := by
  simp only [mutate]
  split
  · rfl
  · rfl

private theorem draftOf_other (moves : List Move) {act : Act} (other : ¬ act.Mutates) :
    draftOf (moves ++ [.act act]) = draftOf moves := by
  have nothing : (draftOf moves).follow (.act act) = draftOf moves := by
    cases act with
    | read room => rfl
    | closeInput => rfl
    | write bytes => rfl
    | flush => rfl
    | closeOutput => rfl
    | _ => exact absurd trivial other
  rw [draftOf_append, nothing, ite_self]

namespace Call

private theorem tells_other {moves : List Move} {act : Act} (other : ¬ act.Mutates) (call : Call ι κ) :
    call.Tells (moves ++ [.act act]) := by
  intro act' last mutates
  obtain rfl : act = act' := by simpa using last
  exact absurd mutates other

private theorem commit_committed (session : Session) (bytes : Option (List UInt8)) :
    (commit session bytes : Call ι κ × Session).2.response = { session.response with committed := true } := by
  simp only [commit, Response.commit]
  cases committed : session.response.committed with
  | true => exact congrArg (Response.mk session.response.head) committed
  | false => rfl

private theorem closeOutput_committed (session : Session)
    (closed : session.outputClosed = true → session.response.committed = true) :
    (closeOutput session : Call ι κ × Session).2.response = { session.response with committed := true } := by
  simp only [closeOutput]
  split
  next already => exact congrArg (Response.mk session.response.head) (closed already)
  · exact commit_committed session none

section
variable {headRecords : List HeadRecord} {moves : List Move} {session : Session}

private theorem writes_still (drafted : Draft.ofHead session.response.head = draftOf moves)
    (closed : session.outputClosed = true → session.response.committed = true)
    (committed : session.response.committed = committing moves) {act : Act} (call : Call ι κ) (other : ¬ act.Mutates)
    (uncommitting : Move.commits (.act act) = false) (files : call.Files headRecords session.response) :
    Task.Writes headRecords (moves ++ [.act act]) ⟨session, .calling call⟩ := by
  refine ⟨drafted.trans (draftOf_other moves other).symm, closed, files, ?_, tells_other other call⟩
  rw [committing_append, uncommitting, Bool.or_false]
  exact committed

private theorem writes_committing (drafted : Draft.ofHead session.response.head = draftOf moves) {act : Act}
    (call : Call ι κ) (session' : Session) (other : ¬ act.Mutates) (commits : Move.commits (.act act) = true)
    (same : session'.response = { session.response with committed := true })
    (files : call.Files headRecords session'.response) :
    Task.Writes headRecords (moves ++ [.act act]) ⟨session', .calling call⟩ := by
  refine ⟨?_, fun _ => by rw [same], files, ?_, tells_other other call⟩
  · rw [draftOf_other moves other, ← drafted, same]
  · rw [committing_append, commits, Bool.or_true, same]

private theorem writes_change (drafted : Draft.ofHead session.response.head = draftOf moves)
    (closed : session.outputClosed = true → session.response.committed = true)
    (filed : Filed headRecords session.response) (committed : session.response.committed = committing moves)
    (act : Act) (change : Http.Head → Http.Head) (uncommitting : Move.commits (.act act) = false)
    (amends : ∀ head, Draft.ofHead (change head) = (Draft.ofHead head).amend act) :
    Task.Writes headRecords (moves ++ [.act act])
      ⟨(Call.change session (session.response.mutate change) : Call ι κ × Session).2,
        .calling (Call.change session (session.response.mutate change) : Call ι κ × Session).1⟩ := by
  have same := session.response.committed_mutate change
  have counted : committing (moves ++ [.act act]) = committing moves := by
    rw [committing_append, uncommitting, Bool.or_false]
  refine ⟨?_, fun ended => same.trans (closed ended), filed_mutate filed change, ?_, fun _ _ _ => ?_⟩
  · rw [draftOf_append, ← drafted, ← committed]
    exact Draft.ofHead_mutate session.response amends
  · rw [counted]
    exact same.trans committed
  · rw [mutationOf, counted, ← committed]
    cases done : session.response.committed <;> simp [Call.change, Response.mutate, done]

/-- A call that the handler begins does with the head what the handler wants: it leaves it alone, or commits it, or
changes it. -/
theorem start_writes (drafted : Draft.ofHead session.response.head = draftOf moves)
    (closed : session.outputClosed = true → session.response.committed = true)
    (filed : Filed headRecords session.response)
    (committed : session.response.committed = committing moves) (act : Act) :
    Task.Writes headRecords (moves ++ [.act act])
      ⟨(start session act : Call ι κ × Session).2, .calling (start session act : Call ι κ × Session).1⟩ := by
  have files := files_start (ι := ι) (κ := κ) filed act
  have changes := writes_change (ι := ι) (κ := κ) drafted closed filed committed act
  cases act with
  | read room => exact writes_still drafted closed committed _ id rfl files
  | closeInput => exact writes_still drafted closed committed _ id rfl files
  | flush => exact writes_still drafted closed committed _ id rfl files
  | write bytes => exact writes_committing drafted _ _ id rfl (commit_committed session (some bytes)) files
  | closeOutput => exact writes_committing drafted _ _ id rfl (closeOutput_committed session closed) files
  | setStatus status => exact changes _ rfl fun _ => rfl
  | setVersion version => exact changes _ rfl fun _ => rfl
  | setHeader name value => exact changes _ rfl fun head => Draft.ofHead_insert head name value
  | addHeader name value => exact changes _ rfl fun head => Draft.ofHead_append head name value
  | removeHeader name =>
    refine changes _ rfl fun head => ?_
    simp only [Draft.amend]
    cases Http.HeaderName.ofString? name with
    | none => rfl
    | some name => exact Draft.ofHead_erase head name

end

end Call

/-- The task of an exchange has come to where the moves of its handler lead, and no record of a head is lost. -/
def Exchange.WritesHead (x : Exchange ι κ τ) (headRecords headRecords' : List HeadRecord) (moves : List Move) : Prop :=
  headRecords ⊆ headRecords' ∧ ∃ task, x.task = some task ∧ task.Writes headRecords' moves

private theorem Call.Tells.timeOut {moves : List Move} {call : Call ι κ} (h : call.Tells moves) (g : Ground ι κ) :
    (call.timeOut g).Tells moves := by
  intro act last mutates
  rw [h act last mutates]
  rfl

namespace Task.Writes

variable {headRecords : List HeadRecord} {moves : List Move} {task : Task ι κ}

private theorem moveOn (h : task.Writes headRecords moves) (x : Exchange ι κ τ) {progress : Progress ι κ}
    (after : progress.Writes headRecords moves task.session.response) :
    (x.moveOn task progress).WritesHead headRecords headRecords moves :=
  ⟨List.Subset.refl _, _, rfl, h.drafted, h.closed, after⟩

theorem timeOut {x : Exchange ι κ τ} (h : task.Writes headRecords moves) (running : x.task = some task) :
    x.timeOut.WritesHead headRecords headRecords moves := by
  have come := h.progress
  simp only [Exchange.timeOut]
  split
  next _ _ there _ =>
    obtain rfl := Option.some.inj (running.symm.trans there)
    split
    next calling =>
      rw [calling] at come
      obtain ⟨files, committed, tells⟩ := come
      exact h.moveOn x ⟨Call.files_timeOut files _, committed, tells.timeOut _⟩
    next closing =>
      rw [closing] at come
      exact h.moveOn x (Call.files_timeOut come _)
    next closing =>
      rw [closing] at come
      exact h.moveOn x (Call.files_timeOut come _)
    · exact ⟨List.Subset.refl _, _, running, h⟩
  · exact ⟨List.Subset.refl _, _, running, h⟩

theorem think [Handler τ] (h : task.Writes headRecords moves) (thinking : task.progress = .thinking) (handler : τ) :
    (task.think handler).2.1.Writes headRecords (moves ++ [(Handler.next task.session handler).1]) := by
  have come := h.progress
  rw [thinking] at come
  obtain ⟨filed, committed⟩ := come
  have still : ∀ (move : Move) (progress : Progress ι κ), (∀ d : Draft, d.follow move = d) → move.commits = false →
      (task.session.response.committed = committing (moves ++ [move]) →
        progress.Writes headRecords (moves ++ [move]) task.session.response) →
      Task.Writes headRecords (moves ++ [move]) { task with progress } := by
    intro move progress nothing uncommitting after
    refine ⟨?_, h.closed, after ?_⟩
    · rw [draftOf_append, nothing, ite_self]
      exact h.drafted
    · rw [committing_append, uncommitting, Bool.or_false]
      exact committed
  simp only [Task.think]
  split
  next act _ moved =>
    rw [moved]
    exact Call.start_writes h.drafted h.closed filed committed act
  next result _ moved =>
    rw [moved]
    refine still _ _ (fun _ => rfl) rfl fun _ => ?_
    cases result with
    | ok done => exact Call.files_closeInput filed
    | error cause => exact filed
  next moved =>
    rw [moved]
    exact still _ _ (fun _ => rfl) rfl fun _ => filed
  next rests =>
    rw [rests]
    exact still _ _ (fun _ => rfl) rfl fun same => thinking ▸ ⟨filed, same⟩

section
variable [Handler τ] [Transport ι σ] [CapacityChannel κ σ] [ResponseChannel σ]

omit [Handler τ] in
private theorem stepCall {x : Exchange ι κ τ} {m : Minutes ι (HeadLog σ)} (h : task.Writes m.headRecords moves)
    (running : x.task = some task) {progress : Call ι κ → Progress ι κ} {call : Call ι κ}
    (files : call.Files m.headRecords task.session.response)
    (next : ∀ call' headRecords, call'.Files headRecords task.session.response →
      (progress call').Writes headRecords moves task.session.response) :
    (x.stepCall task progress call m).2.1.WritesHead m.headRecords
      (x.stepCall task progress call m).2.2.headRecords moves := by
  cases placed : x.outlet with
  | none =>
    simp only [Exchange.stepCall, placed]
    exact ⟨List.Subset.refl _, task, running, h⟩
  | some outlet =>
    have sends := Call.step_sends (g := x.ground task outlet) files
    have same := sends.same
    rw [x.stepCall_placed placed]
    refine ⟨sends.kept, _, rfl, same ▸ h.drafted, fun ended => ?_, ?_⟩
    · rw [same]
      exact (sends.closed ended).elim h.closed id
    · rw [same]
      exact next _ _ sends.files

theorem stepTask {x : Exchange ι κ τ} {m : Minutes ι (HeadLog σ)} (h : task.Writes m.headRecords moves)
    (running : x.task = some task) (busy : task.progress ≠ .thinking) :
    (x.stepTask task m).2.1.WritesHead m.headRecords (x.stepTask task m).2.2.headRecords moves := by
  obtain ⟨session, progress⟩ := task
  have come := h.progress
  cases progress with
  | submitted => exact h.moveOn _ come
  | thinking => exact absurd rfl busy
  | calling call =>
    obtain ⟨files, committed, tells⟩ := come
    cases call with
    | done answer => exact h.moveOn _ ⟨files, committed⟩
    | _ =>
      refine h.stepCall running files fun _ _ files => ⟨files, committed, fun act last mutates => ?_⟩
      exact absurd (tells act last mutates) nofun
  | closingInput call =>
    cases call with
    | done answer =>
      simp only [Exchange.stepTask, Task.afterInput]
      split
      · have same := Call.closeOutput_committed (ι := ι) (κ := κ) session h.closed
        refine ⟨List.Subset.refl _, _, rfl, ?_, fun _ => by rw [same], Call.files_closeOutput come⟩
        rw [same]
        exact h.drafted
      · exact h.moveOn x come
    | _ => exact h.stepCall running come fun _ _ files => files
  | closingOutput call =>
    cases call with
    | done answer =>
      simp only [Exchange.stepTask, Task.afterOutput]
      split
      · exact h.moveOn x come
      · exact h.moveOn x come
    | _ => exact h.stepCall running come fun _ _ files => files
  | failing cause => exact h.moveOn _ come
  | abortingInlet => exact h.moveOn _ come
  | abortingOutlet => exact h.moveOn _ come
  | asking ch =>
    have headRecords := m.headRecords_requestOutput ch
    have after : (x.moveOn ⟨session, .asking ch⟩ .completing).WritesHead m.headRecords m.headRecords moves := h.moveOn x come
    exact headRecords.symm ▸ after
  | completing => exact h.moveOn _ come
  | finished => exact ⟨List.Subset.refl _, _, running, h⟩

end

end Task.Writes
end Sluice
