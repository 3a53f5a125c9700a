import Sluice.Bench
import Sluice.Bench.Rehearsal
import Sluice.Proofs.Exchange.HeadFirst
import Sluice.Proofs.Exchange.DraftedHead

/-! The head of a response is sent at most once, as the handler has made it up to its first write or closing of
the output. From then on it stays as it is. -/
namespace Sluice

variable {ι κ σ τ : Type}

/-- A handler that changes the head hears whether that was in time. -/
def Occurrence.Reply (before : List (Occurrence ι)) : Occurrence ι → Prop
  | .heard answer => ∀ act, (movesOf before).getLast? = some (.act act) → act.Mutates →
    answer = .plain (mutationOf (movesOf before))
  | _ => True

private theorem Occurrence.reply_unheard {entry : Occurrence ι} (unheard : entry.answer? = none)
    (before : List (Occurrence ι)) : entry.Reply before := by
  cases entry with
  | heard answer => cases unheard
  | _ => trivial

/-- How an exchange stands with the head of its response, and which heads have been sent already. -/
structure Exchange.Written (past : List HeadRecord) (x : Exchange ι κ τ) (m : Minutes ι (HeadLog σ)) : Prop where
  blank : x.task = none → movesOf m.notes = [] ∧ m.headRecords = []
  writes : ∀ task, x.task = some task → task.Writes m.headRecords (movesOf m.notes)
  replies : Lawful Occurrence.Reply m.notes
  kept : past ⊆ m.headRecords

namespace Exchange.Written

variable {past : List HeadRecord} {x x' : Exchange ι κ τ} {m m' : Minutes ι (HeadLog σ)}

private theorem replies_append {more : List (Occurrence ι)} (h : x.Written past m)
    (unheard : more.filterMap Occurrence.answer? = []) : Lawful Occurrence.Reply (m.notes ++ more) :=
  h.replies.append_free fun entry member => entry.reply_unheard (List.filterMap_eq_nil_iff.mp unheard entry member)

private theorem replies_foretold [Handler τ] (h : x.Written past m) :
    Lawful Occurrence.Reply (m.notes ++ ExchangeRun.foretold x) := by
  simp only [ExchangeRun.foretold]
  split
  · exact h.replies_append rfl
  next task running =>
    have come := (h.writes task running).progress
    split
    · exact h.replies_append rfl
    next answer calling =>
      rw [calling] at come
      obtain ⟨_, _, tells⟩ := come
      exact h.replies.append_one fun act last mutates => Call.done.inj (tells act last mutates)
    · exact h.replies_append rfl
    · exact h.replies_append rfl

private theorem goesOn (h : x.Written past m) (writes : x'.WritesHead m.headRecords m'.headRecords (movesOf m'.notes))
    (replies : Lawful Occurrence.Reply m'.notes) : x'.Written past m' := by
  obtain ⟨kept, task, running, writes⟩ := writes
  exact ⟨fun waiting => absurd (running.symm.trans waiting) nofun,
    fun _ same => Option.some.inj (running.symm.trans same) ▸ writes, replies, fun _ sent => kept (h.kept sent)⟩

private theorem beside {more : List (Occurrence ι)} (h : x.Written past m) (task : x'.task = x.task)
    (headRecords : m'.headRecords = m.headRecords) (notes : m'.notes = m.notes ++ more) (unmoved : movesOf more = [])
    (unheard : more.filterMap Occurrence.answer? = []) : x'.Written past m' := by
  have moves : movesOf m'.notes = movesOf m.notes := by
    rw [notes, movesOf_append, unmoved, List.append_nil]
  refine ⟨fun waiting => ?_, fun t running => ?_, notes ▸ h.replies_append unheard, headRecords.symm ▸ h.kept⟩
  · rw [moves, headRecords]
    exact h.blank (task.symm.trans waiting)
  · rw [moves, headRecords]
    exact h.writes t (task.symm.trans running)

private theorem still (h : x.Written past m) (task : x'.task = x.task) : x'.Written past m :=
  h.beside task rfl (List.append_nil _).symm rfl rfl

end Exchange.Written

namespace ExchangeRun

/-- The world becomes another one, but what was sent was sent. -/
def Event.keeping (headRecords : List HeadRecord) : Event ι κ σ τ → Event ι κ (HeadLog σ) τ
  | .start request hasBody context => .start request hasBody context
  | .consume bytes => .consume bytes
  | .streamEnd => .streamEnd
  | .updateCapacity ch => .updateCapacity ch
  | .produce ch => .produce ch
  | .failed cause => .failed cause
  | .release => .release
  | .react => .react
  | .work => .work
  | .timeOut => .timeOut
  | .prompt handler => .prompt handler
  | .become world => .become ⟨world, headRecords⟩

section
variable [Handler τ] [Transport ι σ] [CapacityChannel κ σ] [ResponseChannel σ]

/-- Let something happen to a run whose records of heads are kept. -/
def play (events : List (Event ι κ σ τ)) (c : ExchangeRun ι κ (HeadLog σ) τ) : ExchangeRun ι κ (HeadLog σ) τ :=
  events.foldl (fun c e => c.step (e.keeping c.minutes.headRecords)) c

private theorem play_induction {holds : ExchangeRun ι κ (HeadLog σ) τ → Prop}
    (perform : ∀ c, holds c → ∀ e : Event ι κ σ τ, holds (c.perform (e.keeping c.minutes.headRecords)))
    (events : List (Event ι κ σ τ)) (c : ExchangeRun ι κ (HeadLog σ) τ) (h : holds c) : holds (c.play events) := by
  induction events generalizing c with
  | nil => exact h
  | cons e rest ih =>
    refine ih _ ?_
    simp only [step]
    split
    · exact h
    · exact perform c h e

variable {past : List HeadRecord} {c : ExchangeRun ι κ (HeadLog σ) τ}

omit [Handler τ] [CapacityChannel κ σ] [ResponseChannel σ] in
private theorem written_start (h : c.exchange.Written past c.minutes)
    (fresh : c.exchange.phase = .idle → c.exchange.task = none) (request : Request) (hasBody : Bool)
    (context : Context) :
    (c.start request hasBody context).exchange.Written past (c.start request hasBody context).minutes := by
  rcases c.start_outcomes request hasBody context with ⟨_, same⟩ | ⟨idle, outcome⟩
  · rwa [same]
  · rcases outcome with ⟨_, same⟩ | ⟨inlet, outlet, executor, _, _, _, same | same⟩
    · rw [same]
      exact h.beside rfl rfl rfl rfl rfl
    · obtain ⟨unmoved, unsent⟩ := h.blank (fresh idle)
      have moves : movesOf (c.minutes.noting [.begun]).notes = [] := by
        rw [Minutes.noting, movesOf_append, unmoved]
        rfl
      rw [same]
      refine h.goesOn ⟨List.Subset.refl _, _, rfl, ?_⟩ (h.replies_append rfl)
      rw [moves, Minutes.headRecords_noting, unsent]
      exact ⟨Draft.ofHead_initial, fun closed => absurd closed Bool.false_ne_true, rfl, rfl⟩
    · rw [same]
      exact h.beside rfl rfl rfl rfl rfl

omit [ResponseChannel σ] in
private theorem written_discharge (h : c.exchange.Written past c.minutes) (duty : Duty ι κ) :
    (c.discharge duty).exchange.Written past (c.discharge duty).minutes := by
  cases duty with
  | announce ch increment =>
    have quiet : (CapacityChannel.update ch increment c.minutes).2.notes = c.minutes.notes ++ [] :=
      (List.append_nil _).symm
    have headRecords : (CapacityChannel.update ch increment c.minutes).2.headRecords = c.minutes.headRecords := rfl
    have after := h.beside rfl headRecords quiet rfl rfl
    simp only [ExchangeRun.discharge]
    split
    next passed =>
      rw [passed] at after
      exact after
    next failed =>
      rw [failed] at after
      exact after
  | revoke increment => exact h.still rfl
  | abortInlet => exact h.still rfl
  | abortOutlet => exact h.still c.exchange.task_abortOutlet
  | ask ch =>
    obtain ⟨more, notes, mute⟩ := c.minutes.mutely_requestOutput ch
    exact h.beside rfl (c.minutes.headRecords_requestOutput ch) notes mute.unmoved mute.plain.unheard
  | release => exact h.still rfl

private theorem written_work (h : c.exchange.Written past c.minutes) : c.work.exchange.Written past c.work.minutes := by
  have stepped : (c.exchange.step (c.minutes.noting (foretold c.exchange))).2.1.Written past
      (c.exchange.step (c.minutes.noting (foretold c.exchange))).2.2 := by
    cases running : c.exchange.task with
    | none =>
      have unforeseen : foretold c.exchange = [] := by simp only [foretold, running]
      simp only [Exchange.step, running, unforeseen]
      exact h.beside rfl rfl rfl rfl rfl
    | some task =>
      have writes := h.writes task running
      simp only [Exchange.step, running]
      -- a move is noted in advance, and only if the handler is asked for one
      by_cases thinking : task.progress = .thinking
      · have thought : foretold c.exchange = [.moved (Handler.next task.session c.exchange.handler).1] := by
          simp only [foretold, running, thinking]
        have after := writes.think thinking c.exchange.handler
        have replies := h.replies_foretold
        rw [thought] at replies ⊢
        simp only [Exchange.stepTask, thinking]
        refine h.goesOn ⟨List.Subset.refl _, _, rfl, ?_⟩ replies
        rw [Minutes.noting, movesOf_append]
        exact after
      · have unmoved := foretold_unmoved running thinking
        have moves : movesOf (c.minutes.noting (foretold c.exchange)).notes = movesOf c.minutes.notes := by
          rw [Minutes.noting, movesOf_append, unmoved, List.append_nil]
        have noted : c.exchange.Written past (c.minutes.noting (foretold c.exchange)) :=
          ⟨fun waiting => absurd (running.symm.trans waiting) (Option.some_ne_none task), moves.symm ▸ h.writes,
            h.replies_foretold, h.kept⟩
        obtain ⟨more, notes, mute⟩ := c.exchange.step_mutely (c.minutes.noting (foretold c.exchange))
        simp only [Exchange.step, running] at notes
        refine noted.goesOn ?_ (notes ▸ noted.replies_append mute.plain.unheard)
        rw [notes, movesOf_append, mute.unmoved, List.append_nil]
        exact (noted.writes task running).stepTask running thinking
  exact stepped.beside rfl rfl rfl (mute_placedBetween _ _).unmoved (mute_placedBetween _ _).plain.unheard

private theorem written_perform (h : c.exchange.Written past c.minutes)
    (fresh : c.exchange.phase = .idle → c.exchange.task = none) (e : Event ι κ σ τ) :
    (c.perform (e.keeping c.minutes.headRecords)).exchange.Written past
      (c.perform (e.keeping c.minutes.headRecords)).minutes := by
  cases e with
  | start request hasBody context => exact written_start h fresh request hasBody context
  | consume bytes =>
    simp only [Event.keeping, perform, Exchange.consume]
    split
    · exact h
    · exact h.still rfl
  | streamEnd =>
    simp only [Event.keeping, perform, Exchange.streamEnd]
    split
    · exact h
    · exact h.still rfl
  | updateCapacity ch =>
    simp only [Event.keeping, perform, register]
    split
    · exact h
    · exact h.still rfl
  | produce ch =>
    simp only [Event.keeping, perform, Exchange.produce]
    split
    · exact h
    next outlet _ =>
      obtain ⟨deeds, notes⟩ := outlet.flush_deeds ch c.minutes
      have mute := mute_deeds deeds
      exact h.beside rfl (outlet.flush_headRecords ch c.minutes) notes mute.unmoved mute.plain.unheard
  | failed cause => exact h.beside rfl rfl rfl rfl rfl
  | release => exact h.still rfl
  | react =>
    simp only [Event.keeping, perform]
    split
    · exact h
    next duty duties _ => exact written_discharge (c := { c with duties }) h duty
  | work => exact written_work h
  | timeOut =>
    cases running : c.exchange.task with
    | none =>
      have still : c.exchange.timeOut = c.exchange := by simp only [Exchange.timeOut, running]
      simp only [Event.keeping, perform, still]
      exact h
    | some task => exact h.goesOn ((h.writes task running).timeOut running) h.replies
  | prompt handler => exact h.still rfl
  | become world => exact h.beside rfl rfl (List.append_nil _).symm rfl rfl

private theorem written_play (h : c.exchange.Written past c.minutes) (orderly : Orderly c.exchange c.minutes)
    (events : List (Event ι κ σ τ)) : (c.play events).exchange.Written past (c.play events).minutes ∧
      Orderly (c.play events).exchange (c.play events).minutes := by
  have kept : ∀ c : ExchangeRun ι κ (HeadLog σ) τ, c.exchange.Written past c.minutes ∧ Orderly c.exchange c.minutes →
      ∀ e : Event ι κ σ τ, (c.perform (e.keeping c.minutes.headRecords)).exchange.Written past
          (c.perform (e.keeping c.minutes.headRecords)).minutes ∧
        Orderly (c.perform (e.keeping c.minutes.headRecords)).exchange
          (c.perform (e.keeping c.minutes.headRecords)).minutes :=
    fun _ ⟨h, orderly⟩ e => ⟨written_perform h orderly.fresh e, orderly.perform _⟩
  exact play_induction kept events c ⟨h, orderly⟩

end

end ExchangeRun

private theorem Filed.headRecord {headRecords : List HeadRecord} {response : Response}
    (h : Filed headRecords response) {headRecord : HeadRecord}
    (sent : headRecord ∈ headRecords) :
    headRecords = [headRecord] ∧ headRecord.head = response.head ∧ headRecord.entity = response.head.entity := by
  simp only [Filed] at h
  split at h
  · obtain ⟨result, rfl⟩ := h
    obtain rfl := List.mem_singleton.mp sent
    exact ⟨rfl, rfl, rfl⟩
  · exact absurd (h ▸ sent) List.not_mem_nil

/-- No head was sent if and only if none is committed. -/
theorem Filed.unsent_iff {headRecords : List HeadRecord} {response : Response} (h : Filed headRecords response) :
    headRecords = [] ↔ response.committed = false := by
  simp only [Filed] at h
  split at h
  next committed =>
    obtain ⟨result, rfl⟩ := h
    simp [committed]
  next uncommitted => simp [h, uncommitted]

private theorem Call.Files.filed {headRecords : List HeadRecord} {response : Response} {call : Call ι κ}
    (h : call.Files headRecords response) {headRecord : HeadRecord}
    (sent : headRecord ∈ headRecords) : Filed headRecords response := by
  cases call with
  | announcing head bytes => exact absurd (h.2.2 ▸ sent) List.not_mem_nil
  | completing => exact h.2
  | asking ch => exact h.2
  | _ => exact h

private theorem Task.Writes.headRecord {headRecords : List HeadRecord} {moves : List Move} {task : Task ι κ}
    (h : task.Writes headRecords moves) {headRecord : HeadRecord} (sent : headRecord ∈ headRecords) :
    headRecords = [headRecord] ∧ headRecord.head = task.session.response.head ∧
      headRecord.entity = task.session.response.head.entity := by
  have filed : ∀ {call : Call ι κ}, call.Files headRecords task.session.response →
      Filed headRecords task.session.response :=
    fun files => files.filed sent
  refine Filed.headRecord ?_ sent
  obtain ⟨session, progress⟩ := task
  have come := h.progress
  cases progress with
  | submitted => exact come.1
  | thinking => exact come.1
  | calling call => exact filed come.1
  | closingInput call => exact filed come
  | closingOutput call => exact filed come
  | _ => exact come

private theorem Exchange.Written.headRecord {past : List HeadRecord} {x : Exchange ι κ τ} {m : Minutes ι (HeadLog σ)}
    (h : x.Written past m) {headRecord : HeadRecord} (sent : headRecord ∈ m.headRecords) :
    m.headRecords = [headRecord] ∧ ∃ task, x.task = some task ∧ headRecord.head = task.session.response.head ∧
      headRecord.entity = task.session.response.head.entity := by
  cases running : x.task with
  | none => exact absurd ((h.blank running).2 ▸ sent) List.not_mem_nil
  | some task =>
    obtain ⟨only, head, entity⟩ := (h.writes task running).headRecord sent
    exact ⟨only, task, rfl, head, entity⟩

/-- Whatever a handler and a reactor do in whatever order, and whatever comes of sending a head: at most one is sent.
It is what the handler has made of it, from a default one, before it first wrote or closed its output, and the
description of its body tells of nothing but its type and encoding. From then on the head stays what it is. A call that
changes the head is over at once, with success before the first write or closing of the output and with a failure behind
it. -/
theorem head_sent_as_drafted [Handler τ] [Transport ι σ] [CapacityChannel κ σ] [ResponseChannel σ]
    (limits : BufferSettings) (executor : Executor) (handler : τ) (x : Exchange ι κ τ)
    (made : Exchange.ofHandler limits executor handler = .ok x) (world : σ)
    (events : List (ExchangeRun.Event ι κ σ τ)) :
    let c := (ExchangeRun.before x (⟨world, []⟩ : HeadLog σ)).play events
    let moves := movesOf c.minutes.notes
    let draft := draftOf moves
    (∀ headRecord ∈ c.minutes.headRecords,
      Draft.ofHead headRecord.head = draft ∧
      headRecord.entity = ⟨none, draft.told Http.contentType, draft.told Http.contentEncoding, false, []⟩ ∧
      ∀ more, (c.play more).minutes.headRecords = [headRecord] ∧
        ∀ task, (c.play more).exchange.task = some task → task.session.response.head = headRecord.head) ∧
    Lawful Occurrence.Reply c.minutes.notes ∧
    ∀ task, c.exchange.task = some task →
      Draft.ofHead task.session.response.head = draft ∧
      (task.progress = .thinking → (c.minutes.headRecords = [] ↔ committing moves = false)) ∧
      ∀ call, task.progress = .calling call → call.Tells moves := by
  intro c moves draft
  have waiting : x.task = none := by
    obtain ⟨_, _, new⟩ := ok_of_map made
    exact congrArg Exchange.task new
  have blank : x.Written [] (⟨⟨world, []⟩, []⟩ : Minutes ι (HeadLog σ)) :=
    ⟨fun _ => ⟨rfl, rfl⟩, fun task running => absurd (waiting.symm.trans running) nofun, Lawful.nil,
      List.Subset.refl _⟩
  obtain ⟨written, orderly⟩ : c.exchange.Written [] c.minutes ∧ ExchangeRun.Orderly c.exchange c.minutes :=
    ExchangeRun.written_play blank (ExchangeRun.orderly_before made _) events
  refine ⟨fun headRecord sent => ?_, written.replies, fun task running => ?_⟩
  · obtain ⟨_, task, running, head, entity⟩ := written.headRecord sent
    have drafted := (written.writes task running).drafted
    refine ⟨head ▸ drafted, ?_, fun more => ?_⟩
    · rw [entity, Draft.entity_ofHead, drafted]
    · -- from now on the record belongs to the past, which is kept
      have kept : c.exchange.Written c.minutes.headRecords c.minutes := { written with kept := List.Subset.refl _ }
      obtain ⟨later, _⟩ := ExchangeRun.written_play kept orderly more
      obtain ⟨only, task', running', head', _⟩ := later.headRecord (later.kept sent)
      exact ⟨only, fun t same => Option.some.inj (running'.symm.trans same) ▸ head'.symm⟩
  · have writes := written.writes task running
    have come := writes.progress
    refine ⟨writes.drafted, fun thinking => ?_, fun call calling => ?_⟩
    · rw [thinking] at come
      obtain ⟨filed, committed⟩ := come
      rw [filed.unsent_iff, committed]
    · rw [calling] at come
      exact come.2.2

/-- A handler sets a status, adds two values of a header, sets another one and writes. The head that is sent has them
all and is refused. The handler comes too late to remove a header, and no other head is sent any more. -/
theorem head_sent_as_drafted_refused :
    let x : Exchange Line Line Rehearsal := ⟨⟨4, none⟩, .runtime, .idle, none, none, none, .silent, none, 0⟩
    let bench : Bench := { Bench.ofChannels [⟨.withLimit none, ⟨false, false, 0⟩⟩] with refusing := true }
    let call (act : Act) : List (ExchangeRun.Event Line Line Bench Rehearsal) :=
      [.prompt (Rehearsal.silent.tell (.act act)), .work, .work]
    let c := (ExchangeRun.before x (⟨bench, []⟩ : HeadLog Bench)).play
      ([.start ⟨"GET", "/"⟩ false ⟨0, []⟩, .work] ++ call (.setStatus ⟨404⟩) ++ call (.addHeader ⟨"x-trace"⟩ ⟨[97]⟩) ++
        call (.addHeader ⟨"x-trace"⟩ ⟨[98]⟩) ++ call (.setHeader Http.contentType ⟨[116, 101]⟩) ++
        call (.write [97]) ++ [.work] ++ call (.removeHeader "X-Trace"))
    let fault : Fault := .io .brokenPipe "response channel closed"
    let headRecord : HeadRecord :=
      ⟨⟨⟨404⟩, .http11, ⟨[(⟨"x-trace"⟩, ⟨[97]⟩), (⟨"x-trace"⟩, ⟨[98]⟩), (Http.contentType, ⟨[116, 101]⟩)]⟩⟩,
        ⟨none, some "te", none, false, []⟩, .error fault⟩
    Exchange.ofHandler ⟨4, none⟩ .runtime Rehearsal.silent = .ok x ∧
      c.minutes.notes.filterMap Occurrence.answer? =
        [.plain (.ok ()), .plain (.ok ()), .plain (.ok ()), .plain (.ok ()), .count (.error fault.toSystem),
          .plain (.error .responseCommitted)] ∧
      c.minutes.headRecords = [headRecord] ∧ Draft.ofHead headRecord.head = draftOf (movesOf c.minutes.notes) ∧
      ∀ more, (c.play more).minutes.headRecords = [headRecord] := by
  obtain ⟨sent, _⟩ := head_sent_as_drafted ⟨4, none⟩ .runtime Rehearsal.silent
    (⟨⟨4, none⟩, .runtime, .idle, none, none, none, .silent, none, 0⟩ : Exchange Line Line Rehearsal) (by rfl)
    { Bench.ofChannels [⟨.withLimit none, ⟨false, false, 0⟩⟩] with refusing := true }
    (let call (act : Act) : List (ExchangeRun.Event Line Line Bench Rehearsal) :=
        [.prompt (Rehearsal.silent.tell (.act act)), .work, .work];
      [.start ⟨"GET", "/"⟩ false ⟨0, []⟩, .work] ++ call (.setStatus ⟨404⟩) ++ call (.addHeader ⟨"x-trace"⟩ ⟨[97]⟩) ++
        call (.addHeader ⟨"x-trace"⟩ ⟨[98]⟩) ++ call (.setHeader Http.contentType ⟨[116, 101]⟩) ++
        call (.write [97]) ++ [.work] ++ call (.removeHeader "X-Trace"))
  obtain ⟨drafted, _, lasting⟩ := sent
    ⟨⟨⟨404⟩, .http11, ⟨[(⟨"x-trace"⟩, ⟨[97]⟩), (⟨"x-trace"⟩, ⟨[98]⟩), (Http.contentType, ⟨[116, 101]⟩)]⟩⟩,
      ⟨none, some "te", none, false, []⟩, .error (.io .brokenPipe "response channel closed")⟩
    (List.mem_of_getElem? (i := 0) (by rfl))
  exact ⟨by rfl, by rfl, by rfl, drafted, fun more => (lasting more).1⟩

end Sluice
