import Sluice.Bench
import Sluice.Bench.Rehearsal
import Sluice.Proofs.Exchange.Winner

/-! One caller at the most occupies an exchange, and the handler is started for that one at the most. All
others are in vain. -/
namespace Sluice

variable {ι κ σ τ : Type}

namespace CalledExchange

/-- Nobody has occupied the exchange. -/
structure Vacant (r : CalledExchange ι κ σ τ) : Prop where
  phase : r.exchange.phase = .idle
  task : r.exchange.task = none
  runs : r.exchange.runs = 0
  log : r.log = []
  callers : ∀ (place : Nat) (v : Caller ι κ), r.callers[place]? = some v → v.stage = .knocking

/-- One caller has occupied the exchange, and all others are in vain. -/
structure Occupied (r : CalledExchange ι κ σ τ) (place : Nat) (v : Caller ι κ) : Prop where
  present : r.callers[place]? = some v
  noted : .occupied place ∈ r.log
  stands : v.stage.Stands r.exchange r.log place
  others : ∀ (other : Nat) (v' : Caller ι κ), other ≠ place → r.callers[other]? = some v' →
    v'.stage = .knocking ∨ v'.stage = .done (.ok ())

/-- What holds at any time. A buffer is in its place if and only if that is noted. -/
structure Sound (r : CalledExchange ι κ σ τ) : Prop where
  valid : r.exchange.limits.validate = .ok ()
  slots : ∀ side, (r.exchange.conduit? side).isSome = true ↔ ∃ place, .furnished side place ∈ r.log
  standing : r.Vacant ∨ ∃ place v, r.Occupied place v

private theorem Occupied.busy {r : CalledExchange ι κ σ τ} {place : Nat} {v : Caller ι κ} (h : r.Occupied place v) :
    r.exchange.phase ≠ .idle := by
  have stands := h.stands
  have active : r.exchange.phase = .active → r.exchange.phase ≠ .idle := fun phase => by rw [phase]; nofun
  obtain ⟨request, hasBody, context, stage⟩ := v
  cases stage with
  | knocking => exact stands.elim
  | returning => exact stands.1
  | done result =>
    cases result with
    | ok value => exact stands.1
    | error fault =>
      rw [stands.1]
      nofun
  | _ => exact active stands.1.phase

section
variable [Handler τ] [Transport ι σ] [CapacityChannel κ σ] [ResponseChannel σ]

private theorem Sound.befall {r : CalledExchange ι κ σ τ} (h : r.Sound) (other : OtherSection ι κ σ τ) :
    (r.step (.befall other)).Sound := by
  have endures := r.exchange.undergo_endures r.world other
  refine ⟨endures.limits ▸ h.valid, fun side => ?_, ?_⟩
  · exact (iff_of_eq (congrArg (· = true) (endures.lasts.isSome_iff side))).trans (h.slots side)
  · rcases h.standing with vacant | ⟨place, v, occupied⟩
    · obtain ⟨phase, runs⟩ := endures.idle vacant.task
      exact .inl ⟨phase.trans vacant.phase, endures.untasked vacant.task, runs.trans vacant.runs, vacant.log,
        vacant.callers⟩
    · exact .inr ⟨place, v, occupied.present, occupied.noted, occupied.stands.endures endures, occupied.others⟩

omit [CapacityChannel κ σ] [ResponseChannel σ] [Handler τ] in
/-- A caller that finds the exchange occupied is over, and has no effect but that. -/
theorem Occupied.step_other {r : CalledExchange ι κ σ τ} {place other : Nat} {v v' : Caller ι κ}
    (h : r.Occupied place v)
    (outer : other ≠ place) (there : r.callers[other]? = some v') (reply : Except Fault Unit × Executor) :
    v'.step other reply r.exchange r.world = (.done (.ok ()), r.exchange, r.world, []) := by
  have refused : r.exchange.occupy = (false, r.exchange) := by
    unfold Exchange.occupy
    split
    next idle => exact absurd idle h.busy
    · rfl
  rcases h.others other v' outer there with knocking | ended
  · simp only [Caller.step, knocking, refused]
  · simp only [Caller.step, ended]

private theorem Sound.proceed {r : CalledExchange ι κ σ τ} (h : r.Sound) (place : Nat)
    (reply : Except Fault Unit × Executor) :
    (r.step (.proceed place reply)).Sound := by
  cases found : r.callers[place]? with
  | none => simpa only [step, found] using h
  | some v =>
    have furnishes := v.step_furnishes place reply r.exchange r.world
    have itself : ∀ stage, (r.callers.modify place (·.goOn stage))[place]? = some (v.goOn stage) := by
      intro stage
      rw [List.getElem?_modify_eq, found]
      rfl
    have beside : ∀ stage other, other ≠ place →
        (r.callers.modify place (·.goOn stage))[other]? = r.callers[other]? :=
      fun stage other outer => List.getElem?_modify_ne _ _ outer.symm
    simp only [step, found]
    refine ⟨furnishes.limits ▸ h.valid, fun side => ?_, ?_⟩
    · simp only [furnishes.noted side, h.slots side, List.mem_append, exists_or]
    · rcases h.standing with vacant | ⟨winner, w, occupied⟩
      · -- whoever finds nobody before him occupies the exchange
        have knocking := vacant.callers place v found
        have first : v.step place reply r.exchange r.world =
            (.allocating, { r.exchange with phase := .active }, r.world, [.occupied place]) := by
          simp only [Caller.step, knocking, Exchange.occupy, vacant.phase]
        simp only [first, vacant.log, List.nil_append]
        refine .inr ⟨place, v.goOn .allocating, itself _, List.mem_cons_self, ?_, fun other v' outer there => ?_⟩
        · exact ⟨⟨rfl, vacant.task, vacant.runs⟩, rfl⟩
        · exact .inl (vacant.callers other v' ((beside _ other outer).symm.trans there))
      · by_cases same : place = winner
        · subst same
          obtain rfl := Option.some.inj (found.symm.trans occupied.present)
          refine .inr ⟨place, _, itself _, List.mem_append_left _ occupied.noted, ?_, fun other v' outer there => ?_⟩
          · exact Caller.step_stands occupied.stands h.valid reply r.world
          · exact occupied.others other v' outer ((beside _ other outer).symm.trans there)
        · have still := occupied.step_other same found reply
          simp only [still, List.append_nil]
          refine .inr ⟨winner, w, ?_, occupied.noted, occupied.stands, fun other v' outer there => ?_⟩
          · exact (beside _ winner (Ne.symm same)).trans occupied.present
          · by_cases here : other = place
            · subst here
              obtain rfl := Option.some.inj ((itself _).symm.trans there)
              exact .inr rfl
            · exact occupied.others other v' outer ((beside _ other here).symm.trans there)

private theorem Sound.arrive {r : CalledExchange ι κ σ τ} (h : r.Sound) (request : Request)
    (hasBody : Bool) (context : Context) :
    (r.step (.arrive request hasBody context)).Sound := by
  have found : ∀ {place : Nat} {v : Caller ι κ},
      (r.callers ++ [⟨request, hasBody, context, .knocking⟩])[place]? = some v →
      r.callers[place]? = some v ∨ v.stage = .knocking := by
    intro place v there
    rw [List.getElem?_append] at there
    split at there
    · exact .inl there
    · obtain rfl := List.mem_singleton.mp (List.mem_of_getElem? there)
      exact .inr rfl
  refine ⟨h.valid, h.slots, ?_⟩
  rcases h.standing with vacant | ⟨place, v, occupied⟩
  · refine .inl ⟨vacant.phase, vacant.task, vacant.runs, vacant.log, fun place v there => ?_⟩
    exact (found there).elim (vacant.callers place v) id
  · refine .inr ⟨place, v, ?_, occupied.noted, occupied.stands, fun other v' outer there => ?_⟩
    · exact List.getElem?_append_left (List.getElem?_eq_some_iff.mp occupied.present).1 ▸ occupied.present
    · exact (found there).elim (occupied.others other v' outer) .inl

theorem Sound.step {r : CalledExchange ι κ σ τ} (h : r.Sound) (e : Event ι κ σ τ) : (r.step e).Sound := by
  cases e with
  | arrive request hasBody context => exact h.arrive request hasBody context
  | proceed place reply => exact h.proceed place reply
  | befall other => exact h.befall other

theorem Sound.run {r : CalledExchange ι κ σ τ} (h : r.Sound) (events : List (Event ι κ σ τ)) :
    (r.run events).Sound := by
  induction events generalizing r with
  | nil => exact h
  | cons e rest ih => exact ih (h.step e)

private theorem furnished_lasts (r : CalledExchange ι κ σ τ) {side : Side}
    (there : (r.exchange.conduit? side).isSome = true)
    (more : List (Event ι κ σ τ)) :
    Option.Rel Conduit.Lasts (r.exchange.conduit? side) ((r.run more).exchange.conduit? side) := by
  have step : ∀ (r : CalledExchange ι κ σ τ) e, (r.exchange.conduit? side).isSome = true →
      Option.Rel Conduit.Lasts (r.exchange.conduit? side) ((r.step e).exchange.conduit? side) := by
    intro r e there
    cases e with
    | arrive request hasBody context => exact Exchange.Lasts.refl r.exchange side
    | proceed place reply =>
      simp only [CalledExchange.step]
      split
      · exact Exchange.Lasts.refl r.exchange side
      next v _ => exact (v.step_furnishes place reply r.exchange r.world).lasts side there
    | befall other => exact (r.exchange.undergo_endures r.world other).lasts side
  induction more generalizing r with
  | nil => exact Exchange.Lasts.refl r.exchange side
  | cons e rest ih =>
    obtain ⟨c, here⟩ := Option.isSome_iff_exists.mp there
    obtain ⟨c', next, lasts⟩ := Conduit.rel_some here (step r e there)
    obtain ⟨c'', last, lasts'⟩ := Conduit.rel_some next (ih (r.step e) (by rw [next]; rfl))
    have after : (r.run (e :: rest)).exchange.conduit? side = some c'' := last
    rw [here, after]
    exact .some (lasts.trans lasts')

private theorem run_left (r : CalledExchange ι κ σ τ) {place : Nat} {v : Caller ι κ}
    (there : r.callers[place]? = some v)
    (events : List (Event ι κ σ τ)) :
    ∃ v', (r.run events).callers[place]? = some v' ∧ v'.left ≤ v.left - events.countP (Event.isOf place) := by
  induction events generalizing r v with
  | nil => exact ⟨v, there, Nat.le_refl _⟩
  | cons e rest ih =>
    have within := (List.getElem?_eq_some_iff.mp there).1
    have on : ∀ v₁ : Caller ι κ, (r.step e).callers[place]? = some v₁ →
        v₁.left ≤ v.left - (if Event.isOf place e then 1 else 0) →
        ∃ v', (r.run (e :: rest)).callers[place]? = some v' ∧
          v'.left ≤ v.left - (e :: rest).countP (Event.isOf place) := by
      intro v₁ next nearer
      obtain ⟨v', last, fewer⟩ := ih (r.step e) next
      refine ⟨v', last, ?_⟩
      rw [List.countP_cons]
      omega
    cases e with
    | arrive request hasBody context =>
      refine on v ?_ (Nat.le_refl _)
      exact (List.getElem?_append_left within).trans there
    | befall other => exact on v there (Nat.le_refl _)
    | proceed other reply =>
      by_cases same : other = place
      · subst same
        refine on (v.goOn (v.step other reply r.exchange r.world).1) ?_ ?_
        · simp only [CalledExchange.step, there, List.getElem?_modify_eq]
          rfl
        · simpa [Event.isOf] using v.step_left other reply r.exchange r.world
      · refine on v ?_ (by simp [Event.isOf, same])
        simp only [CalledExchange.step]
        split
        · exact there
        · exact (List.getElem?_modify_ne _ _ same).trans there

omit [Handler τ] [Transport ι σ] [CapacityChannel κ σ] [ResponseChannel σ] in
private theorem sound_before {limits : BufferSettings} {executor : Executor} {handler : τ} {x : Exchange ι κ τ}
    (made : Exchange.ofHandler limits executor handler = .ok x) (world : σ) : (before x world).Sound := by
  obtain ⟨_, valid, new⟩ := ok_of_map made
  refine ⟨(congrArg (·.limits.validate) new).trans valid, fun side => ?_, .inl ?_⟩
  · have nowhere : (before x world).exchange.conduit? side = none := by
      simp only [before, new]
      cases side with
      | input => rfl
      | output => rfl
    rw [nowhere]
    simp [before]
  · exact ⟨congrArg Exchange.phase new, congrArg Exchange.task new, congrArg Exchange.runs new, rfl,
      fun _ _ there => absurd (List.getElem?_nil.symm.trans there) (Option.some_ne_none _).symm⟩

private theorem Sound.next {r : CalledExchange ι κ σ τ} (h : r.Sound) (e : Event ι κ σ τ) :
    r.exchange.phase.Next (r.step e).exchange.phase := by
  have same : ∀ {phase}, phase = r.exchange.phase → r.exchange.phase.Next phase := fun same => same ▸ .stays _
  cases e with
  | arrive request hasBody context => exact .stays _
  | befall other =>
    rcases (r.exchange.undergo_endures r.world other).phase with still | ⟨running, completed⟩
    · exact same still
    · have busy : r.exchange.phase ≠ .idle := by
        rcases h.standing with vacant | ⟨place, v, occupied⟩
        · rw [vacant.task] at running
          cases running
        · exact occupied.busy
      have completed : (r.step (.befall other)).exchange.phase = .completed := completed
      rw [completed]
      cases phase : r.exchange.phase with
      | idle => exact absurd phase busy
      | active => exact .ends
      | completed => exact .stays _
  | proceed place reply =>
    simp only [CalledExchange.step]
    cases found : r.callers[place]? with
    | none => exact .stays _
    | some v =>
      rcases h.standing with vacant | ⟨winner, w, occupied⟩
      · have knocking := vacant.callers place v found
        simp only [Caller.step, knocking, Exchange.occupy, vacant.phase]
        exact .begins
      · by_cases itself : place = winner
        · subst itself
          obtain rfl := Option.some.inj (found.symm.trans occupied.present)
          exact Caller.step_next occupied.stands reply r.world
        · simp only [occupied.step_other itself found reply]
          exact .stays _

/-- Whoever goes on and has not occupied the exchange is over, and has no effect but that. -/
theorem Sound.step_vain {r : CalledExchange ι κ σ τ} (h : r.Sound) {place : Nat} {reply : Except Fault Unit × Executor}
    (vain : .occupied place ∉ (r.step (.proceed place reply)).log) :
    r.step (.proceed place reply) = { r with callers := r.callers.modify place (·.goOn (.done (.ok ()))) } := by
  cases found : r.callers[place]? with
  | none =>
    simp only [CalledExchange.step, found]
    rw [List.modify_eq_self (List.getElem?_eq_none_iff.mp found)]
  | some v =>
    simp only [CalledExchange.step, found] at vain ⊢
    rcases h.standing with vacant | ⟨winner, w, occupied⟩
    · have knocking := vacant.callers place v found
      simp [Caller.step, knocking, Exchange.occupy, vacant.phase] at vain
    · have outer : place ≠ winner := by
        rintro rfl
        exact vain (List.mem_append_left _ occupied.noted)
      simp only [occupied.step_other outer found reply, List.append_nil]

end

/-- What has become of the task that a caller has handed over: nothing, if it was refused. When the caller is over it
answers what it was told, and after a refusal the exchange is over too and has no live buffer. -/
structure Answered (r : CalledExchange ι κ σ τ) (place : Nat) (reply : Except Fault Unit) : Prop where
  refused : ∀ fault, reply = .error fault → r.exchange.task = none ∧ r.exchange.runs = 0
  ends : ∀ (v : Caller ι κ) result, r.callers[place]? = some v → v.stage = .done result →
    result = reply ∧ ∀ fault, reply = .error fault → r.exchange.phase = .completed ∧ r.exchange.Sealed

private theorem Occupied.answered {r : CalledExchange ι κ σ τ} {winner place : Nat}
    {v : Caller ι κ} {reply : Except Fault Unit}
    (h : r.Occupied winner v) (submitted : .submitted place reply ∈ r.log) : r.Answered place reply := by
  have stands := h.stands
  have unsubmitted : ∀ {noted : List StartEvent}, r.log.Sublist noted → .submitted place reply ∉ noted → False :=
    fun within none => none (within.subset submitted)
  have only : ∀ {reply'}, Submitted r.log winner reply' → place = winner ∧ reply = reply' := by
    rintro reply' ⟨noted, log, within⟩
    rw [log] at submitted
    rcases List.mem_append.mp submitted with before | last
    · exact absurd (within.subset before) (by simp [furnishing])
    · simpa using last
  have found : ∀ {v' : Caller ι κ}, place = winner → r.callers[place]? = some v' → v' = v := by
    rintro v' rfl there
    exact Option.some.inj (there.symm.trans h.present)
  have refused : ∀ {fault}, r.exchange.Waiting → Submitted r.log winner (.error fault) →
      (∀ result, v.stage ≠ .done result) → r.Answered place reply := by
    intro fault waiting told going
    obtain ⟨itself, rfl⟩ := only told
    exact ⟨fun _ _ => ⟨waiting.task, waiting.runs⟩,
      fun v' result there ended => absurd (found itself there ▸ ended) (going result)⟩
  obtain ⟨request, hasBody, context, stage⟩ := v
  cases stage with
  | knocking => exact stands.elim
  | allocating => exact (unsubmitted (List.Sublist.refl _) (by simp [stands.2])).elim
  | placingInlet inlet outlet => exact (unsubmitted (List.Sublist.refl _) (by simp [stands.2])).elim
  | placingOutlet outlet => exact (unsubmitted stands.2 (by simp)).elim
  | submitting => exact (unsubmitted stands.2 (by simp [furnishing])).elim
  | returning =>
    obtain ⟨itself, rfl⟩ := only stands.2.2.2
    refine ⟨nofun, fun v' result there ended => ?_⟩
    rw [found itself there] at ended
    cases ended
  | abortingInlet fault => exact refused stands.1 stands.2 nofun
  | abortingOutlet fault => exact refused stands.1 stands.2.1 nofun
  | asking fault ch => exact refused stands.1 stands.2.1 nofun
  | completing fault => exact refused stands.1 stands.2.1 nofun
  | done result =>
    have same : ∀ (v' : Caller ι κ) result', place = winner → r.callers[place]? = some v' →
        v'.stage = .done result' → result' = result := by
      intro v' result' itself there ended
      rw [found itself there] at ended
      exact (StartStage.done.inj ended).symm
    cases result with
    | ok value =>
      obtain ⟨itself, rfl⟩ := only stands.2.2.2
      exact ⟨nofun, fun v' result there ended => ⟨same v' result itself there ended, nofun⟩⟩
    | error fault =>
      obtain ⟨completed, waiting, unstarted, told, closed⟩ := stands
      obtain ⟨itself, rfl⟩ := only told
      exact ⟨fun _ _ => ⟨waiting, unstarted⟩,
        fun v' result there ended => ⟨same v' result itself there ended, fun _ _ => ⟨completed, closed⟩⟩⟩

end CalledExchange

/-- However many requests arrive at an exchange, from whatever callers and between whatever else happens to it, and
whatever its executor does with a task: its life goes one way. One caller at the most occupies the exchange, fills each
place of a buffer once and hands over one task, and the handler is started once at the most. A buffer is in its
place if and only if that caller has put it there, and stays. All other callers have no effect and go well. If the task
is refused it is never started, and the caller ends with the exchange completed and no live buffer. Every caller is over
after nine sections. -/
theorem handler_started_once [Handler τ] [Transport ι σ] [CapacityChannel κ σ] [ResponseChannel σ]
    (limits : BufferSettings) (executor : Executor) (handler : τ) (x : Exchange ι κ τ)
    (made : Exchange.ofHandler limits executor handler = .ok x) (world : σ)
    (events : List (CalledExchange.Event ι κ σ τ)) :
    let r := (CalledExchange.before x world).run events
    (∀ e, r.exchange.phase.Next (r.step e).exchange.phase) ∧
    (∃ place reply, r.log.Sublist
      [.occupied place, .furnished .input place, .furnished .output place, .submitted place reply]) ∧
    r.exchange.runs ≤ 1 ∧
    (∀ side, ((r.exchange.conduit? side).isSome = true ↔ ∃ place, .furnished side place ∈ r.log) ∧
      ((r.exchange.conduit? side).isSome = true → ∀ more,
        Option.Rel Conduit.Lasts (r.exchange.conduit? side) ((r.run more).exchange.conduit? side))) ∧
    (∀ place reply, .occupied place ∉ (r.step (.proceed place reply)).log →
      r.step (.proceed place reply) = { r with callers := r.callers.modify place (·.goOn (.done (.ok ()))) }) ∧
    (∀ place reply, .submitted place reply ∈ r.log → r.Answered place reply) ∧
    (∀ (place : Nat) v, r.callers[place]? = some v → ∀ more, 9 ≤ more.countP (CalledExchange.Event.isOf place) →
      ∃ v' result, (r.run more).callers[place]? = some v' ∧ v'.stage = .done result) := by
  intro r
  have sound : r.Sound := (CalledExchange.sound_before made world).run events
  refine ⟨sound.next, ?_, ?_, fun side => ⟨sound.slots side, fun there more => r.furnished_lasts there more⟩,
    fun _ _ => sound.step_vain, fun place reply submitted => ?_, fun place v there more often => ?_⟩
  · rcases sound.standing with vacant | ⟨place, v, occupied⟩
    · exact ⟨0, .ok (), vacant.log ▸ List.nil_sublist _⟩
    · exact ⟨place, occupied.stands.log_sublist⟩
  · rcases sound.standing with vacant | ⟨place, v, occupied⟩
    · exact vacant.runs ▸ Nat.zero_le 1
    · exact occupied.stands.runs_le
  · rcases sound.standing with vacant | ⟨winner, v, occupied⟩
    · rw [vacant.log] at submitted
      cases submitted
    · exact occupied.answered submitted
  · obtain ⟨v', there', left⟩ := r.run_left there more
    have bound := v.left_le
    have none : v'.left = 0 := by omega
    obtain ⟨result, ended⟩ := Caller.done_of_left none
    exact ⟨v', result, there', ended⟩

/-- Two requests race, and the second one wins. Its task is refused while somebody else fails the exchange. With another
executor the first one wins, its handler is started before the call returns, and a third request comes too late. -/
theorem handler_started_once_race :
    let limits : BufferSettings := ⟨4, none⟩
    let x : Exchange Line Line Rehearsal := ⟨limits, .runtime, .idle, none, none, none, .silent, none, 0⟩
    let bench := Bench.ofChannels [⟨.withLimit none, ⟨false, false, 0⟩⟩]
    let refusal : Fault := .illegalState "executor shut down"
    let no (place : Nat) : CalledExchange.Event Line Line Bench Rehearsal := .proceed place (.error refusal, .shutDown)
    let yes (place : Nat) : CalledExchange.Event Line Line Bench Rehearsal := .proceed place (.ok (), .runtime)
    let get : CalledExchange.Event Line Line Bench Rehearsal := .arrive ⟨"GET", "/"⟩ false ⟨0, []⟩
    let post : CalledExchange.Event Line Line Bench Rehearsal := .arrive ⟨"POST", "/"⟩ true ⟨1, []⟩
    let refused := (CalledExchange.before x bench).run
      [get, post, no 1, no 0, no 1, no 1, .befall (.fail .timeout), .befall .abortInlet, no 1, no 1, no 1, no 1, no 1,
        no 1]
    let accepted := (CalledExchange.before x bench).run
      [post, get, yes 0, yes 1, yes 0, yes 0, yes 0, yes 0, .befall .work, yes 0, get, yes 2, .befall .work]
    Exchange.ofHandler limits .runtime Rehearsal.silent = .ok x ∧
      refused.log = [.occupied 1, .furnished .input 1, .furnished .output 1, .submitted 1 (.error refusal)] ∧
      refused.callers.map Caller.stage = [.done (.ok ()), .done (.error refusal)] ∧
      refused.exchange.phase = .completed ∧ refused.exchange.Sealed ∧ refused.exchange.runs = 0 ∧
      accepted.callers.map Caller.stage = [.done (.ok ()), .done (.ok ()), .done (.ok ())] ∧
      accepted.exchange.runs = 1 := by
  have started := fun events => handler_started_once ⟨4, none⟩ .runtime Rehearsal.silent
    (⟨⟨4, none⟩, .runtime, .idle, none, none, none, .silent, none, 0⟩ : Exchange Line Line Rehearsal) (by rfl)
    (Bench.ofChannels [⟨.withLimit none, ⟨false, false, 0⟩⟩]) events
  obtain ⟨_, _, _, _, _, answered, _⟩ := started
    (let no (place : Nat) : CalledExchange.Event Line Line Bench Rehearsal :=
        .proceed place (.error (.illegalState "executor shut down"), .shutDown);
      [.arrive ⟨"GET", "/"⟩ false ⟨0, []⟩, .arrive ⟨"POST", "/"⟩ true ⟨1, []⟩, no 1, no 0, no 1, no 1,
        .befall (.fail .timeout), .befall .abortInlet, no 1, no 1, no 1, no 1, no 1, no 1])
  obtain ⟨unstarted, ending⟩ := answered 1 (.error (.illegalState "executor shut down"))
    (List.mem_of_getElem? (i := 3) (by rfl))
  obtain ⟨_, ends⟩ := ending ⟨⟨"POST", "/"⟩, true, ⟨1, []⟩, .done _⟩ _ (by rfl) rfl
  obtain ⟨completed, shut⟩ := ends _ rfl
  exact ⟨by rfl, by rfl, by rfl, completed, shut, (unstarted _ rfl).2, by rfl, by rfl⟩

end Sluice
