import Sluice.Bench.Index
import Sluice.Proofs.Producer.Offering

/-! Small writes are staged until there are enough bytes to go out. Whatever turns, handles and channels do, a producer
offers what it has staged for a reason only. -/
namespace Sluice

variable {γ κ ι σ τ : Type}

section Events

variable {events more : List (ProducerEvent κ ι)}

/-- A write since the last end of a turn was not taken as a whole. -/
def ComesShort [Divisible κ] (events : List (ProducerEvent κ ι)) : Prop :=
  ∃ earlier data n later, events = earlier ++ .wrote data (.ok n) :: later ∧ n < Divisible.size data ∧ .closed ∉ later

theorem ComesShort.append [Divisible κ] (h : ComesShort events) (going : .closed ∉ more) :
    ComesShort (events ++ more) := by
  obtain ⟨earlier, data, n, later, rfl, short, last⟩ := h
  refine ⟨earlier, data, n, later ++ more, by simp, short, fun closed => ?_⟩
  exact (List.mem_append.mp closed).elim last going

def ProducerEvent.data? : ProducerEvent κ ι → Option κ
  | wrote data _ => some data
  | _ => none

/-- Nothing is written, by the application or to a channel. -/
def ProducerEvent.Idle : ProducerEvent κ ι → Prop
  | wrote _ _ | called (.wrote _ _ _) => False
  | _ => True

private theorem ProducerEvent.Idle.data {e : ProducerEvent κ ι} (h : e.Idle) : e.data? = none := by
  cases e with
  | wrote data result => exact absurd h id
  | _ => rfl

def writings (events : List (ProducerEvent κ ι)) : List κ := events.filterMap ProducerEvent.data?

@[simp] theorem writings_append : writings (events ++ more) = writings events ++ writings more :=
  List.filterMap_append

@[simp] theorem writings_called (deeds : List (Deed ι)) :
    writings (deeds.map (.called : Deed ι → ProducerEvent κ ι)) = [] := by
  simp [writings, ProducerEvent.data?]

/-- The application goes on, and what it has written makes fewer bytes than the hint and the capacity. `spell` tells
the bytes of data that is written one after the other. -/
structure Small (spell : List κ → Option (List UInt8)) (hint capacity : Nat) (events : List (ProducerEvent κ ι)) :
    Prop where
  going : .ended ∉ events
  below : ∃ bytes, spell (writings events) = some bytes ∧ bytes.length < hint ∧ bytes.length < capacity

end Events

/-- A coder that stages the bytes of data behind other bytes and does nothing else, as long as there is room for all of
them. `Stands done coder` says where data that was staged so has left it. -/
structure StagesWhole [Coder γ κ] [Divisible κ] (spell : List κ → Option (List UInt8)) (Stands : List κ → γ → Prop) :
    Prop where
  nothing : spell [] = some []
  front {done more : List κ} {bytes : List UInt8} : spell (done ++ more) = some bytes →
    ∃ held, spell done = some held ∧ held.length ≤ bytes.length
  accept {σ : Type} {ι : Type} [Transport ι σ] {coder : γ} {stage : Stage} {done : List κ} {data : κ}
    {bytes : List UInt8} (hint : Nat) (ch : Option ι) (s : σ) : Stands done coder → spell done = some stage.bytes →
    spell (done ++ [data]) = some bytes → bytes.length ≤ stage.capacity →
    ∃ coder', Coder.accept coder stage data hint ch s = (.ok (Divisible.size data), coder', { stage with bytes }, s) ∧
      Stands (done ++ [data]) coder'
  calm {coder : γ} {done : List κ} : Stands done coder → (Coder.takeFlushRequest coder).1 = false
  forgets {coder : γ} {done : List κ} : Stands done coder → Stands done (Coder.takeFlushRequest coder).2

private theorem Small.before [Coder γ κ] [Divisible κ] {spell : List κ → Option (List UInt8)}
    {Stands : List κ → γ → Prop}
    {hint capacity : Nat} {events more : List (ProducerEvent κ ι)} (h : Small spell hint capacity (events ++ more))
    (stagesWhole : StagesWhole spell Stands) : Small spell hint capacity events := by
  obtain ⟨going, bytes, spelled, hinted, sized⟩ := h
  rw [writings_append] at spelled
  obtain ⟨held, front, less⟩ := stagesWhole.front spelled
  exact ⟨fun ended => going (List.mem_append_left _ ended), held, front, Nat.lt_of_le_of_lt less hinted,
    Nat.lt_of_le_of_lt less sized⟩

namespace Core

variable {spell : List κ → Option (List UInt8)} {Stands : List κ → γ → Prop} {core : Core γ ι}
  {events : List (ProducerEvent κ ι)} {hint : Nat}

/-- All that was written is staged, and no channel was written to. -/
structure AllStaged [Divisible κ] (spell : List κ → Option (List UInt8)) (Stands : List κ → γ → Prop) (core : Core γ ι)
    (events : List (ProducerEvent κ ι)) : Prop where
  stands : Stands (writings events) core.coder
  staged : spell (writings events) = some core.stage.bytes
  whole : ∀ data result, .wrote data result ∈ events → result = .ok (Divisible.size data)
  quiet : ∀ taker offered result, .called (.wrote taker offered result) ∉ events

/-- What holds of a producer and the events since its last release: a flush is requested only for a write that came
short, and as long as little was written, all of that is staged. -/
structure Thrifty [Coder γ κ] [Divisible κ] (spell : List κ → Option (List UInt8)) (Stands : List κ → γ → Prop)
    (hint : Nat) (core : Core γ ι) (events : List (ProducerEvent κ ι)) : Prop where
  aged : core.Aged events
  within : core.stage.length ≤ core.stage.capacity
  short : core.state = .active → (Coder.takeFlushRequest core.coder).1 = true → ComesShort events
  allStaged : Small spell hint core.stage.capacity events → core.AllStaged spell Stands events

section

variable [Divisible κ] {core' : Core γ ι} {new : List (ProducerEvent κ ι)}

private theorem AllStaged.still (h : core.AllStaged spell Stands events) (stands : Stands (writings events) core'.coder)
    (stage : core'.stage = core.stage) (idle : ∀ e ∈ new, e.Idle) : core'.AllStaged spell Stands (events ++ new) := by
  have nothing : writings new = [] := List.filterMap_eq_nil_iff.mpr fun e member => (idle e member).data
  have same : writings (events ++ new) = writings events := by rw [writings_append, nothing, List.append_nil]
  refine ⟨same ▸ stands, ?_, fun data result member => ?_, fun taker offered result member => ?_⟩
  · rw [same, stage]
    exact h.staged
  · rcases List.mem_append.mp member with old | late
    · exact h.whole data result old
    · exact absurd (idle _ late) id
  · rcases List.mem_append.mp member with old | late
    · exact h.quiet taker offered result old
    · exact absurd (idle _ late) id

variable [Coder γ κ]

private theorem Thrifty.still (stagesWhole : StagesWhole spell Stands) (h : core.Thrifty spell Stands hint events)
    (aged : core'.Aged (events ++ new)) (stage : core'.stage = core.stage) (coder : core'.coder = core.coder)
    (state : core'.state = .active → core.state = .active) (idle : ∀ e ∈ new, e.Idle) (going : .closed ∉ new) :
    core'.Thrifty spell Stands hint (events ++ new) where
  aged := aged
  within := stage ▸ h.within
  short active requested := (h.short (state active) (coder ▸ requested)).append going
  allStaged small := by
    have allStaged := h.allStaged (Small.before (stage ▸ small) stagesWhole)
    exact allStaged.still (coder ▸ allStaged.stands) stage idle

end

section Sections

variable [Divisible κ] [Coder γ κ] [Transport ι σ]

private theorem Thrifty.opened (stagesWhole : StagesWhole spell Stands)
    (h : core.Thrifty spell Stands hint events) (ch : ι) :
    (core.openTurn ch).Thrifty spell Stands hint (events ++ if core.state = .active then [.sourced] else []) := by
  refine h.still stagesWhole (h.aged.opened ch) rfl rfl id ?_ ?_
  · split
    · exact List.forall_mem_singleton.mpr trivial
    · exact nofun
  · split
    · simp
    · simp

private theorem Thrifty.asked (stagesWhole : StagesWhole spell Stands)
    (h : core.Thrifty spell Stands hint events) (known : Option ι)
    (world : σ) : core.Thrifty spell Stands hint (events ++ askMinutes κ known world) := by
  have asks : ∀ e ∈ askMinutes κ known world, e.Idle ∧ e ≠ .closed := by
    cases known with
    | none => exact nofun
    | some ch => exact List.forall_mem_singleton.mpr ⟨trivial, nofun⟩
  exact h.still stagesWhole (h.aged.asked known world) rfl rfl id (fun e member => (asks e member).1)
    fun closed => (asks _ closed).2 rfl

private theorem Thrifty.ends (stagesWhole : StagesWhole spell Stands) (h : core.Thrifty spell Stands hint events) :
    core.endStream.Thrifty spell Stands hint (events ++ [.ended]) := by
  have kept : core.endStream.stage = core.stage ∧ core.endStream.coder = core.coder := by
    simp only [endStream]
    split
    · exact ⟨rfl, rfl⟩
    · exact ⟨rfl, rfl⟩
  refine h.still stagesWhole h.aged.ends kept.1 kept.2 (fun active => ?_)
    (List.forall_mem_singleton.mpr trivial) (by simp)
  exact absurd (h.aged.ends.ended.mpr (by simp)) (not_not_intro active)

omit [Divisible κ] in
private theorem writeMinutes_eq (core : Core γ ι) (hint : Nat) (data : κ) (world : σ) :
    let after := core.write hint data (Chronicle.start (ι := ι) world)
    ∃ entered, core.writeMinutes hint data world =
      after.2.2.deeds.map .called ++ [.entered entered] ++ [.wrote data after.1] := by
  intro after
  refine ⟨(after.2.1.held after.2.2).drop core.stage.length, ?_⟩
  rw [List.append_assoc]
  rfl

private theorem AllStaged.writes (stagesWhole : StagesWhole spell Stands)
    (h : core.AllStaged spell Stands events) (active : core.state = .active)
    {data : κ} {bytes : List UInt8} (spelled : spell (writings events ++ [data]) = some bytes)
    (room : bytes.length ≤ core.stage.capacity) (hint : Nat) (world : σ) :
    (core.write hint data (Chronicle.start (ι := ι) world)).2.1.AllStaged spell Stands
      (events ++ core.writeMinutes hint data world) := by
  obtain ⟨coder, took, stands⟩ := stagesWhole.accept hint core.channel
    (Chronicle.start (ι := ι) world) h.stands h.staged
    spelled room
  have wrote : core.write hint data (Chronicle.start (ι := ι) world) =
      (.ok (Divisible.size data), { core with coder, stage := { core.stage with bytes } }, .start world) := by
    rw [write, if_pos active, took]
  have minutes : ∃ entered, core.writeMinutes hint data world =
      [.entered entered, .wrote data (.ok (Divisible.size data))] := by
    rw [writeMinutes, wrote]
    exact ⟨_, rfl⟩
  obtain ⟨entered, minutes⟩ := minutes
  have all : writings (events ++ core.writeMinutes hint data world) = writings events ++ [data] := by
    rw [minutes, writings_append]
    rfl
  rw [wrote]
  refine ⟨all ▸ stands, all ▸ spelled, fun other result member => ?_, fun taker offered result member => ?_⟩
  · rw [minutes] at member
    rcases List.mem_append.mp member with old | late
    · exact h.whole other result old
    · simp only [List.mem_cons, reduceCtorEq, ProducerEvent.wrote.injEq, List.not_mem_nil, or_false, false_or] at late
      rw [late.1, late.2]
  · rw [minutes] at member
    rcases List.mem_append.mp member with old | late
    · exact h.quiet taker offered result old
    · simp at late

private theorem AllStaged.closes (stagesWhole : StagesWhole spell Stands)
    (h : core.AllStaged spell Stands events) (active : core.state = .active)
    (going : core.endSignalled = false) (small : Small spell hint core.stage.capacity events) (ch : ι) (world : σ) :
    (core.closeTurn hint ch (Chronicle.start (ι := ι) world)).2.1.AllStaged spell Stands
      (events ++ core.closeMinutes hint ch world) := by
  obtain ⟨bytes, spelled, hinted, room⟩ := small.below
  obtain rfl := Option.some.inj (h.staged.symm.trans spelled)
  have idle : ¬ core.isDue hint (Coder.takeFlushRequest core.coder).1 = true := by
    rw [isDue_iff, active, stagesWhole.calm h.stands]
    simp only [Stage.isFull_iff, Stage.length]
    simp
    omega
  have closed : core.closeTurn hint ch (Chronicle.start (ι := ι) world) =
      (.ok (), { core with coder := (Coder.takeFlushRequest core.coder).2 }, .start world) := by
    rw [closeTurn_active active going, drain_idle idle]
  have minutes : core.closeMinutes hint ch world = [.closed] := by
    rw [closeMinutes, closed]
    simp [going, reportMinutes, active, Chronicle.start]
  rw [minutes, closed]
  exact h.still (stagesWhole.forgets h.stands) rfl (List.forall_mem_singleton.mpr trivial)

omit [Transport ι σ] in
private theorem Thrifty.initial (stagesWhole : StagesWhole spell Stands) {coder : γ}
    (fresh : Stands [] coder) (capacity hint : Nat) :
    (Core.initial capacity coder : Core γ ι).Thrifty spell Stands hint ([] : List (ProducerEvent κ ι)) where
  aged := .initial capacity coder
  within := Nat.zero_le _
  short _ requested := absurd ((stagesWhole.calm fresh).symm.trans requested) (by decide)
  allStaged _ := ⟨fresh, stagesWhole.nothing, fun _ _ member => absurd member List.not_mem_nil,
    fun _ _ _ member => absurd member List.not_mem_nil⟩

variable [RenewingCoder γ] [StagingCoder γ] [KeepingCoder γ]

private theorem Thrifty.writes (stagesWhole : StagesWhole spell Stands)
    (h : core.Thrifty spell Stands hint events) (data : κ) (world : σ) :
    (core.write hint data (Chronicle.start (ι := ι) world)).2.1.Thrifty spell Stands hint
      (events ++ core.writeMinutes hint data world) := by
  obtain ⟨sized, within⟩ := within_write h.within hint data (Chronicle.start (ι := ι) world)
  obtain ⟨entered, minutes⟩ := core.writeMinutes_eq hint data world
  refine ⟨h.aged.writes hint data world, sized.symm ▸ within, fun active requested => ?_, fun small => ?_⟩
  · rw [state_write] at active
    rw [minutes]
    have prompted := StagingCoder.requests core.coder core.stage data hint core.channel (Chronicle.start (ι := ι) world)
    have wrote : core.write hint data (Chronicle.start (ι := ι) world) = _ := if_pos active
    rw [wrote] at requested
    rcases prompted requested with before | ⟨n, answered, short⟩
    · exact (h.short active before).append (by simp)
    · have answered : (core.write hint data (Chronicle.start (ι := ι) world)).1 = .ok n := by
        rw [wrote]
        exact answered
      rw [answered, ← List.append_assoc]
      exact ⟨_, data, n, [], rfl, short, by simp⟩
  · have active : core.state = .active := Decidable.of_not_not fun behind =>
      small.going (List.mem_append_left _ (h.aged.ended.mp behind))
    rw [sized] at small
    obtain ⟨bytes, spelled, _, room⟩ := small.below
    have last : writings (core.writeMinutes hint data world) = [data] := by
      rw [minutes, writings_append, writings_append, writings_called]
      rfl
    rw [writings_append, last] at spelled
    exact (h.allStaged (small.before stagesWhole)).writes stagesWhole active spelled (Nat.le_of_lt room) hint world

private theorem Thrifty.closes (stagesWhole : StagesWhole spell Stands)
    (h : core.Thrifty spell Stands hint events) (ch : ι) (world : σ) :
    (core.closeTurn hint ch (Chronicle.start (ι := ι) world)).2.1.Thrifty spell Stands hint
      (events ++ core.closeMinutes hint ch world) := by
  obtain ⟨sized, within⟩ := within_closeTurn h.within hint ch (Chronicle.start (ι := ι) world)
  refine ⟨h.aged.closes hint ch world, sized.symm ▸ within, fun active requested => ?_, fun small => ?_⟩
  · have next := core.state_closeTurn hint ch (Chronicle.start (ι := ι) world)
    have before : core.state = .active := by
      rw [active] at next
      cases state : core.state with
      | active => rfl
      | flushing => exact absurd (state ▸ next : StreamState.Next .flushing .active) id
      | ended => exact absurd (state ▸ next : StreamState.Next .ended .active) id
    rw [closeTurn_active before (h.aged.unsignalled before), coder_drain, StagingCoder.forgets] at requested
    cases requested
  · have active : core.state = .active := Decidable.of_not_not fun behind =>
      small.going (List.mem_append_left _ (h.aged.ended.mp behind))
    rw [sized] at small
    exact (h.allStaged (small.before stagesWhole)).closes stagesWhole active
      (h.aged.unsignalled active) (small.before stagesWhole) ch world

omit [Divisible κ] [RenewingCoder γ] [StagingCoder γ] [KeepingCoder γ] in
private theorem Aged.closeTurn_leaves (h : core.Aged events) {ch : ι} {world : σ}
    (willing : ∀ bytes, (Transport.write ch bytes world).1 = .ok bytes.length)
    (passed : (core.closeTurn hint ch (Chronicle.start (ι := ι) world)).1 = .ok ()) :
    let stage := (core.closeTurn hint ch (Chronicle.start (ι := ι) world)).2.1.stage
    stage.bytes = [] ∨ stage.length < hint ∧ stage.length < stage.capacity := by
  by_cases signalled : core.endSignalled = true
  · have closed : core.closeTurn hint ch (Chronicle.start (ι := ι) world) = (.ok (), core, .start world) :=
      if_pos signalled
    obtain ⟨e, member, succeeds⟩ := h.succeeded.mp signalled
    rw [closed]
    exact .inl (h.told ⟨e, member, succeeds.tells⟩).2
  · have going := Bool.eq_false_iff.mpr signalled
    rcases coded : core.finishCoding with ⟨result, core'⟩
    cases result with
    | error fault =>
      rw [closeTurn, if_neg signalled, coded] at passed
      cases passed
    | ok done =>
      have drained : (core'.drain hint ch (Chronicle.start (ι := ι) world)).1 = .ok () ∧
          let stage := (core'.drain hint ch (Chronicle.start (ι := ι) world)).2.1.stage
          stage.bytes = [] ∨ stage.length < hint ∧ stage.length < stage.capacity := by
        by_cases due : core'.isDue hint (Coder.takeFlushRequest core'.coder).1 = true
        · obtain ⟨⟨n, flushed⟩, empty⟩ :=
            core'.stage.flushTo_taken (c := (Chronicle.start (ι := ι) world)) (willing core'.stage.bytes)
          rw [drain_due due, flushed]
          exact ⟨rfl, .inl empty⟩
        · rw [drain_idle due]
          rw [isDue_iff, Stage.isFull_iff] at due
          simp only [not_or, Nat.not_le] at due
          exact ⟨rfl, .inr ⟨due.2.2.1, due.2.1⟩⟩
      rw [closeTurn_drains going coded drained.1, stage_signal]
      exact drained.2

end Sections

end Core

section Runs

variable [Divisible κ] [Coder γ κ] [Transport ι σ] [Source τ κ] {spell : List κ → Option (List UInt8)}
  {Stands : List κ → γ → Prop} {passes : κ → List UInt8 → Prop}

section Thrift

variable [RenewingCoder γ] [KeepingCoder γ] [StagingCoder γ] {events : List (ProducerEvent κ ι)} {p : Producer γ ι τ}

private theorem Core.Thrifty.turns (stagesWhole : StagesWhole spell Stands)
    (h : p.core.Thrifty spell Stands p.hint events)
    (t : TurnStage κ ι τ) (ch : ι) (world : σ) :
    (t.step ch p (Chronicle.start (ι := ι) world)).2.1.core.Thrifty spell Stands p.hint
      (events ++ t.minutes ch p world) := by
  have idle : p.core.Thrifty spell Stands p.hint (events ++ []) := (List.append_nil events).symm ▸ h
  match t with
  | .opening => exact h.opened stagesWhole ch
  | .calling (.done (.error fault, source)) => exact idle
  | .calling (.done (.ok (), source)) => exact idle
  | .calling (.write data next) => exact h.writes stagesWhole data world
  | .calling (.endStream next) => exact h.ends stagesWhole
  | .asking known rest => exact h.asked stagesWhole known world
  | .closing => exact h.closes stagesWhole ch world
  | .finished result => exact idle

omit [Source τ κ] in
private theorem Core.Thrifty.handleCalls (stagesWhole : StagesWhole spell Stands)
    (h : p.core.Thrifty spell Stands p.hint events)
    (e : HandleCall κ ι) (world : σ) :
    (e.step p (Chronicle.start (ι := ι) world)).2.1.core.Thrifty spell Stands p.hint
      (events ++ e.minutes p world) := by
  rw [HandleCall.step_core]
  match e with
  | .writing data => exact h.writes stagesWhole data world
  | .ending => exact h.ends stagesWhole
  | .asking known answer => exact h.asked stagesWhole known world
  | .done answer => exact (List.append_nil events).symm ▸ h

/-- A producer stays thrifty, and what it was made from. -/
structure ProducerRun.Thrifty (spell : List κ → Option (List UInt8)) (Stands : List κ → γ → Prop) (p : Producer γ ι τ)
    (w : ProducerRun γ κ ι σ τ) : Prop where
  akin : p.Akin w.producer
  core : w.producer.core.Thrifty spell Stands w.producer.hint w.events

theorem ProducerRun.Thrifty.step (stagesWhole : StagesWhole spell Stands) (fresh : Stands [] (Coder.reset p.core.coder))
    {w : ProducerRun γ κ ι σ τ} (h : w.Thrifty spell Stands p) (move : Move κ ι σ τ) :
    (w.step move).Thrifty spell Stands p := by
  have akin := step_akin h.akin move
  refine ⟨akin, ?_⟩
  rw [akin.hint, ← h.akin.hint]
  cases move with
  | turn ch =>
    simp only [ProducerRun.step]
    split
    · exact h.core
    · exact h.core
  | work =>
    simp only [ProducerRun.step]
    split
    · exact h.core
    next ch t under => exact h.core.turns stagesWhole t ch w.world
  | resume place =>
    simp only [ProducerRun.step]
    split
    · exact h.core
    next e under => exact h.core.handleCalls stagesWhole e w.world
  -- a release leaves a new core around a coder as it was made, and no events
  | release =>
    have renewed : Coder.reset w.producer.core.coder = Coder.reset p.core.coder :=
      congrArg Core.coder h.akin.core
    exact .initial stagesWhole (renewed ▸ fresh) w.producer.core.stage.capacity w.producer.hint
  | _ => exact h.core

theorem ProducerRun.Thrifty.run (stagesWhole : StagesWhole spell Stands) (fresh : Stands [] (Coder.reset p.core.coder))
    {w : ProducerRun γ κ ι σ τ} (h : w.Thrifty spell Stands p) (moves : List (Move κ ι σ τ)) :
    (w.run moves).Thrifty spell Stands p := by
  induction moves generalizing w with
  | nil => exact h
  | cons move rest ih => exact ih (h.step stagesWhole fresh move)

end Thrift

namespace ProducerRun

/-- The stage as a move offers it. The end of a turn has the coder stage first what it has held back. -/
def stage (w : ProducerRun γ κ ι σ τ) : Move κ ι σ τ → Stage
  | .work =>
    match w.turn with
    | some (_, .closing) => w.producer.core.finishCoding.2.stage
    | _ => w.producer.core.stage
  | _ => w.producer.core.stage

def data? (w : ProducerRun γ κ ι σ τ) : Move κ ι σ τ → Option κ
  | .work =>
    match w.turn with
    | some (_, .calling (.write data _)) => some data
    | _ => none
  | .resume place =>
    match w.handleCalls[place]? with
    | some (.writing data) => some data
    | _ => none
  | _ => none

/-- What a move may offer to a channel, in view of its calls before. Either it is all that is staged, and there is a
reason: the application has ended the stream, the stage is full or has reached the hint, or a write has come short
since the last end of a turn. Or it is data of a write that found too little room, when nothing is staged any more. -/
def Admits (passes : κ → List UInt8 → Prop) (w : ProducerRun γ κ ι σ τ) (move : Move κ ι σ τ) (before : List (Deed ι))
    (offered : List UInt8) : Prop :=
  (w.stage move).Drains before offered ∧ offered.length ≤ w.producer.core.stage.capacity ∧
      (.ended ∈ w.events ∨ offered.length = w.producer.core.stage.capacity ∨ w.producer.hint ≤ offered.length ∨
        ComesShort w.events) ∨
    ∃ data, w.data? move = some data ∧ passes data offered ∧ w.producer.core.stage.Skips before offered

variable {w : ProducerRun γ κ ι σ τ} {p : Producer γ ι τ} {move : Move κ ι σ τ} {before : List (Deed ι)}
  {offered : List UInt8}

omit [Transport ι σ] [Source τ κ] in
private theorem Admits.of_write (within : w.producer.core.stage.length ≤ w.producer.core.stage.capacity)
    (stage : w.stage move = w.producer.core.stage) {data : κ} (here : w.data? move = some data)
    (admits : w.producer.core.stage.Admits passes data w.producer.hint before offered) :
    w.Admits passes move before offered := by
  rcases admits with ⟨drains, due⟩ | ⟨passes, skips⟩
  · have sized : offered.length = w.producer.core.stage.length := congrArg List.length drains.whole
    refine .inl ⟨stage.symm ▸ drains, sized.symm ▸ within, .inr ?_⟩
    rcases due with full | reached
    · exact .inl (sized.trans (Nat.le_antisymm within (Stage.isFull_iff.mp full)))
    · exact .inr (.inl (sized.symm ▸ reached))
  · exact .inr ⟨data, here, passes, skips⟩

variable [RenewingCoder γ] [StagingCoder γ]

omit [Transport ι σ] [Source τ κ] in
private theorem Admits.of_close (h : w.producer.core.Thrifty spell Stands w.producer.hint w.events)
    (stage : w.stage move = w.producer.core.finishCoding.2.stage)
    (drains : w.producer.core.finishCoding.2.stage.Drains before offered)
    (due : w.producer.core.finishCoding.2.isDue w.producer.hint
      (Coder.takeFlushRequest w.producer.core.finishCoding.2.coder).1 = true) :
    w.Admits passes move before offered := by
  obtain ⟨capacity, within⟩ := Core.within_finishCoding h.within
  have sized : offered.length = w.producer.core.finishCoding.2.stage.length := congrArg List.length drains.whole
  refine .inl ⟨stage.symm ▸ drains, sized.symm ▸ within, ?_⟩
  by_cases active : w.producer.core.state = .active
  · have coded : w.producer.core.finishCoding.2 = w.producer.core := by
      rw [Core.finishCoding, if_neg (by simp [active])]
    rw [coded] at sized due
    right
    rcases Core.isDue_iff.mp due with behind | full | reached | requested
    · exact absurd active behind
    · exact .inl (sized.trans (Nat.le_antisymm h.within (Stage.isFull_iff.mp full)))
    · exact .inr (.inl (sized.symm ▸ reached))
    · exact .inr (.inr (h.short active requested))
  · exact .inl (h.aged.ended.mp active)

private theorem Thrifty.offers [OfferingCoder γ passes] (h : w.Thrifty spell Stands p) (move : Move κ ι σ τ) :
    Lawful (Deed.Offers (w.Admits passes move)) (w.calls move) := by
  have asks : ∀ known : Option ι, Lawful (Deed.Offers (w.Admits passes move))
      (Transport.requestOutput known (Chronicle.start (ι := ι) w.world)).deeds := offers_requestOutput .nil
  have writes : ∀ data, w.stage move = w.producer.core.stage → w.data? move = some data →
      Lawful (Deed.Offers (w.Admits passes move))
        (w.producer.core.write w.producer.hint data (Chronicle.start (ι := ι) w.world)).2.2.deeds :=
    fun data stage here => (w.producer.core.write_offers w.producer.hint data w.world).mono
      (Deed.Offers.mono fun _ _ => Admits.of_write h.core.within stage here)
  cases move with
  | work =>
    simp only [calls]
    split
    · exact .nil
    next ch t under =>
      cases t with
      | calling rest =>
        cases rest with
        | done outcome =>
          obtain ⟨result, source⟩ := outcome
          cases result with
          | error _ => exact .nil
          | ok _ => exact .nil
        | write data next => exact writes data (by simp only [stage, under]) (by simp only [data?, under])
        | endStream _ => exact .nil
      | asking known rest => exact asks known
      | closing =>
        exact (w.producer.core.closeTurn_offers w.producer.hint ch w.world).mono
          (Deed.Offers.mono fun _ _ closes => .of_close h.core (by simp only [stage, under]) closes.1 closes.2)
      | _ => exact .nil
  | resume place =>
    simp only [calls]
    split
    · exact .nil
    next e under =>
      cases e with
      | writing data =>
        have wrote := writes data rfl (by simp only [data?, under])
        simp only [HandleCall.step]
        split
        all_goals
          next written =>
            rw [written] at wrote
            exact wrote
      | asking known answer => exact asks known
      | _ => exact .nil
  | _ => exact .nil

omit [RenewingCoder γ] [StagingCoder γ] in
private theorem Thrifty.leaves (h : w.Thrifty spell Stands p) {ch : ι} (closing : w.turn = some (ch, .closing))
    (willing : ∀ bytes, (Transport.write ch bytes w.world).1 = .ok bytes.length)
    (passed : (w.step .work).turn = some (ch, .finished (.ok ()))) :
    let stage := (w.step .work).producer.core.stage
    stage.bytes = [] ∨ stage.length < w.producer.hint ∧ stage.length < stage.capacity := by
  have after : (w.step .work).turn = some (ch, .finished
        (w.producer.core.closeTurn w.producer.hint ch (Chronicle.start (ι := ι) w.world)).1) ∧
      (w.step .work).producer.core =
        (w.producer.core.closeTurn w.producer.hint ch (Chronicle.start (ι := ι) w.world)).2.1 := by
    simp [ProducerRun.step, closing, TurnStage.step]
  rw [after.1] at passed
  rw [after.2]
  exact h.core.aged.closeTurn_leaves willing (by simpa using passed)

/-- What holds of a producer that waits until there are enough bytes to go out. Whatever a move offers to a channel may
be offered. As long as little was written, all of it is staged and no channel was written to. And behind a turn whose
channel has taken everything, little is staged. -/
structure Frugal (passes : κ → List UInt8 → Prop) (spell : List κ → Option (List UInt8)) (w : ProducerRun γ κ ι σ τ) :
    Prop where
  offers : ∀ move, Lawful (Deed.Offers (w.Admits passes move)) (w.calls move)
  allStaged : ∀ bytes, .ended ∉ w.events → spell (writings w.events) = some bytes → bytes.length < w.producer.hint →
    bytes.length < w.producer.core.stage.capacity → w.producer.core.stage.bytes = bytes ∧
      (∀ data result, .wrote data result ∈ w.events → result = .ok (Divisible.size data)) ∧
      ∀ taker offered result, .called (.wrote taker offered result) ∉ w.events
  leaves : ∀ ch, w.turn = some (ch, .closing) →
    (∀ bytes, (Transport.write ch bytes w.world).1 = .ok bytes.length) →
    (w.step .work).turn = some (ch, .finished (.ok ())) →
    let stage := (w.step .work).producer.core.stage
    stage.bytes = [] ∨ stage.length < w.producer.hint ∧ stage.length < stage.capacity

/-- Whatever happens to it, a producer stays like that. -/
def Coalesces (passes : κ → List UInt8 → Prop) (spell : List κ → Option (List UInt8)) (first : ProducerRun γ κ ι σ τ) :
    Prop := ∀ moves : List (Move κ ι σ τ), (first.run moves).Frugal passes spell

private theorem Thrifty.frugal [OfferingCoder γ passes] (h : w.Thrifty spell Stands p) : w.Frugal passes spell where
  offers := h.offers
  allStaged bytes going spelled hinted sized := by
    have allStaged := h.core.allStaged ⟨going, bytes, spelled, hinted, sized⟩
    exact ⟨Option.some.inj (allStaged.staged.symm.trans spelled), allStaged.whole, allStaged.quiet⟩
  leaves _ := h.leaves

/-- A producer as it is made is frugal, if its coder stages what there is room for and has nothing to reset. -/
theorem coalesces [KeepingCoder γ] [OfferingCoder γ passes] (stagesWhole : StagesWhole spell Stands) {coder : γ}
    (fresh : Stands [] coder) (unused : Coder.reset coder = coder) {settings : ProducerSettings}
    {contentType : Option MediaType} {source : τ} {p : Producer γ ι τ}
    (made : Producer.ofCoder settings contentType coder source = .ok p) (world : σ) :
    (start p world).Coalesces passes spell := by
  obtain ⟨_, _, rfl⟩ := ok_of_map made
  intro moves
  have first : (start ⟨.initial settings.bufferSize coder, source, settings.hint, contentType⟩ world :
      ProducerRun γ κ ι σ τ).Thrifty spell Stands
        ⟨.initial settings.bufferSize coder, source, settings.hint, contentType⟩ :=
    ⟨⟨rfl, rfl, rfl⟩, .initial stagesWhole fresh settings.bufferSize settings.hint⟩
  exact (first.run stagesWhole (unused.symm ▸ fresh) moves).frugal

end ProducerRun

end Runs

/-- The coder of bytes stages what there is room for. -/
theorem BinaryCoder.stagesWhole : StagesWhole (fun writes : List (List UInt8) => some writes.flatten)
    (fun _ (coder : BinaryCoder) => coder.deferred = false) where
  nothing := rfl
  front := by
    rintro done more bytes ⟨⟩
    exact ⟨_, rfl, by simp⟩
  accept {σ ι} _ {coder stage done data bytes} hint ch s calm staged spelled room := by
    obtain rfl : (done ++ [data]).flatten = bytes := Option.some.inj spelled
    have staged : done.flatten = stage.bytes := Option.some.inj staged
    have all : (done ++ [data]).flatten = stage.bytes ++ data := by simp [staged]
    have fits : data.length ≤ stage.remaining := by
      rw [all, List.length_append] at room
      simp only [Stage.remaining, Stage.length]
      omega
    refine ⟨coder, ?_, calm⟩
    rw [all]
    have put : stage.put data = (data.length, { stage with bytes := stage.bytes ++ data }) := by
      simp [Stage.put, Nat.min_eq_right fits]
    simp only [Coder.accept, BinaryCoder.accept, if_pos fits, put]
    rfl
  calm h := h
  forgets _ := rfl

/-- So does the coder of text in a built-in charset, with the mark that is owed. -/
theorem TextCoder.stagesWhole [CodeIndex] {charset : Charset} (builtIn : ∀ e, charset ≠ .web e) :
    StagesWhole (fun writes : List (List Char) => charset.reference writes.flatten)
      (fun done (coder : TextCoder CharsetEncoder) => coder.overflowed = false ∧
        coder.encoder = .builtIn ⟨charset, charset = .utf16 && done.flatten.isEmpty⟩) where
  nothing := by
    rw [List.flatten_nil, Charset.reference_eq, Charset.unmarked_nil builtIn]
    simp [markOf]
  front {done more bytes} spelled := by
    rw [List.flatten_append] at spelled
    obtain ⟨held, front, atFront⟩ := Charset.reference_front builtIn spelled
    exact ⟨held, front, atFront.length_le⟩
  accept {σ ι} _ {coder stage done data bytes} hint ch s stands staged spelled room := by
    obtain ⟨calm, encoder⟩ := stands
    rw [List.flatten_append, List.flatten_singleton] at spelled
    have roomy : bytes.length ≤ stage.bytes.length + stage.remaining := by
      simp only [Stage.remaining, Stage.length]
      omega
    obtain ⟨own, rfl, called⟩ := BuiltInEncoder.encodeChars_roomy builtIn staged spelled roomy
    have within : own.length ≤ stage.remaining := by
      rw [List.length_append] at room
      simp only [Stage.remaining, Stage.length]
      omega
    refine ⟨_, accept_encoded encoder called within hint ch s, ?_, ?_⟩
    · simp [calm]
    · rw [List.flatten_append, List.flatten_singleton]
  calm h := h.1
  forgets h := ⟨rfl, h.2⟩

/-- Producers of bytes and of text in a built-in charset wait until there are enough bytes to go out. -/
theorem producer_coalesces [CodeIndex] {ι σ τ υ : Type} [Transport ι σ] [Source τ (List UInt8)]
    [Source υ (List Char)] (settings : ProducerSettings) (contentType : Option MediaType) (world : σ) :
    (∀ (source : τ) (p : Producer BinaryCoder ι τ), Producer.binary settings contentType source = .ok p →
      (ProducerRun.start p world).Coalesces (fun data offered => offered = data) fun writes => some writes.flatten) ∧
    ∀ charset : Charset, (∀ e, charset ≠ .web e) → ∀ (source : υ) (p : Producer (TextCoder CharsetEncoder) ι υ),
      Producer.textWith settings contentType charset.encoder source = .ok p →
      (ProducerRun.start p world).Coalesces (fun _ _ => False) fun writes => charset.reference writes.flatten := by
  refine ⟨fun _ _ made => ProducerRun.coalesces BinaryCoder.stagesWhole rfl rfl made world,
    fun charset builtIn _ _ made => ?_⟩
  have unused : Coder.reset (TextCoder.ofEncoder charset.encoder) = TextCoder.ofEncoder charset.encoder :=
    congrArg (TextCoder.mk · false) charset.reset_encoder
  refine ProducerRun.coalesces (TextCoder.stagesWhole builtIn) ⟨rfl, ?_⟩ unused made world
  simp [TextCoder.ofEncoder, Charset.encoder_builtIn builtIn, BuiltInEncoder.ofCharset]

section Sample

attribute [local instance] sampleIndex

/-- Two turns and a handle write one byte each, and nothing goes out. With one more byte the hint is reached at the end
of a turn. A letter in UTF-16 stays staged with its mark. -/
theorem producer_coalesces_four :
    let settings : ProducerSettings := ⟨6, some 4⟩
    let source : Script (List UInt8) := .ofActions [.write [1], .pause, .write [2], .pause, .write [4]]
    let lines : Script (List Char) := .ofActions [.write ['a']]
    let p : Producer BinaryCoder Nat (Script (List UInt8)) := ⟨.initial 6 .initial, source, 4, none⟩
    let q : Producer (TextCoder CharsetEncoder) Nat (Script (List Char)) :=
      ⟨.initial 6 (.ofEncoder Charset.utf16.encoder), lines, 5, none⟩
    let world : List FaultyRecorder := [⟨.withLimit none, ⟨false, false, 0⟩⟩]
    let moves : List (ProducerRun.Move (List UInt8) Nat (List FaultyRecorder) (Script (List UInt8))) :=
      [.turn 0, .work, .work, .work, .work, .write [3], .resume 0, .resume 0, .turn 0, .work, .work, .work, .work]
    let v := (ProducerRun.start p world).run moves
    let last := (ProducerRun.start p world).run (moves ++ [.turn 0, .work, .work, .work])
    let left := (last.step .work).producer.core.stage
    let w := (ProducerRun.start q world).run [.turn 0, .work, .work, .work, .work]
    Producer.binary settings none source = .ok p ∧ v.producer.core.stage.bytes = [1, 3, 2] ∧
      (∀ taker offered result, .called (.wrote taker offered result) ∉ v.events) ∧
      Lawful (Deed.Offers (last.Admits (fun data offered => offered = data) .work))
        [.wrote 0 [1, 3, 2, 4] (.ok 4)] ∧
      (left.bytes = [] ∨ left.length < last.producer.hint ∧ left.length < left.capacity) ∧
      Producer.textWith ⟨6, some 5⟩ none Charset.utf16.encoder lines = .ok q ∧
      w.producer.core.stage.bytes = [0xFE, 0xFF, 0, 0x61] ∧
      ∀ taker offered result, .called (.wrote taker offered result) ∉ w.events := by
  intro settings source lines p q world moves v last left w
  obtain ⟨binary, _⟩ := producer_coalesces (ι := Nat) (τ := Script (List UInt8)) (υ := Script (List Char))
    settings none world
  obtain ⟨_, text⟩ := producer_coalesces (ι := Nat) (τ := Script (List UInt8)) (υ := Script (List Char))
    ⟨6, some 5⟩ none world
  have frugal : v.Frugal (fun data offered => offered = data) fun writes => some writes.flatten :=
    binary source p rfl _
  have frugal' : last.Frugal (fun data offered => offered = data) fun writes => some writes.flatten :=
    binary source p rfl _
  have frugal'' : w.Frugal (fun _ _ => False) fun writes => Charset.utf16.reference writes.flatten :=
    text .utf16 nofun lines q rfl _
  have events : v.events = [.sourced, .entered [1], .wrote [1] (.ok 1), .closed, .entered [3], .wrote [3] (.ok 1),
      .called (.asked 0), .sourced, .entered [2], .wrote [2] (.ok 1), .closed] := by
    dsimp +zetaDelta only
    rfl
  have events' : w.events = [.sourced, .entered [0xFE, 0xFF, 0, 0x61], .wrote ['a'] (.ok 1), .closed] := by
    dsimp +zetaDelta only
    rfl
  have spelled : some (writings v.events).flatten = some [1, 3, 2] := by
    rw [events]
    rfl
  have spelled' : Charset.utf16.reference (writings w.events).flatten = some [0xFE, 0xFF, 0, 0x61] := by
    rw [events']
    decide
  have closing : last.turn = some (0, .closing) := by
    dsimp +zetaDelta only
    rfl
  have passed : (last.step .work).turn = some (0, .finished (.ok ())) := by
    dsimp +zetaDelta only
    rfl
  have calls : last.calls .work = [.wrote 0 [1, 3, 2, 4] (.ok 4)] := by
    dsimp +zetaDelta only
    rfl
  have willing : last.world = [⟨{ Recorder.withLimit none with requests := 1 }, ⟨false, false, 0⟩⟩] := by
    dsimp +zetaDelta only
    rfl
  obtain ⟨staged, _, quiet⟩ := frugal.allStaged [1, 3, 2] (by rw [events]; simp) spelled (by decide) (by decide)
  obtain ⟨staged', _, quiet'⟩ := frugal''.allStaged [0xFE, 0xFF, 0, 0x61] (by rw [events']; simp)
    spelled' (by decide) (by decide)
  have offers := frugal'.offers .work
  have leaves := frugal'.leaves 0 closing (by rw [willing]; exact FaultyRecorder.takes_all rfl rfl) passed
  rw [calls] at offers
  exact ⟨rfl, staged, quiet, offers, leaves, rfl, staged', quiet'⟩

end Sample

end Sluice
