import Sluice.Exchange.Worker
import Sluice.Proofs.Conduit

/-! An exchange between a reactor and its worker, whose sections come in any order, with minutes of
what its channels, its handler and its two sides do. -/
namespace Sluice

/-- What may happen to an exchange: a call on a data channel, a head that was sent, a move of the
handler or what it heard, bytes placed in the outlet, the begin or its refusal, a failure. -/
inductive Occurrence (ι : Type)
  | deed (deed : Deed ι)
  | sent (result : Except Fault Unit)
  | moved (move : Move)
  | heard (answer : Answer)
  | placed (piece : List UInt8)
  | begun
  | refused
  | failed (cause : Fault)

/-- A world with minutes of what happened. -/
structure Minutes (ι σ : Type) where
  world : σ
  notes : List (Occurrence ι)

namespace Minutes

variable {ι κ σ : Type}

def noting (m : Minutes ι σ) (notes : List (Occurrence ι)) : Minutes ι σ :=
  { m with notes := m.notes ++ notes }

instance [Transport ι σ] : Transport ι (Minutes ι σ) where
  write ch bytes m :=
    let (result, world) := Transport.write ch bytes m.world
    (result, ⟨world, m.notes ++ [.deed (.wrote ch bytes result)]⟩)
  requestOutput ch m := ⟨Transport.requestOutput ch m.world, m.notes ++ [.deed (.asked ch)]⟩
  endStream ch trailers m :=
    let (result, world) := Transport.endStream ch trailers m.world
    (result, ⟨world, m.notes ++ [.deed (.ended ch result)]⟩)

instance [CapacityChannel κ σ] : CapacityChannel κ (Minutes ι σ) where
  update ch increment m :=
    let (result, world) := CapacityChannel.update ch increment m.world
    (result, { m with world })

instance [ResponseChannel σ] : ResponseChannel (Minutes ι σ) where
  send head entity m :=
    let (result, world) := ResponseChannel.send head entity m.world
    (result, ⟨world, m.notes ++ [.sent result]⟩)

def askedOf (ch : Option ι) : List (Occurrence ι) := ch.toList.map fun ch => .deed (.asked ch)

theorem notes_requestOutput [Transport ι σ] (ch : Option ι) (m : Minutes ι σ) :
    (Transport.requestOutput ch m).notes = m.notes ++ askedOf ch := by
  cases ch with
  | none => exact (List.append_nil _).symm
  | some ch => rfl

end Minutes

namespace Exchange

variable {ι κ σ τ : Type}

/-- New buffers are made within the limits, or there is something wrong with these. -/
theorem allocate_spec (x : Exchange ι κ τ) (hasBody : Bool) :
    (∃ fault, x.allocate hasBody = .error fault ∧ x.limits.validate = .error fault) ∨
    ∃ inlet outlet, x.allocate hasBody = .ok (inlet, outlet) ∧ Outlet.ofSettings x.limits = .ok outlet ∧
      inlet.isSome = hasBody ∧ ∀ i, inlet = some i → Inlet.ofSettings x.limits = .ok i := by
  cases made : Conduit.ofSettings x.limits with
  | error fault =>
    refine .inl ⟨fault, ?_, error_of_map made⟩
    cases hasBody <;>
      simp [allocate, Inlet.ofSettings, Outlet.ofSettings, made, bind, Except.bind, pure, Except.pure, Except.map]
  | ok conduit =>
    refine .inr ⟨if hasBody then some ⟨conduit, none, 0, none⟩ else none, ⟨conduit, none, false⟩, ?_, ?_, ?_, ?_⟩
    · cases hasBody <;>
        simp [allocate, Inlet.ofSettings, Outlet.ofSettings, made, bind, Except.bind, pure, Except.pure, Except.map]
    · simp [Outlet.ofSettings, made, Except.map]
    · cases hasBody <;> rfl
    · cases hasBody <;> simp [Inlet.ofSettings, made, Except.map]

variable [Transport ι σ]

/-- What becomes of an idle exchange: it goes on with new buffers and a task, or it is over. In that
case its buffers, if there are any, have been aborted. -/
theorem start_idle (x : Exchange ι κ τ) (idle : x.phase = .idle) (request : Request) (hasBody : Bool)
    (context : Context) (s : σ) :
    ∃ result x', x.start request hasBody context s = (result, x', s) ∧
      ((∃ fault, result = .error fault ∧ x.limits.validate = .error fault ∧
          x' = { x with phase := .completed }) ∨
        ∃ inlet outlet executor, Outlet.ofSettings x.limits = .ok outlet ∧ inlet.isSome = hasBody ∧
          (∀ i, inlet = some i → Inlet.ofSettings x.limits = .ok i) ∧
          (result = .ok () ∧
              x' = { x with
                phase := .active, inlet, outlet := some outlet, executor
                task := some (.ofSession (.start request context hasBody)) } ∨
            ∃ fault, result = .error fault ∧
              x' = { x with
                phase := .completed, inlet := inlet.map Inlet.abort, outlet := some outlet.abort.2, executor })) := by
  rcases { x with phase := .active : Exchange ι κ τ }.allocate_spec hasBody with
    ⟨fault, failed, invalid⟩ | ⟨inlet, outlet, made, fresh, body, fresh'⟩
  · refine ⟨.error fault, { x with phase := .completed }, ?_, .inl ⟨fault, rfl, invalid, rfl⟩⟩
    simp [start, occupy, idle, failed, complete]
  · cases answered : x.executor.submit with
    | mk answer executor =>
      cases answer with
      | ok _ =>
        refine ⟨.ok (), _, ?_, .inr ⟨inlet, outlet, executor, fresh, body, fresh', .inl ⟨rfl, rfl⟩⟩⟩
        simp [start, occupy, idle, made, equip, submit, answered]
      | error fault =>
        have unknown : outlet.channel = none := by
          obtain ⟨_, _, rfl⟩ := ok_of_map fresh
          rfl
        have quiet : Outlet.ask outlet.abort.1 s = s := by
          simp only [Outlet.abort]
          split
          · rfl
          · simp only [unknown]
            rfl
        refine ⟨.error fault, _, ?_, .inr ⟨inlet, outlet, executor, fresh, body, fresh', .inr ⟨fault, rfl, rfl⟩⟩⟩
        simp [start, occupy, idle, made, equip, submit, answered, abortBuffers, abortInlet, abortOutlet, complete,
          quiet]

private theorem start_busy (x : Exchange ι κ τ) (busy : x.phase ≠ .idle) (request : Request) (hasBody : Bool)
    (context : Context) (s : σ) : x.start request hasBody context s = (.ok (), x, s) := by
  cases phase : x.phase with
  | idle => exact absurd phase busy
  | active => simp [start, occupy, phase]
  | completed => simp [start, occupy, phase]

end Exchange

/-- A section that a call of the reactor has still before it: room is announced and perhaps revoked, or
a failure aborts the buffers and lets go of the handler. -/
inductive Duty (ι κ : Type)
  | announce (channel : κ) (increment : Nat)
  | revoke (increment : Nat)
  | abortInlet
  | abortOutlet
  | ask (channel : Option ι)
  | release

/-- An exchange with its minutes, and what the reactor still has to do about its latest call. -/
structure ExchangeRun (ι κ σ τ : Type) where
  exchange : Exchange ι κ τ
  minutes : Minutes ι σ
  duties : List (Duty ι κ)

namespace ExchangeRun

variable {ι κ σ τ : Type}

/-- A call of the reactor, or one more section of it; a section of the worker, or the end of its
patience; a change of the handler's mind, or of the channels, by somebody else. -/
inductive Event (ι κ σ τ : Type)
  | start (request : Request) (hasBody : Bool) (context : Context)
  | consume (bytes : List UInt8)
  | streamEnd
  | updateCapacity (channel : κ)
  | produce (channel : ι)
  | failed (cause : Fault)
  | release
  | react
  | work
  | timeOut
  | prompt (handler : τ)
  | become (world : σ)

/-- Whether the reactor makes a call, for which it must have nothing else to do. -/
def Event.isCall : Event ι κ σ τ → Bool
  | react | work | timeOut | prompt _ | become _ => false
  | _ => true

variable [Handler τ]

/-- What is noted of a section of the worker in advance: the move its handler is about to make, the
answer it is about to hear, the failure about to be recorded. -/
def foretold (x : Exchange ι κ τ) : List (Occurrence ι) :=
  match x.task with
  | none => []
  | some task =>
    match task.progress with
    | .thinking => [.moved (Handler.next task.session x.handler).1]
    | .calling (.done answer) => [.heard answer]
    | .failing cause => [.failed cause]
    | _ => []

/-- The bytes that wait in the outlet, if that is there. -/
def staged (x : Exchange ι κ τ) : List UInt8 := x.outlet.elim [] fun outlet => outlet.conduit.bytes

/-- What is noted of a section of the worker afterwards: the bytes it has placed. -/
def placedBetween (x x' : Exchange ι κ τ) : List (Occurrence ι) :=
  match (staged x').drop (staged x).length with
  | [] => []
  | piece => [.placed piece]

variable [Transport ι σ] [CapacityChannel κ σ] [ResponseChannel σ]

/-- The request arrives. It is noted if it finds an idle exchange, and once more if it is refused. -/
def start (c : ExchangeRun ι κ σ τ) (request : Request) (hasBody : Bool) (context : Context) : ExchangeRun ι κ σ τ :=
  let begun := match c.exchange.phase with
    | .idle => [.begun]
    | _ => []
  let (result, exchange, minutes) :=
    c.exchange.start request hasBody context (c.minutes.noting begun)
  match result with
  | .ok () => { c with exchange, minutes }
  | .error _ => { c with exchange, minutes := minutes.noting [.refused] }

/-- Register a channel for announcements. If there is room, it has to be announced next. -/
def register (c : ExchangeRun ι κ σ τ) (ch : κ) : ExchangeRun ι κ σ τ :=
  match c.exchange.inlet with
  | none => c
  | some inlet =>
    let (result, inlet) := inlet.register ch
    let duties := match result with
      | .ok 0 | .error _ => []
      | .ok increment => [.announce ch increment]
    { c with exchange := { c.exchange with inlet := some inlet }, duties }

def discharge (c : ExchangeRun ι κ σ τ) : Duty ι κ → ExchangeRun ι κ σ τ
  | .announce ch increment =>
    match CapacityChannel.update ch increment c.minutes with
    | (.ok (), minutes) => { c with minutes }
    | (.error _, minutes) => { c with minutes, duties := .revoke increment :: c.duties }
  | .revoke increment =>
    { c with exchange := { c.exchange with inlet := c.exchange.inlet.map (·.revoke increment) } }
  | .abortInlet => { c with exchange := c.exchange.abortInlet }
  | .abortOutlet =>
    let (ch, exchange) := c.exchange.abortOutlet
    { c with exchange, duties := .ask ch :: c.duties }
  | .ask ch => { c with minutes := Outlet.ask ch c.minutes }
  | .release => { c with exchange := c.exchange.release }

def work (c : ExchangeRun ι κ σ τ) : ExchangeRun ι κ σ τ :=
  let (_, exchange, minutes) := c.exchange.step (c.minutes.noting (foretold c.exchange))
  { c with exchange, minutes := minutes.noting (placedBetween c.exchange exchange) }

def perform (c : ExchangeRun ι κ σ τ) : Event ι κ σ τ → ExchangeRun ι κ σ τ
  | .start request hasBody context => c.start request hasBody context
  | .consume bytes => { c with exchange := (c.exchange.consume bytes).2 }
  | .streamEnd => { c with exchange := c.exchange.streamEnd.2 }
  | .updateCapacity ch => c.register ch
  | .produce ch =>
    let (_, exchange, minutes) := c.exchange.produce ch c.minutes
    { c with exchange, minutes }
  | .failed cause =>
    { c with
      exchange := c.exchange.recordFailure cause
      minutes := c.minutes.noting [.failed cause]
      duties := [.abortInlet, .abortOutlet, .release] }
  | .release => { c with exchange := c.exchange.release }
  | .react =>
    match c.duties with
    | [] => c
    | duty :: duties => { c with duties }.discharge duty
  | .work => c.work
  | .timeOut => { c with exchange := c.exchange.timeOut }
  | .prompt handler => { c with exchange := { c.exchange with handler } }
  | .become world => { c with minutes := { c.minutes with world } }

/-- Let something happen, unless the reactor would have to leave something undone for it. -/
def step (c : ExchangeRun ι κ σ τ) (e : Event ι κ σ τ) : ExchangeRun ι κ σ τ :=
  if e.isCall ∧ c.duties ≠ [] then c else c.perform e

def run (events : List (Event ι κ σ τ)) (c : ExchangeRun ι κ σ τ) : ExchangeRun ι κ σ τ := events.foldl step c

/-- What holds at first and survives whatever happens holds after any run. -/
theorem run_induction {holds : ExchangeRun ι κ σ τ → Prop}
    (perform : ∀ c, holds c → ∀ e, (e.isCall = true → c.duties = []) → holds (c.perform e))
    (events : List (Event ι κ σ τ)) (c : ExchangeRun ι κ σ τ) (h : holds c) : holds (c.run events) := by
  have step : ∀ c, holds c → ∀ e, holds (ExchangeRun.step c e) := by
    intro c h e
    simp only [ExchangeRun.step]
    split
    · exact h
    next free => exact perform c h e fun call => Classical.not_not.mp fun busy => free ⟨call, busy⟩
  induction events generalizing c with
  | nil => exact h
  | cons e rest ih => exact ih (c.step e) (step c h e)

omit [Handler τ] [Transport ι σ] [CapacityChannel κ σ] [ResponseChannel σ] in
def before (x : Exchange ι κ τ) (world : σ) : ExchangeRun ι κ σ τ := ⟨x, ⟨world, []⟩, []⟩

omit [Handler τ] [CapacityChannel κ σ] [ResponseChannel σ] in
/-- A request finds an exchange that is not idle and changes nothing, or it begins and is perhaps
refused. -/
theorem start_outcomes (c : ExchangeRun ι κ σ τ) (request : Request) (hasBody : Bool) (context : Context) :
    c.exchange.phase ≠ .idle ∧ c.start request hasBody context = c ∨
    c.exchange.phase = .idle ∧
      (c.exchange.limits.validate ≠ .ok () ∧
          c.start request hasBody context =
            { c with
              exchange := { c.exchange with phase := .completed }
              minutes := c.minutes.noting [.begun, .refused] } ∨
        ∃ inlet outlet executor, Outlet.ofSettings c.exchange.limits = .ok outlet ∧
          inlet.isSome = hasBody ∧ (∀ i, inlet = some i → Inlet.ofSettings c.exchange.limits = .ok i) ∧
          (c.start request hasBody context =
              { c with
                exchange := { c.exchange with
                  phase := .active, inlet, outlet := some outlet, executor
                  task := some (.ofSession (.start request context hasBody)) }
                minutes := c.minutes.noting [.begun] } ∨
            c.start request hasBody context =
              { c with
                exchange := { c.exchange with
                  phase := .completed, inlet := inlet.map Inlet.abort, outlet := some outlet.abort.2, executor }
                minutes := c.minutes.noting [.begun, .refused] })) := by
  have twice : (c.minutes.noting [.begun]).noting [.refused] = c.minutes.noting [.begun, .refused] := by
    simp [Minutes.noting]
  by_cases idle : c.exchange.phase = .idle
  · refine .inr ⟨idle, ?_⟩
    obtain ⟨result, x', started, outcome⟩ :=
      c.exchange.start_idle idle request hasBody context (c.minutes.noting [.begun])
    rcases outcome with ⟨fault, rfl, invalid, rfl⟩ | ⟨inlet, outlet, executor, fresh, body, fresh', outcome⟩
    · refine .inl ⟨?_, ?_⟩
      · rw [invalid]
        nofun
      · simp only [start, idle, started, twice]
    · refine .inr ⟨inlet, outlet, executor, fresh, body, fresh', ?_⟩
      rcases outcome with ⟨rfl, rfl⟩ | ⟨fault, rfl, rfl⟩
      · exact .inl (by simp only [start, idle, started])
      · exact .inr (by simp only [start, idle, started, twice])
  · refine .inl ⟨idle, ?_⟩
    have unnoted : c.minutes.noting [] = c.minutes := by simp [Minutes.noting]
    cases phase : c.exchange.phase with
    | idle => exact absurd phase idle
    | active => simp only [start, phase, unnoted, c.exchange.start_busy idle]
    | completed => simp only [start, phase, unnoted, c.exchange.start_busy idle]

/-- An update of the capacity without anything in between. -/
theorem updateCapacity_alone (c : ExchangeRun ι κ σ τ) (ch : κ) (free : c.duties = []) :
    let (_, exchange, minutes) := c.exchange.updateCapacity ch c.minutes
    c.run [.updateCapacity ch, .react, .react] = ⟨exchange, minutes, []⟩ := by
  obtain ⟨x, m, duties⟩ := c
  obtain rfl : duties = [] := free
  cases present : x.inlet with
  | none => simp [run, step, perform, register, Event.isCall, Exchange.updateCapacity, present]
  | some inlet =>
    cases registered : inlet.register ch with
    | mk answer inlet' =>
      match answer with
      | .error fault =>
        simp [run, step, perform, register, Event.isCall, Exchange.updateCapacity, present, registered,
          Inlet.updateCapacity]
      | .ok 0 =>
        simp [run, step, perform, register, Event.isCall, Exchange.updateCapacity, present, registered,
          Inlet.updateCapacity]
      | .ok (n + 1) =>
        cases updated : CapacityChannel.update ch (n + 1) m with
        | mk result m' =>
          cases result <;>
            simp [run, step, perform, register, discharge, Event.isCall, Exchange.updateCapacity, present,
              registered, updated, Inlet.updateCapacity]

/-- A failure on the reactor's side without anything in between. -/
theorem failed_alone (c : ExchangeRun ι κ σ τ) (cause : Fault) (free : c.duties = []) :
    let (exchange, minutes) := c.exchange.failed cause (c.minutes.noting [.failed cause])
    c.run [.failed cause, .react, .react, .react, .react] = ⟨exchange, minutes, []⟩ := by
  obtain ⟨x, m, duties⟩ := c
  obtain rfl : duties = [] := free
  cases placed : x.outlet with
  | none =>
    simp [run, step, perform, discharge, Event.isCall, Exchange.failed, Exchange.abortBuffers,
      Exchange.abortOutlet, Exchange.abortInlet, Exchange.recordFailure, placed]
  | some outlet =>
    simp [run, step, perform, discharge, Event.isCall, Exchange.failed, Exchange.abortBuffers,
      Exchange.abortOutlet, Exchange.abortInlet, Exchange.recordFailure, placed]

end ExchangeRun
end Sluice
