import Sluice.Bench.Peer
import Sluice.Proofs.Outlet.Sections
import Sluice.Proofs.Pump.SupplierPump

/-! An outbound pump behind an outlet. It does not sleep while there are bytes, an end or an abort to
pass on, so it never waits for a worker who waits for it. -/
namespace Sluice

namespace Conduit

/-- A conduit some time later. It has no more room than before unless everybody was woken since. -/
structure Follows (c c' : Conduit) : Prop where
  capacity : c'.capacity = c.capacity
  wakes : c.wakes ≤ c'.wakes
  room : c'.wakes = c.wakes → c'.free ≤ c.free

theorem Follows.refl (c : Conduit) : c.Follows c := ⟨rfl, Nat.le_refl _, fun _ => Nat.le_refl _⟩

private theorem follows_append (c : Conduit) (piece : List UInt8) : c.Follows { c with bytes := c.bytes ++ piece } := by
  refine ⟨rfl, Nat.le_refl _, fun _ => ?_⟩
  simp only [free, length, List.length_append]
  omega

private theorem follows_finish (c : Conduit) : c.Follows c.finish := ⟨rfl, Nat.le_refl _, fun _ => Nat.le_refl _⟩

private theorem follows_abort (c : Conduit) : c.Follows c.abort :=
  ⟨rfl, Nat.le_succ _, fun same => absurd same (Nat.succ_ne_self _)⟩

private theorem follows_drop (c : Conduit) (n : Nat) : c.Follows (if 0 < n then (c.drop n).wake else c.drop n) := by
  split
  · exact ⟨rfl, Nat.le_succ _, fun same => absurd same (Nat.succ_ne_self _)⟩
  next none =>
    obtain rfl : n = 0 := Nat.eq_zero_of_not_pos none
    exact .refl c

end Conduit

namespace Outlet

private theorem complete_cases {ι : Type} (outlet : Outlet ι) :
    outlet.complete = (.error .aborted, outlet) ∨ outlet.complete = (.ok none, outlet) ∨
      outlet.complete = (.ok outlet.channel, { outlet with conduit := outlet.conduit.finish }) := by
  unfold complete
  split
  · exact .inl rfl
  · split
    · exact .inr (.inl rfl)
    · exact .inr (.inr rfl)

/-- What a drain into a window does. If it succeeds, there are bytes in the window or none in the outlet. -/
structure Drains (outlet : Outlet Unit) (s : Window) (result : Except Fault Unit) (outlet' : Outlet Unit)
    (s' : Window) : Prop where
  follows : outlet.conduit.Follows outlet'.conduit
  channel : outlet'.channel = outlet.channel
  signalled : outlet'.signalled = outlet.signalled
  aborted : outlet'.conduit.aborted = outlet.conduit.aborted
  size : s'.size = s.size
  ended : s'.ended = s.ended
  served : result = .ok () → s'.pending ≠ [] ∨ outlet'.conduit.bytes = []

private theorem drain_window (outlet : Outlet Unit) {s : Window} (live : 0 < s.size) :
    outlet.Drains s (outlet.drain () s).1 (outlet.drain () s).2.1 (outlet.drain () s).2.2 := by
  simp only [drain]
  split
  next empty => exact ⟨.refl _, rfl, rfl, rfl, rfl, rfl, fun _ => .inr (List.isEmpty_iff.mp empty)⟩
  next loaded =>
    obtain ⟨size, ended, _⟩ := s.write_spec (some ()) outlet.conduit.bytes
    split
    next failed =>
      rw [show Transport.write (some ()) outlet.conduit.bytes s = _ from failed] at size ended
      exact ⟨.refl _, rfl, rfl, rfl, size, ended, fun passed => by cases passed⟩
    next n s' written =>
      rw [show Transport.write (some ()) outlet.conduit.bytes s = _ from written] at size ended
      refine ⟨outlet.conduit.follows_drop n, rfl, rfl, ?_, size, ended, fun _ => .inl ?_⟩
      · dsimp only
        split
        · rfl
        · rfl
      · exact Window.write_holds live (fun none => loaded (List.isEmpty_iff.mpr none)) written

/-- What a flush into a window does. If it succeeds, the pump behind the window is served or the outlet
has nothing for it. -/
structure Flushes (outlet : Outlet Unit) (s : Window) (result : Except Fault Unit) (outlet' : Outlet Unit)
    (s' : Window) : Prop where
  follows : outlet.conduit.Follows outlet'.conduit
  channel : outlet'.channel = some ()
  signalled : (outlet.signalled = true → s.ended = true) → outlet'.signalled = true → s'.ended = true
  size : s'.size = s.size
  served : (outlet.signalled = true → s.ended = true) → result = .ok () →
    s'.pending ≠ [] ∨ s'.ended = true ∨
    outlet'.conduit.bytes = [] ∧ outlet'.conduit.aborted = false ∧ outlet'.conduit.ended = false

private theorem flush_window (outlet : Outlet Unit) {s : Window} (live : 0 < s.size) :
    outlet.Flushes s (outlet.flush () s).1 (outlet.flush () s).2.1 (outlet.flush () s).2.2 := by
  simp only [flush]
  split
  · exact ⟨.refl _, rfl, id, rfl, fun _ passed => by cases passed⟩
  next running =>
    have drained := drain_window { outlet with channel := some () } live
    split
    next failed =>
      rw [failed] at drained
      refine ⟨drained.follows, drained.channel, fun fit now => ?_, drained.size, fun _ passed => by cases passed⟩
      exact drained.ended.trans (fit (drained.signalled.symm.trans now))
    next outlet' s' passed =>
      rw [passed] at drained
      have running : outlet'.conduit.aborted = false := drained.aborted.trans (Bool.eq_false_iff.mpr running)
      have served := drained.served rfl
      have passed_on (fit : outlet.signalled = true → s.ended = true) (now : outlet'.signalled = true) :
          s'.ended = true := drained.ended.trans (fit (drained.signalled.symm.trans now))
      simp only [signal]
      split
      · exact ⟨drained.follows, drained.channel, fun _ _ => rfl, drained.size, fun _ _ => .inr (.inl rfl)⟩
      next still =>
        refine ⟨drained.follows, drained.channel, passed_on, drained.size, fun fit _ => ?_⟩
        rcases served with pending | empty
        · exact .inl pending
        · cases ended : outlet'.conduit.ended with
          | false => exact .inr (.inr ⟨empty, running, rfl⟩)
          | true =>
            have now : outlet'.signalled = true := Classical.byContradiction fun fresh =>
              still ⟨List.isEmpty_iff.mpr empty, ended, fresh⟩
            exact .inr (.inl (passed_on fit now))

end Outlet

/-- A call of the worker: a write, or the end or the abort of the body up to the request behind it. -/
inductive WorkerCall
  | writing (w : Writing Unit)
  | completing
  | aborting
  | asking (known : Option Unit)
  | done (result : Except Fault Unit)

namespace WorkerCall

def step (call : WorkerCall) (outlet : Outlet Unit) (s : Window) : WorkerCall × Outlet Unit × Window :=
  match call with
  | writing w =>
    let (_, w, outlet, s) := w.step outlet s
    (writing w, outlet, s)
  | completing =>
    match outlet.complete with
    | (.error fault, outlet) => (done (.error fault), outlet, s)
    | (.ok known, outlet) => (asking known, outlet, s)
  | aborting =>
    let (known, outlet) := outlet.abort
    (asking known, outlet, s)
  | asking known => (done (.ok ()), outlet, Outlet.ask known s)
  | done result => (done result, outlet, s)

def timeOut (call : WorkerCall) (outlet : Outlet Unit) : WorkerCall :=
  match call with
  | writing w => writing (w.timeOut outlet)
  | other => other

/-- With nobody around, the steps of a completion are the completion as a whole. -/
theorem completing_alone (outlet : Outlet Unit) (s : Window) :
    let (call, outlet', s') := step completing outlet s
    step call outlet' s' = (done (outlet.writeCompleted s).1, (outlet.writeCompleted s).2) := by
  simp only [step, Outlet.writeCompleted]
  rcases outlet.complete with ⟨fault | known, outlet'⟩
  · rfl
  · rfl

/-- So are the steps of an abort. -/
theorem aborting_alone (outlet : Outlet Unit) (s : Window) :
    let (call, outlet', s') := step aborting outlet s
    step call outlet' s' = (done (.ok ()), outlet.abortAndAsk s) := rfl

/-- Whether a call is about to ask for output. -/
def Owes : WorkerCall → Prop
  | writing (.asking _ _) | asking (some _) => True
  | _ => False

/-- Whether a write sleeps, and nobody has woken it. -/
def Blocked (outlet : Outlet Unit) : WorkerCall → Prop
  | writing (.asleep _ since) => since = outlet.conduit.wakes
  | _ => False

/-- Who sleeps fell asleep in front of a full outlet, and was not woken ahead of time. -/
def Rests (outlet : Outlet Unit) : WorkerCall → Prop
  | writing (.asleep _ since) =>
    since ≤ outlet.conduit.wakes ∧ (since = outlet.conduit.wakes → outlet.conduit.free = 0)
  | _ => True

private theorem Rests.follows {outlet outlet' : Outlet Unit} {call : WorkerCall} (h : call.Rests outlet)
    (follows : outlet.conduit.Follows outlet'.conduit) : call.Rests outlet' := by
  match call with
  | writing (.asleep rest since) =>
    refine ⟨Nat.le_trans h.1 follows.wakes, fun same => ?_⟩
    have awake : since = outlet.conduit.wakes := Nat.le_antisymm h.1 (same ▸ follows.wakes)
    exact Nat.le_zero.mp (h.2 awake ▸ follows.room (same.symm.trans awake))
  | writing (.placing _) | writing (.asking _ _) | writing (.done _) => trivial
  | completing | aborting | asking _ | done _ => trivial

private theorem rests_ofRest (outlet : Outlet Unit) (rest : List UInt8) : (writing (.ofRest rest)).Rests outlet := by
  unfold Writing.ofRest
  split
  · trivial
  · trivial

private theorem rests_place (outlet : Outlet Unit) (rest : List UInt8) :
    (writing (outlet.place rest).1).Rests (outlet.place rest).2 := by
  simp only [Outlet.place]
  split
  · trivial
  · split
    · trivial
    · split
      next full => exact ⟨Nat.le_refl _, fun _ => full⟩
      · split
        · exact rests_ofRest _ _
        · trivial

private theorem place_owes {outlet : Outlet Unit} (known : outlet.channel = some ()) (rest : List UInt8) :
    (writing (outlet.place rest).1).Owes ∨ (outlet.place rest).2 = outlet := by
  simp only [Outlet.place, known]
  split
  · exact .inr rfl
  · split
    · exact .inr rfl
    · split
      · exact .inr rfl
      · exact .inl trivial

/-- What a step of a call does. If the channel is known, whoever changes the outlet is about to ask for
output, and then does so. -/
structure Moves (call : WorkerCall) (outlet : Outlet Unit) (s : Window) (call' : WorkerCall) (outlet' : Outlet Unit)
    (s' : Window) : Prop where
  follows : outlet.conduit.Follows outlet'.conduit
  channel : outlet'.channel = outlet.channel
  signalled : outlet'.signalled = outlet.signalled
  rests : call.Rests outlet → call'.Rests outlet'
  size : s'.size = s.size
  ended : s'.ended = s.ended
  stirs : outlet.channel = some () → call'.Owes ∨ (s'.requested = true ∧ s'.bell.Answers) ∨
    s' = s ∧ outlet' = outlet ∧ (call.Owes → call'.Owes)

private theorem Moves.idle {call call' : WorkerCall} (outlet : Outlet Unit) (s : Window)
    (rests : call.Rests outlet → call'.Rests outlet) (settled : call.Owes → call'.Owes) :
    call.Moves outlet s call' outlet s :=
  ⟨.refl _, rfl, rfl, rests, rfl, rfl, fun _ => .inr (.inr ⟨rfl, rfl, settled⟩)⟩

private theorem place_moves (call : WorkerCall) (outlet : Outlet Unit) (rest : List UInt8) (s : Window)
    (settled : ¬ call.Owes) :
    call.Moves outlet s (writing (outlet.place rest).1) (outlet.place rest).2 s := by
  obtain ⟨piece, moves⟩ := outlet.place_moves rest (.placing rest) fun _ h => h.symm
  have put := moves.put
  refine ⟨?_, by rw [put], by rw [put], fun _ => rests_place outlet rest, rfl, rfl, fun known => ?_⟩
  · rw [put]
    exact outlet.conduit.follows_append piece
  · rcases place_owes known rest with owes | same
    · exact .inl owes
    · exact .inr (.inr ⟨rfl, same, fun owes => absurd owes settled⟩)

private theorem ask_moves (call call' : WorkerCall) (outlet : Outlet Unit) (known : Option Unit) (s : Window)
    (rests : call'.Rests outlet) (settled : known = none → call.Owes → call'.Owes) :
    call.Moves outlet s call' outlet (Transport.requestOutput known s) := by
  cases known with
  | none => exact .idle outlet s (fun _ => rests) (settled rfl)
  | some ch => exact ⟨.refl _, rfl, rfl, fun _ => rests, rfl, rfl, fun _ => .inr (.inl s.requestOutput_heard)⟩

private theorem step_moves (call : WorkerCall) (outlet : Outlet Unit) (s : Window) :
    call.Moves outlet s (call.step outlet s).1 (call.step outlet s).2.1 (call.step outlet s).2.2 := by
  match call with
  | writing (.placing rest) => exact place_moves _ outlet rest s id
  | writing (.asleep rest since) =>
    dsimp only [step, Writing.step]
    split
    · exact .idle outlet s id id
    · exact place_moves _ outlet rest s id
  | writing (.asking ch rest) => exact ask_moves _ _ outlet (some ch) s (rests_ofRest outlet rest) nofun
  | writing (.done result) => exact .idle outlet s id id
  | completing =>
    rcases outlet.complete_cases with refused | again | made
    · simp only [step, refused]
      exact .idle outlet s id id
    · simp only [step, again]
      exact .idle outlet s id id
    · simp only [step, made]
      refine ⟨outlet.conduit.follows_finish, rfl, rfl, fun _ => trivial, rfl, rfl, fun known => .inl ?_⟩
      rw [known]
      trivial
  | aborting =>
    dsimp only [step, Outlet.abort]
    split
    · exact .idle outlet s id id
    · refine ⟨outlet.conduit.follows_abort, rfl, rfl, fun _ => trivial, rfl, rfl, fun known => .inl ?_⟩
      rw [known]
      trivial
  | asking known =>
    apply ask_moves (asking known) (done (.ok ())) outlet known s trivial
    rintro rfl
    exact id
  | done result => exact .idle outlet s id id

private theorem timeOut_moves (call : WorkerCall) (outlet : Outlet Unit) (s : Window) :
    call.Moves outlet s (call.timeOut outlet) outlet s := by
  match call with
  | writing (.asleep rest since) =>
    dsimp only [timeOut, Writing.timeOut]
    split
    · exact .idle outlet s (fun _ => trivial) nofun
    · exact .idle outlet s id id
  | writing (.placing _) | writing (.asking _ _) | writing (.done _) => exact .idle outlet s id id
  | completing | aborting | asking _ | done _ => exact .idle outlet s id id

end WorkerCall

/-- An outlet with the calls of its worker. -/
structure OutletWithWorker where
  outlet : Outlet Unit
  calls : List WorkerCall

namespace OutletWithWorker

/-- A call begins, does its next step, or loses its patience. -/
inductive Act
  | write (bytes : List UInt8)
  | complete
  | abort
  | work (place : Nat)
  | timeOut (place : Nat)

def act (a : Act) (d : OutletWithWorker) (s : Window) : OutletWithWorker × Window :=
  match a with
  | .write bytes => ({ d with calls := d.calls ++ [.writing (.ofRest bytes)] }, s)
  | .complete => ({ d with calls := d.calls ++ [.completing] }, s)
  | .abort => ({ d with calls := d.calls ++ [.aborting] }, s)
  | .work place =>
    match d.calls[place]? with
    | none => (d, s)
    | some call =>
      let (call, outlet, s) := call.step d.outlet s
      (⟨outlet, d.calls.set place call⟩, s)
  | .timeOut place =>
    match d.calls[place]? with
    | none => (d, s)
    | some call => ({ d with calls := d.calls.set place (call.timeOut d.outlet) }, s)

/-- A flush is one section. -/
instance : Supplier OutletWithWorker (Option (Except Fault Unit)) Act where
  opening := none
  advance _ d s :=
    let (result, outlet, s) := d.outlet.flush () s
    (some result, { d with outlet }, s)
  result? := id
  act := act

instance : Outflow OutletWithWorker Unit Window where
  produce d ch s :=
    let (result, outlet, s) := Outflow.produce d.outlet ch s
    (result, { d with outlet }, s)

/-- An outlet that knows its channel is calm when it is empty, and neither aborted nor complete. -/
instance : Watched OutletWithWorker (Option (Except Fault Unit)) where
  Linked d := d.outlet.channel = some ()
  Owes d := ∃ call ∈ d.calls, call.Owes
  Calm d := d.outlet.conduit.bytes = [] ∧ d.outlet.conduit.aborted = false ∧ d.outlet.conduit.ended = false
  Fit _ d ended := 0 < d.outlet.conduit.capacity ∧ (d.outlet.signalled = true → ended = true) ∧
    ∀ call ∈ d.calls, call.Rests d.outlet

open Watched (Linked Owes Calm Fit)

private theorem aside_join {t : Option (Except Fault Unit)} {d : OutletWithWorker} {s : Window}
    (fit : Fit t d s.ended) (call : WorkerCall)
    (rests : call.Rests d.outlet) : Aside t d s { d with calls := d.calls ++ [call] } s := by
  obtain ⟨positive, signalled, sleepers⟩ := fit
  refine ⟨⟨positive, signalled, ?_⟩, rfl, rfl, id, fun _ => .inr (.inr (.inr ⟨rfl, id, ?_⟩))⟩
  · intro other member
    rcases List.mem_append.mp member with old | new
    · exact sleepers other old
    · exact List.mem_singleton.mp new ▸ rests
  · rintro ⟨other, member, owes⟩
    exact ⟨other, List.mem_append_left _ member, owes⟩

private theorem aside_move {t : Option (Except Fault Unit)} {d : OutletWithWorker} {s : Window}
    (fit : Fit t d s.ended) {place : Nat}
    {call call' : WorkerCall} (there : d.calls[place]? = some call) {outlet : Outlet Unit} {s' : Window}
    (moves : call.Moves d.outlet s call' outlet s') :
    Aside t d s ⟨outlet, d.calls.set place call'⟩ s' := by
  obtain ⟨positive, signalled, sleepers⟩ := fit
  obtain ⟨inside, _⟩ := List.getElem?_eq_some_iff.mp there
  refine ⟨⟨?_, ?_, ?_⟩, moves.size, moves.ended, moves.channel.trans, fun known => ?_⟩
  · exact Nat.lt_of_lt_of_eq positive moves.follows.capacity.symm
  · exact fun now => moves.ended.trans (signalled (moves.signalled.symm.trans now))
  · intro other member
    rcases List.mem_or_eq_of_mem_set member with old | rfl
    · exact (sleepers other old).follows moves.follows
    · exact moves.rests (sleepers call (List.mem_of_getElem? there))
  · rcases moves.stirs known with owes | heard | ⟨rfl, rfl, keeps⟩
    · exact .inl ⟨call', List.mem_set inside call', owes⟩
    · exact .inr (.inl heard)
    · exact .inr (.inr (.inr ⟨rfl, id, exists_mem_set there keeps⟩))

private theorem aside_act (a : Act) (t : Option (Except Fault Unit)) (d : OutletWithWorker) (s : Window)
    (fit : Fit t d s.ended) :
    Aside t d s (act a d s).1 (act a d s).2 := by
  cases a with
  | write bytes => exact aside_join fit _ (WorkerCall.rests_ofRest d.outlet bytes)
  | complete => exact aside_join fit .completing trivial
  | abort => exact aside_join fit .aborting trivial
  | work place =>
    simp only [act]
    split
    · exact .refl fit
    next call there => exact aside_move fit there (call.step_moves d.outlet s)
  | timeOut place =>
    simp only [act]
    split
    · exact .refl fit
    next call there => exact aside_move fit there (call.timeOut_moves d.outlet s)

private theorem onwards_flush {t : Option (Except Fault Unit)} {d : OutletWithWorker} {s : Window} (live : 0 < s.size)
    (fit : Fit t d s.ended) : Onwards s (some (d.outlet.flush () s).1)
      { d with outlet := (d.outlet.flush () s).2.1 } (d.outlet.flush () s).2.2 := by
  obtain ⟨positive, signalled, sleepers⟩ := fit
  have flushed := d.outlet.flush_window live
  refine ⟨⟨?_, flushed.signalled signalled, ?_⟩, flushed.size, fun finished => ⟨flushed.channel, ?_⟩⟩
  · exact Nat.lt_of_lt_of_eq positive flushed.follows.capacity.symm
  · exact fun call member => (sleepers call member).follows flushed.follows
  · exact (flushed.served signalled (Option.some.inj finished)).imp_right .inr

instance : LawfulSupplier OutletWithWorker where
  opens _ _ _ := id
  opening_result := rfl
  aside := aside_act
  onwards _ _ _ _ := onwards_flush
  alone _ _ := ⟨1, _, rfl, rfl⟩

private theorem fit_new {limits : BufferSettings} {outlet : Outlet Unit}
    (made : Outlet.ofSettings limits = .ok outlet) :
    Fit (Supplier.opening OutletWithWorker) (mk outlet []) false := by
  obtain ⟨_, valid, _⟩ := ok_of_map made
  obtain rfl := Outlet.ofSettings_ok made
  have positive : limits.bufferSize ≠ 0 := by
    intro zero
    simp [Conduit.ofSettings, BufferSettings.validate, zero, Except.map] at valid
  exact ⟨Nat.pos_of_ne_zero positive, nofun, nofun⟩

end OutletWithWorker

/-- Whatever worker, pump and sink do in whatever order: while the pump is parked, there is nothing in
outlet and window to be sent, no abort and no end to be heard of, and no write waits for room. -/
theorem outlet_pump_keeps_up {ω : Type} [ByteSink ω] (settings : PumpSettings) (limits : BufferSettings)
    (outlet : Outlet Unit) (made : Outlet.ofSettings limits = .ok outlet) (sink : ω)
    (moves : List (SupplierPump.Move OutletWithWorker.Act ω))
    (d : SupplierPump OutletWithWorker (Option (Except Fault Unit)) ω)
    (reached : (SupplierPump.start settings (OutletWithWorker.mk outlet []) sink).run moves = d) (parked : d.Parked) :
    d.supplier.outlet.conduit.bytes = [] ∧ d.supplier.outlet.conduit.aborted = false ∧
      d.supplier.outlet.conduit.ended = false ∧ d.window.pending = [] ∧
      ∀ call ∈ d.supplier.calls, ¬ call.Blocked d.supplier.outlet := by
  have sound : d.Sound := reached ▸ (SupplierPump.sound_start (OutletWithWorker.fit_new made) sink).run moves
  obtain ⟨⟨empty, running, going⟩, pending⟩ := sound.parked parked
  refine ⟨empty, running, going, pending, ?_⟩
  obtain ⟨room, _, sleepers⟩ := sound.fit
  rintro call member blocked
  have rests := sleepers call member
  match call with
  | .writing (.asleep rest since) =>
    have full := rests.2 blocked
    simp only [Conduit.free, Conduit.length, empty, List.length_nil] at full
    exact absurd full (Nat.ne_of_gt room)

/-- A worker falls asleep over the last of four bytes, in front of an outlet for three. While the pump waits
behind these, the worker has been woken. -/
theorem outlet_pump_keeps_up_full :
    let outlet : Outlet Unit := ⟨⟨3, none, [], false, false, 0⟩, none, false⟩
    let first := SupplierPump.start ⟨4, 1⟩ (OutletWithWorker.mk outlet [])
      (PlayedSink.ofManner ⟨none, none, false, false⟩)
    let asleep : List (SupplierPump.Move OutletWithWorker.Act PlayedSink) :=
      [.act (.write [1, 2, 3, 4]), .act (.work 0), .act (.work 0)]
    let last : SupplierPump OutletWithWorker (Option (Except Fault Unit)) PlayedSink :=
      ⟨⟨⟨4, 1⟩, (), ⟨⟨none, none, false, false⟩, 3, [[1, 2, 3]], 0⟩, 3, .listening⟩, none,
        ⟨⟨⟨3, none, [], false, false, 1⟩, some (), false⟩, [.writing (.asleep [4] 0)]⟩, .ofSize 4⟩
    Outlet.ofSettings ⟨3, none⟩ = .ok outlet ∧
      first.run (asleep ++ .replicate 4 .pump ++ .replicate 4 .pump) = last ∧ last.Parked ∧
      last.supplier.outlet.conduit.bytes = [] ∧
      ∀ call ∈ last.supplier.calls, ¬ call.Blocked last.supplier.outlet := by
  intro outlet first asleep last
  have run : first.run (asleep ++ .replicate 4 .pump ++ .replicate 4 .pump) = last := by
    have placed : first.run asleep =
        ⟨.start ⟨4, 1⟩ () (.ofManner ⟨none, none, false, false⟩), none,
          ⟨⟨⟨3, none, [1, 2, 3], false, false, 0⟩, none, false⟩, [.writing (.asleep [4] 0)]⟩,
          .ofSize 4⟩ := rfl
    have sent : (first.run asleep).run (.replicate 4 .pump) =
        ⟨⟨⟨4, 1⟩, (), ⟨⟨none, none, false, false⟩, 3, [[1, 2, 3]], 0⟩, 0,
            .sending [] ⟨[1, 2, 3], false, false⟩⟩, none,
          ⟨⟨⟨3, none, [], false, false, 1⟩, some (), false⟩, [.writing (.asleep [4] 0)]⟩,
          .ofSize 4⟩ := by
      rw [placed]
      rfl
    rw [SupplierPump.run_append, SupplierPump.run_append, sent]
    rfl
  have parked : last.Parked := by
    refine ⟨rfl, nofun, ?_⟩
    rintro ⟨call, member, owes⟩
    obtain rfl := List.mem_singleton.mp member
    exact owes
  obtain ⟨empty, _, _, _, awake⟩ := outlet_pump_keeps_up ⟨4, 1⟩ ⟨3, none⟩ outlet rfl _ _ last run parked
  exact ⟨rfl, run, parked, empty, awake⟩

end Sluice
