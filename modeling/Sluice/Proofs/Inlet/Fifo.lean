import Sluice.Proofs.Inlet.Sections
import Sluice.Pump.Window

/-! An inlet between a reactor and one reading worker, whose sections come in any order. Bytes come
out in the order in which they went in, and the end of the stream is told behind the last of them. -/
namespace Sluice
open Conduit (removed removed_drop)

/-- A read in flight, with the bytes that its sections have removed from the conduit. -/
structure Reader (κ : Type) where
  room : Nat
  reading : Reading κ
  took : List UInt8

/-- What an inlet was called for, and with what result. -/
inductive InletEvent
  | filled (bytes : List UInt8) (result : Except Fault Nat)
  | read (room : Nat) (took : List UInt8) (result : Except Fault (List UInt8))
  | ended
  | aborted

namespace InletEvent

def accepted : InletEvent → List UInt8
  | filled bytes result => takenOf bytes result
  | _ => []

def returned : InletEvent → List UInt8
  | read _ _ (.ok bytes) => bytes
  | _ => []

def IsEnd (event : InletEvent) : Prop := ∃ room took, room ≠ 0 ∧ event = read room took (.ok [])

end InletEvent

/-- An inlet, the world of its capacity channels, the worker's read and the events so far. -/
structure InletRun (κ σ : Type) where
  inlet : Inlet κ
  world : σ
  reader : Option (Reader κ)
  events : List InletEvent

namespace InletRun

variable {κ σ : Type}

/-- A section of a call, an update of a capacity channel, or a move of the channels on their own.
An update of the capacity registers a channel, announces room and may revoke the grant. -/
inductive Move (κ σ : Type)
  | fill (bytes : List UInt8)
  | register (ch : κ)
  | announce (ch : κ) (increment : Nat)
  | revoke (increment : Nat)
  | markEnd
  | abort
  | read (room : Nat)
  | work
  | timeOut
  | become (world : σ)

def accepted (i : InletRun κ σ) : List UInt8 := i.events.flatMap InletEvent.accepted

def returned (i : InletRun κ σ) : List UInt8 := i.events.flatMap InletEvent.returned

/-- The bytes that the read in flight holds for the worker. -/
def inHand (i : InletRun κ σ) : List UInt8 :=
  match i.reader with
  | none => []
  | some r => r.reading.inHand

variable [CapacityChannel κ σ]

/-- Make one move. The worker begins a read only when none is in flight. -/
def step (i : InletRun κ σ) : Move κ σ → InletRun κ σ
  | .fill bytes =>
    let (result, inlet) := i.inlet.fill bytes
    { i with inlet, events := i.events ++ [.filled bytes result] }
  | .register ch => { i with inlet := (i.inlet.register ch).2 }
  | .announce ch increment => { i with world := (CapacityChannel.update ch increment i.world).2 }
  | .revoke increment => { i with inlet := i.inlet.revoke increment }
  | .markEnd => { i with inlet := i.inlet.markEnd, events := i.events ++ [.ended] }
  | .abort => { i with inlet := i.inlet.abort, events := i.events ++ [.aborted] }
  | .read room =>
    match i.reader with
    | none => { i with reader := some ⟨room, .ofRoom room, []⟩ }
    | some _ => i
  | .work =>
    match i.reader with
    | none => i
    | some ⟨room, .done result, took⟩ =>
      { i with reader := none, events := i.events ++ [.read room took result] }
    | some ⟨room, reading, took⟩ =>
      let (_, reading, inlet, world) := reading.step room i.inlet i.world
      { i with
        inlet, world
        reader := some ⟨room, reading, took ++ removed i.inlet.conduit inlet.conduit⟩ }
  | .timeOut =>
    match i.reader with
    | none => i
    | some r => { i with reader := some { r with reading := r.reading.timeOut i.inlet } }
  | .become world => { i with world }

def run (moves : List (Move κ σ)) (i : InletRun κ σ) : InletRun κ σ := moves.foldl step i

/-- An update of the capacity comes in such sections. -/
theorem updateCapacity_moves (i : InletRun κ σ) (ch : κ) :
    ∃ moves, i.run moves = { i with
      inlet := (i.inlet.updateCapacity ch i.world).2.1
      world := (i.inlet.updateCapacity ch i.world).2.2 } := by
  have registered : i.run [.register ch] = { i with inlet := (i.inlet.register ch).2 } := rfl
  unfold Inlet.updateCapacity
  split
  next refused => exact ⟨[.register ch], by rw [registered, refused]⟩
  next settled => exact ⟨[.register ch], by rw [registered, settled]⟩
  next increment inlet _ granted =>
    split
    next failed =>
      refine ⟨[.register ch, .announce ch increment, .revoke increment], ?_⟩
      simp [run, step, granted, failed]
    next passed =>
      refine ⟨[.register ch, .announce ch increment], ?_⟩
      simp [run, step, granted, passed]

end InletRun

/-- What an event may be like after others. A read returns what it has removed, nothing in case of a
fault, and nothing though it had room only behind the end and the last accepted byte; behind such a
read none removes a byte any more. -/
def InletEvent.Law (before : List InletEvent) : InletEvent → Prop
  | filled bytes result => ∀ n, result = .ok n → n ≤ bytes.length
  | read room took result =>
    (∀ fault, result = .error fault → took = []) ∧
    (∀ bytes, result = .ok bytes → bytes = took) ∧
    (room ≠ 0 → result = .ok [] →
      ended ∈ before ∧ before.flatMap returned = before.flatMap accepted) ∧
    (took ≠ [] → ∀ event ∈ before, ¬ event.IsEnd)
  | _ => True

namespace InletRun

variable {κ σ : Type}

/-- What holds of an inlet of some size at all times. `kept` says that no byte is lost, doubled or
moved past another, `resting` and `finished` what an end that a read has found stands for. -/
structure Sound (size : Nat) (i : InletRun κ σ) : Prop where
  kept : i.inlet.conduit.aborted = false → i.returned ++ i.inHand ++ i.inlet.conduit.bytes = i.accepted
  sized : i.inlet.conduit.capacity = size
  within : i.inlet.conduit.length ≤ size
  marked : i.inlet.conduit.ended = true → .ended ∈ i.events
  holding : ∀ r, i.reader = some r → r.reading.Sane r.room ∧ r.took = r.reading.inHand
  resting : ∀ r, i.reader = some r → r.room ≠ 0 → r.reading.AtEnd →
    i.inlet.conduit.ended = true ∧ i.inlet.conduit.bytes = [] ∧ i.returned = i.accepted
  finished : (∃ event ∈ i.events, event.IsEnd) →
    i.inlet.conduit.ended = true ∧ i.inlet.conduit.bytes = [] ∧ i.inHand = []
  lawful : Lawful InletEvent.Law i.events

private theorem Sound.frame {size : Nat} {i i' : InletRun κ σ} (h : i.Sound size)
    (conduit : i'.inlet.conduit = i.inlet.conduit) (reader : i'.reader = i.reader)
    (events : i'.events = i.events) : i'.Sound size := by
  have returned : i'.returned = i.returned := congrArg (List.flatMap InletEvent.returned) events
  have accepted : i'.accepted = i.accepted := congrArg (List.flatMap InletEvent.accepted) events
  have hand : i'.inHand = i.inHand := by simp only [inHand, reader]
  constructor
  · rw [conduit, returned, accepted, hand]
    exact h.kept
  · exact (congrArg Conduit.capacity conduit).trans h.sized
  · rw [conduit]
    exact h.within
  · rw [conduit, events]
    exact h.marked
  · rw [reader]
    exact h.holding
  · rw [reader, conduit, returned, accepted]
    exact h.resting
  · rw [events, conduit, hand]
    exact h.finished
  · rw [events]
    exact h.lawful

private theorem Sound.moves {size room : Nat} {i : InletRun κ σ} {reading reading' : Reading κ}
    {took : List UInt8} {inlet' : Inlet κ} (h : i.Sound size)
    (flight : i.reader = some ⟨room, reading, took⟩)
    (moves : reading.Moves room i.inlet reading' inlet') (world : σ) :
    Sound size ⟨inlet', world, some ⟨room, reading', took ++ removed i.inlet.conduit inlet'.conduit⟩,
      i.events⟩ := by
  obtain ⟨n, drop, hand⟩ := moves.taking
  have held : i.inHand = reading.inHand := by simp only [inHand, flight]
  have took_eq : took = reading.inHand := (h.holding _ flight).2
  constructor
  · intro live
    have kept := h.kept (by rw [drop] at live; exact live)
    rw [held] at kept
    change i.returned ++ reading'.inHand ++ inlet'.conduit.bytes = i.accepted
    rw [hand, drop, ← kept]
    simp [Conduit.drop]
  · exact (congrArg Conduit.capacity drop).trans h.sized
  · rw [drop]
    apply Nat.le_trans _ h.within
    simp only [Conduit.drop, Conduit.length, List.length_drop]
    exact Nat.sub_le _ _
  · intro ended
    exact h.marked (by rw [drop] at ended; exact ended)
  · rintro r flying
    obtain rfl := Option.some.inj flying
    exact ⟨moves.sane, by rw [hand, took_eq, drop, removed_drop]⟩
  · intro r flying some ending
    obtain rfl := Option.some.inj flying
    have rest : i.inlet.conduit.ended = true ∧ i.inlet.conduit.bytes = [] ∧ i.returned = i.accepted := by
      rcases moves.ending ending with before | ⟨live, ended, empty⟩
      · exact h.resting _ flight some before
      · have none : reading.inHand ++ i.inlet.conduit.bytes.take n = [] :=
          hand.symm.trans (congrArg Reading.inHand ending)
        have kept := h.kept live
        rw [held, (List.append_eq_nil_iff.mp none).1, empty, List.append_nil, List.append_nil] at kept
        exact ⟨ended, empty, kept⟩
    obtain ⟨ended, empty, all⟩ := rest
    exact ⟨by rw [drop]; exact ended, by rw [drop, Conduit.drop, empty, List.drop_nil], all⟩
  · intro found
    obtain ⟨ended, empty, none⟩ := h.finished found
    rw [held] at none
    refine ⟨by rw [drop]; exact ended, by rw [drop, Conduit.drop, empty, List.drop_nil], ?_⟩
    change reading'.inHand = []
    rw [hand, none, empty, List.take_nil, List.append_nil]
  · exact h.lawful

private theorem Sound.returns {size room : Nat} {i : InletRun κ σ} {result : Except Fault (List UInt8)}
    {took : List UInt8} (h : i.Sound size) (flight : i.reader = some ⟨room, .done result, took⟩) :
    Sound size { i with reader := none, events := i.events ++ [.read room took result] } := by
  have held : took = (Reading.done result : Reading κ).inHand := (h.holding _ flight).2
  have hand : i.inHand = took := by
    rw [held]
    simp only [inHand, flight]
  have failing : ∀ fault, result = .error fault → took = [] := by
    rintro fault rfl
    exact held
  have passing : ∀ bytes, result = .ok bytes → bytes = took := by
    rintro bytes rfl
    exact held.symm
  have told : InletEvent.returned (.read room took result) = took := by
    cases result with
    | error fault => exact (failing fault rfl).symm
    | ok bytes => exact passing bytes rfl
  have rest : room ≠ 0 → result = .ok [] →
      i.inlet.conduit.ended = true ∧ i.inlet.conduit.bytes = [] ∧ i.returned = i.accepted :=
    fun some none => h.resting _ flight some (congrArg Reading.done none)
  constructor
  · intro live
    have kept := h.kept live
    rw [hand] at kept
    simpa [returned, accepted, inHand, told, InletEvent.accepted] using kept
  · exact h.sized
  · exact h.within
  · exact fun ended => List.mem_append_left _ (h.marked ended)
  · exact nofun
  · exact nofun
  · rintro ⟨event, found, ending⟩
    rcases List.mem_append.mp found with old | new
    · obtain ⟨ended, empty, _⟩ := h.finished ⟨event, old, ending⟩
      exact ⟨ended, empty, rfl⟩
    · obtain rfl := List.mem_singleton.mp new
      obtain ⟨_, _, some, same⟩ := ending
      obtain ⟨rfl, rfl, rfl⟩ := InletEvent.read.inj same
      obtain ⟨ended, empty, _⟩ := rest some rfl
      exact ⟨ended, empty, rfl⟩
  · apply h.lawful.append_one
    refine ⟨failing, passing, ?_, ?_⟩
    · intro some none
      obtain ⟨ended, _, all⟩ := rest some none
      exact ⟨h.marked ended, all⟩
    · intro some event found ending
      exact some (hand.symm.trans (h.finished ⟨event, found, ending⟩).2.2)

/-- What an event does that is not a read: it adds what it got accepted, which is nothing once the
stream has ended, and a stream that has ended stays so. -/
structure Alters (inlet : Inlet κ) (event : InletEvent) (inlet' : Inlet κ) : Prop where
  law : ∀ before, event.Law before
  outside : ∀ room took result, event ≠ .read room took result
  sized : inlet'.conduit.capacity = inlet.conduit.capacity
  within : inlet.conduit.length ≤ inlet.conduit.capacity → inlet'.conduit.length ≤ inlet.conduit.capacity
  live : inlet'.conduit.aborted = false → inlet.conduit.aborted = false ∧
    inlet'.conduit.bytes = inlet.conduit.bytes ++ event.accepted
  marked : inlet'.conduit.ended = true → inlet.conduit.ended = true ∨ event = .ended
  closed : inlet.conduit.ended = true → inlet'.conduit.ended = true ∧ event.accepted = [] ∧
    (inlet.conduit.bytes = [] → inlet'.conduit.bytes = [])

private theorem alters_fill (inlet : Inlet κ) (bytes : List UInt8) :
    Alters inlet (.filled bytes (inlet.fill bytes).1) (inlet.fill bytes).2 := by
  obtain ⟨least, none, within, wakes, same⟩ := inlet.fill_spec bytes
  constructor
  · exact fun _ => least
  · exact nofun
  · rw [same]
  · exact within
  · intro live
    rw [same] at live ⊢
    exact ⟨live, rfl⟩
  · intro ended
    rw [same] at ended
    exact .inl ended
  · intro ended
    refine ⟨by rw [same]; exact ended, none ended, fun empty => ?_⟩
    rw [same]
    simp only [empty, none ended, List.append_nil]

private theorem alters_markEnd (inlet : Inlet κ) : Alters inlet .ended inlet.markEnd where
  law _ := trivial
  outside := nofun
  sized := rfl
  within := id
  live live := ⟨live, (List.append_nil _).symm⟩
  marked _ := .inr rfl
  closed _ := ⟨rfl, rfl, id⟩

private theorem alters_abort (inlet : Inlet κ) : Alters inlet .aborted inlet.abort where
  law _ := trivial
  outside := nofun
  sized := rfl
  within _ := Nat.zero_le _
  live := nofun
  marked := .inl
  closed ended := ⟨ended, rfl, fun _ => rfl⟩

private theorem Sound.serves {size : Nat} {i : InletRun κ σ} {inlet' : Inlet κ} {event : InletEvent} (h : i.Sound size)
    (alters : Alters i.inlet event inlet') :
    Sound size { i with inlet := inlet', events := i.events ++ [event] } := by
  have silent : event.returned = [] := by
    cases event with
    | read room took result => exact absurd rfl (alters.outside room took result)
    | _ => rfl
  constructor
  · intro live
    obtain ⟨before, added⟩ := alters.live live
    have kept := h.kept before
    simp only [returned, accepted, inHand] at kept
    simp only [returned, accepted, inHand, added, List.flatMap_append, ← kept]
    simp [silent]
  · exact alters.sized.trans h.sized
  · exact h.sized ▸ alters.within (h.sized ▸ h.within)
  · intro ended
    rcases alters.marked ended with before | rfl
    · exact List.mem_append_left _ (h.marked before)
    · exact List.mem_append_right _ (List.mem_singleton.mpr rfl)
  · exact h.holding
  · intro r flight some ending
    obtain ⟨ended, empty, all⟩ := h.resting r flight some ending
    obtain ⟨ended', none, empty'⟩ := alters.closed ended
    simp only [returned, accepted] at all
    exact ⟨ended', empty' empty, by simp [returned, accepted, silent, none, all]⟩
  · rintro ⟨found, member, ending⟩
    rcases List.mem_append.mp member with old | new
    · obtain ⟨ended, empty, none⟩ := h.finished ⟨found, old, ending⟩
      obtain ⟨ended', _, empty'⟩ := alters.closed ended
      exact ⟨ended', empty' empty, none⟩
    · obtain rfl := List.mem_singleton.mp new
      obtain ⟨room, took, _, same⟩ := ending
      exact absurd same (alters.outside room took _)
  · exact h.lawful.append_one (alters.law _)

private theorem Sound.begins {size : Nat} {i : InletRun κ σ} (h : i.Sound size) (idle : i.reader = none) (room : Nat) :
    Sound size { i with reader := some ⟨room, .ofRoom room, []⟩ } := by
  have before : i.inHand = [] := by simp only [inHand, idle]
  have after : (Reading.ofRoom room : Reading κ).inHand = [] := Reading.inHand_ofRoom room
  constructor
  · intro live
    have kept := h.kept live
    rw [before] at kept
    simpa [returned, accepted, inHand, after] using kept
  · exact h.sized
  · exact h.within
  · exact h.marked
  · intro r flight
    obtain rfl := Option.some.inj flight
    exact ⟨Reading.sane_ofRoom room, after.symm⟩
  · intro r flight some ending
    obtain rfl := Option.some.inj flight
    rw [Reading.ofRoom, if_neg some] at ending
    cases ending
  · intro found
    obtain ⟨ended, empty, _⟩ := h.finished found
    exact ⟨ended, empty, after⟩
  · exact h.lawful

variable [CapacityChannel κ σ]

theorem Sound.step {size : Nat} {i : InletRun κ σ} (h : i.Sound size) (move : Move κ σ) :
    (i.step move).Sound size := by
  cases move with
  | fill bytes => exact h.serves (alters_fill i.inlet bytes)
  | register ch => exact h.frame (i.inlet.conduit_register ch) rfl rfl
  | announce ch increment => exact h.frame rfl rfl rfl
  | revoke increment => exact h.frame rfl rfl rfl
  | markEnd => exact h.serves (alters_markEnd i.inlet)
  | abort => exact h.serves (alters_abort i.inlet)
  | read room =>
    unfold InletRun.step
    cases flight : i.reader with
    | none => exact h.begins flight room
    | some r => exact h
  | work =>
    unfold InletRun.step
    cases flight : i.reader with
    | none => exact h
    | some r =>
      obtain ⟨room, reading, took⟩ := r
      have moves := reading.step_moves room i.inlet i.world (h.holding _ flight).1
      have moved := h.moves flight moves (reading.step room i.inlet i.world).2.2.2
      cases reading with
      | done result => exact h.returns flight
      | _ => exact moved
  | timeOut =>
    unfold InletRun.step
    cases flight : i.reader with
    | none => exact h
    | some r =>
      obtain ⟨room, reading, took⟩ := r
      have moves := reading.timeOut_moves room i.inlet (h.holding _ flight).1
      have moved := h.moves flight moves i.world
      rw [Conduit.removed_self, List.append_nil] at moved
      exact moved
  | become world => exact h.frame rfl rfl rfl

theorem Sound.run {size : Nat} {i : InletRun κ σ} (h : i.Sound size) (moves : List (Move κ σ)) :
    (i.run moves).Sound size := by
  induction moves generalizing i with
  | nil => exact h
  | cons move rest ih => exact ih (h.step move)

def start (inlet : Inlet κ) (world : σ) : InletRun κ σ := ⟨inlet, world, none, []⟩

omit [CapacityChannel κ σ] in
theorem sound_start (settings : BufferSettings) (inlet : Inlet κ) (world : σ)
    (valid : Inlet.ofSettings settings = .ok inlet) :
    (start inlet world).Sound settings.bufferSize := by
  obtain rfl := Inlet.ofSettings_ok valid
  exact ⟨fun _ => rfl, rfl, Nat.zero_le _, nofun, nofun, nofun, nofun, .nil⟩

end InletRun

/-- In whatever order the sections come: as long as nobody aborts, the bytes that reads have
returned or hold, and behind them those in the buffer, are the bytes that fills got accepted. The
buffer stays within its size, and every event obeys `InletEvent.Law`. -/
theorem inlet_fifo {κ σ : Type} [CapacityChannel κ σ] (settings : BufferSettings) (inlet : Inlet κ)
    (valid : Inlet.ofSettings settings = .ok inlet) (world : σ) (moves : List (InletRun.Move κ σ)) :
    let i := (InletRun.start inlet world).run moves
    (i.inlet.conduit.aborted = false → i.returned ++ i.inHand ++ i.inlet.conduit.bytes = i.accepted) ∧
    i.inlet.conduit.length ≤ settings.bufferSize ∧
    Lawful InletEvent.Law i.events := by
  intro i
  have sound : i.Sound settings.bufferSize := (InletRun.sound_start settings inlet world valid).run moves
  exact ⟨sound.kept, sound.within, sound.lawful⟩

/-- Two bytes of three fit, a read takes the first and the next one finds the other before the end. -/
theorem inlet_fifo_two :
    let settings : BufferSettings := ⟨2, none⟩
    let inlet : Inlet Unit := ⟨⟨2, none, [], false, false, 0⟩, none, 0, none⟩
    let moves : List (InletRun.Move Unit Bell) :=
      [.fill [1, 2, 3], .read 1, .work, .work, .markEnd, .read 4, .work, .work, .read 4, .work, .work]
    let i := (InletRun.start inlet Bell.silent).run moves
    Inlet.ofSettings settings = .ok inlet ∧ i.inlet.conduit.aborted = false ∧
      i.returned ++ i.inHand ++ i.inlet.conduit.bytes = [1, 2] := by
  intro settings inlet moves
  have fifo := inlet_fifo settings inlet rfl Bell.silent moves
  exact ⟨rfl, by decide, (fifo.1 (by decide)).trans (by decide)⟩

end Sluice
