import Sluice.Proofs.Outlet.Sections
import Sluice.Pump.Window

/-! An outlet between one writing worker and a reactor, whose sections come in any order. Bytes go
out in the order in which they came in, and the end of the body goes out once, behind all of them. -/
namespace Sluice
open Conduit (added added_append)

/-- A write in flight, with the bytes that its sections have put into the conduit. -/
structure Writer (ι : Type) where
  src : List UInt8
  placed : List UInt8
  writing : Writing ι

/-- What happened around an outlet: a call on a channel, a piece of a write placed, a write
returned, the body completed. -/
inductive OutletEvent (ι : Type)
  | called (deed : Deed ι)
  | placed (piece : List UInt8)
  | wrote (src part : List UInt8) (result : Except Fault Unit)
  | completed

namespace OutletEvent

variable {ι : Type}

def delivered : OutletEvent ι → List UInt8
  | called deed => deed.taken
  | _ => []

def piece : OutletEvent ι → List UInt8
  | placed piece => piece
  | _ => []

def written : OutletEvent ι → List UInt8
  | wrote _ part _ => part
  | _ => []

@[simp] theorem piece_called (deeds : List (Deed ι)) : (deeds.map called).flatMap piece = [] := by
  simp [piece]

@[simp] theorem written_called (deeds : List (Deed ι)) : (deeds.map called).flatMap written = [] := by
  simp [written]

def IsEnd : OutletEvent ι → Prop
  | called (.ended _ _) => True
  | _ => False

private theorem append_one_going {events : List (OutletEvent ι)} {e : OutletEvent ι} (before : ∀ d ∈ events, ¬ d.IsEnd)
    (going : ¬ e.IsEnd) : ∀ d ∈ events ++ [e], ¬ d.IsEnd := by
  intro d member
  rcases List.mem_append.mp member with old | new
  · exact before d old
  · exact List.mem_singleton.mp new ▸ going

/-- What may happen after other things. The end is passed on once, after the body was completed and
all that was placed was taken, and no channel is written to behind it. A write places what it was
given from the front, and all of it if it succeeds. -/
def Law (before : List (OutletEvent ι)) : OutletEvent ι → Prop
  | called (.ended _ _) =>
    completed ∈ before ∧ before.flatMap delivered = before.flatMap piece ∧ ∀ d ∈ before, ¬ d.IsEnd
  | called (.wrote _ _ _) => ∀ d ∈ before, ¬ d.IsEnd
  | wrote src part result => part <+: src ∧ (result = .ok () → part = src)
  | _ => True

end OutletEvent

/-- An outlet, the world of its channels, the worker's write and what has happened so far. -/
structure OutletRun (ι σ : Type) where
  outlet : Outlet ι
  world : σ
  writer : Option (Writer ι)
  events : List (OutletEvent ι)

namespace OutletRun

variable {ι σ : Type}

/-- A section of a call, a request for a flush, or a move of the channels on their own. -/
inductive Move (ι σ : Type)
  | write (src : List UInt8)
  | work
  | timeOut
  | complete
  | ask (ch : Option ι)
  | flush (ch : ι)
  | abort
  | become (world : σ)

def delivered (d : OutletRun ι σ) : List UInt8 := d.events.flatMap OutletEvent.delivered

def placed (d : OutletRun ι σ) : List UInt8 := d.events.flatMap OutletEvent.piece

def written (d : OutletRun ι σ) : List UInt8 := d.events.flatMap OutletEvent.written

/-- The bytes that the write in flight has placed. -/
def underway (d : OutletRun ι σ) : List UInt8 :=
  match d.writer with
  | none => []
  | some w => w.placed

def start (outlet : Outlet ι) (world : σ) : OutletRun ι σ := ⟨outlet, world, none, []⟩

variable [Transport ι σ]

/-- Make one move. The worker begins a write only when none is in flight. -/
def step (d : OutletRun ι σ) : Move ι σ → OutletRun ι σ
  | .write src =>
    match d.writer with
    | none => { d with writer := some ⟨src, [], .ofRest src⟩ }
    | some _ => d
  | .work =>
    match d.writer with
    | none => d
    | some ⟨src, placed, .done result⟩ =>
      { d with writer := none, events := d.events ++ [.wrote src placed result] }
    | some ⟨src, placed, writing⟩ =>
      let (_, writing, outlet, c) := writing.step d.outlet (Chronicle.start (ι := ι) d.world)
      let piece := added d.outlet.conduit outlet.conduit
      { outlet
        world := c.world
        writer := some ⟨src, placed ++ piece, writing⟩
        events := d.events ++ c.deeds.map .called ++ [.placed piece] }
  | .timeOut =>
    match d.writer with
    | none => d
    | some w => { d with writer := some { w with writing := w.writing.timeOut d.outlet } }
  | .complete =>
    match d.outlet.complete with
    | (.error _, outlet) => { d with outlet }
    | (.ok _, outlet) => { d with outlet, events := d.events ++ [.completed] }
  | .ask ch =>
    let c := Transport.requestOutput ch (Chronicle.start (ι := ι) d.world)
    { d with world := c.world, events := d.events ++ c.deeds.map .called }
  | .flush ch =>
    let (_, outlet, c) := d.outlet.flush ch (Chronicle.start (ι := ι) d.world)
    { d with outlet, world := c.world, events := d.events ++ c.deeds.map .called }
  | .abort => { d with outlet := d.outlet.abort.2 }
  | .become world => { d with world }

def run (moves : List (Move ι σ)) (d : OutletRun ι σ) : OutletRun ι σ := moves.foldl step d

/-- Completing the body and asking for a flush are such moves. -/
theorem writeCompleted_moves (d : OutletRun ι σ) :
    ∃ moves, (d.run moves).outlet = (d.outlet.writeCompleted d.world).2.1 ∧
      (d.run moves).world = (d.outlet.writeCompleted d.world).2.2 := by
  unfold Outlet.writeCompleted
  split
  next refused => exact ⟨[.complete], by simp [run, step, refused]⟩
  next ch outlet passed =>
    refine ⟨[.complete, .ask ch], ?_⟩
    cases ch with
    | none => simp [run, step, passed, Transport.requestOutput, Chronicle.start, Outlet.ask]
    | some ch => simp [run, step, passed, Transport.requestOutput, Chronicle.start, Outlet.ask]

end OutletRun

/-- What holds of an outlet of some size and the events around it. `kept` says that no byte is lost,
doubled or moved past another, `drained` that nothing is left to do for an outlet whose end is passed on. -/
structure Outlet.Kept {ι : Type} (size : Nat) (outlet : Outlet ι) (events : List (OutletEvent ι)) : Prop where
  kept : outlet.conduit.aborted = false →
    events.flatMap OutletEvent.delivered ++ outlet.conduit.bytes = events.flatMap OutletEvent.piece
  sized : outlet.conduit.capacity = size
  within : outlet.conduit.length ≤ size
  completed : outlet.conduit.ended = true → .completed ∈ events
  under : outlet.signalled = false → ∀ e ∈ events, ¬ e.IsEnd
  drained : outlet.signalled = true → outlet.conduit.ended = true ∧ outlet.conduit.bytes = []
  lawful : Lawful OutletEvent.Law events

namespace Outlet

variable {ι σ : Type} {size : Nat} {outlet outlet' : Outlet ι} {events : List (OutletEvent ι)}

private theorem Kept.append_one (h : outlet.Kept size events) (e : OutletEvent ι) (law : e.Law events)
    (still : e.delivered = [] ∧ e.piece = []) (going : ¬ e.IsEnd) : outlet.Kept size (events ++ [e]) := by
  constructor
  · intro live
    simpa [still.1, still.2] using h.kept live
  · exact h.sized
  · exact h.within
  · exact fun ended => List.mem_append_left _ (h.completed ended)
  · exact fun open' => OutletEvent.append_one_going (h.under open') going
  · exact h.drained
  · exact h.lawful.append_one law

private theorem Kept.asked [Transport ι σ] (h : outlet.Kept size events) (ch : Option ι) (world : σ) :
    outlet.Kept size (events ++ (Transport.requestOutput ch (Chronicle.start world)).deeds.map .called) := by
  cases ch with
  | none => exact (List.append_nil events).symm ▸ h
  | some ch => exact h.append_one (.called (.asked ch)) trivial ⟨rfl, rfl⟩ id

private theorem Kept.sent (h : outlet.Kept size events) (some : outlet.conduit.bytes ≠ []) (ch : ι) (n wakes : Nat) :
    Kept size { outlet with
        conduit := { outlet.conduit with bytes := outlet.conduit.bytes.drop n, wakes } }
      (events ++ [.called (.wrote ch outlet.conduit.bytes (.ok n))]) := by
  constructor
  · intro live
    have kept := h.kept live
    simp only [List.flatMap_append, List.flatMap_singleton, ← kept]
    simp [OutletEvent.delivered, OutletEvent.piece, Deed.taken, takenOf]
  · exact h.sized
  · apply Nat.le_trans _ h.within
    simp only [Conduit.length, List.length_drop]
    exact Nat.sub_le _ _
  · exact fun ended => List.mem_append_left _ (h.completed ended)
  · exact fun open' => OutletEvent.append_one_going (h.under open') id
  · exact fun closed => absurd (h.drained closed).2 some
  · exact h.lawful.append_one (h.under (Bool.eq_false_iff.mpr fun closed => some (h.drained closed).2))

private theorem Kept.refused (h : outlet.Kept size events) (some : outlet.conduit.bytes ≠ []) (ch : ι) (fault : Fault) :
    outlet.Kept size (events ++ [.called (.wrote ch outlet.conduit.bytes (.error fault))]) :=
  h.append_one _ (h.under (Bool.eq_false_iff.mpr fun closed => some (h.drained closed).2)) ⟨rfl, rfl⟩ id

private theorem Kept.told (h : outlet.Kept size events) (live : outlet.conduit.aborted = false)
    (empty : outlet.conduit.bytes = []) (ended : outlet.conduit.ended = true)
    (open' : outlet.signalled = false) (ch : ι) (result : Except Fault Unit) :
    Kept size { outlet with signalled := true } (events ++ [.called (.ended ch result)]) := by
  have all : events.flatMap OutletEvent.delivered = events.flatMap OutletEvent.piece := by
    have kept := h.kept live
    rwa [empty, List.append_nil] at kept
  constructor
  · intro _
    simp [OutletEvent.delivered, OutletEvent.piece, Deed.taken, empty, all]
  · exact h.sized
  · exact h.within
  · exact fun ended => List.mem_append_left _ (h.completed ended)
  · intro none
    cases none
  · exact fun _ => ⟨ended, empty⟩
  · exact h.lawful.append_one ⟨h.completed ended, all, h.under open'⟩

variable [Transport ι σ]

private theorem Kept.drain (c : Chronicle ι σ) (h : outlet.Kept size (events ++ c.deeds.map .called)) (ch : ι) :
    (outlet.drain ch c).2.1.Kept size (events ++ (outlet.drain ch c).2.2.deeds.map .called) ∧
    (outlet.drain ch c).2.1.conduit.aborted = outlet.conduit.aborted := by
  have noted : (Transport.write ch outlet.conduit.bytes c).2.deeds =
      c.deeds ++ [.wrote ch outlet.conduit.bytes (Transport.write ch outlet.conduit.bytes c).1] := rfl
  unfold Outlet.drain
  split
  · exact ⟨h, rfl⟩
  next waiting =>
    have some : outlet.conduit.bytes ≠ [] := fun empty => waiting (List.isEmpty_iff.mpr empty)
    split
    next fault c' failed =>
      rw [failed] at noted
      change c'.deeds = _ at noted
      rw [noted, List.map_append, ← List.append_assoc]
      exact ⟨h.refused some ch fault, rfl⟩
    next n c' taken =>
      rw [taken] at noted
      change c'.deeds = _ at noted
      rw [noted, List.map_append, ← List.append_assoc]
      split
      · exact ⟨h.sent some ch n _, rfl⟩
      · exact ⟨h.sent some ch n _, rfl⟩

private theorem Kept.signal (c : Chronicle ι σ) (h : outlet.Kept size (events ++ c.deeds.map .called))
    (live : outlet.conduit.aborted = false) (ch : ι) :
    (outlet.signal ch c).2.1.Kept size (events ++ (outlet.signal ch c).2.2.deeds.map .called) := by
  have noted : (Transport.endStream ch none c).2.deeds =
      c.deeds ++ [.ended ch (Transport.endStream ch none c).1] := rfl
  simp only [Outlet.signal]
  split
  next due =>
    obtain ⟨empty, ended, open'⟩ := due
    rw [noted, List.map_append, ← List.append_assoc]
    exact h.told live (List.isEmpty_iff.mp empty) ended (Bool.eq_false_iff.mpr open') ch _
  · exact h

private theorem Kept.flush (h : outlet.Kept size events) (ch : ι) (world : σ) :
    (outlet.flush ch (Chronicle.start (ι := ι) world)).2.1.Kept size
      (events ++ (outlet.flush ch (Chronicle.start (ι := ι) world)).2.2.deeds.map .called) := by
  have known : Kept size { outlet with channel := some ch }
      (events ++ (Chronicle.start (ι := ι) world).deeds.map .called) := by
    rw [show (Chronicle.start (ι := ι) world).deeds.map OutletEvent.called = [] from rfl, List.append_nil]
    exact ⟨h.kept, h.sized, h.within, h.completed, h.under, h.drained, h.lawful⟩
  obtain ⟨drained, same⟩ := known.drain _ ch
  simp only [Outlet.flush]
  split
  · exact known
  next live =>
    have live : outlet.conduit.aborted = false := Bool.eq_false_iff.mpr live
    split
    next failed =>
      rw [failed] at drained
      exact drained
    next outlet' c passed =>
      rw [passed] at drained same
      exact drained.signal c (same.trans live) ch

omit [Transport ι σ]

private theorem Kept.placed {writing writing' : Writing ι} {piece : List UInt8} (h : outlet.Kept size events)
    (moves : writing.Moves outlet writing' outlet' piece) :
    outlet'.Kept size (events ++ [.placed piece]) := by
  obtain rfl := moves.put
  constructor
  · intro live
    have kept := h.kept live
    simp only [List.flatMap_append, List.flatMap_singleton, ← kept]
    simp [OutletEvent.delivered, OutletEvent.piece]
  · exact h.sized
  · exact h.sized ▸ moves.within (h.sized ▸ h.within)
  · exact fun ended => List.mem_append_left _ (h.completed ended)
  · exact fun open' => OutletEvent.append_one_going (h.under open') id
  · intro closed
    obtain ⟨ended, empty⟩ := h.drained closed
    have none : piece = [] := Decidable.byContradiction fun some =>
      absurd ended (Bool.eq_false_iff.mp (moves.going some).2)
    exact ⟨ended, by rw [empty, none, List.append_nil]⟩
  · exact h.lawful.append_one trivial

private theorem Kept.finished (h : outlet.Kept size events) :
    Kept size { outlet with conduit := outlet.conduit.finish } (events ++ [.completed]) := by
  obtain ⟨kept, sized, within, _, under, drained, lawful⟩ := h.append_one .completed trivial ⟨rfl, rfl⟩ id
  exact ⟨kept, sized, within, fun _ => List.mem_append_right _ (List.mem_singleton.mpr rfl), under,
    fun closed => ⟨rfl, (drained closed).2⟩, lawful⟩

private theorem Kept.complete (h : outlet.Kept size events) :
    (∀ fault, outlet.complete = (.error fault, outlet') → outlet'.Kept size events) ∧
    (∀ ch, outlet.complete = (.ok ch, outlet') → outlet'.Kept size (events ++ [.completed])) := by
  unfold Outlet.complete
  split
  · exact ⟨fun fault same => (Prod.mk.inj same).2 ▸ h, nofun⟩
  · split
    · refine ⟨nofun, fun ch same => ?_⟩
      rw [← (Prod.mk.inj same).2]
      exact h.append_one .completed trivial ⟨rfl, rfl⟩ id
    · refine ⟨nofun, fun ch same => ?_⟩
      rw [← (Prod.mk.inj same).2]
      exact h.finished

private theorem Kept.aborted (h : outlet.Kept size events) : outlet.abort.2.Kept size events := by
  unfold Outlet.abort
  split
  · exact h
  · exact ⟨nofun, h.sized, Nat.zero_le _, h.completed, h.under, fun closed => ⟨(h.drained closed).1, rfl⟩,
      h.lawful⟩

end Outlet

namespace OutletRun

variable {ι σ : Type} {size : Nat} {d : OutletRun ι σ}

/-- What holds of an outlet with its calls at all times: what is known of the outlet, that every piece belongs to
a write, and that the write in flight has as much left as it has not placed. -/
structure Sound (size : Nat) (d : OutletRun ι σ) : Prop where
  outlet : d.outlet.Kept size d.events
  tally : d.placed = d.written ++ d.underway
  writer : ∀ w, d.writer = some w → ∃ rest, w.src = w.placed ++ rest ∧ w.writing.Left rest

private theorem Sound.called (h : d.Sound size) (outlet : Outlet ι) (world : σ) (deeds : List (Deed ι))
    (kept : outlet.Kept size (d.events ++ deeds.map .called)) :
    Sound size { d with outlet, world, events := d.events ++ deeds.map .called } := by
  refine ⟨kept, ?_, h.writer⟩
  have tally := h.tally
  simp only [placed, written, underway] at tally
  simpa [placed, written, underway] using tally

private theorem Sound.resumes {w : Writer ι} (h : d.Sound size) (under : w.placed = d.underway)
    (left : ∃ rest, w.src = w.placed ++ rest ∧ w.writing.Left rest) :
    Sound size { d with writer := some w } := by
  refine ⟨h.outlet, ?_, ?_⟩
  · have tally := h.tally
    rw [← under] at tally
    exact tally
  · intro w' flying
    obtain rfl := Option.some.inj flying
    exact left

theorem sound_start (settings : BufferSettings) (outlet : Outlet ι) (world : σ)
    (valid : Outlet.ofSettings settings = .ok outlet) :
    (start outlet world).Sound settings.bufferSize := by
  obtain rfl := Outlet.ofSettings_ok valid
  exact ⟨⟨fun _ => rfl, rfl, Nat.zero_le _, nofun, fun _ _ none => absurd none List.not_mem_nil, nofun,
    .nil⟩, rfl, nofun⟩

variable [Transport ι σ]

theorem Sound.works {src part : List UInt8} {writing : Writing ι} (h : d.Sound size)
    (flight : d.writer = some ⟨src, part, writing⟩) :
    let (_, writing', outlet', c) := writing.step d.outlet (Chronicle.start (ι := ι) d.world)
    let piece := added d.outlet.conduit outlet'.conduit
    Sound size ⟨outlet', c.world, some ⟨src, part ++ piece, writing'⟩,
      d.events ++ c.deeds.map .called ++ [.placed piece]⟩ := by
  obtain ⟨piece, moves⟩ := writing.step_moves d.outlet (Chronicle.start (ι := ι) d.world)
  obtain ⟨ch, asks⟩ := writing.step_asks d.outlet (Chronicle.start (ι := ι) d.world)
  have asked := h.outlet.asked ch d.world
  generalize writing.step d.outlet (Chronicle.start (ι := ι) d.world) = after at moves asks
  obtain ⟨pace, writing', outlet', c⟩ := after
  obtain rfl := asks
  change writing.Moves d.outlet writing' outlet' piece at moves
  have new : added d.outlet.conduit outlet'.conduit = piece := by
    rw [moves.put]
    exact added_append d.outlet.conduit piece
  simp only [new]
  refine ⟨asked.placed moves, ?_, ?_⟩
  · have tally := h.tally
    simp only [placed, written, underway, flight] at tally
    simp only [placed, written, underway]
    simp [tally, OutletEvent.piece, OutletEvent.written]
  · intro w flying
    obtain rfl := Option.some.inj flying
    obtain ⟨rest, whole, left⟩ := h.writer _ flight
    obtain ⟨rest', split, left'⟩ := moves.left rest left
    refine ⟨rest', ?_, left'⟩
    rw [List.append_assoc, ← split]
    exact whole

omit [Transport ι σ] in
private theorem Sound.returns {src part : List UInt8} {result : Except Fault Unit} (h : d.Sound size)
    (flight : d.writer = some ⟨src, part, .done result⟩) :
    Sound size { d with writer := none, events := d.events ++ [.wrote src part result] } := by
  obtain ⟨rest, whole, left⟩ := h.writer _ flight
  have all : result = .ok () → part = src := by
    rintro rfl
    obtain rfl : rest = [] := left
    exact (whole.trans (List.append_nil part)).symm
  refine ⟨h.outlet.append_one _ ⟨⟨rest, whole.symm⟩, all⟩ ⟨rfl, rfl⟩ id, ?_, nofun⟩
  have tally := h.tally
  simp only [placed, written, underway, flight] at tally
  simp only [placed, written, underway]
  simp [tally, OutletEvent.piece, OutletEvent.written]

theorem Sound.step (h : d.Sound size) (move : Move ι σ) : (d.step move).Sound size := by
  cases move with
  | write src =>
    unfold OutletRun.step
    cases flight : d.writer with
    | none =>
      have idle : [] = d.underway := by simp only [underway, flight]
      exact h.resumes idle ⟨src, rfl, Writing.left_ofRest src⟩
    | some w => exact h
  | work =>
    unfold OutletRun.step
    cases flight : d.writer with
    | none => exact h
    | some w =>
      obtain ⟨src, part, writing⟩ := w
      have works := h.works flight
      cases writing with
      | done result => exact h.returns flight
      | _ => exact works
  | timeOut =>
    unfold OutletRun.step
    cases flight : d.writer with
    | none => exact h
    | some w =>
      have under : w.placed = d.underway := by simp only [underway, flight]
      obtain ⟨rest, whole, left⟩ := h.writer w flight
      obtain ⟨rest', same, left'⟩ := (w.writing.timeOut_moves d.outlet).left rest left
      exact h.resumes under ⟨rest', by rw [whole, same]; rfl, left'⟩
  | complete =>
    simp only [OutletRun.step]
    split
    next refused => exact ⟨h.outlet.complete.1 _ refused, h.tally, h.writer⟩
    next passed =>
      refine ⟨h.outlet.complete.2 _ passed, ?_, h.writer⟩
      have tally := h.tally
      simp only [placed, written, underway] at tally
      simpa [placed, written, underway, OutletEvent.piece, OutletEvent.written] using tally
  | ask ch => exact h.called d.outlet _ _ (h.outlet.asked ch d.world)
  | flush ch => exact h.called _ _ _ (h.outlet.flush ch d.world)
  | abort => exact ⟨h.outlet.aborted, h.tally, h.writer⟩
  | become world => exact ⟨h.outlet, h.tally, h.writer⟩

theorem Sound.run (h : d.Sound size) (moves : List (Move ι σ)) : (d.run moves).Sound size := by
  induction moves generalizing d with
  | nil => exact h
  | cons move rest ih => exact ih (h.step move)

end OutletRun

/-- In whatever order the sections come: as long as nobody aborts, the bytes that channels took, and
behind them those in the buffer, are the pieces that writes have placed. The buffer stays within its
size, and all that happens obeys `OutletEvent.Law`. -/
theorem outlet_fifo {ι σ : Type} [Transport ι σ] (settings : BufferSettings) (outlet : Outlet ι)
    (valid : Outlet.ofSettings settings = .ok outlet) (world : σ) (moves : List (OutletRun.Move ι σ)) :
    let d := (OutletRun.start outlet world).run moves
    (d.outlet.conduit.aborted = false → d.delivered ++ d.outlet.conduit.bytes = d.placed) ∧
    d.placed = d.written ++ d.underway ∧
    d.outlet.conduit.length ≤ settings.bufferSize ∧
    Lawful OutletEvent.Law d.events := by
  intro d
  have sound : d.Sound settings.bufferSize := (OutletRun.sound_start settings outlet world valid).run moves
  exact ⟨sound.outlet.kept, sound.tally, sound.outlet.within, sound.outlet.lawful⟩

/-- Three bytes go through a buffer of two, in two pieces with a flush between them. -/
theorem outlet_fifo_two :
    let settings : BufferSettings := ⟨2, none⟩
    let outlet : Outlet Unit := ⟨⟨2, none, [], false, false, 0⟩, none, false⟩
    let moves : List (OutletRun.Move Unit Window) :=
      [.write [1, 2, 3], .work, .work, .flush (), .work, .work, .work, .complete, .flush ()]
    let d := (OutletRun.start outlet (Window.ofSize 5)).run moves
    Outlet.ofSettings settings = .ok outlet ∧ d.outlet.conduit.aborted = false ∧
      d.delivered ++ d.outlet.conduit.bytes = [1, 2, 3] := by
  intro settings outlet moves
  have fifo := outlet_fifo settings outlet rfl (Window.ofSize 5) moves
  exact ⟨rfl, by decide, (fifo.1 (by decide)).trans (by decide)⟩

end Sluice
