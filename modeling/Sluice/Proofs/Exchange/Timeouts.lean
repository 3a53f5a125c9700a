import Sluice.Bench
import Sluice.Bench.Rehearsal
import Sluice.Proofs.Conduit.Sleep
import Sluice.Proofs.Exchange.Sealing

/-! What becomes of the write of a handler whose patience comes to its end. It has placed what there was room
for until then, and that stays where it is: the handler hears of a failure, and the channels take the bytes. -/
namespace Sluice
open Conduit (Brimful Heeds Holds)

variable {ι κ σ τ : Type}

def Occurrence.piece : Occurrence ι → List UInt8
  | .placed piece => piece
  | _ => []

def Occurrence.taken : Occurrence ι → List UInt8
  | .deed call => call.taken
  | _ => []

def piecesOf (notes : List (Occurrence ι)) : List UInt8 := notes.flatMap Occurrence.piece

def takingsOf (notes : List (Occurrence ι)) : List UInt8 := notes.flatMap Occurrence.taken

@[simp] theorem piecesOf_append (notes more : List (Occurrence ι)) :
    piecesOf (notes ++ more) = piecesOf notes ++ piecesOf more := List.flatMap_append

@[simp] theorem takingsOf_append (notes more : List (Occurrence ι)) :
    takingsOf (notes ++ more) = takingsOf notes ++ takingsOf more := List.flatMap_append

/-- Notes by which nothing was placed and nothing taken. -/
structure Idle (more : List (Occurrence ι)) : Prop where
  pieces : piecesOf more = []
  takings : takingsOf more = []

theorem Idle.append {notes more : List (Occurrence ι)} (h : Idle notes) (idle : Idle more) : Idle (notes ++ more) where
  pieces := by rw [piecesOf_append, h.pieces, idle.pieces, List.append_nil]
  takings := by rw [takingsOf_append, h.takings, idle.takings, List.append_nil]

/-- What happened to a conduit in the meantime: channels took bytes from its front, and sections placed bytes
at its back, unless it is aborted. -/
structure Conduit.Carries (more : List (Occurrence ι)) (c c' : Conduit) : Prop where
  capacity : c'.capacity = c.capacity
  within : c.length ≤ c.capacity → c'.length ≤ c.capacity
  bytes : c'.aborted = false → c.aborted = false ∧ takingsOf more ++ c'.bytes = c.bytes ++ piecesOf more
  unplaced : c'.aborted = true → piecesOf more = []

/-- What the minutes tell of an outlet of some size. What was placed was taken or is still there, unless it was
thrown away. -/
structure Accounts (size : Nat) (outlet : Option Conduit) (notes : List (Occurrence ι)) : Prop where
  absent : outlet = none → Idle notes
  sized : ∀ c, outlet = some c → c.capacity = size ∧ c.length ≤ size
  kept : ∀ c, outlet = some c → c.aborted = false → piecesOf notes = takingsOf notes ++ c.bytes
  within : (piecesOf notes).length ≤ size + (takingsOf notes).length

private theorem Idle.opens {size : Nat} {notes more : List (Occurrence ι)} (before : Idle notes) (idle : Idle more)
    {c : Conduit} (capacity : c.capacity = size) (empty : c.bytes = []) :
    Accounts size (some c) (notes ++ more) := by
  obtain ⟨pieces, takings⟩ := before.append idle
  refine ⟨nofun, ?_, ?_, ?_⟩
  · rintro _ ⟨⟩
    refine ⟨capacity, ?_⟩
    rw [Conduit.length, empty]
    exact Nat.zero_le _
  · rintro _ ⟨⟩ _
    rw [pieces, takings, empty]
    rfl
  · rw [pieces]
    exact Nat.zero_le _

private theorem Accounts.carried {size : Nat} {outlet outlet' : Option Conduit} {notes more : List (Occurrence ι)}
    (h : Accounts size outlet notes) (carried : Option.Rel (Conduit.Carries more) outlet outlet')
    (idle : outlet = none → Idle more) : Accounts size outlet' (notes ++ more) := by
  cases carried with
  | none =>
    have still := (h.absent rfl).append (idle rfl)
    refine ⟨fun _ => still, nofun, nofun, ?_⟩
    rw [still.pieces]
    exact Nat.zero_le _
  | @some c c' carries =>
    obtain ⟨capacity, length⟩ := h.sized c rfl
    have sized : c'.capacity = size ∧ c'.length ≤ size :=
      ⟨carries.capacity.trans capacity, capacity ▸ carries.within (capacity.symm ▸ length)⟩
    have kept : c'.aborted = false →
        piecesOf (notes ++ more) = takingsOf (notes ++ more) ++ c'.bytes := by
      intro live
      obtain ⟨before, bytes⟩ := carries.bytes live
      rw [piecesOf_append, takingsOf_append, h.kept c rfl before, List.append_assoc, List.append_assoc, bytes]
    refine ⟨nofun, ?_, ?_, ?_⟩
    · rintro _ ⟨⟩
      exact sized
    · rintro _ ⟨⟩
      exact kept
    · cases live : c'.aborted with
      | false =>
        rw [kept live, List.length_append, Nat.add_comm]
        exact Nat.add_le_add_right sized.2 _
      | true =>
        have before := h.within
        rw [piecesOf_append, carries.unplaced live, List.append_nil, takingsOf_append, List.length_append]
        exact Nat.le_trans before (Nat.add_le_add_left (Nat.le_add_right _ _) size)

/-- A handler is inside a write: its last move was to write some data. -/
structure Underway (size : Nat) (notes : List (Occurrence ι)) (data : List UInt8)
    (earlier during : List (Occurrence ι)) : Prop where
  notes : notes = earlier ++ .moved (.act (.write data)) :: during
  last : movesOf during = []
  within : (piecesOf earlier).length ≤ size + (takingsOf earlier).length

/-- A write gives up: when its patience came to its end the outlet was full, and there was more to write than
it had placed. Nothing was placed since then. -/
structure GivesUp (size : Nat) (data : List UInt8) (earlier patient late : List (Occurrence ι)) : Prop where
  full : (piecesOf (earlier ++ patient)).length = size + (takingsOf (earlier ++ patient)).length
  unplaced : ∃ rest, rest ≠ [] ∧ data = piecesOf patient ++ rest
  late : piecesOf late = []

/-- What a write that ends in a timeout has come to: its head could not be sent, or it gives up. -/
def Fails (size : Nat) (data : List UInt8) (earlier during : List (Occurrence ι)) : Prop :=
  (∃ fault, .sent (.error fault) ∈ during ∧ fault.toSystem = Fault.timeout.toSystem ∧ piecesOf during = []) ∨
  ∃ patient late, during = patient ++ late ∧ GivesUp size data earlier patient late

/-- A handler hears of a timeout in a write only if the write has failed. -/
def Occurrence.Patience (size : Nat) (notes : List (Occurrence ι)) : Occurrence ι → Prop
  | .heard (.count (.error e)) => e = Fault.timeout.toSystem →
    ∃ data earlier during, Underway size notes data earlier during ∧ Fails size data earlier during
  | _ => True

/-- Where a write stands that has placed what was placed during it, in front of an outlet. -/
def Writing.Waits (size : Nat) (outlet : Option Conduit) (data : List UInt8)
    (earlier during : List (Occurrence ι)) : Writing ι → Prop
  | placing rest => rest ≠ [] ∧ data = piecesOf during ++ rest
  | asleep rest since => rest ≠ [] ∧ data = piecesOf during ++ rest ∧ ∀ c, outlet = some c → Holds Brimful since c
  | asking _ rest => data = piecesOf during ++ rest
  | done (.error fault) => fault.toSystem = Fault.timeout.toSystem → Fails size data earlier during
  | done (.ok _) => True

def Call.Waits (size : Nat) (outlet : Option Conduit) (notes : List (Occurrence ι)) : Call ι κ → Prop
  | announcing _ (some data) => ∃ earlier during, Underway size notes data earlier during ∧ piecesOf during = []
  | writing _ w => ∃ data earlier during, Underway size notes data earlier during ∧
    w.Waits size outlet data earlier during
  | done answer => (Occurrence.heard answer).Patience size notes
  | _ => True

def Progress.Waits (size : Nat) (outlet : Option Conduit) (notes : List (Occurrence ι)) : Progress ι κ → Prop
  | calling call => call.Waits size outlet notes
  | _ => True

section
variable {size : Nat} {notes more : List (Occurrence ι)} {data : List UInt8} {earlier during : List (Occurrence ι)}

theorem Underway.append (h : Underway size notes data earlier during) (unmoved : movesOf more = []) :
    Underway size (notes ++ more) data earlier (during ++ more) where
  notes := by rw [h.notes, List.append_assoc, List.cons_append]
  last := by rw [movesOf_append, h.last, unmoved, List.append_nil]
  within := h.within

private theorem Underway.tallies (h : Underway size notes data earlier during) :
    piecesOf notes = piecesOf (earlier ++ during) ∧ takingsOf notes = takingsOf (earlier ++ during) := by
  rw [h.notes, piecesOf_append, piecesOf_append, takingsOf_append, takingsOf_append]
  exact ⟨rfl, rfl⟩

theorem Fails.append (h : Fails size data earlier during) (unplaced : piecesOf more = []) :
    Fails size data earlier (during ++ more) := by
  rcases h with ⟨fault, sent, timeout, none⟩ | ⟨patient, late, rfl, gives⟩
  · refine .inl ⟨fault, List.mem_append_left _ sent, timeout, ?_⟩
    rw [piecesOf_append, none, unplaced, List.append_nil]
  · refine .inr ⟨patient, late ++ more, List.append_assoc .., gives.full, gives.unplaced, ?_⟩
    rw [piecesOf_append, gives.late, unplaced, List.append_nil]

theorem Occurrence.Patience.append {entry : Occurrence ι} (h : entry.Patience size notes)
    (unmoved : movesOf more = []) (unplaced : piecesOf more = []) : entry.Patience size (notes ++ more) := by
  unfold Occurrence.Patience at h ⊢
  split
  · intro timeout
    obtain ⟨data, earlier, during, underway, fails⟩ := h timeout
    exact ⟨data, earlier, during ++ more, underway.append unmoved, fails.append unplaced⟩
  · trivial

private theorem Writing.Waits.beside {w : Writing ι} {outlet outlet' : Option Conduit}
    (h : w.Waits size outlet data earlier during) (heeds : Option.Rel (Heeds Brimful) outlet outlet')
    (unplaced : piecesOf more = []) : w.Waits size outlet' data earlier (during ++ more) := by
  have same : piecesOf (during ++ more) = piecesOf during := by
    rw [piecesOf_append, unplaced, List.append_nil]
  cases w with
  | placing rest => exact ⟨h.1, same.symm ▸ h.2⟩
  | asleep rest since =>
    obtain ⟨some, placed, holds⟩ := h
    refine ⟨some, same.symm ▸ placed, fun c' there => ?_⟩
    obtain ⟨c, here, heeds⟩ := Conduit.some_rel there heeds
    exact (holds c here).heeds heeds
  | asking ch rest =>
    simp only [Waits, same]
    exact h
  | done result =>
    cases result with
    | error fault => exact fun timeout => Fails.append (h timeout) unplaced
    | ok _ => trivial

private theorem Call.Waits.beside {call : Call ι κ} {outlet outlet' : Option Conduit} (h : call.Waits size outlet notes)
    (heeds : Option.Rel (Heeds Brimful) outlet outlet') (unmoved : movesOf more = [])
    (unplaced : piecesOf more = []) : call.Waits size outlet' (notes ++ more) := by
  cases call with
  | announcing head bytes =>
    cases bytes with
    | none => trivial
    | some data =>
      obtain ⟨earlier, during, underway, none⟩ := h
      refine ⟨earlier, during ++ more, underway.append unmoved, ?_⟩
      rw [piecesOf_append, none, unplaced, List.append_nil]
  | writing count w =>
    obtain ⟨data, earlier, during, underway, waits⟩ := h
    exact ⟨data, earlier, during ++ more, underway.append unmoved, waits.beside heeds unplaced⟩
  | done answer => exact Occurrence.Patience.append h unmoved unplaced
  | _ => trivial

private theorem Progress.Waits.beside {progress : Progress ι κ} {outlet outlet' : Option Conduit}
    (h : progress.Waits size outlet notes) (heeds : Option.Rel (Heeds Brimful) outlet outlet')
    (unmoved : movesOf more = []) (unplaced : piecesOf more = []) : progress.Waits size outlet' (notes ++ more) := by
  cases progress with
  | calling call => exact Call.Waits.beside h heeds unmoved unplaced
  | _ => trivial

end

namespace Conduit

variable {more rest : List (Occurrence ι)} {c c' c'' : Conduit}

private theorem carries_idle (c : Conduit) (idle : Idle more) : c.Carries more c where
  capacity := rfl
  within := id
  bytes live := ⟨live, by rw [idle.takings, idle.pieces, List.nil_append, List.append_nil]⟩
  unplaced _ := idle.pieces

private theorem Carries.idly (h : c.Carries rest c') (idle : Idle more) : c.Carries (more ++ rest) c' where
  capacity := h.capacity
  within := h.within
  bytes live := by
    rw [piecesOf_append, takingsOf_append, idle.pieces, idle.takings, List.nil_append, List.nil_append]
    exact h.bytes live
  unplaced aborted := by
    rw [piecesOf_append, idle.pieces, h.unplaced aborted]
    rfl

/-- What a part of a flush does: channels take bytes from the front. -/
structure Yields (more : List (Occurrence ι)) (c c' : Conduit) : Prop where
  capacity : c'.capacity = c.capacity
  aborted : c'.aborted = c.aborted
  bytes : takingsOf more ++ c'.bytes = c.bytes
  unplaced : piecesOf more = []

theorem Yields.trans (h : c.Yields more c') (h' : c'.Yields rest c'') : c.Yields (more ++ rest) c'' where
  capacity := h'.capacity.trans h.capacity
  aborted := h'.aborted.trans h.aborted
  bytes := by rw [takingsOf_append, List.append_assoc, h'.bytes, h.bytes]
  unplaced := by rw [piecesOf_append, h.unplaced, h'.unplaced, List.append_nil]

private theorem Yields.carries (h : c.Yields more c') : c.Carries more c' where
  capacity := h.capacity
  within within := by
    refine Nat.le_trans ?_ within
    simp only [length, ← h.bytes, List.length_append]
    exact Nat.le_add_left _ _
  bytes live := ⟨h.aborted.symm.trans live, by rw [h.bytes, h.unplaced, List.append_nil]⟩
  unplaced _ := h.unplaced

end Conduit

namespace Outlet

variable [Transport ι σ]

/-- What a part of a flush notes, and what it makes of the conduit. -/
def Passing (outlet outlet' : Outlet ι) (m m' : Minutes ι σ) : Prop :=
  ∃ deeds : List (Deed ι), m'.notes = m.notes ++ deeds.map .deed ∧
    outlet.conduit.Yields (deeds.map .deed) outlet'.conduit

omit [Transport ι σ] in
private theorem passing_nothing {outlet outlet' : Outlet ι}
    (same : outlet'.conduit = outlet.conduit) (m : Minutes ι σ) :
    outlet.Passing outlet' m m := by
  refine ⟨[], (List.append_nil _).symm, ?_⟩
  rw [same]
  exact ⟨rfl, rfl, rfl, rfl⟩

private theorem drain_passing (outlet : Outlet ι) (ch : ι) (m : Minutes ι σ) :
    outlet.Passing (outlet.drain ch m).2.1 m (outlet.drain ch m).2.2 := by
  have noted : (Transport.write ch outlet.conduit.bytes m).2.notes =
    m.notes ++ [.deed (.wrote ch outlet.conduit.bytes (Transport.write ch outlet.conduit.bytes m).1)] := rfl
  simp only [drain]
  split
  · exact passing_nothing rfl m
  · split
    next failed =>
      rw [failed] at noted
      exact ⟨[_], noted, rfl, rfl, rfl, rfl⟩
    next n m' taken =>
      rw [taken] at noted
      refine ⟨[_], noted, ?_⟩
      have dropped : ∀ wakes, outlet.conduit.Yields [.deed (.wrote ch outlet.conduit.bytes (.ok n))]
          { outlet.conduit with bytes := outlet.conduit.bytes.drop n, wakes } :=
        fun _ => ⟨rfl, rfl, by simp [takingsOf, Occurrence.taken, Deed.taken, takenOf], rfl⟩
      dsimp only
      split
      · exact dropped _
      · exact dropped _

private theorem signal_passing (outlet : Outlet ι) (ch : ι) (m : Minutes ι σ) :
    outlet.Passing (outlet.signal ch m).2.1 m (outlet.signal ch m).2.2 := by
  simp only [signal]
  split
  · exact ⟨[_], rfl, rfl, rfl, rfl, rfl⟩
  · exact passing_nothing rfl m

private theorem flush_passing (outlet : Outlet ι) (ch : ι) (m : Minutes ι σ) :
    outlet.Passing (outlet.flush ch m).2.1 m (outlet.flush ch m).2.2 := by
  have first : outlet.Passing _ m _ := drain_passing { outlet with channel := some ch } ch m
  simp only [flush]
  split
  · exact passing_nothing rfl m
  · split
    next drained =>
      rw [drained] at first
      exact first
    next outlet' m' drained =>
      rw [drained] at first
      obtain ⟨deeds, notes, yields⟩ := first
      obtain ⟨more, notes', yields'⟩ := outlet'.signal_passing ch m'
      refine ⟨deeds ++ more, ?_, ?_⟩
      · rw [notes', notes, List.map_append, List.append_assoc]
      · rw [List.map_append]
        exact yields.trans yields'

end Outlet

private theorem Inert.idle {more : List (Occurrence ι)} (h : Inert more) : Idle more := by
  have moves : ∀ entry ∈ more, entry.piece = [] ∧ entry.taken = [] := by
    intro entry member
    have inert := h entry member
    cases entry with
    | deed call =>
      cases call with
      | asked ch => exact ⟨rfl, rfl⟩
      | _ => exact inert.elim
    | sent result => exact ⟨rfl, rfl⟩
    | _ => exact inert.elim
  exact ⟨List.flatMap_eq_nil_iff.mpr fun entry member => (moves entry member).1,
    List.flatMap_eq_nil_iff.mpr fun entry member => (moves entry member).2⟩

section
variable {size : Nat} {notes more : List (Occurrence ι)} {data : List UInt8} {earlier during : List (Occurrence ι)}

private theorem Writing.waits_ofRest {rest : List UInt8} (placed : data = piecesOf during ++ rest)
    (outlet : Option Conduit) : (ofRest rest : Writing ι).Waits size outlet data earlier during := by
  simp only [ofRest]
  split
  · trivial
  next some => exact ⟨fun none => some (List.isEmpty_iff.mpr none), placed⟩

private theorem Outlet.place_waits {outlet : Outlet ι} (within : outlet.conduit.length ≤ outlet.conduit.capacity)
    {rest : List UInt8} (some : rest ≠ []) (placed : data = piecesOf during ++ rest)
    (piece : piecesOf more = Conduit.added outlet.conduit (outlet.place rest).2.conduit) :
    (outlet.place rest).1.Waits size (.some (outlet.place rest).2.conduit) data earlier (during ++ more) := by
  have nothing : piecesOf more = Conduit.added outlet.conduit outlet.conduit →
      data = piecesOf (during ++ more) ++ rest := by
    intro none
    rw [piecesOf_append, none, Conduit.added_same rfl, List.append_nil]
    exact placed
  revert piece
  simp only [place]
  split
  · exact fun _ timeout => by cases timeout
  next live =>
    split
    · exact fun _ timeout => by cases timeout
    · split
      next full =>
        intro piece
        have brimful : outlet.conduit.Brimful :=
          ⟨Nat.le_antisymm within (Nat.sub_eq_zero_iff_le.mp full), Bool.eq_false_iff.mpr live⟩
        refine ⟨some, nothing piece, ?_⟩
        rintro _ ⟨⟩
        exact Conduit.holds_now brimful
      next room =>
        have left : piecesOf more = rest.take (outlet.conduit.put rest).1 →
            data = piecesOf (during ++ more) ++ rest.drop (outlet.conduit.put rest).1 := by
          intro taken
          rw [piecesOf_append, taken, List.append_assoc, List.take_append_drop]
          exact placed
        have taken := Conduit.added_append outlet.conduit (rest.take (outlet.conduit.put rest).1)
        split
        · exact fun piece => Writing.waits_ofRest (left (piece.trans taken)) _
        · exact fun piece => left (piece.trans taken)

variable [Transport ι σ]

theorem Writing.Waits.step {w : Writing ι} {outlet : Outlet ι}
    (h : w.Waits size (some outlet.conduit) data earlier during)
    (within : outlet.conduit.length ≤ outlet.conduit.capacity) (s : σ)
    (piece : piecesOf more = Conduit.added outlet.conduit (w.step outlet s).2.2.1.conduit) :
    (w.step outlet s).2.1.Waits size (some (w.step outlet s).2.2.1.conduit) data earlier (during ++ more) := by
  have nothing : piecesOf more = Conduit.added outlet.conduit outlet.conduit → piecesOf more = [] :=
    (·.trans (Conduit.added_same rfl))
  have refl : Option.Rel (Heeds Brimful) (some outlet.conduit) (some outlet.conduit) := .some (.refl _ _)
  cases w with
  | placing rest => exact Outlet.place_waits within h.1 h.2 piece
  | asleep rest since =>
    revert piece
    simp only [Writing.step]
    split
    · exact fun piece => h.beside refl (nothing piece)
    · exact Outlet.place_waits within h.1 h.2.1
  | asking ch rest =>
    refine Writing.waits_ofRest ?_ _
    rw [piecesOf_append, nothing piece, List.append_nil]
    exact h
  | done result => exact h.beside refl (nothing piece)

omit [Transport ι σ] in
private theorem carries_untouched {c c' : Conduit} {placed : List (Occurrence ι)} (untaken : takingsOf placed = [])
    (capacity : c'.capacity = c.capacity) (aborted : c'.aborted = c.aborted) (bytes : c'.bytes = c.bytes)
    (piece : piecesOf placed = Conduit.added c c') : c.Carries placed c' := by
  have none : piecesOf placed = [] := piece.trans (Conduit.added_same bytes)
  refine ⟨capacity, fun within => ?_, fun live => ⟨aborted.symm.trans live, ?_⟩, fun _ => none⟩
  · rw [Conduit.length, bytes]
    exact within
  · rw [untaken, bytes, none, List.nil_append, List.append_nil]

private theorem carries_writing (w : Writing ι) (outlet : Outlet ι) (s : σ) {placed : List (Occurrence ι)}
    (untaken : takingsOf placed = [])
    (piece : piecesOf placed = Conduit.added outlet.conduit (w.step outlet s).2.2.1.conduit) :
    outlet.conduit.Carries placed (w.step outlet s).2.2.1.conduit := by
  obtain ⟨put, moves⟩ := w.step_moves outlet s
  have within := moves.within
  rw [moves.put, Conduit.added_append] at piece
  rw [moves.put] at within ⊢
  refine ⟨rfl, within, fun live => ⟨live, ?_⟩, fun aborted => ?_⟩
  · rw [untaken, piece, List.nil_append]
  · rw [piece]
    exact Classical.byContradiction fun some => absurd aborted (Bool.eq_false_iff.mp (moves.going some).1)

omit [Transport ι σ] in
private theorem carries_complete (outlet : Outlet ι) {placed : List (Occurrence ι)} (untaken : takingsOf placed = [])
    (piece : piecesOf placed = Conduit.added outlet.conduit outlet.complete.2.conduit) :
    outlet.conduit.Carries placed outlet.complete.2.conduit := by
  revert piece
  simp only [Outlet.complete]
  split
  · exact carries_untouched untaken rfl rfl rfl
  · split
    · exact carries_untouched untaken rfl rfl rfl
    · exact carries_untouched untaken rfl rfl rfl

variable [CapacityChannel κ σ] [ResponseChannel σ] {call : Call ι κ} {g : Call.Ground ι κ} {m : Minutes ι σ}

private theorem carries_input (call : Call ι κ) (input : call.OfInput) (g : Call.Ground ι κ) (m : Minutes ι σ)
    {placed : List (Occurrence ι)} (untaken : takingsOf placed = [])
    (piece : piecesOf placed = Conduit.added g.outlet.conduit (call.step g m).2.2.1.outlet.conduit) :
    g.outlet.conduit.Carries placed (call.step g m).2.2.1.outlet.conduit := by
  rw [(Call.step_ofInput input g m).2.1] at piece ⊢
  exact carries_untouched untaken rfl rfl rfl piece

/-- A section of a call leaves what is in the outlet there, and perhaps places a piece behind it. -/
theorem Call.step_carries (call : Call ι κ) (g : Call.Ground ι κ) (m : Minutes ι σ) {placed : List (Occurrence ι)}
    (untaken : takingsOf placed = [])
    (piece : piecesOf placed = Conduit.added g.outlet.conduit (call.step g m).2.2.1.outlet.conduit) :
    g.outlet.conduit.Carries placed (call.step g m).2.2.1.outlet.conduit := by
  cases call with
  | reading room r => exact carries_input (.reading room r) trivial g m untaken piece
  | draining r => exact carries_input (.draining r) trivial g m untaken piece
  | announcing head bytes =>
    revert piece
    simp only [step]
    split
    · exact carries_untouched untaken rfl rfl rfl
    · exact carries_untouched untaken rfl rfl rfl
  | writing count w =>
    cases w with
    | done result => exact carries_untouched untaken rfl rfl rfl piece
    | placing rest => exact carries_writing (.placing rest) g.outlet m untaken piece
    | asleep rest since => exact carries_writing (.asleep rest since) g.outlet m untaken piece
    | asking ch rest => exact carries_writing (.asking ch rest) g.outlet m untaken piece
  | completing =>
    have same : (step completing g m).2.2.1.outlet = g.outlet.complete.2 := by
      simp only [step]
      split
      next refused => exact (congrArg Prod.snd refused).symm
      next passed => exact (congrArg Prod.snd passed).symm
    rw [same] at piece ⊢
    exact carries_complete g.outlet untaken piece
  | asking ch => exact carries_untouched untaken rfl rfl rfl piece
  | done answer => exact carries_untouched untaken rfl rfl rfl piece

/-- The head is sent, and the write has all its data before it, or it is not, and the write hears why. -/
private theorem announcing_waits (head : Http.Head) {notes' : List (Occurrence ι)}
    (underway : Underway size notes' data earlier during) (unplaced : piecesOf during = [])
    (sent : .sent (ResponseChannel.send head head.entity m).1 ∈ during) (outlet : Option Conduit) :
    ((.announcing head (some data) : Call ι κ).step g m).2.1.Waits size outlet notes' := by
  simp only [Call.step]
  split
  next fault m' failed =>
    rw [failed] at sent
    exact fun timeout => ⟨data, earlier, during, underway, .inl ⟨fault, sent, timeout, unplaced⟩⟩
  next m' passed =>
    refine ⟨data, earlier, during, underway, Writing.waits_ofRest ?_ outlet⟩
    rw [unplaced, List.nil_append]

private theorem announcing_notes (head : Http.Head) (bytes : Option (List UInt8)) (g : Call.Ground ι κ)
    (m : Minutes ι σ) :
    ((.announcing head bytes : Call ι κ).step g m).2.2.2.notes =
        m.notes ++ [.sent (ResponseChannel.send head head.entity m).1] ∧
      ((.announcing head bytes : Call ι κ).step g m).2.2.1 = g := by
  have noted : (ResponseChannel.send head head.entity m).2.notes =
    m.notes ++ [.sent (ResponseChannel.send head head.entity m).1] := rfl
  simp only [Call.step]
  split
  next failed =>
    rw [failed] at noted ⊢
    exact ⟨noted, rfl⟩
  next passed =>
    rw [passed] at noted ⊢
    exact ⟨noted, rfl⟩

private theorem draining_waits (r : Reading κ) (outlet : Option Conduit) (notes' : List (Occurrence ι)) :
    ((.draining r : Call ι κ).step g m).2.1.Waits size outlet notes' := by
  cases r with
  | done result =>
    match result with
    | .error fault => trivial
    | .ok [] => trivial
    | .ok (b :: bytes) => trivial
  | _ => trivial

/-- A section of a call, if what is noted behind it tells the piece that it placed. -/
theorem Call.Waits.step (h : call.Waits size (some g.outlet.conduit) m.notes)
    (within : g.outlet.conduit.length ≤ g.outlet.conduit.capacity) {placed : List (Occurrence ι)}
    (unmoved : movesOf placed = [])
    (piece : piecesOf placed = Conduit.added g.outlet.conduit (call.step g m).2.2.1.outlet.conduit) :
    (call.step g m).2.1.Waits size (some (call.step g m).2.2.1.outlet.conduit)
      ((call.step g m).2.2.2.notes ++ placed) := by
  obtain ⟨more, notes, inert⟩ := call.step_inertly g m
  have still : movesOf (more ++ placed) = [] := by
    rw [movesOf_append, inert.mute.unmoved, unmoved]
    rfl
  have moved : piecesOf (more ++ placed) = piecesOf placed := by
    rw [piecesOf_append, inert.idle.pieces, List.nil_append]
  have nothing : piecesOf placed = Conduit.added g.outlet.conduit g.outlet.conduit →
      piecesOf (more ++ placed) = [] :=
    fun none => moved.trans (none.trans (Conduit.added_same rfl))
  rw [notes, List.append_assoc]
  cases call with
  | reading room r => cases r <;> trivial
  | draining r => exact draining_waits r _ _
  | announcing head bytes =>
    obtain ⟨noted, same⟩ := announcing_notes head bytes g m
    rw [same] at piece
    have sent : more = [.sent (ResponseChannel.send head head.entity m).1] :=
      List.append_cancel_left (notes.symm.trans noted)
    cases bytes with
    | none =>
      simp only [Call.step]
      split <;> trivial
    | some data =>
      obtain ⟨earlier, during, underway, none⟩ := h
      refine announcing_waits head (underway.append still) ?_ ?_ _
      · rw [piecesOf_append, none, nothing piece, List.append_nil]
      · rw [sent]
        exact List.mem_append_right _ List.mem_cons_self
  | writing count w =>
    obtain ⟨data, earlier, during, underway, waits⟩ := h
    have rest := underway.append still
    cases w with
    | done result =>
      cases result with
      | error fault => exact fun timeout => ⟨data, earlier, _, rest, Fails.append (waits timeout) (nothing piece)⟩
      | ok _ => trivial
    | _ => exact ⟨data, earlier, _, rest, waits.step within m (moved.trans piece)⟩
  | completing =>
    simp only [Call.step]
    split <;> trivial
  | asking ch => trivial
  | done answer => exact Occurrence.Patience.append h still (nothing piece)

omit [Transport ι σ] [CapacityChannel κ σ] [ResponseChannel σ] in
private theorem Call.Waits.timeOut (h : call.Waits size (some g.outlet.conduit) notes)
    (accounts : Accounts size (some g.outlet.conduit) notes) :
    (call.timeOut g).Waits size (some g.outlet.conduit) notes := by
  cases call with
  | writing count w =>
    cases w with
    | asleep rest since =>
      simp only [Call.timeOut, Writing.timeOut]
      split
      next lost =>
        obtain ⟨data, earlier, during, underway, some, placed, holds⟩ := h
        have asleep : since = g.outlet.conduit.wakes := by
          simp only [Conduit.losesPatience, Bool.and_eq_true, beq_iff_eq] at lost
          exact lost.2
        obtain ⟨full, live⟩ := (holds _ rfl).2.mp asleep
        have kept := accounts.kept _ rfl live
        have capacity := (accounts.sized _ rfl).1
        refine ⟨data, earlier, during, underway, fun _ => .inr ⟨during, [], (List.append_nil _).symm, ?_, ?_, rfl⟩⟩
        · rw [← underway.tallies.1, ← underway.tallies.2, kept, List.length_append, Nat.add_comm, ← capacity, ← full]
          rfl
        · exact ⟨rest, some, placed⟩
      · exact h
    | _ => exact h
  | reading room r =>
    simp only [Call.timeOut]
    split <;> trivial
  | draining r =>
    simp only [Call.timeOut]
    split <;> trivial
  | _ => exact h

omit [Transport ι σ] [CapacityChannel κ σ] [ResponseChannel σ] in
private theorem Call.waits_commit (session : Session) (outlet : Option Conduit)
    (underway : Underway size notes data earlier []) :
    (commit session (some data) : Call ι κ × Session).1.Waits size outlet notes := by
  simp only [commit]
  split
  · exact ⟨earlier, [], underway, rfl⟩
  · have placed : data = piecesOf ([] : List (Occurrence ι)) ++ data := rfl
    exact ⟨data, earlier, [], underway, Writing.waits_ofRest placed outlet⟩

omit [Transport ι σ] [CapacityChannel κ σ] [ResponseChannel σ] in
private theorem Call.waits_start (session : Session) (act : Act) (outlet : Option Conduit)
    (within : (piecesOf notes).length ≤ size + (takingsOf notes).length) :
    (start session act : Call ι κ × Session).1.Waits size outlet (notes ++ [.moved (.act act)]) := by
  cases act with
  | write data => exact waits_commit session outlet ⟨rfl, rfl, within⟩
  | read room =>
    simp only [start, read]
    split
    · trivial
    · split <;> trivial
  | closeInput =>
    simp only [start, closeInput]
    split
    · trivial
    · split <;> trivial
  | closeOutput =>
    simp only [start, closeOutput]
    split
    · trivial
    · simp only [commit]
      split <;> trivial
  | _ => trivial

end

namespace ExchangeRun

private theorem placedBetween_tells (x x' : Exchange ι κ τ) :
    piecesOf (placedBetween x x') = (staged x').drop (staged x).length ∧ takingsOf (placedBetween x x') = [] := by
  simp only [placedBetween]
  split
  next none => exact ⟨none.symm, rfl⟩
  next piece => exact ⟨List.append_nil _, rfl⟩

/-- How an exchange stands with the write of its handler. -/
structure Waiting (size : Nat) (x : Exchange ι κ τ) (notes : List (Occurrence ι)) : Prop where
  limits : x.limits.bufferSize = size
  fresh : x.phase = .idle → x.task = none ∧ x.conduit? .output = none
  accounts : Accounts size (x.conduit? .output) notes
  task : ∀ task, x.task = some task → task.progress.Waits size (x.conduit? .output) notes
  lawful : Lawful (Occurrence.Patience size) notes

private theorem waiting_before {limits : BufferSettings} {executor : Executor} {handler : τ} {x : Exchange ι κ τ}
    (made : Exchange.ofHandler limits executor handler = .ok x) : Waiting limits.bufferSize x [] := by
  obtain ⟨_, _, new⟩ := ok_of_map made
  have limited : x.limits = limits := congrArg Exchange.limits new
  have waiting : x.task = none := congrArg Exchange.task new
  have empty : x.outlet = none := congrArg Exchange.outlet new
  have absent : x.conduit? .output = none := congrArg (Option.map Outlet.conduit) empty
  refine ⟨congrArg BufferSettings.bufferSize limited, fun _ => ⟨waiting, absent⟩, ?_, fun _ running => ?_, .nil⟩
  · rw [absent]
    exact ⟨fun _ => ⟨rfl, rfl⟩, nofun, nofun, Nat.zero_le _⟩
  · exact absurd (waiting.symm.trans running) nofun

section
variable {size : Nat} {x x' : Exchange ι κ τ} {notes more : List (Occurrence ι)} {task : Task ι κ}

private theorem patience_unheard (h : Lawful (Occurrence.Patience size) notes)
    (unheard : more.filterMap Occurrence.answer? = []) : Lawful (Occurrence.Patience size) (notes ++ more) := by
  refine h.append_free fun entry member before => ?_
  have quiet := List.filterMap_eq_nil_iff.mp unheard entry member
  cases entry with
  | heard answer => cases quiet
  | _ => trivial

private theorem Waiting.beside (h : Waiting size x notes) (limits : x'.limits = x.limits)
    (phase : x'.phase = .idle → x.phase = .idle) (task : x'.task = x.task)
    (carried : Option.Rel (Conduit.Carries more) (x.conduit? .output) (x'.conduit? .output))
    (heeds : Option.Rel (Heeds Brimful) (x.conduit? .output) (x'.conduit? .output))
    (idle : x.conduit? .output = none → Idle more) (unmoved : movesOf more = []) (unplaced : piecesOf more = [])
    (unheard : more.filterMap Occurrence.answer? = []) : Waiting size x' (notes ++ more) where
  limits := limits ▸ h.limits
  fresh still := by
    obtain ⟨waiting, absent⟩ := h.fresh (phase still)
    exact ⟨task.trans waiting, Conduit.rel_none absent heeds⟩
  accounts := h.accounts.carried carried idle
  task t running := (h.task t (task.symm.trans running)).beside heeds unmoved unplaced
  lawful := patience_unheard h.lawful unheard

private theorem rel_same {related : Conduit → Conduit → Prop} (refl : ∀ c, related c c)
    {outlet outlet' : Option Conduit}
    (same : outlet' = outlet) : Option.Rel related outlet outlet' := by
  rw [same]
  cases outlet with
  | none => exact .none
  | some c => exact .some (refl c)

private theorem rel_carries {outlet outlet' : Option Conduit} (idle : Idle more) (same : outlet' = outlet) :
    Option.Rel (Conduit.Carries more) outlet outlet' :=
  rel_same (fun c => c.carries_idle idle) same

private theorem Waiting.noting (h : Waiting size x notes) (limits : x'.limits = x.limits)
    (phase : x'.phase = .idle → x.phase = .idle) (task : x'.task = x.task)
    (outlet : x'.conduit? .output = x.conduit? .output) (idle : Idle more) (unmoved : movesOf more = [])
    (unheard : more.filterMap Occurrence.answer? = []) : Waiting size x' (notes ++ more) :=
  h.beside limits phase task (rel_carries idle outlet) (rel_same (.refl Brimful) outlet)
    (fun _ => idle) unmoved idle.pieces unheard

private theorem Waiting.still (h : Waiting size x notes) (limits : x'.limits = x.limits)
    (phase : x'.phase = .idle → x.phase = .idle) (task : x'.task = x.task)
    (outlet : x'.conduit? .output = x.conduit? .output) : Waiting size x' notes := by
  have after : Waiting size x' (notes ++ []) := h.noting limits phase task outlet ⟨rfl, rfl⟩ rfl rfl
  rwa [List.append_nil] at after

private theorem Waiting.goesOn (h : Waiting size x notes) {task' : Task ι κ} (running : x.task = some task)
    (limits : x'.limits = x.limits) (phase : x'.phase = .idle → x.phase = .idle) (now : x'.task = some task')
    (carried : Option.Rel (Conduit.Carries more) (x.conduit? .output) (x'.conduit? .output))
    (idle : x.conduit? .output = none → Idle more) (unheard : more.filterMap Occurrence.answer? = [])
    (waits : task'.progress.Waits size (x'.conduit? .output) (notes ++ more)) : Waiting size x' (notes ++ more) where
  limits := limits ▸ h.limits
  fresh still := absurd (running.symm.trans (h.fresh (phase still)).1) nofun
  accounts := h.accounts.carried carried idle
  task _ there := Option.some.inj (now.symm.trans there) ▸ waits
  lawful := patience_unheard h.lawful unheard

private theorem Waiting.abortOutlet (h : Waiting size x notes) : Waiting size x.abortOutlet.2 notes := by
  simp only [Exchange.abortOutlet]
  split
  · exact h
  next outlet placed =>
    have here : x.conduit? .output = some outlet.conduit := congrArg (Option.map Outlet.conduit) placed
    have carries : outlet.conduit.Carries ([] : List (Occurrence ι)) outlet.abort.2.conduit := by
      unfold Outlet.abort
      split
      · exact Conduit.carries_idle _ ⟨rfl, rfl⟩
      · exact ⟨rfl, fun _ => Nat.zero_le _, (fun gone => by cases gone), fun _ => rfl⟩
    have after : Waiting size { x with outlet := some outlet.abort.2 } (notes ++ []) :=
      h.beside rfl id rfl (here ▸ .some carries) (here ▸ .some outlet.heeds_abort) (fun _ => ⟨rfl, rfl⟩) rfl rfl rfl
    rwa [List.append_nil] at after

private theorem Waiting.timeOut (h : Waiting size x notes) : Waiting size x.timeOut notes := by
  simp only [Exchange.timeOut]
  split
  next task outlet running placed =>
    have here : x.conduit? .output = some outlet.conduit := congrArg (Option.map Outlet.conduit) placed
    have moves : ∀ progress : Progress ι κ, progress.Waits size (x.conduit? .output) (notes ++ []) →
        Waiting size (x.moveOn task progress) notes := by
      intro progress waits
      have after : Waiting size (x.moveOn task progress) (notes ++ []) :=
        h.goesOn running rfl id rfl (rel_carries ⟨rfl, rfl⟩ rfl) (fun _ => ⟨rfl, rfl⟩) rfl waits
      rwa [List.append_nil] at after
    split
    next call calling =>
      have before := h.task task running
      rw [calling, here] at before
      have after := Call.Waits.timeOut (g := x.ground task outlet) before (here ▸ h.accounts)
      refine moves _ ?_
      rw [List.append_nil, here]
      exact after
    · exact moves _ trivial
    · exact moves _ trivial
    · exact h
  · exact h

private theorem Waiting.foretelling [Handler τ] (h : Waiting size x notes) (running : x.task = some task)
    (busy : task.progress ≠ .thinking) : Waiting size x (notes ++ foretold x) := by
  have before := h.task task running
  simp only [foretold, running]
  split
  next thinking => exact absurd thinking busy
  next answer heard =>
    rw [heard] at before
    have idle : Idle [(.heard answer : Occurrence ι)] := ⟨rfl, rfl⟩
    refine ⟨h.limits, h.fresh, h.accounts.carried (rel_carries idle rfl) fun _ => idle,
      fun t there => (h.task t there).beside (rel_same (.refl Brimful) rfl) rfl rfl, h.lawful.append_one before⟩
  · exact h.noting rfl id rfl rfl ⟨rfl, rfl⟩ rfl rfl
  · exact h.noting rfl id rfl rfl ⟨rfl, rfl⟩ rfl rfl

private theorem Waiting.think [Handler τ] (h : Waiting size x notes) (running : x.task = some task)
    (thinking : task.progress = .thinking) (handler : τ) :
    Waiting size ({ x with handler }.withTask (task.think x.handler).2.1)
      (notes ++ [.moved (Handler.next task.session x.handler).1]) := by
  have idle : ∀ move, Idle [(.moved move : Occurrence ι)] := fun _ => ⟨rfl, rfl⟩
  refine h.goesOn running rfl id rfl (rel_carries (idle _) rfl) (fun _ => idle _) rfl ?_
  simp only [Task.think]
  split
  next act _ moved =>
    rw [moved]
    exact Call.waits_start task.session act _ h.accounts.within
  next result _ moved => cases result <;> trivial
  · trivial
  · rw [thinking]
    trivial

private theorem placedBetween_nil (same : staged x' = staged x ∨ staged x' = []) : placedBetween x x' = [] := by
  have none : (staged x').drop (staged x).length = [] := by
    rcases same with same | gone
    · rw [same, List.drop_length]
    · rw [gone, List.drop_nil]
  simp only [placedBetween, none]

end

section
variable [Transport ι σ] {size : Nat} {c : ExchangeRun ι κ σ τ}

private theorem Waiting.start (h : Waiting size c.exchange c.minutes.notes) (request : Request) (hasBody : Bool)
    (context : Context) :
    Waiting size (c.start request hasBody context).exchange (c.start request hasBody context).minutes.notes := by
  rcases c.start_outcomes request hasBody context with ⟨_, same⟩ | ⟨idle, outcome⟩
  · rwa [same]
  · obtain ⟨waiting, absent⟩ := h.fresh idle
    have before := h.accounts.absent absent
    rcases outcome with ⟨_, same⟩ | ⟨inlet, outlet, executor, fresh, _, _, outcome⟩
    · rw [same]
      exact h.noting rfl (fun idle => by cases idle) rfl rfl ⟨rfl, rfl⟩ rfl rfl
    · have new := Outlet.ofSettings_ok fresh
      have capacity : outlet.conduit.capacity = size := by
        rw [new]
        exact h.limits
      have empty : outlet.conduit.bytes = [] := by
        rw [new]
      rcases outcome with same | same
      · rw [same]
        refine ⟨h.limits, (fun idle => by cases idle), before.opens ⟨rfl, rfl⟩ capacity empty, ?_,
          patience_unheard h.lawful rfl⟩
        rintro _ ⟨⟩
        trivial
      · rw [same]
        have aborted : outlet.abort.2.conduit.capacity = size ∧ outlet.abort.2.conduit.bytes = [] := by
          rw [new]
          exact ⟨h.limits, rfl⟩
        refine ⟨h.limits, (fun idle => by cases idle), before.opens ⟨rfl, rfl⟩ aborted.1 aborted.2, ?_,
          patience_unheard h.lawful rfl⟩
        intro t running
        exact absurd (running.symm.trans waiting) (Option.some_ne_none t)

private theorem Waiting.produce (h : Waiting size c.exchange c.minutes.notes) (ch : ι) :
    Waiting size (c.exchange.produce ch c.minutes).2.1 (c.exchange.produce ch c.minutes).2.2.notes := by
  simp only [Exchange.produce, Exchange.output]
  cases placed : c.exchange.outlet with
  | none => exact h
  | some outlet =>
    have here : c.exchange.conduit? .output = some outlet.conduit := congrArg (Option.map Outlet.conduit) placed
    obtain ⟨capacity, length⟩ := h.accounts.sized _ here
    obtain ⟨deeds, notes, yields⟩ := outlet.flush_passing ch c.minutes
    have mute := mute_deeds deeds
    have heeds := Outlet.heeds_flush (capacity.symm ▸ length) ch c.minutes
    exact notes ▸ h.beside rfl id rfl (here ▸ .some yields.carries) (here ▸ .some heeds)
      (fun absent => absurd (here.symm.trans absent) (Option.some_ne_none _)) mute.unmoved yields.unplaced
      mute.plain.unheard

private theorem Waiting.asked {x : Exchange ι κ τ} {m : Minutes ι σ} (h : Waiting size x m.notes) (ch : Option ι) :
    Waiting size x (Outlet.ask ch m).notes := by
  have notes : (Outlet.ask ch m).notes = m.notes ++ Minutes.askedOf ch := m.notes_requestOutput ch
  have inert : Inert (Minutes.askedOf ch) := inert_asked ch
  exact notes ▸ h.noting rfl id rfl rfl inert.idle inert.mute.unmoved inert.mute.plain.unheard

variable [CapacityChannel κ σ] [Handler τ]

private theorem Waiting.discharge (h : Waiting size c.exchange c.minutes.notes) (duty : Duty ι κ) :
    Waiting size (c.discharge duty).exchange (c.discharge duty).minutes.notes := by
  cases duty with
  | announce ch increment =>
    have quiet : (CapacityChannel.update ch increment c.minutes).2.notes = c.minutes.notes := rfl
    simp only [ExchangeRun.discharge]
    split
    next passed =>
      rw [passed] at quiet
      exact quiet ▸ h
    next failed =>
      rw [failed] at quiet
      exact quiet ▸ h
  | revoke increment => exact h.still rfl id rfl rfl
  | abortInlet => exact h.still rfl id rfl rfl
  | abortOutlet => exact h.abortOutlet
  | ask ch => exact h.asked ch
  | release => exact h.still rfl id rfl rfl

variable [ResponseChannel σ] {x : Exchange ι κ τ} {m : Minutes ι σ} {task : Task ι κ}

omit [Handler τ] in
private theorem Waiting.stepCall (h : Waiting size x m.notes) (running : x.task = some task)
    {progress : Call ι κ → Progress ι κ} {call : Call ι κ}
    (next : ∀ outlet notes call', (call.Waits size (x.conduit? .output) m.notes → call'.Waits size outlet notes) →
      (progress call').Waits size outlet notes) :
    Waiting size (x.stepCall task progress call m).2.1
      ((x.stepCall task progress call m).2.2.notes ++ placedBetween x (x.stepCall task progress call m).2.1) := by
  cases placed : x.outlet with
  | none =>
    simp only [Exchange.stepCall, placed]
    rw [placedBetween_nil (.inl rfl), List.append_nil]
    exact h
  | some outlet =>
    have here : x.conduit? .output = some outlet.conduit := congrArg (Option.map Outlet.conduit) placed
    obtain ⟨capacity, length⟩ := h.accounts.sized _ here
    have within : outlet.conduit.length ≤ outlet.conduit.capacity := capacity.symm ▸ length
    rw [x.stepCall_placed placed]
    generalize after : ({ x with
      inlet := (call.step (x.ground task outlet) m).2.2.1.inlet
      outlet := some (call.step (x.ground task outlet) m).2.2.1.outlet
      task := some ⟨(call.step (x.ground task outlet) m).2.2.1.session,
        progress (call.step (x.ground task outlet) m).2.1⟩ } : Exchange ι κ τ) = x'
    have there : x'.conduit? .output = some (call.step (x.ground task outlet) m).2.2.1.outlet.conduit := after ▸ rfl
    obtain ⟨tells, untaken⟩ := placedBetween_tells x x'
    have piece : piecesOf (placedBetween x x') =
        Conduit.added outlet.conduit (call.step (x.ground task outlet) m).2.2.1.outlet.conduit := by
      rw [tells, ← after]
      simp only [staged, placed, Option.elim_some]
      rfl
    have mute := mute_placedBetween x x'
    obtain ⟨more, notes, inert⟩ := call.step_inertly (x.ground task outlet) m
    have carries := (call.step_carries (x.ground task outlet) m untaken piece).idly inert.idle
    have waits := fun before : call.Waits size (some outlet.conduit) m.notes =>
      before.step (g := x.ground task outlet) within mute.unmoved piece
    dsimp only
    rw [after]
    rw [notes, List.append_assoc] at waits ⊢
    have now : x'.task = some _ := congrArg Exchange.task after.symm
    refine h.goesOn running (after ▸ rfl) (after ▸ id) now (here ▸ there ▸ .some carries)
      (fun absent => absurd (here.symm.trans absent) (Option.some_ne_none _)) (inert.mute.append mute).plain.unheard ?_
    refine next _ _ _ fun before => ?_
    rw [there]
    exact waits (here ▸ before)

omit [Transport ι σ] [CapacityChannel κ σ] [Handler τ] [ResponseChannel σ] in
/-- The worker goes on to its next stage, and nothing was placed on the way. -/
private theorem Waiting.withTask {x₀ x' : Exchange ι κ τ} {m' : Minutes ι σ} {task' : Task ι κ}
    (before : Waiting size x₀ m'.notes) (running : x₀.task = some task) (limits : x'.limits = x₀.limits)
    (phase : x'.phase = .idle → x₀.phase = .idle) (outlet : x'.conduit? .output = x₀.conduit? .output)
    (nothing : staged x' = staged x ∨ staged x' = [])
    (waits : task'.progress.Waits size (x₀.conduit? .output) (m'.notes ++ [])) :
    Waiting size (x'.withTask task') (m'.notes ++ placedBetween x (x'.withTask task')) := by
  have nothing : placedBetween x (x'.withTask task') = [] := placedBetween_nil nothing
  rw [nothing]
  exact before.goesOn running limits phase rfl (rel_carries ⟨rfl, rfl⟩ outlet)
    (fun _ => ⟨rfl, rfl⟩) rfl (outlet.symm ▸ waits)

omit [Transport ι σ] [CapacityChannel κ σ] [Handler τ] [ResponseChannel σ] in
private theorem staged_abortOutlet (x : Exchange ι κ τ) :
    staged x.abortOutlet.2 = staged x ∨ staged x.abortOutlet.2 = [] := by
  simp only [Exchange.abortOutlet]
  split
  · exact .inl rfl
  next outlet placed =>
    simp only [staged, placed, Outlet.abort, Option.elim_some]
    split
    · exact .inl rfl
    · exact .inr rfl

private theorem Waiting.stepTask (h : Waiting size x m.notes) (running : x.task = some task)
    (busy : task.progress ≠ .thinking) :
    Waiting size (x.stepTask task m).2.1
      ((x.stepTask task m).2.2.notes ++ placedBetween x (x.stepTask task m).2.1) := by
  obtain ⟨session, progress⟩ := task
  cases progress with
  | submitted => exact h.withTask running rfl id rfl (.inl rfl) trivial
  | thinking => exact absurd rfl busy
  | calling call =>
    cases call with
    | done answer => exact h.withTask running rfl id rfl (.inl rfl) trivial
    | _ =>
      have before := h.task _ running
      exact h.stepCall running fun _ _ _ step => step before
  | closingInput call =>
    cases call with
    | done answer =>
      refine h.withTask running rfl id rfl (.inl rfl) ?_
      simp only [Task.afterInput]
      split <;> trivial
    | _ => exact h.stepCall running fun _ _ _ _ => trivial
  | closingOutput call =>
    cases call with
    | done answer =>
      refine h.withTask running rfl id rfl (.inl rfl) ?_
      simp only [Task.afterOutput]
      split <;> trivial
    | _ => exact h.stepCall running fun _ _ _ _ => trivial
  | failing cause => exact h.withTask running rfl id rfl (.inl rfl) trivial
  | abortingInlet => exact h.withTask running rfl id rfl (.inl rfl) trivial
  | abortingOutlet =>
    exact h.abortOutlet.withTask (x.task_abortOutlet.trans running) rfl id rfl (staged_abortOutlet x) trivial
  | asking ch => exact (h.asked ch).withTask running rfl id rfl (.inl rfl) trivial
  | completing => exact h.withTask running rfl (fun idle => by cases idle) rfl (.inl rfl) trivial
  | finished =>
    simp only [Exchange.stepTask]
    rw [placedBetween_nil (.inl rfl), List.append_nil]
    exact h

private theorem Waiting.work (h : Waiting size c.exchange c.minutes.notes) :
    Waiting size c.work.exchange c.work.minutes.notes := by
  cases running : c.exchange.task with
  | none =>
    have idle : c.work.minutes.notes = c.minutes.notes ++ [] ++ placedBetween c.exchange c.exchange := by
      simp only [ExchangeRun.work, Exchange.step, foretold, running, Minutes.noting]
    rw [placedBetween_nil (.inl rfl), List.append_nil, List.append_nil] at idle
    have same : c.work.exchange = c.exchange := by simp only [ExchangeRun.work, Exchange.step, running]
    rwa [same, idle]
  | some task =>
    have notes : c.work.minutes.notes =
        (c.exchange.stepTask task (c.minutes.noting (foretold c.exchange))).2.2.notes ++
          placedBetween c.exchange c.work.exchange := by
      simp only [ExchangeRun.work, Exchange.step, running]
      rfl
    rw [notes, work_exchange running]
    by_cases thinking : task.progress = .thinking
    · have after := h.think running thinking
      have thought : foretold c.exchange = [.moved (Handler.next task.session c.exchange.handler).1] := by
        simp only [foretold, running, thinking]
      rw [← thought] at after
      have nothing : ∀ handler task',
          placedBetween c.exchange ({ c.exchange with handler }.withTask task') = [] :=
        fun _ _ => placedBetween_nil (.inl rfl)
      simp only [Exchange.stepTask, thinking]
      rw [nothing, List.append_nil]
      exact after _
    · exact Waiting.stepTask (m := c.minutes.noting (foretold c.exchange)) (h.foretelling running thinking) running
        thinking

/-- Whatever happens, a write that has run out of patience has found the outlet full. -/
theorem Waiting.perform (h : Waiting size c.exchange c.minutes.notes) (e : Event ι κ σ τ) :
    Waiting size (c.perform e).exchange (c.perform e).minutes.notes := by
  cases e with
  | start request hasBody context => exact h.start request hasBody context
  | consume bytes =>
    simp only [ExchangeRun.perform, Exchange.consume]
    split
    · exact h
    · exact h.still rfl id rfl rfl
  | streamEnd =>
    simp only [ExchangeRun.perform, Exchange.streamEnd]
    split
    · exact h
    · exact h.still rfl id rfl rfl
  | updateCapacity ch =>
    simp only [ExchangeRun.perform, ExchangeRun.register]
    split
    · exact h
    · exact h.still rfl id rfl rfl
  | produce ch => exact h.produce ch
  | failed cause => exact h.noting rfl id rfl rfl ⟨rfl, rfl⟩ rfl rfl
  | release => exact h.still rfl id rfl rfl
  | react =>
    simp only [ExchangeRun.perform]
    split
    · exact h
    next duty duties _ => exact Waiting.discharge (c := { c with duties }) h duty
  | work => exact h.work
  | timeOut => exact h.timeOut
  | prompt handler => exact h.still rfl id rfl rfl
  | become world => exact h

end

end ExchangeRun

/-- Whatever a handler, a reactor and the channels do in whatever order: if a handler hears of a timeout in a write,
then either its head could not be sent for that reason and it has placed nothing, or it has placed the front of its
data, but not all of it, in as much room as there was until the end of its patience, when the outlet was full. So it
has placed nothing if and only if it found the outlet full and no channel took anything while it waited. What it has
placed stays placed: as long as the outlet is not aborted, the channels have taken what was placed, failed writes
included, but for what is still there. -/
theorem timed_out_write_keeps_pieces [Handler τ] [Transport ι σ] [CapacityChannel κ σ] [ResponseChannel σ]
    (limits : BufferSettings) (executor : Executor) (handler : τ) (x : Exchange ι κ τ)
    (made : Exchange.ofHandler limits executor handler = .ok x) (world : σ)
    (events : List (ExchangeRun.Event ι κ σ τ)) :
    let c := (ExchangeRun.before x world).run events
    (∀ front rest, c.minutes.notes = front ++ .heard (.count (.error Fault.timeout.toSystem)) :: rest →
      ∃ data earlier during, front = earlier ++ .moved (.act (.write data)) :: during ∧ movesOf during = [] ∧
        ((∃ fault, .sent (.error fault) ∈ during ∧ fault.toSystem = Fault.timeout.toSystem ∧ piecesOf during = []) ∨
          ∃ patient late left, during = patient ++ late ∧ left ≠ [] ∧ data = piecesOf during ++ left ∧
            (piecesOf earlier).length + (piecesOf during).length =
              limits.bufferSize + (takingsOf (earlier ++ patient)).length ∧
            (piecesOf during = [] ↔
              (piecesOf earlier).length = limits.bufferSize + (takingsOf earlier).length ∧
                takingsOf patient = []))) ∧
    ∀ outlet, c.exchange.outlet = some outlet → outlet.conduit.aborted = false →
      piecesOf c.minutes.notes = takingsOf c.minutes.notes ++ outlet.conduit.bytes := by
  intro c
  have waiting : ExchangeRun.Waiting limits.bufferSize c.exchange c.minutes.notes := by
    have kept : ∀ c : ExchangeRun ι κ σ τ, ExchangeRun.Waiting limits.bufferSize c.exchange c.minutes.notes →
        ∀ e : ExchangeRun.Event ι κ σ τ, (e.isCall = true → c.duties = []) →
        ExchangeRun.Waiting limits.bufferSize (c.perform e).exchange (c.perform e).minutes.notes :=
      fun _ waiting e _ => waiting.perform e
    exact ExchangeRun.run_induction kept events _ (ExchangeRun.waiting_before made)
  refine ⟨fun front rest notes => ?_, fun outlet placed live => ?_⟩
  · obtain ⟨data, earlier, during, underway, fails⟩ := waiting.lawful front _ rest notes rfl
    refine ⟨data, earlier, during, underway.notes, underway.last, ?_⟩
    rcases fails with unsent | ⟨patient, late, rfl, gives⟩
    · exact .inl unsent
    · obtain ⟨left, some, parts⟩ := gives.unplaced
      have same : piecesOf (patient ++ late) = piecesOf patient := by
        rw [piecesOf_append, gives.late, List.append_nil]
      have full := gives.full
      rw [piecesOf_append, List.length_append] at full
      refine .inr ⟨patient, late, left, rfl, some, same ▸ parts, same ▸ full, ?_⟩
      have within := underway.within
      rw [takingsOf_append, List.length_append] at full
      rw [same, ← List.length_eq_zero_iff, ← List.length_eq_zero_iff]
      omega
  · exact waiting.accounts.kept _ (congrArg (Option.map Outlet.conduit) placed) live

/-- Five bytes are written to an outlet of two, which a channel empties once. The patience of the write comes to its
end when the outlet is full for the second time: four bytes are placed, and the handler hears of a timeout. -/
theorem timed_out_write_keeps_pieces_four :
    let limits : BufferSettings := ⟨2, some 1⟩
    let x : Exchange Line Line Rehearsal := ⟨limits, .runtime, .idle, none, none, none, .silent, none, 0⟩
    let bench := Bench.ofChannels [⟨.withLimit none, ⟨false, false, 0⟩⟩]
    let events : List (ExchangeRun.Event Line Line Bench Rehearsal) :=
      [.start ⟨"GET", "/"⟩ false ⟨0, []⟩, .work, .prompt (Rehearsal.silent.tell (.act (.write [97, 98, 99, 100, 101]))),
        .work, .work, .work, .work, .produce (.outside 0), .work, .work, .work, .timeOut, .work, .work]
    let notes := ((ExchangeRun.before x bench).run events).minutes.notes
    Exchange.ofHandler limits .runtime Rehearsal.silent = .ok x ∧
      notes = [.begun, .moved (.act (.write [97, 98, 99, 100, 101])), .sent (.ok ()), .placed [97, 98],
        .deed (.wrote (.outside 0) [97, 98] (.ok 2)), .placed [99, 100], .deed (.asked (.outside 0)),
        .heard (.count (.error Fault.timeout.toSystem))] ∧
      (∃ data earlier during, notes.dropLast = earlier ++ .moved (.act (.write data)) :: during ∧
        movesOf during = []) ∧
      piecesOf notes = takingsOf notes ++ [99, 100] := by
  obtain ⟨heard, kept⟩ := timed_out_write_keeps_pieces ⟨2, some 1⟩ .runtime Rehearsal.silent
    (⟨⟨2, some 1⟩, .runtime, .idle, none, none, none, .silent, none, 0⟩ : Exchange Line Line Rehearsal) (by rfl)
    (Bench.ofChannels [⟨.withLimit none, ⟨false, false, 0⟩⟩])
    [.start ⟨"GET", "/"⟩ false ⟨0, []⟩, .work, .prompt (Rehearsal.silent.tell (.act (.write [97, 98, 99, 100, 101]))),
      .work, .work, .work, .work, .produce (.outside 0), .work, .work, .work, .timeOut, .work, .work]
  obtain ⟨data, earlier, during, began, last, _⟩ := heard
    [.begun, .moved (.act (.write [97, 98, 99, 100, 101])), .sent (.ok ()), .placed [97, 98],
      .deed (.wrote (.outside 0) [97, 98] (.ok 2)), .placed [99, 100], .deed (.asked (.outside 0))] [] (by rfl)
  exact ⟨by rfl, by rfl, ⟨data, earlier, during, began, last⟩, kept _ (by rfl) (by rfl)⟩

/-- A handler that hears of a timeout writes the same three bytes once more, as one whose write has failed may. The
two bytes that the first write has placed come to the channel twice. -/
theorem retried_write_doubles_bytes :
    let x : Exchange Line Line Rehearsal :=
      ⟨⟨2, some 1⟩, .runtime, .idle, none, none, none, .silent, none, 0⟩
    let bench := Bench.ofChannels [⟨.withLimit none, ⟨false, false, 0⟩⟩]
    let write := Rehearsal.silent.tell (.act (.write [97, 98, 99]))
    let events : List (ExchangeRun.Event Line Line Bench Rehearsal) :=
      [.start ⟨"GET", "/"⟩ false ⟨0, []⟩, .work, .prompt write, .work, .work, .work, .work, .timeOut, .work, .work,
        .produce (.outside 0), .prompt write, .work, .work, .work, .work, .produce (.outside 0), .work, .work, .work,
        .work, .produce (.outside 0)]
    let notes := ((ExchangeRun.before x bench).run events).minutes.notes
    notes.filterMap Occurrence.answer? = [.count (.error Fault.timeout.toSystem), .count (.ok 3)] ∧
      takingsOf notes = [97, 98, 97, 98, 99] := by
  refine ⟨by rfl, by rfl⟩

end Sluice
