import Mathlib.Algebra.BigOperators.Group.Multiset.Basic
import Mathlib.Algebra.GroupWithZero.Nat
import Sluice.Bench
import Sluice.Proofs.Inlet.Sections

/-! An inlet among any number of callers. Room is granted in one section, announced outside of all
sections and revoked in a third one if that fails, and still no peer hears of more room than there is. -/
namespace Sluice

variable {κ σ : Type}

/-- An announcement of room and what came of it. -/
structure Announcement (κ : Type) where
  channel : κ
  increment : Nat
  result : Except Fault Unit

def Announcement.announced (announcement : Announcement κ) : Nat :=
  match announcement.result with
  | .ok _ => announcement.increment
  | .error _ => 0

/-- A world with a record of all announcements. -/
structure AnnouncementLog (κ σ : Type) where
  world : σ
  announcements : List (Announcement κ)

def AnnouncementLog.announced (g : AnnouncementLog κ σ) : Nat := (g.announcements.map Announcement.announced).sum

instance [CapacityChannel κ σ] : CapacityChannel κ (AnnouncementLog κ σ) where
  update ch increment g :=
    let (result, world) := CapacityChannel.update ch increment g.world
    (result, ⟨world, g.announcements ++ [⟨ch, increment, result⟩]⟩)

theorem AnnouncementLog.announced_update [CapacityChannel κ σ] (ch : κ) (increment : Nat) (g : AnnouncementLog κ σ) :
    (CapacityChannel.update ch increment g).2.announced = g.announced +
      Announcement.announced ⟨ch, increment, (CapacityChannel.update ch increment g).1⟩ := by
  simp [announced, CapacityChannel.update]

namespace Reading

/-- Room that a read has granted and whose announcement has not come back. -/
def pending : Reading κ → Nat
  | announcing _ _ increment => increment
  | _ => 0

/-- Room that a read could not announce and whose grant is still to be revoked. -/
def failed : Reading κ → Nat
  | revoking _ increment _ => increment
  | _ => 0

end Reading

/-- A call by which room may be announced: a read, or a channel that registers for announcements and
is told of the room there is. -/
inductive InletCall (κ : Type)
  | reading (room : Nat) (reading : Reading κ)
  | registering (channel : κ)
  | announcing (channel : κ) (increment : Nat)
  | revoking (increment : Nat) (fault : Fault)
  | done (result : Except Fault Unit)

namespace InletCall

def pending : InletCall κ → Nat
  | reading _ r => r.pending
  | announcing _ increment => increment
  | _ => 0

def failed : InletCall κ → Nat
  | reading _ r => r.failed
  | revoking increment _ => increment
  | _ => 0

def read : InletCall κ → Nat
  | reading _ r => r.inHand.length
  | _ => 0

variable [CapacityChannel κ σ]

def step (e : InletCall κ) (inlet : Inlet κ) (s : σ) : InletCall κ × Inlet κ × σ :=
  match e with
  | reading room r =>
    let (_, r, inlet, s) := r.step room inlet s
    (reading room r, inlet, s)
  | registering ch =>
    match inlet.register ch with
    | (.error fault, inlet) => (done (.error fault), inlet, s)
    | (.ok 0, inlet) => (done (.ok ()), inlet, s)
    | (.ok increment, inlet) => (announcing ch increment, inlet, s)
  | announcing ch increment =>
    match CapacityChannel.update ch increment s with
    | (.error fault, s) => (revoking increment fault, inlet, s)
    | (.ok (), s) => (done (.ok ()), inlet, s)
  | revoking increment fault => (done (.error fault), inlet.revoke increment, s)
  | done result => (done result, inlet, s)

def timeOut (e : InletCall κ) (inlet : Inlet κ) : InletCall κ :=
  match e with
  | reading room r => reading room (r.timeOut inlet)
  | e => e

/-- A channel that registers with nobody around updates the capacity, in three sections at the most. -/
theorem registering_alone (ch : κ) (inlet : Inlet κ) (s : σ) :
    let (result, inlet', s') := inlet.updateCapacity ch s
    let (e, inlet, s) := step (registering ch) inlet s
    let (e, inlet, s) := step e inlet s
    step e inlet s = (done result, inlet', s') := by
  cases registered : inlet.register ch with
  | mk answer inlet' =>
    match answer with
    | .error fault => simp [step, Inlet.updateCapacity, registered]
    | .ok 0 => simp [step, Inlet.updateCapacity, registered]
    | .ok (n + 1) =>
      cases updated : CapacityChannel.update ch (n + 1) s with
      | mk result s' => cases result <;> simp [step, Inlet.updateCapacity, registered, updated]

end InletCall

namespace Inlet

/-- A grant fills the counter up to the room there is. -/
theorem grant_counts (inlet : Inlet κ) :
    inlet.grant.2.granted = inlet.granted + inlet.grant.1 ∧
    (inlet.granted + inlet.length ≤ inlet.conduit.capacity →
      inlet.grant.2.granted + inlet.length ≤ inlet.conduit.capacity) := by
  refine ⟨rfl, fun within => ?_⟩
  simp only [grant, length, Conduit.free] at within ⊢
  omega

theorem fill_granted (inlet : Inlet κ) (bytes : List UInt8) :
    (inlet.fill bytes).2.granted = inlet.granted - (takenOf bytes (inlet.fill bytes).1).length := by
  unfold fill
  split
  · rfl
  · split
    · rfl
    · simp only [takenOf, List.length_take, Conduit.put]
      omega

/-- A fill uses up what was granted for its bytes, so far as it goes. -/
theorem fill_counts (inlet : Inlet κ) (bytes : List UInt8) :
    let taken := (takenOf bytes (inlet.fill bytes).1).length
    inlet.granted ≤ (inlet.fill bytes).2.granted + taken ∧
    (inlet.granted + inlet.length ≤ inlet.conduit.capacity →
      (inlet.fill bytes).2.granted + (inlet.fill bytes).2.length ≤ inlet.conduit.capacity) := by
  obtain ⟨least, _, within, _, conduit⟩ := inlet.fill_spec bytes
  intro taken
  have length : (inlet.fill bytes).2.length = inlet.length + taken := by
    simp [Inlet.length, Conduit.length, conduit, taken]
  have counter : (inlet.fill bytes).2.granted = inlet.granted - taken := inlet.fill_granted bytes
  rw [length, counter]
  simp only [Inlet.length] at length ⊢
  refine ⟨by omega, fun before => ?_⟩
  have fits := within (by omega)
  omega

private theorem fill_whole (inlet : Inlet κ) (bytes : List UInt8) (live : inlet.conduit.aborted = false)
    (going : inlet.conduit.ended = false) (fits : bytes.length ≤ inlet.conduit.free) :
    (inlet.fill bytes).1 = .ok bytes.length := by
  simp [fill, live, going, Conduit.put, Nat.min_eq_right fits]

/-- A read counts as granted what it is going to announce, and fails at nothing yet. -/
theorem afterTake_counts (inlet : Inlet κ) (bytes : List UInt8) :
    (inlet.afterTake bytes).1.failed = 0 ∧ (inlet.afterTake bytes).1.inHand = bytes ∧
    (inlet.afterTake bytes).2.granted = inlet.granted + (inlet.afterTake bytes).1.pending ∧
    (inlet.granted + inlet.length ≤ inlet.conduit.capacity →
      (inlet.afterTake bytes).2.granted + inlet.length ≤ inlet.conduit.capacity) := by
  obtain ⟨counts, within⟩ := inlet.grant_counts
  unfold afterTake
  split
  · exact ⟨rfl, rfl, rfl, id⟩
  · split
    · exact ⟨rfl, rfl, rfl, id⟩
    · split
      next granted =>
        rw [granted] at counts within
        exact ⟨rfl, rfl, counts, within⟩
      next granted =>
        rw [granted] at counts within
        exact ⟨rfl, rfl, counts, within⟩

end Inlet

/-- What a section of a call does to an inlet of which some room was announced. The counter grows at
least by what becomes announced, pending or failed, and bytes pass from the buffer to the reader. -/
structure InletCall.Moves (e : InletCall κ) (inlet : Inlet κ) (announced : Nat) (e' : InletCall κ)
    (inlet' : Inlet κ) (announced' : Nat) : Prop where
  counted : announced' + e'.pending + e'.failed + inlet.granted ≤
    announced + e.pending + e.failed + inlet'.granted
  within : inlet.granted + inlet.length ≤ inlet.conduit.capacity →
    inlet'.granted + inlet'.length ≤ inlet.conduit.capacity
  passed : inlet'.length + e'.read = inlet.length + e.read
  grown : e.read ≤ e'.read
  sized : inlet'.conduit.capacity = inlet.conduit.capacity
  aborted : inlet'.conduit.aborted = inlet.conduit.aborted
  quiet : inlet.conduit.aborted = true → announced' + e'.pending ≤ announced + e.pending

namespace InletCall

private theorem Moves.settled {e e' : InletCall κ} {inlet inlet' : Inlet κ} {announced announced' : Nat}
    (conduit : inlet'.conduit = inlet.conduit) (read : e'.read = e.read)
    (less : inlet'.granted ≤ inlet.granted)
    (quiet : announced' + e'.pending ≤ announced + e.pending)
    (counted : announced' + e'.pending + e'.failed + inlet.granted ≤
      announced + e.pending + e.failed + inlet'.granted) :
    e.Moves inlet announced e' inlet' announced' := by
  have length : inlet'.length = inlet.length := congrArg Conduit.length conduit
  refine ⟨counted, ?_, ?_, ?_, ?_, ?_, fun _ => quiet⟩
  · omega
  · omega
  · omega
  · rw [conduit]
  · rw [conduit]

private theorem taking_moves (inlet : Inlet κ) (room : Nat) (r : Reading κ) (hand : r.inHand = [])
    (pending : r.pending = 0) (failed : r.failed = 0) (announced : Nat) :
    (reading room r).Moves inlet announced (reading room (inlet.take room).1) (inlet.take room).2
      announced := by
  have same : ∀ r', r'.pending = 0 → r'.failed = 0 → r'.inHand = [] →
      (reading room r).Moves inlet announced (reading room r') inlet announced := by
    intro r' pending' failed' hand'
    apply Moves.settled rfl
    · simp [read, hand, hand']
    · exact Nat.le_refl _
    · simp [InletCall.pending, pending, pending']
    · simp [InletCall.pending, InletCall.failed, pending, pending', failed, failed']
  simp only [Inlet.take]
  split
  · exact same _ rfl rfl rfl
  next live =>
    split
    · split
      · exact same _ rfl rfl rfl
      · exact same _ rfl rfl rfl
    · have taken : (inlet.conduit.drop room).length + (inlet.conduit.bytes.take room).length =
          inlet.length := by
        simp only [Conduit.drop, Conduit.length, Inlet.length, List.length_drop, List.length_take]
        omega
      obtain ⟨unfailed, held, counts, within⟩ := Inlet.afterTake_counts
        { inlet with conduit := inlet.conduit.drop room } (inlet.conduit.bytes.take room)
      have conduit := Inlet.conduit_afterTake
        { inlet with conduit := inlet.conduit.drop room } (inlet.conduit.bytes.take room)
      simp only [Inlet.length] at taken within
      constructor
      · simp only [InletCall.pending, InletCall.failed, pending, failed, unfailed, counts]
        omega
      · intro before
        rw [Inlet.length, conduit]
        apply within
        simp only [Inlet.length, Conduit.drop] at before taken ⊢
        omega
      · simp only [Inlet.length, conduit, read, held, hand, List.length_nil]
        omega
      · simp [read, hand]
      · rw [conduit]
        rfl
      · rw [conduit]
        rfl
      · intro aborted
        exact absurd aborted live

private theorem registering_moves (inlet : Inlet κ) (ch : κ) (s : σ) (announced : Nat) [CapacityChannel κ σ] :
    (registering ch).Moves inlet announced (step (registering ch) inlet s).1
      (step (registering ch) inlet s).2.1 announced := by
  obtain ⟨counts, within⟩ := Inlet.grant_counts { inlet with channel := some ch }
  have refused : (registering ch).Moves inlet announced (done (.error .aborted)) inlet announced :=
    .settled rfl rfl (Nat.le_refl _) (Nat.le_refl _) (Nat.le_refl _)
  simp only [step, Inlet.register]
  by_cases aborted : inlet.conduit.aborted
  · simpa [aborted] using refused
  · -- whether there is room to announce or not, the counter grows by what is pending afterwards
    have granted : ∀ e' : InletCall κ, e'.read = 0 → e'.failed = 0 →
        e'.pending = (Inlet.grant { inlet with channel := some ch }).1 →
        (registering ch).Moves inlet announced e' (Inlet.grant { inlet with channel := some ch }).2
          announced := by
      intro e' unread unfailed pending
      refine ⟨?_, within, by rw [unread]; rfl, Nat.zero_le _, rfl, rfl, fun h => absurd h aborted⟩
      rw [unfailed, pending, counts]
      change _ + _ + 0 + inlet.granted ≤ announced + 0 + 0 + (inlet.granted + _)
      omega
    simp only [aborted]
    split
    next refused => cases refused
    next none =>
      obtain ⟨increment, rfl⟩ := Prod.mk.inj none
      exact granted _ rfl rfl (Except.ok.inj increment).symm
    next some =>
      obtain ⟨increment, rfl⟩ := Prod.mk.inj some
      exact granted _ rfl rfl (Except.ok.inj increment).symm

private theorem resting_moves {room : Nat} {r r' : Reading κ} {inlet inlet' : Inlet κ} (announced : Nat)
    (conduit : inlet'.conduit = inlet.conduit) (granted : inlet'.granted = inlet.granted)
    (hand : r'.inHand.length = r.inHand.length) (pending : r'.pending = r.pending)
    (failed : r'.failed = r.failed) :
    (reading room r).Moves inlet announced (reading room r') inlet' announced := by
  refine .settled conduit hand (Nat.le_of_eq granted) ?_ ?_
  · simp [InletCall.pending, pending]
  · simp [InletCall.pending, InletCall.failed, pending, failed, granted]

section
variable [CapacityChannel κ σ]

/-- An announcement is heard of or has failed, and the counter does not change. -/
private theorem told_moves (e e' : InletCall κ) (inlet : Inlet κ) (g : AnnouncementLog κ σ) (ch : κ)
    (increment : Nat) (pending : e.pending = increment) (failed : e.failed = 0) (read : e'.read = e.read)
    (quiet : e'.pending = 0)
    (split : Announcement.announced ⟨ch, increment, (CapacityChannel.update ch increment g).1⟩
      + e'.failed = increment) :
    e.Moves inlet g.announced e' inlet (CapacityChannel.update ch increment g).2.announced := by
  have heard := g.announced_update ch increment
  refine .settled rfl read (Nat.le_refl _) ?_ ?_
  · omega
  · omega

private theorem announcing_moves (inlet : Inlet κ) (g : AnnouncementLog κ σ) (ch : κ) (increment : Nat) :
    (announcing ch increment).Moves inlet g.announced (step (announcing ch increment) inlet g).1
      (step (announcing ch increment) inlet g).2.1 (step (announcing ch increment) inlet g).2.2.announced := by
  simp only [step]
  split
  next fault g' failed =>
    have moves := told_moves (announcing ch increment) (revoking increment fault) inlet g ch increment rfl rfl rfl rfl
    rw [failed] at moves
    exact moves (Nat.zero_add _)
  next g' passed =>
    have moves := told_moves (announcing ch increment) (done (.ok ())) inlet g ch increment rfl rfl rfl rfl
    rw [passed] at moves
    exact moves (Nat.add_zero _)

private theorem reading_announcing_moves (inlet : Inlet κ) (g : AnnouncementLog κ σ) (room : Nat)
    (bytes : List UInt8) (ch : κ) (increment : Nat) :
    (reading room (.announcing bytes ch increment)).Moves inlet g.announced
      (step (reading room (.announcing bytes ch increment)) inlet g).1
      (step (reading room (.announcing bytes ch increment)) inlet g).2.1
      (step (reading room (.announcing bytes ch increment)) inlet g).2.2.announced := by
  have told := fun e' => told_moves (reading room (.announcing bytes ch increment)) e' inlet g ch increment rfl rfl
  simp only [step, Reading.step]
  split
  next g' passed =>
    have moves := told (reading room (.done (.ok bytes))) rfl rfl
    rw [passed] at moves
    exact moves (Nat.add_zero _)
  next fault g' failed =>
    have moves := told (reading room (.revoking bytes increment fault)) rfl rfl
    rw [failed] at moves
    exact moves (Nat.zero_add _)

private theorem reading_moves (r : Reading κ) (room : Nat) (inlet : Inlet κ) (g : AnnouncementLog κ σ) :
    (reading room r).Moves inlet g.announced (step (reading room r) inlet g).1 (step (reading room r) inlet g).2.1
      (step (reading room r) inlet g).2.2.announced := by
  cases r with
  | entering =>
    simp only [step, Reading.step, Inlet.enter]
    split
    · exact resting_moves _ rfl rfl rfl rfl rfl
    · exact taking_moves inlet room .entering rfl rfl rfl _
  | asleep since =>
    simp only [step, Reading.step]
    split
    · exact resting_moves _ rfl rfl rfl rfl rfl
    · exact taking_moves inlet room (.asleep since) rfl rfl rfl _
  | announcing bytes ch increment => exact reading_announcing_moves inlet g room bytes ch increment
  | revoking bytes increment fault =>
    refine .settled rfl rfl (Nat.sub_le _ _) (Nat.le_refl _) ?_
    simp only [step, Reading.step, Inlet.revoke, pending, failed, Reading.pending, Reading.failed]
    omega
  | postponing bytes fault => exact resting_moves _ rfl rfl rfl rfl rfl
  | done result => exact resting_moves _ rfl rfl rfl rfl rfl

/-- Every section of a call is such a move, and the announcements that succeed are on record. -/
theorem step_moves (e : InletCall κ) (inlet : Inlet κ) (g : AnnouncementLog κ σ) :
    e.Moves inlet g.announced (e.step inlet g).1 (e.step inlet g).2.1 (e.step inlet g).2.2.announced := by
  cases e with
  | registering ch =>
    have kept : (step (registering ch) inlet g).2.2 = g := by
      simp only [step]
      split
      · rfl
      · rfl
      · rfl
    rw [kept]
    exact registering_moves inlet ch g g.announced
  | announcing ch increment => exact announcing_moves inlet g ch increment
  | revoking increment fault =>
    refine .settled rfl rfl (Nat.sub_le _ _) (Nat.le_refl _) ?_
    simp only [step, Inlet.revoke, pending, failed]
    omega
  | done result => exact .settled rfl rfl (Nat.le_refl _) (Nat.le_refl _) (Nat.le_refl _)
  | reading room r => exact reading_moves r room inlet g

end

private theorem timeOut_moves (e : InletCall κ) (inlet : Inlet κ) (announced : Nat) :
    e.Moves inlet announced (e.timeOut inlet) inlet announced := by
  have same : e.Moves inlet announced e inlet announced :=
    .settled rfl rfl (Nat.le_refl _) (Nat.le_refl _) (Nat.le_refl _)
  cases e with
  | reading room r =>
    cases r with
    | asleep since =>
      simp only [timeOut, Reading.timeOut]
      split
      · exact resting_moves _ rfl rfl rfl rfl rfl
      · exact same
    | _ => exact same
  | _ => exact same

end InletCall

/-- An inlet, the record of what was announced, the calls in flight and the count of accepted bytes. -/
structure SharedInlet (κ σ : Type) where
  inlet : Inlet κ
  log : AnnouncementLog κ σ
  inFlight : List (InletCall κ)
  accepted : Nat

namespace SharedInlet

/-- A fill, the begin of a call, a section of the call at some place, the end of a reader's patience,
the end of the stream, an abort, or a move of the channels on their own. -/
inductive Move (κ σ : Type)
  | fill (bytes : List UInt8)
  | read (room : Nat)
  | register (channel : κ)
  | work (place : Nat)
  | timeOut (place : Nat)
  | markEnd
  | abort
  | become (world : σ)

def pending (t : SharedInlet κ σ) : Nat := (t.inFlight.map InletCall.pending).sum

def failed (t : SharedInlet κ σ) : Nat := (t.inFlight.map InletCall.failed).sum

def read (t : SharedInlet κ σ) : Nat := (t.inFlight.map InletCall.read).sum

variable [CapacityChannel κ σ]

/-- Make one move. A call goes on from section to section, between those of other calls. -/
def step (t : SharedInlet κ σ) : Move κ σ → SharedInlet κ σ
  | .fill bytes =>
    let (result, inlet) := t.inlet.fill bytes
    { t with inlet, accepted := t.accepted + (takenOf bytes result).length }
  | .read room => { t with inFlight := t.inFlight ++ [.reading room (.ofRoom room)] }
  | .register ch => { t with inFlight := t.inFlight ++ [.registering ch] }
  | .work place =>
    match t.inFlight[place]? with
    | none => t
    | some e =>
      let (e, inlet, log) := e.step t.inlet t.log
      { t with inlet, log, inFlight := t.inFlight.set place e }
  | .timeOut place =>
    match t.inFlight[place]? with
    | none => t
    | some e => { t with inFlight := t.inFlight.set place (e.timeOut t.inlet) }
  | .markEnd => { t with inlet := t.inlet.markEnd }
  | .abort => { t with inlet := t.inlet.abort }
  | .become world => { t with log := { t.log with world } }

def run (moves : List (Move κ σ)) (t : SharedInlet κ σ) : SharedInlet κ σ := moves.foldl step t

/-- What holds after any moves. The counter covers all that was granted and not revoked, less what
has arrived, and together with the bytes it stays within the size. -/
structure Sound (size : Nat) (t : SharedInlet κ σ) : Prop where
  sized : t.inlet.conduit.capacity = size
  within : t.inlet.granted + t.inlet.length ≤ size
  counted : t.log.announced + t.pending + t.failed ≤ t.inlet.granted + t.accepted
  kept : t.inlet.conduit.aborted = false → t.accepted = t.read + t.inlet.length
  bounded : t.log.announced + t.pending ≤ size + t.read

omit [CapacityChannel κ σ] in
private theorem Sound.of_kept {size : Nat} {t : SharedInlet κ σ} (sized : t.inlet.conduit.capacity = size)
    (within : t.inlet.granted + t.inlet.length ≤ size)
    (counted : t.log.announced + t.pending + t.failed ≤ t.inlet.granted + t.accepted)
    (kept : t.accepted = t.read + t.inlet.length) : t.Sound size :=
  ⟨sized, within, counted, fun _ => kept, by omega⟩

theorem sum_set {α : Type} [AddCommMonoid α] (f : InletCall κ → α) (e' : InletCall κ) :
    ∀ (inFlight : List (InletCall κ)) (place : Nat) (e : InletCall κ), inFlight[place]? = some e →
      ((inFlight.set place e').map f).sum + f e = (inFlight.map f).sum + f e'
  | [], _, _, found => by simp at found
  | e :: inFlight, 0, _, found => by
    obtain rfl := Option.some.inj found
    simp only [List.set_cons_zero, List.map_cons, List.sum_cons]
    rw [add_comm _ (f e), add_comm (f e'), add_assoc]
  | first :: inFlight, place + 1, e, found => by
    have rest := sum_set f e' inFlight place e found
    simp only [List.set_cons_succ, List.map_cons, List.sum_cons]
    rw [add_assoc, rest, add_assoc]

omit [CapacityChannel κ σ] in
private theorem Sound.moved {size place : Nat} {t : SharedInlet κ σ} (h : t.Sound size) {e e' : InletCall κ}
    {inlet' : Inlet κ} {log' : AnnouncementLog κ σ} (flight : t.inFlight[place]? = some e)
    (moves : e.Moves t.inlet t.log.announced e' inlet' log'.announced) :
    Sound size { t with inlet := inlet', log := log', inFlight := t.inFlight.set place e' } := by
  have pending := sum_set InletCall.pending e' t.inFlight place e flight
  have failed := sum_set InletCall.failed e' t.inFlight place e flight
  have read := sum_set InletCall.read e' t.inFlight place e flight
  obtain ⟨counted, within, passed, grown, capacity, aborted, quiet⟩ := moves
  have sized := h.sized
  have before := h.counted
  have bounded := h.bounded
  have within := within (by rw [sized]; exact h.within)
  simp only [SharedInlet.pending, SharedInlet.failed, SharedInlet.read] at before bounded
  have after : log'.announced + ((t.inFlight.set place e').map InletCall.pending).sum +
      ((t.inFlight.set place e').map InletCall.failed).sum ≤ inlet'.granted + t.accepted := by
    omega
  cases state : t.inlet.conduit.aborted with
  | false =>
    have kept := h.kept state
    simp only [SharedInlet.read] at kept
    refine .of_kept (capacity.trans sized) (sized ▸ within) after ?_
    simp only [SharedInlet.read]
    omega
  | true =>
    have quiet := quiet state
    refine ⟨capacity.trans sized, sized ▸ within, after, ?_, ?_⟩
    · intro live
      rw [aborted, state] at live
      cases live
    · simp only [SharedInlet.pending, SharedInlet.read]
      omega

omit [CapacityChannel κ σ] in
private theorem Sound.filled {size : Nat} {t : SharedInlet κ σ} (h : t.Sound size) (bytes : List UInt8) :
    Sound size { t with
      inlet := (t.inlet.fill bytes).2
      accepted := t.accepted + (takenOf bytes (t.inlet.fill bytes).1).length } := by
  obtain ⟨_, _, _, _, conduit⟩ := t.inlet.fill_spec bytes
  obtain ⟨used, within⟩ := t.inlet.fill_counts bytes
  have length : (t.inlet.fill bytes).2.length =
      t.inlet.length + (takenOf bytes (t.inlet.fill bytes).1).length := by
    simp [Inlet.length, Conduit.length, conduit]
  have counted := h.counted
  constructor
  · rw [conduit]
    exact h.sized
  · rw [← h.sized]
    exact within (by rw [h.sized]; exact h.within)
  · simp only [pending, failed] at counted ⊢
    omega
  · intro live
    rw [conduit] at live
    have kept := h.kept live
    simp only [read] at kept ⊢
    omega
  · exact h.bounded

omit [CapacityChannel κ σ] in
/-- A call begins with nothing granted and nothing read. -/
theorem Sound.begun {size : Nat} {t : SharedInlet κ σ} (h : t.Sound size) (e : InletCall κ)
    (pending : e.pending = 0) (failed : e.failed = 0) (read : e.read = 0) :
    Sound size { t with inFlight := t.inFlight ++ [e] } := by
  have same : ∀ f : InletCall κ → Nat, f e = 0 → ((t.inFlight ++ [e]).map f).sum = (t.inFlight.map f).sum := by
    intro f none
    simp [none]
  refine ⟨h.sized, h.within, ?_, ?_, ?_⟩
  · simp only [SharedInlet.pending, SharedInlet.failed, same _ pending, same _ failed]
    exact h.counted
  · simp only [SharedInlet.read, same _ read]
    exact h.kept
  · simp only [SharedInlet.pending, SharedInlet.read, same _ pending, same _ read]
    exact h.bounded

theorem Sound.step {size : Nat} {t : SharedInlet κ σ} (h : t.Sound size) (move : Move κ σ) :
    (t.step move).Sound size := by
  cases move with
  | fill bytes => exact h.filled bytes
  | read room =>
    apply h.begun (.reading room (.ofRoom room))
    · simp only [InletCall.pending, Reading.ofRoom]
      split <;> rfl
    · simp only [InletCall.failed, Reading.ofRoom]
      split <;> rfl
    · simp [InletCall.read, Reading.inHand_ofRoom]
  | register ch => exact h.begun (.registering ch) rfl rfl rfl
  | work place =>
    simp only [SharedInlet.step]
    split
    · exact h
    next e flight => exact h.moved flight (e.step_moves t.inlet t.log)
  | timeOut place =>
    simp only [SharedInlet.step]
    split
    · exact h
    next e flight => exact h.moved flight (e.timeOut_moves t.inlet t.log.announced)
  | markEnd => exact ⟨h.sized, h.within, h.counted, h.kept, h.bounded⟩
  | abort =>
    have within := h.within
    exact ⟨h.sized, Nat.le_trans (Nat.le_add_right _ _) within, h.counted, nofun, h.bounded⟩
  | become world => exact ⟨h.sized, h.within, h.counted, h.kept, h.bounded⟩

theorem Sound.run {size : Nat} {t : SharedInlet κ σ} (h : t.Sound size) (moves : List (Move κ σ)) :
    (t.run moves).Sound size := by
  induction moves generalizing t with
  | nil => exact h
  | cons move rest ih => exact ih (h.step move)

def start (inlet : Inlet κ) (world : σ) : SharedInlet κ σ := ⟨inlet, ⟨world, []⟩, [], 0⟩

omit [CapacityChannel κ σ] in
theorem sound_start (settings : BufferSettings) (inlet : Inlet κ) (world : σ)
    (valid : Inlet.ofSettings settings = .ok inlet) : (start inlet world).Sound settings.bufferSize := by
  obtain rfl := Inlet.ofSettings_ok valid
  exact .of_kept rfl (Nat.zero_le _) (Nat.le_refl _) rfl

end SharedInlet

/-- However many callers there are and in whatever order their sections and announcements come: the
room that a peer has heard of or is about to hear of never exceeds the size of the buffer and what was
read from it. So the counter stays within the free room, and a peer that keeps to the room it has heard
of finds room for all of its bytes. -/
theorem announced_within {κ σ : Type} [CapacityChannel κ σ] (settings : BufferSettings) (inlet : Inlet κ)
    (valid : Inlet.ofSettings settings = .ok inlet) (world : σ) (moves : List (SharedInlet.Move κ σ)) :
    let t := (SharedInlet.start inlet world).run moves
    t.log.announced + t.pending ≤ settings.bufferSize + t.read ∧
    t.inlet.granted ≤ t.inlet.conduit.free ∧ t.inlet.conduit.free ≤ settings.bufferSize ∧
    ∀ bytes, t.inlet.conduit.aborted = false → t.inlet.conduit.ended = false →
      t.accepted + bytes.length ≤ t.log.announced → (t.inlet.fill bytes).1 = .ok bytes.length := by
  intro t
  have sound : t.Sound settings.bufferSize := (SharedInlet.sound_start settings inlet world valid).run moves
  have within := sound.within
  have sized := sound.sized
  have free : t.inlet.granted ≤ t.inlet.conduit.free := by
    simp only [Inlet.length, Conduit.free] at within ⊢
    omega
  refine ⟨sound.bounded, free, ?_, ?_⟩
  · simp only [Conduit.free]
    omega
  · intro bytes live going offer
    have counted := sound.counted
    exact t.inlet.fill_whole bytes live going (by omega)

/-- Four bytes of room are announced and three arrive. Of two readers one cannot announce the room it
has made, so that only the other one's counts, and two bytes more are taken as a whole. -/
theorem announced_within_four :
    let settings : BufferSettings := ⟨4, none⟩
    let inlet : Inlet Line := ⟨⟨4, none, [], false, false, 0⟩, none, 0, none⟩
    let bench := Bench.ofChannels []
    let moves : List (SharedInlet.Move Line Bench) :=
      [.register (.outside 0), .work 0, .work 0, .fill [1, 2, 3], .read 1, .read 1, .work 1, .work 2,
        .become (bench.failCapacity 0 true), .work 1, .become bench, .work 2]
    let t := (SharedInlet.start inlet bench).run moves
    Inlet.ofSettings settings = .ok inlet ∧
      t.log.announced = 5 ∧ t.failed = 1 ∧ t.accepted = 3 ∧ t.read = 2 ∧
      t.log.announced + t.pending ≤ 4 + t.read ∧ (t.inlet.fill [4, 5]).1 = .ok 2 := by
  intro settings inlet bench moves
  obtain ⟨bounded, _, _, whole⟩ := announced_within settings inlet rfl bench moves
  exact ⟨rfl, by decide, by decide, by decide, by decide, bounded,
    whole [4, 5] (by decide) (by decide) (by decide)⟩

end Sluice
