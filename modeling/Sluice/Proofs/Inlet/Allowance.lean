import Sluice.Proofs.Inlet.Grants

/-! The allowance of a peer: the room that it has heard of, less what it got accepted. A peer that
never exceeds it is told, again and again, of exactly the room there is, and of none twice. -/
namespace Sluice

variable {κ σ : Type}

private theorem Inlet.take_counts (inlet : Inlet κ) (room : Nat) :
    (inlet.take room).1.failed = 0 ∧ (inlet.take room).2.granted = inlet.granted + (inlet.take room).1.pending := by
  unfold take
  split
  · exact ⟨rfl, rfl⟩
  · split
    · split
      · exact ⟨rfl, rfl⟩
      · exact ⟨rfl, rfl⟩
    · obtain ⟨unfailed, _, counts, _⟩ := Inlet.afterTake_counts
        { inlet with conduit := inlet.conduit.drop room } (inlet.conduit.bytes.take room)
      exact ⟨unfailed, counts⟩

namespace InletCall

/-- What a section of a call does to the books: the counter changes by just what becomes announced,
pending or failed. -/
structure Balances (e : InletCall κ) (inlet : Inlet κ) (announced : Nat) (e' : InletCall κ) (inlet' : Inlet κ)
    (announced' : Nat) : Prop where
  counted : announced' + e'.pending + e'.failed + inlet.granted =
    announced + e.pending + e.failed + inlet'.granted
  grown : announced ≤ announced'

private theorem Balances.silent {e e' : InletCall κ} {inlet inlet' : Inlet κ} (announced : Nat)
    (counted : e'.pending + e'.failed + inlet.granted = e.pending + e.failed + inlet'.granted) :
    e.Balances inlet announced e' inlet' announced :=
  ⟨by omega, Nat.le_refl _⟩

private theorem taking_balances (inlet : Inlet κ) (room : Nat) (r : Reading κ) (pending : r.pending = 0)
    (failed : r.failed = 0) (announced : Nat) :
    (reading room r).Balances inlet announced (reading room (inlet.take room).1) (inlet.take room).2
      announced := by
  obtain ⟨unfailed, counts⟩ := inlet.take_counts room
  refine .silent announced ?_
  simp only [InletCall.pending, InletCall.failed, pending, failed, unfailed, counts]
  omega

private theorem step_registering [CapacityChannel κ σ] (ch : κ) (inlet : Inlet κ) (s : σ) :
    inlet.conduit.aborted = true ∧ step (registering ch) inlet s = (done (.error .aborted), inlet, s) ∨
    inlet.conduit.aborted = false ∧
      let increment := inlet.conduit.free - inlet.granted
      step (registering ch) inlet s =
        (if increment = 0 then done (.ok ()) else announcing ch increment,
          { inlet with channel := some ch, granted := inlet.granted + increment }, s) := by
  cases aborted : inlet.conduit.aborted with
  | true => exact .inl ⟨rfl, by simp [step, Inlet.register, aborted]⟩
  | false =>
    refine .inr ⟨rfl, ?_⟩
    cases room : inlet.conduit.free - inlet.granted with
    | zero => simp [step, Inlet.register, Inlet.grant, aborted, room]
    | succ n => simp [step, Inlet.register, Inlet.grant, aborted, room]

private theorem update_balances [CapacityChannel κ σ] (e e' : InletCall κ) (inlet : Inlet κ)
    (g : AnnouncementLog κ σ) (ch : κ)
    (increment : Nat) (pending : e.pending = increment) (unfailed : e.failed = 0) (settled : e'.pending = 0)
    (split : Announcement.announced ⟨ch, increment, (CapacityChannel.update ch increment g).1⟩
      + e'.failed = increment) :
    e.Balances inlet g.announced e' inlet (CapacityChannel.update ch increment g).2.announced := by
  have heard := g.announced_update ch increment
  exact ⟨by omega, by omega⟩

private theorem reading_balances [CapacityChannel κ σ] (room : Nat) (r : Reading κ)
    (inlet : Inlet κ) (g : AnnouncementLog κ σ)
    (covered : r.failed ≤ inlet.granted) :
    let after := step (reading room r) inlet g
    (reading room r).Balances inlet g.announced after.1 after.2.1 after.2.2.announced := by
  cases r with
  | entering =>
    simp only [step, Reading.step, Inlet.enter]
    split
    · exact .silent _ rfl
    · exact taking_balances inlet room .entering rfl rfl _
  | asleep since =>
    simp only [step, Reading.step]
    split
    · exact .silent _ rfl
    · exact taking_balances inlet room (.asleep since) rfl rfl _
  | announcing bytes ch increment =>
    have told := fun e' =>
      update_balances (reading room (.announcing bytes ch increment)) e' inlet g ch increment rfl rfl
    simp only [step, Reading.step]
    split
    next g' passed =>
      have balances := told (reading room (.done (.ok bytes))) rfl
      rw [passed] at balances
      exact balances (Nat.add_zero _)
    next fault g' failed =>
      have balances := told (reading room (.revoking bytes increment fault)) rfl
      rw [failed] at balances
      exact balances (Nat.zero_add _)
  | revoking bytes increment fault =>
    refine .silent _ ?_
    simp only [step, Reading.step, Inlet.revoke, pending, failed, Reading.pending, Reading.failed] at covered ⊢
    omega
  | postponing bytes fault => exact .silent _ rfl
  | done result => exact .silent _ rfl

/-- So does every other section, provided that a grant which is revoked is still counted. -/
theorem step_balances [CapacityChannel κ σ] (e : InletCall κ) (inlet : Inlet κ) (g : AnnouncementLog κ σ)
    (covered : e.failed ≤ inlet.granted) :
    e.Balances inlet g.announced (e.step inlet g).1 (e.step inlet g).2.1 (e.step inlet g).2.2.announced := by
  cases e with
  | registering ch =>
    rcases step_registering ch inlet g with ⟨_, refused⟩ | ⟨_, granted⟩
    · rw [refused]
      exact .silent _ rfl
    · rw [granted]
      refine .silent _ ?_
      split
      next none => simp [pending, failed, none]
      next some => simp [pending, failed, Nat.add_comm]
  | announcing ch increment =>
    have told := fun e' => update_balances (announcing ch increment) e' inlet g ch increment rfl rfl
    simp only [step]
    split
    next fault g' failed =>
      have balances := told (revoking increment fault) rfl
      rw [failed] at balances
      exact balances (Nat.zero_add _)
    next g' passed =>
      have balances := told (done (.ok ())) rfl
      rw [passed] at balances
      exact balances (Nat.add_zero _)
  | revoking increment fault =>
    refine .silent _ ?_
    simp only [step, Inlet.revoke, pending, failed] at covered ⊢
    omega
  | done result => exact .silent _ rfl
  | reading room r => exact reading_balances room r inlet g covered

private theorem timeOut_balances (e : InletCall κ) (inlet : Inlet κ) (announced : Nat) :
    e.Balances inlet announced (e.timeOut inlet) inlet announced := by
  cases e with
  | reading room r =>
    cases r with
    | asleep since =>
      simp only [timeOut, Reading.timeOut]
      split
      · exact .silent _ rfl
      · exact .silent _ rfl
    | _ => exact .silent _ rfl
  | _ => exact .silent _ rfl

/-- A call that has granted nothing of which it does not know what has become. -/
def Idle : InletCall κ → Prop
  | reading _ (.announcing _ _ _) | reading _ (.revoking _ _ _) | reading _ (.postponing _ _) => False
  | announcing _ _ | revoking _ _ => False
  | _ => True

private theorem Idle.settled {e : InletCall κ} (idle : e.Idle) : e.pending = 0 ∧ e.failed = 0 := by
  cases e with
  | reading room r =>
    cases r with
    | announcing bytes ch increment => exact idle.elim
    | revoking bytes increment fault => exact idle.elim
    | _ => exact ⟨rfl, rfl⟩
  | announcing ch increment => exact idle.elim
  | revoking increment fault => exact idle.elim
  | _ => exact ⟨rfl, rfl⟩

private theorem Idle.timeOut {e : InletCall κ} (idle : e.Idle) (inlet : Inlet κ) :
    (e.timeOut inlet).Idle ∧ (e.timeOut inlet).read = e.read := by
  cases e with
  | reading room r =>
    cases r with
    | asleep since =>
      simp only [InletCall.timeOut, Reading.timeOut]
      split
      · exact ⟨trivial, rfl⟩
      · exact ⟨trivial, rfl⟩
    | _ => exact ⟨idle, rfl⟩
  | _ => exact ⟨idle, rfl⟩

/-- Some sections of a call with nobody around. -/
def alone [CapacityChannel κ σ] : Nat → InletCall κ → Inlet κ → σ → InletCall κ × Inlet κ × σ
  | 0, e, inlet, s => (e, inlet, s)
  | sections + 1, e, inlet, s =>
    let (e, inlet, s) := e.step inlet s
    alone sections e inlet s

/-- Whether a call that begins so and ends so has reason to tell of room: a channel has registered, or bytes were
read from a stream that goes on, and there is a channel to tell. -/
def Reviews (e : InletCall κ) (inlet : Inlet κ) (e' : InletCall κ) : Prop :=
  (∃ ch, e = registering ch) ∧ e' = done (.ok ()) ∨
    e.read < e'.read ∧ inlet.channel ≠ none ∧ inlet.conduit.ended = false

/-- What a call does with nobody around: it makes one announcement at the most, of all the room that was not granted,
and of that is granted what was announced. -/
structure Settles (e : InletCall κ) (inlet : Inlet κ) (g : AnnouncementLog κ σ) (e' : InletCall κ) (inlet' : Inlet κ)
    (g' : AnnouncementLog κ σ) : Prop where
  idle : e'.Idle
  told : g'.announcements = g.announcements ∧ (e.Reviews inlet e' → inlet'.granted = inlet'.conduit.free) ∨
    ∃ announcement, g'.announcements = g.announcements ++ [announcement] ∧
      (e' = done (.ok ()) → announcement.result = .ok ()) ∧
      inlet'.granted + announcement.increment = inlet'.conduit.free + announcement.announced

section Alone

variable [CapacityChannel κ σ]

private theorem alone_succ (n : Nat) (e : InletCall κ) (inlet : Inlet κ) (s : σ) :
    alone (n + 1) e inlet s = alone n (e.step inlet s).1 (e.step inlet s).2.1 (e.step inlet s).2.2 := rfl

private theorem alone_registering (ch : κ) (inlet : Inlet κ) (s : σ) :
    alone 4 (registering ch) inlet s =
      (done (inlet.updateCapacity ch s).1, (inlet.updateCapacity ch s).2) := by
  have registers := registering_alone ch inlet s
  calc alone 4 (registering ch) inlet s
    _ = alone 1 (done (inlet.updateCapacity ch s).1) (inlet.updateCapacity ch s).2.1
        (inlet.updateCapacity ch s).2.2 := by
      simp only [alone_succ 3, alone_succ 2, alone_succ 1, registers]
    _ = _ := rfl

private theorem alone_rests {e : InletCall κ} {inlet : Inlet κ} {s : σ}
    (rests : e.step inlet s = (e, inlet, s)) (n : Nat) :
    alone n e inlet s = (e, inlet, s) := by
  induction n with
  | zero => rfl
  | succ n ih => rw [alone_succ, rests, ih]

private theorem Settles.rests {e e' : InletCall κ} {inlet inlet' : Inlet κ}
    {g : AnnouncementLog κ σ} {n : Nat} (idle : e'.Idle)
    (rests : e'.step inlet' g = (e', inlet', g)) (calm : ¬ e.Reviews inlet e') :
    e.Settles inlet g (alone n e' inlet' g).1 (alone n e' inlet' g).2.1 (alone n e' inlet' g).2.2 := by
  rw [alone_rests rests]
  exact ⟨idle, .inl ⟨rfl, fun reviews => absurd reviews calm⟩⟩

omit [CapacityChannel κ σ] in
private theorem not_reviews {e e' : InletCall κ} (inlet : Inlet κ) (reading : ∀ ch, e ≠ registering ch)
    (unread : e'.read = e.read) : ¬ e.Reviews inlet e' := by
  rintro (⟨⟨ch, new⟩, _⟩ | ⟨more, _⟩)
  · exact reading ch new
  · exact absurd unread (Nat.ne_of_gt more)

private theorem Settles.announces {e e' : InletCall κ} {inlet inlet' : Inlet κ} {ch : κ} {increment : Nat}
    {g g' : AnnouncementLog κ σ}
    {result : Except Fault Unit} (updated : CapacityChannel.update ch increment g = (result, g')) (idle : e'.Idle)
    (passed : e' = done (.ok ()) → result = .ok ())
    (kept : inlet'.granted + increment = inlet'.conduit.free + Announcement.announced ⟨ch, increment, result⟩) :
    e.Settles inlet g e' inlet' g' := by
  refine ⟨idle, .inr ⟨⟨ch, increment, result⟩, ?_, passed, kept⟩⟩
  calc g'.announcements = (CapacityChannel.update ch increment g).2.announcements := by rw [updated]
    _ = g.announcements ++ [⟨ch, increment, (CapacityChannel.update ch increment g).1⟩] := rfl
    _ = g.announcements ++ [⟨ch, increment, result⟩] := by rw [updated]

private theorem taken_settles (e : InletCall κ) (room : Nat) {inlet inlet' : Inlet κ}
    (g : AnnouncementLog κ σ) (bytes : List UInt8)
    (granted : inlet'.granted ≤ inlet'.conduit.free) (channel : inlet'.channel = inlet.channel)
    (ended : inlet'.conduit.ended = inlet.conduit.ended) :
    let after := alone 3 (reading room (inlet'.afterTake bytes).1) (inlet'.afterTake bytes).2 g
    e.Settles inlet g after.1 after.2.1 after.2.2 := by
  intro after
  rcases inlet'.afterTake_cases bytes with ⟨full, taken⟩ | ⟨ch, taken⟩
  · simp only [after, taken, alone, step, Reading.step]
    refine ⟨trivial, .inl ⟨rfl, ?_⟩⟩
    rintro (⟨_, passed⟩ | ⟨_, known, going⟩)
    · cases passed
    · exact Nat.le_antisymm granted (full (channel ▸ known) (ended.trans going))
  · have full : inlet'.granted + (inlet'.conduit.free - inlet'.granted) = inlet'.conduit.free :=
      Nat.add_sub_cancel' granted
    rcases updated : CapacityChannel.update ch (inlet'.conduit.free - inlet'.granted) g with ⟨result, g'⟩
    cases result with
    | ok heard =>
      simp only [after, taken, alone, step, Reading.step, updated]
      exact .announces updated trivial (fun _ => rfl) (congrArg (· + _) full)
    | error fault =>
      simp only [after, taken, alone, step, Reading.step, updated]
      exact .announces updated trivial (by simp) ((Nat.sub_add_cancel (Nat.le_add_left _ _)).trans full)

private theorem looking_settles (room : Nat) {r : Reading κ} (hand : r.inHand = [])
    (inlet : Inlet κ) (g : AnnouncementLog κ σ)
    (granted : inlet.granted ≤ inlet.conduit.free) :
    let after := alone 3 (reading room (inlet.take room).1) (inlet.take room).2 g
    (reading room r).Settles inlet g after.1 after.2.1 after.2.2 := by
  have calm : ∀ r' : Reading κ, r'.inHand = [] → ¬ (reading room r).Reviews inlet (reading room r') :=
    fun r' hand' => not_reviews inlet (by simp) (by simp [InletCall.read, hand, hand'])
  intro after
  simp only [after, Inlet.take]
  split
  · exact .rests trivial rfl (calm _ rfl)
  · split
    · split
      · exact .rests trivial rfl (calm _ rfl)
      · exact .rests trivial (by simp [step, Reading.step]) (calm _ rfl)
    · refine taken_settles (reading room r) room g (inlet.conduit.bytes.take room) ?_ rfl rfl
      simp only [Conduit.drop, Conduit.free, Conduit.length, List.length_drop] at granted ⊢
      omega

private theorem registering_settles (ch : κ) (inlet : Inlet κ) (g : AnnouncementLog κ σ)
    (granted : inlet.granted ≤ inlet.conduit.free) :
    let after := alone 4 (registering ch) inlet g
    (registering ch).Settles inlet g after.1 after.2.1 after.2.2 := by
  intro after
  rcases step_registering ch inlet g with ⟨_, refused⟩ | ⟨_, registered⟩
  · simp only [after, alone_succ 3, refused]
    refine .rests trivial rfl ?_
    rintro (⟨_, passed⟩ | ⟨more, _⟩)
    · cases passed
    · cases more
  · have full : inlet.granted + (inlet.conduit.free - inlet.granted) = inlet.conduit.free :=
      Nat.add_sub_cancel' granted
    simp only [after, alone_succ 3, registered]
    split
    next none =>
      rw [alone_rests rfl]
      exact ⟨trivial, .inl ⟨rfl, fun _ => full⟩⟩
    next some =>
      rcases updated : CapacityChannel.update ch (inlet.conduit.free - inlet.granted) g with ⟨result, g'⟩
      cases result with
      | ok heard =>
        simp only [alone, step, updated]
        exact .announces updated trivial (fun _ => rfl) (congrArg (· + _) full)
      | error fault =>
        simp only [alone, step, updated]
        exact .announces updated trivial (by simp) ((Nat.sub_add_cancel (Nat.le_add_left _ _)).trans full)

/-- What a call does with nobody around, from its begin or from where it has fallen asleep. -/
theorem alone_settles (e : InletCall κ) (inlet : Inlet κ) (g : AnnouncementLog κ σ) (idle : e.Idle)
    (granted : inlet.granted ≤ inlet.conduit.free) :
    let after := alone 4 e inlet g
    e.Settles inlet g after.1 after.2.1 after.2.2 := by
  cases e with
  | registering ch => exact registering_settles ch inlet g granted
  | announcing ch increment => exact idle.elim
  | revoking increment fault => exact idle.elim
  | done result => exact .rests trivial rfl (not_reviews inlet (by simp) rfl)
  | reading room r =>
    cases r with
    | announcing bytes ch increment => exact idle.elim
    | revoking bytes increment fault => exact idle.elim
    | postponing bytes fault => exact idle.elim
    | done result => exact .rests trivial rfl (not_reviews inlet (by simp) rfl)
    | entering =>
      intro after
      cases deferred : inlet.deferred with
      | some fault =>
        simp only [after, alone_succ 3, step, Reading.step, Inlet.enter, deferred]
        exact .rests trivial rfl (not_reviews inlet (by simp) rfl)
      | none =>
        simp only [after, alone_succ 3, step, Reading.step, Inlet.enter, deferred]
        exact looking_settles room rfl inlet g granted
    | asleep since =>
      by_cases asleep : since = inlet.conduit.wakes
      · exact .rests trivial (by simp [step, Reading.step, asleep]) (not_reviews inlet (by simp) rfl)
      · intro after
        simp only [after, alone_succ 3, step, Reading.step, if_neg asleep]
        exact looking_settles room rfl inlet g granted

end Alone

end InletCall

namespace SharedInlet

/-- The peer keeps to the room that it has heard of. -/
def Move.Obeys (t : SharedInlet κ σ) : Move κ σ → Prop
  | .fill bytes => t.accepted + bytes.length ≤ t.log.announced
  | _ => True

/-- The books of an inlet whose peer obeys. The counter is just what was granted and not revoked, less what has
arrived, and nothing arrived unannounced. -/
structure Balanced (t : SharedInlet κ σ) : Prop where
  counted : t.log.announced + t.pending + t.failed = t.inlet.granted + t.accepted
  heard : t.accepted ≤ t.log.announced

private theorem Balanced.moved {t : SharedInlet κ σ} (h : t.Balanced) {place : Nat}
    {e e' : InletCall κ} {inlet' : Inlet κ}
    {log' : AnnouncementLog κ σ} (flight : t.inFlight[place]? = some e)
    (balances : e.failed ≤ t.inlet.granted → e.Balances t.inlet t.log.announced e' inlet' log'.announced) :
    Balanced { t with inlet := inlet', log := log', inFlight := t.inFlight.set place e' } := by
  have pending := sum_set InletCall.pending e' t.inFlight place e flight
  have failed := sum_set InletCall.failed e' t.inFlight place e flight
  have counted := h.counted
  have heard := h.heard
  have member : _ + e.failed = _ + 0 := sum_set InletCall.failed (.done (.ok ())) t.inFlight place e flight
  simp only [SharedInlet.pending, SharedInlet.failed] at counted
  obtain ⟨counted', grown⟩ := balances (by omega)
  constructor
  · simp only [SharedInlet.pending, SharedInlet.failed]
    omega
  · exact Nat.le_trans heard grown

private theorem Balanced.begun {t : SharedInlet κ σ} (h : t.Balanced) {e : InletCall κ} (pending : e.pending = 0)
    (failed : e.failed = 0) : Balanced { t with inFlight := t.inFlight ++ [e] } := by
  refine ⟨?_, h.heard⟩
  have counted := h.counted
  simp only [SharedInlet.pending, SharedInlet.failed, List.map_append, List.sum_append, List.map_singleton,
    List.sum_singleton, pending, failed] at counted ⊢
  exact counted

variable [CapacityChannel κ σ]

private theorem Balanced.filled {t : SharedInlet κ σ} (h : t.Balanced) (bytes : List UInt8)
    (obeys : t.accepted + bytes.length ≤ t.log.announced) : (t.step (.fill bytes)).Balanced := by
  have counted := h.counted
  have granted := t.inlet.fill_granted bytes
  have taken := takenOf_length_le bytes (t.inlet.fill bytes).1
  simp only [SharedInlet.pending, SharedInlet.failed] at counted
  constructor
  · simp only [SharedInlet.step, SharedInlet.pending, SharedInlet.failed]
    omega
  · simp only [SharedInlet.step]
    omega

/-- Every move keeps the books in balance, in whatever order the sections of calls come. -/
theorem Balanced.step {t : SharedInlet κ σ} (h : t.Balanced) (move : Move κ σ) (obeys : move.Obeys t) :
    (t.step move).Balanced := by
  cases move with
  | fill bytes => exact h.filled bytes obeys
  | read room =>
    apply h.begun
    · simp only [InletCall.pending, Reading.ofRoom]
      split <;> rfl
    · simp only [InletCall.failed, Reading.ofRoom]
      split <;> rfl
  | register ch => exact h.begun rfl rfl
  | work place =>
    simp only [SharedInlet.step]
    split
    · exact h
    next e flight => exact h.moved flight (e.step_balances t.inlet t.log)
  | timeOut place =>
    simp only [SharedInlet.step]
    split
    · exact h
    next e flight => exact h.moved flight fun _ => e.timeOut_balances t.inlet t.log.announced
  | markEnd => exact ⟨h.counted, h.heard⟩
  | abort => exact ⟨h.counted, h.heard⟩
  | become world => exact ⟨h.counted, h.heard⟩

private theorem Balanced.works {t : SharedInlet κ σ} (h : t.Balanced) (n place : Nat) :
    (t.run (List.replicate n (.work place))).Balanced := by
  induction n generalizing t with
  | zero => exact h
  | succ n ih => exact ih (h.step (.work place) trivial)

private theorem run_works (n : Nat) {t : SharedInlet κ σ} {place : Nat} {e : InletCall κ}
    (flight : t.inFlight[place]? = some e) :
    let after := e.alone n t.inlet t.log
    t.run (List.replicate n (.work place)) =
      { t with inlet := after.2.1, log := after.2.2, inFlight := t.inFlight.set place after.1 } := by
  induction n generalizing t e with
  | zero =>
    obtain ⟨inside, rfl⟩ := List.getElem?_eq_some_iff.mp flight
    simp [run, InletCall.alone]
  | succ n ih =>
    have stepped : t.step (.work place) = { t with
        inlet := (e.step t.inlet t.log).2.1, log := (e.step t.inlet t.log).2.2
        inFlight := t.inFlight.set place (e.step t.inlet t.log).1 } := by
      simp only [SharedInlet.step, flight]
    have inside : place < t.inFlight.length := (List.getElem?_eq_some_iff.mp flight).1
    calc t.run (List.replicate (n + 1) (.work place))
      _ = (t.step (.work place)).run (List.replicate n (.work place)) := rfl
      _ = _ := by
        rw [stepped, ih (List.getElem?_set_self inside)]
        simp only [List.set_set, InletCall.alone_succ]

/-- A call on an inlet that is left to itself meanwhile, or a move of the channels. A read that falls asleep goes
on when it is called again, or runs out of patience. -/
inductive Call (κ σ : Type)
  | fill (bytes : List UInt8)
  | update (channel : κ)
  | read (room : Nat)
  | resume (place : Nat)
  | timeOut (place : Nat)
  | markEnd
  | abort
  | become (world : σ)

/-- The moves of a call that begins at some place. After four sections it is over or asleep. -/
def Call.moves (place : Nat) : Call κ σ → List (Move κ σ)
  | .fill bytes => [.fill bytes]
  | .update ch => .register ch :: List.replicate 4 (.work place)
  | .read room => .read room :: List.replicate 4 (.work place)
  | .resume place => List.replicate 4 (.work place)
  | .timeOut place => [.timeOut place]
  | .markEnd => [.markEnd]
  | .abort => [.abort]
  | .become world => [.become world]

def call (t : SharedInlet κ σ) (c : Call κ σ) : SharedInlet κ σ := t.run (c.moves t.inFlight.length)

private theorem run_cons (t : SharedInlet κ σ) (move : Move κ σ) (moves : List (Move κ σ)) :
    t.run (move :: moves) = (t.step move).run moves := rfl

private theorem call_update (t : SharedInlet κ σ) (ch : κ) :
    t.call (.update ch) =
      run (List.replicate 4 (.work t.inFlight.length)) { t with inFlight := t.inFlight ++ [.registering ch] } := by
  rw [call, Call.moves, run_cons]
  rfl

private theorem call_read (t : SharedInlet κ σ) (room : Nat) :
    t.call (.read room) =
      run (List.replicate 4 (.work t.inFlight.length))
        { t with inFlight := t.inFlight ++ [.reading room (.ofRoom room)] } := by
  rw [call, Call.moves, run_cons]
  rfl

def calls (cs : List (Call κ σ)) (t : SharedInlet κ σ) : SharedInlet κ σ := cs.foldl call t

/-- The peer keeps to the room that it has heard of, whenever it sends. -/
def Obedient : List (Call κ σ) → SharedInlet κ σ → Prop
  | [], _ => True
  | c :: cs, t =>
    (∀ bytes, c = .fill bytes → t.accepted + bytes.length ≤ t.log.announced) ∧ Obedient cs (t.call c)

/-- An inlet among calls that are all over or asleep. -/
structure AtRest (size : Nat) (t : SharedInlet κ σ) : Prop where
  sound : t.Sound size
  balanced : t.Balanced
  idle : ∀ e ∈ t.inFlight, e.Idle

omit [CapacityChannel κ σ] in
private theorem AtRest.idle_set {size : Nat} {t : SharedInlet κ σ} (h : t.AtRest size) {e : InletCall κ} (idle : e.Idle)
    (place : Nat) : ∀ e' ∈ t.inFlight.set place e, e'.Idle := by
  intro e' among
  rcases List.mem_or_eq_of_mem_set among with old | rfl
  · exact h.idle e' old
  · exact idle

omit [CapacityChannel κ σ] in
/-- Between calls no grant is in flight, so that the counter tells exactly what the peer may still send. -/
theorem AtRest.exact {size : Nat} {t : SharedInlet κ σ} (h : t.AtRest size) :
    t.pending = 0 ∧ t.failed = 0 ∧ t.log.announced = t.inlet.granted + t.accepted := by
  have none : ∀ f : InletCall κ → Nat, (∀ e : InletCall κ, e.Idle → f e = 0) → (t.inFlight.map f).sum = 0 := by
    intro f settled
    apply List.sum_eq_zero
    intro n among
    obtain ⟨e, flight, rfl⟩ := List.mem_map.mp among
    exact settled e (h.idle e flight)
  have pending : t.pending = 0 := none InletCall.pending fun e idle => idle.settled.1
  have failed : t.failed = 0 := none InletCall.failed fun e idle => idle.settled.2
  have counted := h.balanced.counted
  exact ⟨pending, failed, by omega⟩

omit [CapacityChannel κ σ] in
private theorem AtRest.granted_le {size : Nat} {t : SharedInlet κ σ} (h : t.AtRest size) :
    t.inlet.granted ≤ t.inlet.conduit.free := by
  have within := h.sound.within
  have sized := h.sound.sized
  simp only [Inlet.length, Conduit.free] at within ⊢
  omega

/-- A peer has heard of all the room there is, and of no more: it may send just what fits. -/
def Exact (t : SharedInlet κ σ) : Prop := t.log.announced = t.accepted + t.inlet.conduit.free

/-- What the announcements of a call amount to. It makes one at the most, of all the room of which the peer has not
heard, and if none is made or it succeeds the peer has heard of all room, in case that bytes were read from a
stream that goes on and there is a channel to tell. -/
structure Reports (t t' : SharedInlet κ σ) : Prop where
  announcements : t'.log.announcements = t.log.announcements ∨
    ∃ announcement, t'.log.announcements = t.log.announcements ++ [announcement] ∧
      t.log.announced + announcement.increment = t'.accepted + t'.inlet.conduit.free ∧
      (announcement.result = .ok () → t'.Exact)
  read : t'.log.announcements = t.log.announcements → t.read < t'.read → t.inlet.channel ≠ none →
    t.inlet.conduit.ended = false → t'.Exact

omit [CapacityChannel κ σ] in
private theorem Reports.silent {t t' : SharedInlet κ σ}
    (announcements : t'.log.announcements = t.log.announcements) (read : t'.read = t.read) :
    t.Reports t' :=
  ⟨.inl announcements, fun _ more => absurd read (Nat.ne_of_gt more)⟩

/-- The sections of a call among others that are over or asleep. A channel that has registered with success was told
of all the room there is. -/
theorem AtRest.works {size place : Nat} {t : SharedInlet κ σ} (h : t.AtRest size) {e : InletCall κ}
    (flight : t.inFlight[place]? = some e) :
    let after := e.alone 4 t.inlet t.log
    let t' := t.run (List.replicate 4 (.work place))
    t'.AtRest size ∧ t.Reports t' ∧ t'.inlet = after.2.1 ∧ t'.log = after.2.2 ∧
      (∀ ch, e = .registering ch → after.1 = .done (.ok ()) → t'.Exact) := by
  intro after t'
  have ran : t' = _ := run_works 4 flight
  obtain ⟨idle, told⟩ : e.Settles t.inlet t.log after.1 after.2.1 after.2.2 :=
    e.alone_settles t.inlet t.log (h.idle e (List.mem_of_getElem? flight)) h.granted_le
  have rest : t'.AtRest size := by
    refine ⟨h.sound.run _, h.balanced.works 4 place, ?_⟩
    rw [ran]
    exact h.idle_set idle place
  obtain ⟨_, _, counter⟩ := rest.exact
  obtain ⟨_, _, before⟩ := h.exact
  have read : t'.read + e.read = t.read + after.1.read := by
    rw [ran]
    exact sum_set InletCall.read _ t.inFlight place e flight
  have accepted : t'.accepted = t.accepted := by rw [ran]
  have inlet : t'.inlet = after.2.1 := by rw [ran]
  have log : t'.log = after.2.2 := by rw [ran]
  rw [← inlet, ← log] at told
  have full : t'.inlet.granted = t'.inlet.conduit.free → t'.Exact := by
    intro all
    simp only [Exact]
    omega
  have passed : ∀ announcement : Announcement κ, t'.inlet.granted + announcement.increment =
      t'.inlet.conduit.free + announcement.announced →
      announcement.result = .ok () → t'.Exact := by
    intro announcement kept passed
    have whole : announcement.announced = announcement.increment := by simp [Announcement.announced, passed]
    exact full (by omega)
  refine ⟨rest, ?_, inlet, log, ?_⟩
  · constructor
    · rcases told with ⟨same, _⟩ | ⟨announcement, more, _, kept⟩
      · exact .inl same
      · have announced : t'.log.announced = t.log.announced + announcement.announced := by
          simp [AnnouncementLog.announced, more]
        exact .inr ⟨announcement, more, by omega, passed announcement kept⟩
    · intro same more known going
      rcases told with ⟨_, reviewed⟩ | ⟨announcement, another, _⟩
      · exact full (reviewed (.inr ⟨by omega, known, going⟩))
      · simp [same] at another
  · rintro ch rfl succeeded
    rcases told with ⟨_, reviewed⟩ | ⟨announcement, more, told, kept⟩
    · exact full (reviewed (.inl ⟨⟨ch, rfl⟩, succeeded⟩))
    · exact passed announcement kept (told succeeded)

omit [CapacityChannel κ σ] in
private theorem AtRest.begun {size : Nat} {t : SharedInlet κ σ} (h : t.AtRest size) {e : InletCall κ} (idle : e.Idle)
    (unread : e.read = 0) :
    let t' := { t with inFlight := t.inFlight ++ [e] }
    t'.AtRest size ∧ t'.read = t.read ∧ t'.inFlight[t.inFlight.length]? = some e := by
  obtain ⟨pending, failed⟩ := idle.settled
  refine ⟨⟨h.sound.begun e pending failed unread, h.balanced.begun pending failed, ?_⟩, ?_, ?_⟩
  · intro e' among
    rcases List.mem_append.mp among with old | new
    · exact h.idle e' old
    · exact List.mem_singleton.mp new ▸ idle
  · simp [SharedInlet.read, unread]
  · exact List.getElem?_concat_length

private theorem AtRest.calling {size : Nat} {t t' : SharedInlet κ σ} (h : t.AtRest size) {e : InletCall κ}
    (called : t' = run (List.replicate 4 (.work t.inFlight.length)) { t with inFlight := t.inFlight ++ [e] })
    (idle : e.Idle) (unread : e.read = 0) :
    let after := e.alone 4 t.inlet t.log
    t'.AtRest size ∧ t.Reports t' ∧ t'.inlet = after.2.1 ∧ t'.log = after.2.2 ∧
      (∀ ch, e = .registering ch → after.1 = .done (.ok ()) → t'.Exact) := by
  subst called
  obtain ⟨begun, read, flight⟩ := h.begun idle unread
  obtain ⟨rest, reports, after⟩ := begun.works flight
  exact ⟨rest, ⟨reports.announcements, read ▸ reports.read⟩, after⟩

/-- A call of one move leaves it to show that no read has anything in flight. -/
private theorem AtRest.moved {size : Nat} {t : SharedInlet κ σ} (h : t.AtRest size) {c : Call κ σ} (move : Move κ σ)
    (moved : t.call c = t.step move) (obeys : move.Obeys t) (idle : ∀ e ∈ (t.step move).inFlight, e.Idle)
    (announcements : (t.step move).log.announcements = t.log.announcements) (read : (t.step move).read = t.read) :
    (t.call c).AtRest size ∧ t.Reports (t.call c) := by
  rw [moved]
  exact ⟨⟨h.sound.step move, h.balanced.step move obeys, idle⟩, .silent announcements read⟩

private theorem AtRest.reads {size : Nat} {t : SharedInlet κ σ} (h : t.AtRest size) (room : Nat) :
    (t.call (.read room)).AtRest size ∧ t.Reports (t.call (.read room)) := by
  have empty : (InletCall.reading room (.ofRoom room) : InletCall κ).read = 0 := by
    simp [InletCall.read, Reading.inHand_ofRoom]
  have idle : (InletCall.reading room (.ofRoom room) : InletCall κ).Idle := by
    unfold Reading.ofRoom
    split
    · trivial
    · trivial
  obtain ⟨rest, reports, _⟩ := h.calling (t.call_read room) idle empty
  exact ⟨rest, reports⟩

private theorem AtRest.resumes {size : Nat} {t : SharedInlet κ σ} (h : t.AtRest size) (place : Nat) :
    (t.call (.resume place)).AtRest size ∧ t.Reports (t.call (.resume place)) := by
  cases flight : t.inFlight[place]? with
  | none =>
    have nowhere : t.call (.resume place) = t := by
      simp [SharedInlet.call, Call.moves, run, List.replicate, SharedInlet.step, flight]
    rw [nowhere]
    exact ⟨h, .silent rfl rfl⟩
  | some e =>
    obtain ⟨rest, reports, _⟩ := h.works flight
    exact ⟨rest, reports⟩

private theorem AtRest.timesOut {size : Nat} {t : SharedInlet κ σ} (h : t.AtRest size) (place : Nat) :
    (t.call (.timeOut place)).AtRest size ∧ t.Reports (t.call (.timeOut place)) := by
  cases flight : t.inFlight[place]? with
  | none =>
    have nowhere : t.call (.timeOut place) = t := by
      simp [SharedInlet.call, Call.moves, run, SharedInlet.step, flight]
    rw [nowhere]
    exact ⟨h, .silent rfl rfl⟩
  | some e =>
    obtain ⟨idle, unread⟩ := (h.idle e (List.mem_of_getElem? flight)).timeOut t.inlet
    have read := sum_set InletCall.read (e.timeOut t.inlet) t.inFlight place e flight
    have moved : t.step (.timeOut place) = { t with inFlight := t.inFlight.set place (e.timeOut t.inlet) } := by
      simp only [SharedInlet.step, flight]
    refine h.moved (.timeOut place) rfl trivial ?_ (by rw [moved]) ?_
    · rw [moved]
      exact h.idle_set idle place
    · rw [moved]
      simp only [SharedInlet.read]
      omega

/-- Every call comes to rest, and says what it has to say. -/
theorem AtRest.call {size : Nat} {t : SharedInlet κ σ} (h : t.AtRest size) (c : Call κ σ)
    (obeys : ∀ bytes, c = .fill bytes → t.accepted + bytes.length ≤ t.log.announced) :
    (t.call c).AtRest size ∧ t.Reports (t.call c) := by
  cases c with
  | fill bytes => exact h.moved (.fill bytes) rfl (obeys bytes rfl) h.idle rfl rfl
  | update ch =>
    have idle : (InletCall.registering ch).Idle := trivial
    obtain ⟨rest, reports, _⟩ := h.calling (t.call_update ch) idle rfl
    exact ⟨rest, reports⟩
  | read room => exact h.reads room
  | resume place => exact h.resumes place
  | timeOut place => exact h.timesOut place
  | markEnd => exact h.moved .markEnd rfl trivial h.idle rfl rfl
  | abort => exact h.moved .abort rfl trivial h.idle rfl rfl
  | become world => exact h.moved (.become world) rfl trivial h.idle rfl rfl

private theorem AtRest.calls {size : Nat} {t : SharedInlet κ σ} (h : t.AtRest size) (cs : List (Call κ σ))
    (obedient : Obedient cs t) : (t.calls cs).AtRest size := by
  induction cs generalizing t with
  | nil => exact h
  | cons c cs ih => exact ih (h.call c obedient.1).1 obedient.2

omit [CapacityChannel κ σ] in
private theorem atRest_start (settings : BufferSettings) (inlet : Inlet κ) (world : σ)
    (valid : Inlet.ofSettings settings = .ok inlet) : (start inlet world).AtRest settings.bufferSize := by
  refine ⟨sound_start settings inlet world valid, ?_, fun _ reading => by cases reading⟩
  obtain rfl := Inlet.ofSettings_ok valid
  exact ⟨rfl, Nat.le_refl _⟩

end SharedInlet

/-- A peer that never exceeds the room of which it has heard, and channels that fail however they like. Once a
channel has registered with success the peer may send exactly what fits, and so it is once bytes were read from a
stream that goes on and of which a channel is told, unless that announcement fails. No call announces more than
once, and what it announces is all the room of which the peer has not heard, whether it was ever granted before
or not. -/
theorem allowance_exact [CapacityChannel κ σ] (settings : BufferSettings) (inlet : Inlet κ)
    (valid : Inlet.ofSettings settings = .ok inlet) (world : σ) (before : List (SharedInlet.Call κ σ))
    (obedient : SharedInlet.Obedient before (SharedInlet.start inlet world)) :
    let t := (SharedInlet.start inlet world).calls before
    (∀ ch, let t' := t.call (.update ch)
      let updated := t.inlet.updateCapacity ch t.log
      t'.inlet = updated.2.1 ∧ t'.log = updated.2.2 ∧
        (updated.1 = .ok () → t'.log.announced = t'.accepted + t'.inlet.conduit.free)) ∧
    ∀ c, (∀ bytes, c = .fill bytes → t.accepted + bytes.length ≤ t.log.announced) →
      let t' := t.call c
      (t.read < t'.read → t.inlet.channel ≠ none → t.inlet.conduit.ended = false →
        (∀ announcement, t'.log.announcements = t.log.announcements ++ [announcement] → announcement.result = .ok ()) →
        t'.log.announced = t'.accepted + t'.inlet.conduit.free) ∧
      (t'.log.announcements = t.log.announcements ∨
        ∃ announcement, t'.log.announcements = t.log.announcements ++ [announcement] ∧
          t.log.announced + announcement.increment = t'.accepted + t'.inlet.conduit.free) := by
  intro t
  have rest : t.AtRest settings.bufferSize :=
    (SharedInlet.atRest_start settings inlet world valid).calls before obedient
  constructor
  · intro ch t'
    have idle : (InletCall.registering ch).Idle := trivial
    obtain ⟨_, _, inlet, log, exact⟩ := rest.calling (t.call_update ch) idle rfl
    rw [InletCall.alone_registering] at inlet log exact
    exact ⟨inlet, log, fun passed => exact ch rfl (congrArg InletCall.done passed)⟩
  · intro c obeys t'
    obtain ⟨_, reports⟩ := rest.call c obeys
    constructor
    · intro more known going passed
      rcases reports.announcements with same | ⟨announcement, another, _, exact⟩
      · exact reports.read same more known going
      · exact exact (passed announcement another)
    · rcases reports.announcements with same | ⟨announcement, another, all, _⟩
      · exact .inl same
      · exact .inr ⟨announcement, another, all⟩

/-- Four bytes of room are announced and three arrive. A read of two cannot announce the room it has made and the
next one tells of that. Then a read of one announces all three, and a channel that registers instead is told of the
two that were not announced. -/
theorem allowance_exact_again :
    let settings : BufferSettings := ⟨4, none⟩
    let inlet : Inlet Line := ⟨⟨4, none, [], false, false, 0⟩, none, 0, none⟩
    let bench := Bench.ofChannels []
    let before : List (SharedInlet.Call Line Bench) :=
      [.update (.outside 0), .fill [1, 2, 3], .become (bench.failCapacity 0 true), .read 2, .become bench,
        .read 1]
    let t := (SharedInlet.start inlet bench).calls before
    let read := t.call (.read 1)
    let registered := t.call (.update (.outside 1))
    Inlet.ofSettings settings = .ok inlet ∧ SharedInlet.Obedient before (SharedInlet.start inlet bench) ∧
      t.log.announced = 4 ∧ t.accepted = 3 ∧ t.inlet.conduit.free = 3 ∧
      read.log.announced = 7 ∧ read.log.announced = read.accepted + read.inlet.conduit.free ∧
      registered.log.announced = 6 ∧
      registered.log.announced = registered.accepted + registered.inlet.conduit.free := by
  intro settings inlet bench before t read registered
  have obedient : SharedInlet.Obedient before (SharedInlet.start inlet bench) := by
    refine ⟨by simp, fun bytes offered => ?_, by simp, by simp, by simp, by simp, trivial⟩
    cases offered
    decide
  obtain ⟨updated, called⟩ := allowance_exact settings inlet rfl bench before obedient
  have same : (SharedInlet.start inlet bench).calls before = t := rfl
  rw [same] at updated called
  have told := (updated (.outside 1)).2.2 (by decide)
  have again := (called (.read 1) (by simp)).1
  rw [show t.call (.update (.outside 1)) = registered from rfl] at told
  rw [show t.call (.read 1) = read from rfl] at again
  have heard : (read.log.announcements.getLast?).map Announcement.announced = some 3 := by decide
  have passed : ∀ announcement, read.log.announcements = t.log.announcements ++ [announcement] →
      announcement.result = .ok () := by
    intro announcement another
    rw [another, List.getLast?_concat] at heard
    cases result : announcement.result with
    | ok done => rfl
    | error fault => simp [Announcement.announced, result] at heard
  exact ⟨rfl, obedient, by decide, by decide, by decide, by decide,
    again (by decide) (by decide) (by decide) passed, by decide, told⟩

end Sluice
