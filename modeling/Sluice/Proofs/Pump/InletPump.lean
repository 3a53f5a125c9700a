import Sluice.Proofs.Pump.ConsumerPump

/-! An inlet that is fed by a pump and read by one worker. -/
namespace Sluice
open Attended (Aborted Pending Fit)

variable {κ σ : Type}

namespace Inlet

@[simp] theorem aborted_take (inlet : Inlet κ) (room : Nat) :
    (inlet.take room).2.conduit.aborted = inlet.conduit.aborted := by
  unfold take
  split
  · rfl
  · split
    · split
      · rfl
      · rfl
    · rw [conduit_afterTake]
      rfl

@[simp] theorem aborted_enter (inlet : Inlet κ) (room : Nat) :
    (inlet.enter room).2.conduit.aborted = inlet.conduit.aborted := by
  unfold enter
  split
  · rfl
  · exact inlet.aborted_take room

@[simp] theorem aborted_fill (inlet : Inlet κ) (bytes : List UInt8) :
    (inlet.fill bytes).2.conduit.aborted = inlet.conduit.aborted := by
  obtain ⟨_, _, _, wakes, same⟩ := inlet.fill_spec bytes
  rw [same]

@[simp] theorem aborted_updateCapacity [CapacityChannel κ σ] (inlet : Inlet κ) (ch : κ) (s : σ) :
    (inlet.updateCapacity ch s).2.1.conduit.aborted = inlet.conduit.aborted := by
  have registered := congrArg Conduit.aborted (inlet.conduit_register ch)
  unfold updateCapacity
  split
  next refused =>
    rw [refused] at registered
    exact registered
  next settled =>
    rw [settled] at registered
    exact registered
  next granted =>
    rw [granted] at registered
    split
    · exact registered
    · exact registered

theorem fill_aborted {inlet : Inlet κ} (aborted : inlet.conduit.aborted = true) (bytes : List UInt8) :
    (inlet.fill bytes).1 = .error .aborted := by
  rw [fill, if_pos aborted]

theorem updateCapacity_aborted [CapacityChannel κ σ] {inlet : Inlet κ}
    (aborted : inlet.conduit.aborted = true) (ch : κ) (s : σ) :
    (inlet.updateCapacity ch s).1 = .error .aborted := by
  rw [updateCapacity, register, if_pos aborted]

private theorem take_aborted {inlet : Inlet Unit} (aborted : inlet.conduit.aborted = true) (room : Nat) :
    ¬ (inlet.take room).1.Announces := by
  rw [take, if_pos aborted]
  exact id

private theorem enter_aborted {inlet : Inlet Unit} (aborted : inlet.conduit.aborted = true) (room : Nat) :
    ¬ (inlet.enter room).1.Announces := by
  unfold enter
  split
  · exact id
  · exact take_aborted aborted room

end Inlet

/-- What a section of the worker may do, seen from the pump: whether the inlet is aborted, if there is
one, stays as it is. If room is to be announced the bell rings. If not, an inlet that is not alive
keeps the bell silent, and no room comes up. -/
structure Discreet (aborted aborted' : Option Bool) (announces announces' : Prop) (bell bell' : Bell) :
    Prop where
  same : aborted' = aborted
  rings : announces → bell' = bell.ring ∧ ¬ announces'
  silent : ¬ announces → aborted ≠ some false → bell' = bell ∧ ¬ announces'

namespace Discreet

private theorem aborted {b : Bool} (live : some b ≠ some false) : b = true := by
  cases b with
  | false => exact absurd rfl live
  | true => rfl

theorem still {aborted aborted' : Option Bool} {announces announces' : Prop} {bell bell' : Bell}
    (same : aborted' = aborted) (quiet : bell' = bell) (before : ¬ announces) (after : ¬ announces') :
    Discreet aborted aborted' announces announces' bell bell' :=
  ⟨same, fun h => absurd h before, fun _ _ => ⟨quiet, after⟩⟩

/-- Discretion is what a pump expects of a section beside it. -/
theorem beside {π : Type} [Attended π] {c c' : π} {w w' : Belled σ} {aborted aborted' : Option Bool}
    {announces announces' : Prop}
    (h : Discreet aborted aborted' announces announces' w.bell w'.bell) (fit : Fit c')
    (seen : (Aborted c ↔ aborted = some true) ∧ (Pending c ↔ announces))
    (seen' : (Aborted c' ↔ aborted' = some true) ∧ (Pending c' ↔ announces')) : Beside c w c' w' where
  fit := fit
  stays before := seen'.1.mpr (h.same.trans (seen.1.mp before))
  ringing after := by
    have before : aborted = some true := h.same.symm.trans (seen'.1.mp after)
    rw [seen.2, seen'.2]
    by_cases said : announces
    · obtain ⟨bell, settled⟩ := h.rings said
      exact .inr ⟨bell, settled, said⟩
    · obtain ⟨bell, settled⟩ := h.silent said (by rw [before]; nofun)
      exact .inl ⟨bell, fun h => absurd h settled, fun h => absurd h said⟩

end Discreet

namespace Reading

theorem idle_ofRoom (room : Nat) : ¬ (ofRoom room : Reading Unit).Announces := by
  unfold ofRoom
  split
  · exact id
  · exact id

theorem step_discreet (room : Nat) (reading : Reading Unit) (inlet : Inlet Unit) (w : Belled σ) :
    let (_, reading', inlet', w') := reading.step room inlet w
    Discreet (some inlet.conduit.aborted) (some inlet'.conduit.aborted) reading.Announces
      reading'.Announces w.bell w'.bell := by
  cases reading with
  | entering =>
    refine ⟨congrArg some (inlet.aborted_enter room), False.elim, fun _ live => ⟨rfl, ?_⟩⟩
    exact inlet.enter_aborted (Discreet.aborted live) room
  | asleep since =>
    simp only [step]
    split
    · exact .still rfl rfl id id
    · refine ⟨congrArg some (inlet.aborted_take room), False.elim, fun _ live => ⟨rfl, ?_⟩⟩
      exact inlet.take_aborted (Discreet.aborted live) room
  | announcing bytes ch increment =>
    refine ⟨rfl, ?_, ?_⟩
    · intro positive
      exact ⟨if_pos positive, id⟩
    · intro zero _
      exact ⟨if_neg zero, id⟩
  | _ => exact .still rfl rfl id id

/-- A read that times out has nothing to announce, before or afterwards. -/
theorem announces_timeOut (reading : Reading Unit) (inlet : Inlet Unit) :
    (reading.timeOut inlet).Announces ↔ reading.Announces := by
  cases reading with
  | asleep since =>
    simp only [timeOut]
    split
    · exact .rfl
    · exact .rfl
  | _ => exact .rfl

end Reading

/-- An inlet with the worker's read and its room. -/
structure InletWithWorker where
  inlet : Inlet Unit
  reader : Option (Nat × Reading Unit)

namespace InletWithWorker

/-- What happens to an inlet beside its pump. -/
inductive Act
  | read (room : Nat)
  | work
  | timeOut
  | abort

instance : Attended InletWithWorker where
  inlet d := some d.inlet
  reading d := d.reader.map Prod.snd
  Fit _ := True

instance : Inflow InletWithWorker Unit (Belled σ) where
  updateCapacity d ch w :=
    let (result, inlet, w) := Inflow.updateCapacity d.inlet ch w
    (result, { d with inlet }, w)
  consume d bytes w :=
    let (result, inlet, w) := Inflow.consume Unit d.inlet bytes w
    (result, { d with inlet }, w)
  streamEnd d w :=
    let (result, inlet, w) := Inflow.streamEnd Unit d.inlet w
    (result, { d with inlet }, w)

/-- The worker begins a read only when none is in flight. -/
def act (a : Act) (d : InletWithWorker) (w : Belled σ) : InletWithWorker × Belled σ :=
  match a, d.reader with
  | .read room, none => ({ d with reader := some (room, .ofRoom room) }, w)
  | .work, some (_, .done _) => ({ d with reader := none }, w)
  | .work, some (room, reading) =>
    let (_, reading, inlet, w) := reading.step room d.inlet w
    (⟨inlet, some (room, reading)⟩, w)
  | .timeOut, some (room, reading) => ({ d with reader := some (room, reading.timeOut d.inlet) }, w)
  | .abort, _ => ({ d with inlet := d.inlet.abort }, w)
  | _, _ => (d, w)

instance : Host InletWithWorker Act σ where
  act := act
  work := .work

private theorem aborted_iff (d : InletWithWorker) : Aborted d ↔ d.inlet.conduit.aborted = true :=
  ⟨fun ⟨_, same, aborted⟩ => Option.some.inj same ▸ aborted, fun aborted => ⟨d.inlet, rfl, aborted⟩⟩

theorem pending_iff {d : InletWithWorker} {room : Nat} {reading : Reading Unit}
    (flight : d.reader = some (room, reading)) :
    Pending d ↔ reading.Announces := by
  have seen : Attended.reading d = some reading := congrArg (Option.map Prod.snd) flight
  exact ⟨fun ⟨_, same, h⟩ => Option.some.inj (same.symm.trans seen) ▸ h, fun h => ⟨reading, seen, h⟩⟩

theorem not_pending {d : InletWithWorker} (idle : d.reader = none) : ¬ Pending d := by
  rintro ⟨reading, same, _⟩
  have seen : Attended.reading d = none := congrArg (Option.map Prod.snd) idle
  rw [seen] at same
  cases same

private theorem beside_still {d d' : InletWithWorker} {w : Belled σ} (inlet : d'.inlet = d.inlet)
    (pending : Pending d' ↔ Pending d) : Beside d w d' w where
  fit := trivial
  stays aborted := (aborted_iff d').mpr (inlet ▸ (aborted_iff d).mp aborted)
  ringing _ := .inl ⟨rfl, pending⟩

private theorem beside_abort (d : InletWithWorker) (w : Belled σ) : Beside d w { d with inlet := d.inlet.abort } w where
  fit := trivial
  stays _ := (aborted_iff _).mpr rfl
  ringing _ := .inl ⟨rfl, .rfl⟩

private theorem beside_step {d : InletWithWorker} {room : Nat} {reading : Reading Unit}
    (flight : d.reader = some (room, reading)) (w : Belled σ) :
    let (_, reading', inlet', w') := reading.step room d.inlet w
    Beside d w ⟨inlet', some (room, reading')⟩ w' := by
  have law := reading.step_discreet room d.inlet w
  generalize reading.step room d.inlet w = after at law
  obtain ⟨pace, reading', inlet', w'⟩ := after
  have seen : ∀ d : InletWithWorker, Aborted d ↔ some d.inlet.conduit.aborted = some true := fun d =>
    (aborted_iff d).trans Option.some_inj.symm
  exact law.beside trivial ⟨seen d, pending_iff flight⟩ ⟨seen _, pending_iff rfl⟩

private theorem beside_act (a : Act) (d : InletWithWorker) (w : Belled σ) : Beside d w (act a d w).1 (act a d w).2 := by
  cases flight : d.reader with
  | none =>
    cases a with
    | read room =>
      simp only [act, flight]
      refine beside_still rfl ?_
      rw [pending_iff rfl]
      exact ⟨fun h => absurd h (Reading.idle_ofRoom room), fun h => absurd h (not_pending flight)⟩
    | abort => exact beside_abort d w
    | _ =>
      simp only [act, flight]
      exact beside_still rfl .rfl
  | some r =>
    obtain ⟨room, reading⟩ := r
    cases a with
    | read room =>
      simp only [act, flight]
      exact beside_still rfl .rfl
    | work =>
      have works := beside_step flight w
      cases reading with
      | done result =>
        simp only [act, flight]
        refine beside_still rfl ?_
        rw [pending_iff flight]
        exact ⟨fun h => absurd h (not_pending rfl), False.elim⟩
      | _ =>
        simp only [act, flight]
        exact works
    | timeOut =>
      simp only [act, flight]
      refine beside_still rfl ?_
      rw [pending_iff rfl, pending_iff flight]
      exact reading.announces_timeOut d.inlet
    | abort => exact beside_abort d w

private theorem ahead_inlet {d : InletWithWorker} {inlet : Inlet Unit}
    (same : inlet.conduit.aborted = d.inlet.conduit.aborted) : Ahead d { d with inlet } where
  fit := id
  aborted := by rw [aborted_iff, aborted_iff, same]
  pending := .rfl

instance : LawfulHost InletWithWorker σ where
  beside a d w _ := beside_act a d w
  announces := by
    rintro d w _ ⟨_, seen, announces⟩
    obtain ⟨⟨room, reading⟩, flight, rfl⟩ := Option.map_eq_some_iff.mp seen
    have rings := ((reading.step_discreet room d.inlet w).rings announces).1
    cases reading with
    | announcing bytes ch increment =>
      simp only [Host.act, Host.work, act, flight]
      exact rings
    | _ => exact announces.elim
  updateCapacity d ch w := ahead_inlet (d.inlet.aborted_updateCapacity ch w)
  consume d bytes w := ahead_inlet (d.inlet.aborted_fill bytes)
  streamEnd d w := ahead_inlet rfl
  fails_updateCapacity d ch w aborted := Inlet.updateCapacity_aborted ((aborted_iff d).mp aborted) ch w
  fails_consume d bytes w aborted := Inlet.fill_aborted ((aborted_iff d).mp aborted) bytes

end InletWithWorker
end Sluice
