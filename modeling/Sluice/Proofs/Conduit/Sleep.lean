import Sluice.Proofs.Inlet.Fifo
import Sluice.Proofs.Outlet.Fifo

/-! Who sleeps in front of a buffer. Whatever takes the reason of a sleeper away wakes him, and nothing
wakes him as long as he has it. -/
namespace Sluice

variable {ι κ σ : Type}

namespace Conduit

/-- Nothing is there to be read, but something may come. -/
def Barren (c : Conduit) : Prop := c.bytes = [] ∧ c.ended = false ∧ c.aborted = false

/-- There is no room left, but some may come. -/
def Brimful (c : Conduit) : Prop := c.length = c.capacity ∧ c.aborted = false

/-- Whether one who fell asleep at a count is still asleep exactly if he still has his reason. -/
def Holds (reason : Conduit → Prop) (since : Nat) (c : Conduit) : Prop :=
  since ≤ c.wakes ∧ (since = c.wakes ↔ reason c)

/-- Whether a change wakes everybody and leaves no reason to sleep, or leaves all that as it was. -/
def Heeds (reason : Conduit → Prop) (c c' : Conduit) : Prop :=
  c.wakes < c'.wakes ∧ ¬ reason c' ∨ c'.wakes = c.wakes ∧ (reason c' ↔ reason c)

theorem Heeds.refl (reason : Conduit → Prop) (c : Conduit) : Heeds reason c c := .inr ⟨rfl, Iff.rfl⟩

theorem Holds.heeds {reason : Conduit → Prop} {since : Nat} {c c' : Conduit} (h : Holds reason since c)
    (heeds : Heeds reason c c') : Holds reason since c' := by
  rcases heeds with ⟨woken, gone⟩ | ⟨same, still⟩
  · have awake : since < c'.wakes := Nat.lt_of_le_of_lt h.1 woken
    exact ⟨Nat.le_of_lt awake, fun asleep => absurd asleep (Nat.ne_of_lt awake), fun reason => absurd reason gone⟩
  · simp only [Holds, same, still]
    exact h

/-- Who falls asleep does so at the present count, and for a reason. -/
theorem holds_now {reason : Conduit → Prop} {c : Conduit} (given : reason c) : Holds reason c.wakes c :=
  ⟨Nat.le_refl _, fun _ => given, fun _ => rfl⟩

private theorem barren_abort (c : Conduit) : Heeds Barren c c.abort :=
  .inl ⟨Nat.lt_succ_self _, fun barren => nomatch barren.2.2⟩

private theorem brimful_abort (c : Conduit) : Heeds Brimful c c.abort :=
  .inl ⟨Nat.lt_succ_self _, fun full => nomatch full.2⟩

private theorem brimful_finish (c : Conduit) : Heeds Brimful c c.finish := .inr ⟨rfl, Iff.rfl⟩

end Conduit

namespace Inlet

private theorem take_ne_nil {bytes : List UInt8} {n : Nat} (some : 0 < n) (within : n ≤ bytes.length) :
    bytes.take n ≠ [] := by
  intro none
  rcases List.take_eq_nil_iff.mp none with rfl | rfl
  · exact Nat.lt_irrefl 0 some
  · exact Nat.not_lt.mpr within some

private theorem heeds_fill (inlet : Inlet κ) (bytes : List UInt8) :
    Conduit.Heeds Conduit.Barren inlet.conduit (inlet.fill bytes).2.conduit := by
  unfold fill
  split
  · exact .refl _ _
  · split
    · exact .refl _ _
    · by_cases brought : 0 < (inlet.conduit.put bytes).1
      · simp only [if_pos brought]
        refine .inl ⟨Nat.lt_succ_self _, fun barren => ?_⟩
        exact take_ne_nil brought (inlet.conduit.put_spec bytes).1 (List.append_eq_nil_iff.mp barren.1).2
      · have same : (inlet.conduit.put bytes).2 = inlet.conduit := by
          rw [(inlet.conduit.put_spec bytes).2.1, Nat.eq_zero_of_not_pos brought]
          simp [takenOf]
        simp only [if_neg brought, same]
        exact .refl _ _

private theorem fill_brings {inlet : Inlet κ} {bytes : List UInt8} {n : Nat} (brought : (inlet.fill bytes).1 = .ok n)
    (some : 0 < n) : (inlet.fill bytes).2.conduit.bytes ≠ [] := by
  obtain ⟨within, _, _, wakes, after⟩ := inlet.fill_spec bytes
  rw [after, brought]
  intro none
  exact take_ne_nil some (within n brought) (List.append_eq_nil_iff.mp none).2

private theorem heeds_markEnd (inlet : Inlet κ) : Conduit.Heeds Conduit.Barren inlet.conduit inlet.markEnd.conduit :=
  .inl ⟨Nat.lt_succ_self _, fun barren => nomatch barren.2.1⟩

end Inlet

namespace Reading

/-- Whether a read is asleep exactly as long as nothing is there for it. -/
def Reposes (c : Conduit) : Reading κ → Prop
  | asleep since => Conduit.Holds Conduit.Barren since c
  | _ => True

private theorem Reposes.heeds {reading : Reading κ} {c c' : Conduit} (h : reading.Reposes c)
    (heeds : Conduit.Heeds Conduit.Barren c c') : reading.Reposes c' := by
  cases reading with
  | asleep since => exact Conduit.Holds.heeds h heeds
  | _ => trivial

private theorem reposes_ofRoom (room : Nat) (c : Conduit) : (ofRoom room : Reading κ).Reposes c := by
  unfold ofRoom
  split <;> trivial

end Reading

namespace Inlet

private theorem reposes_take (inlet : Inlet κ) (room : Nat) :
    (inlet.take room).1.Reposes (inlet.take room).2.conduit := by
  unfold take
  split
  · trivial
  next live =>
    split
    next empty =>
      split
      · trivial
      next going =>
        exact Conduit.holds_now
          ⟨List.isEmpty_iff.mp empty, Bool.eq_false_iff.mpr going, Bool.eq_false_iff.mpr live⟩
    · unfold afterTake
      split
      · trivial
      · split
        · trivial
        · split <;> trivial

private theorem reposes_enter (inlet : Inlet κ) (room : Nat) :
    (inlet.enter room).1.Reposes (inlet.enter room).2.conduit := by
  unfold enter
  split
  · trivial
  · exact inlet.reposes_take room

end Inlet

namespace Reading

variable [CapacityChannel κ σ]

private theorem reposes_step (room : Nat) {reading : Reading κ} {inlet : Inlet κ} (h : reading.Reposes inlet.conduit)
    (s : σ) : (reading.step room inlet s).2.1.Reposes (reading.step room inlet s).2.2.1.conduit := by
  cases reading with
  | entering => exact inlet.reposes_enter room
  | asleep since =>
    simp only [step]
    split
    · exact h
    · exact inlet.reposes_take room
  | announcing bytes ch increment =>
    simp only [step]
    split <;> trivial
  | _ => trivial

omit [CapacityChannel κ σ] in
private theorem reposes_timeOut {reading : Reading κ} {inlet : Inlet κ} (h : reading.Reposes inlet.conduit) :
    (reading.timeOut inlet).Reposes inlet.conduit := by
  cases reading with
  | asleep since =>
    simp only [timeOut]
    split
    · trivial
    · exact h
  | _ => exact h

/-- A read is parked if it is asleep and was not woken. -/
theorem parked_iff (room : Nat) (reading : Reading κ) (inlet : Inlet κ) (s : σ) :
    (reading.step room inlet s).1 = .parked ↔ reading = .asleep inlet.conduit.wakes := by
  cases reading with
  | asleep since =>
    by_cases woken : since = inlet.conduit.wakes
    · simp [step, woken]
    · simp [step, woken]
  | announcing bytes ch increment =>
    simp only [step]
    split <;> simp
  | _ => simp [step]

end Reading

namespace InletRun

def Asleep (i : InletRun κ σ) : Prop := ∃ r since, i.reader = some r ∧ r.reading = .asleep since

def Parked [CapacityChannel κ σ] (i : InletRun κ σ) : Prop :=
  ∃ r, i.reader = some r ∧ (r.reading.step r.room i.inlet i.world).1 = .parked

/-- The worker is asleep exactly as long as nothing is there for it. -/
def Reposes (i : InletRun κ σ) : Prop := ∀ r, i.reader = some r → r.reading.Reposes i.inlet.conduit

private theorem reposes_start (inlet : Inlet κ) (world : σ) : (start inlet world).Reposes := by
  rintro r ⟨⟩

private theorem Reposes.heeds {i i' : InletRun κ σ} (h : i.Reposes) (reader : i'.reader = i.reader)
    (heeds : Conduit.Heeds Conduit.Barren i.inlet.conduit i'.inlet.conduit) : i'.Reposes :=
  fun r flight => (h r (reader.symm.trans flight)).heeds heeds

variable [CapacityChannel κ σ]

theorem Reposes.step {i : InletRun κ σ} (h : i.Reposes) (move : Move κ σ) : (i.step move).Reposes := by
  cases move with
  | fill bytes => exact h.heeds rfl (i.inlet.heeds_fill bytes)
  | register ch =>
    refine h.heeds rfl ?_
    rw [show (i.step (.register ch)).inlet.conduit = _ from i.inlet.conduit_register ch]
    exact .refl _ _
  | announce ch increment => exact h
  | revoke increment => exact h
  | markEnd => exact h.heeds rfl i.inlet.heeds_markEnd
  | abort => exact h.heeds rfl i.inlet.conduit.barren_abort
  | read room =>
    unfold InletRun.step
    cases flight : i.reader with
    | none =>
      rintro r flying
      obtain rfl := Option.some.inj flying
      exact Reading.reposes_ofRoom room _
    | some r => exact h
  | work =>
    unfold InletRun.step
    cases flight : i.reader with
    | none => exact h
    | some r =>
      obtain ⟨room, reading, took⟩ := r
      have next := Reading.reposes_step room (h _ flight) i.world
      cases reading with
      | done result => exact nofun
      | _ =>
        rintro r flying
        obtain rfl := Option.some.inj flying
        exact next
  | timeOut =>
    unfold InletRun.step
    cases flight : i.reader with
    | none => exact h
    | some r =>
      rintro r' flying
      obtain rfl := Option.some.inj flying
      exact Reading.reposes_timeOut (h r flight)
  | become world => exact h

theorem Reposes.run {i : InletRun κ σ} (h : i.Reposes) (moves : List (Move κ σ)) : (i.run moves).Reposes := by
  induction moves generalizing i with
  | nil => exact h
  | cons move rest ih => exact ih (h.step move)

private theorem Reposes.parked_iff {i : InletRun κ σ} (h : i.Reposes) :
    i.Parked ↔ i.Asleep ∧ i.inlet.conduit.Barren := by
  constructor
  · rintro ⟨r, flight, parked⟩
    have asleep := (r.reading.parked_iff r.room i.inlet i.world).mp parked
    have holds := h r flight
    rw [asleep] at holds
    exact ⟨⟨r, _, flight, asleep⟩, holds.2.mp rfl⟩
  · rintro ⟨⟨r, since, flight, asleep⟩, barren⟩
    have holds := h r flight
    rw [asleep] at holds
    obtain rfl := holds.2.mpr barren
    exact ⟨r, flight, (r.reading.parked_iff r.room i.inlet i.world).mpr asleep⟩

end InletRun

namespace Outlet

variable [Transport ι σ]

/-- A flush that takes bytes out of a full outlet wakes everybody. -/
theorem heeds_flush {outlet : Outlet ι} (within : outlet.conduit.length ≤ outlet.conduit.capacity) (ch : ι) (s : σ) :
    Conduit.Heeds Conduit.Brimful outlet.conduit (outlet.flush ch s).2.1.conduit := by
  rcases outlet.flush_conduit ch s with same | ⟨n, some, waiting, taken⟩
  · rw [same]
    exact .refl _ _
  · rw [taken]
    refine .inl ⟨Nat.lt_succ_self _, fun full => ?_⟩
    have there := List.length_pos_iff.mpr waiting
    have full := full.1
    simp only [Conduit.length, Conduit.wake, Conduit.drop, List.length_drop] at full within
    omega

omit [Transport ι σ] in
private theorem heeds_complete (outlet : Outlet ι) :
    Conduit.Heeds Conduit.Brimful outlet.conduit outlet.complete.2.conduit := by
  unfold complete
  split
  · exact .refl _ _
  · split
    · exact .refl _ _
    · exact outlet.conduit.brimful_finish

omit [Transport ι σ] in
private theorem not_brimful_abort (outlet : Outlet ι) : ¬ outlet.abort.2.conduit.Brimful := by
  unfold abort
  split
  next aborted => exact fun full => absurd aborted (Bool.eq_false_iff.mp full.2)
  · exact fun full => nomatch full.2

omit [Transport ι σ] in
theorem heeds_abort (outlet : Outlet ι) : Conduit.Heeds Conduit.Brimful outlet.conduit outlet.abort.2.conduit := by
  unfold abort
  split
  · exact .refl _ _
  · exact outlet.conduit.brimful_abort

end Outlet

namespace Writing

/-- Whether a write is asleep exactly as long as there is no room for it. -/
def Reposes (c : Conduit) : Writing ι → Prop
  | asleep _ since => Conduit.Holds Conduit.Brimful since c
  | _ => True

private theorem Reposes.heeds {writing : Writing ι} {c c' : Conduit} (h : writing.Reposes c)
    (heeds : Conduit.Heeds Conduit.Brimful c c') : writing.Reposes c' := by
  cases writing with
  | asleep rest since => exact Conduit.Holds.heeds h heeds
  | _ => trivial

private theorem reposes_ofRest (rest : List UInt8) (c : Conduit) : (ofRest rest : Writing ι).Reposes c := by
  unfold ofRest
  split <;> trivial

end Writing

private theorem Outlet.reposes_place {outlet : Outlet ι} (within : outlet.conduit.length ≤ outlet.conduit.capacity)
    (rest : List UInt8) : (outlet.place rest).1.Reposes (outlet.place rest).2.conduit := by
  unfold place
  split
  · trivial
  next live =>
    split
    · trivial
    · split
      next full =>
        have full : outlet.conduit.length = outlet.conduit.capacity :=
          Nat.le_antisymm within (Nat.sub_eq_zero_iff_le.mp full)
        exact Conduit.holds_now ⟨full, Bool.eq_false_iff.mpr live⟩
      · dsimp only
        split
        · exact Writing.reposes_ofRest _ _
        · trivial

namespace Writing

variable [Transport ι σ]

private theorem reposes_step {writing : Writing ι} {outlet : Outlet ι}
    (within : outlet.conduit.length ≤ outlet.conduit.capacity) (h : writing.Reposes outlet.conduit) (s : σ) :
    (writing.step outlet s).2.1.Reposes (writing.step outlet s).2.2.1.conduit := by
  cases writing with
  | placing rest => exact Outlet.reposes_place within rest
  | asleep rest since =>
    simp only [step]
    split
    · exact h
    · exact Outlet.reposes_place within rest
  | asking ch rest => exact reposes_ofRest rest _
  | done result => trivial

omit [Transport ι σ] in
private theorem reposes_timeOut {writing : Writing ι} {outlet : Outlet ι} (h : writing.Reposes outlet.conduit) :
    (writing.timeOut outlet).Reposes outlet.conduit := by
  cases writing with
  | asleep rest since =>
    simp only [timeOut]
    split
    · trivial
    · exact h
  | _ => exact h

/-- A write is parked if it is asleep and was not woken. -/
theorem parked_iff (writing : Writing ι) (outlet : Outlet ι) (s : σ) :
    (writing.step outlet s).1 = .parked ↔ ∃ rest, writing = .asleep rest outlet.conduit.wakes := by
  cases writing with
  | asleep rest since =>
    by_cases woken : since = outlet.conduit.wakes
    · simp [step, woken]
    · simp [step, woken]
  | _ => simp [step]

end Writing

namespace OutletRun

def Asleep (d : OutletRun ι σ) : Prop := ∃ w rest since, d.writer = some w ∧ w.writing = .asleep rest since

def Parked [Transport ι σ] (d : OutletRun ι σ) : Prop :=
  ∃ w, d.writer = some w ∧ (w.writing.step d.outlet d.world).1 = .parked

/-- The worker is asleep exactly as long as there is no room for it. -/
def Reposes (d : OutletRun ι σ) : Prop := ∀ w, d.writer = some w → w.writing.Reposes d.outlet.conduit

private theorem reposes_start (outlet : Outlet ι) (world : σ) : (start outlet world).Reposes := by
  rintro w ⟨⟩

private theorem Reposes.heeds {d d' : OutletRun ι σ} (h : d.Reposes) (writer : d'.writer = d.writer)
    (heeds : Conduit.Heeds Conduit.Brimful d.outlet.conduit d'.outlet.conduit) : d'.Reposes :=
  fun w flight => (h w (writer.symm.trans flight)).heeds heeds

variable [Transport ι σ]

theorem Reposes.step {size : Nat} {d : OutletRun ι σ} (h : d.Reposes) (sound : d.Sound size) (move : Move ι σ) :
    (d.step move).Reposes := by
  have within : d.outlet.conduit.length ≤ d.outlet.conduit.capacity := by
    rw [sound.outlet.sized]
    exact sound.outlet.within
  cases move with
  | write src =>
    unfold OutletRun.step
    cases flight : d.writer with
    | none =>
      rintro w flying
      obtain rfl := Option.some.inj flying
      exact Writing.reposes_ofRest src _
    | some w => exact h
  | work =>
    unfold OutletRun.step
    cases flight : d.writer with
    | none => exact h
    | some w =>
      obtain ⟨src, part, writing⟩ := w
      have next := Writing.reposes_step within (h _ flight) (Chronicle.start (ι := ι) d.world)
      cases writing with
      | done result => exact nofun
      | _ =>
        rintro w flying
        obtain rfl := Option.some.inj flying
        exact next
  | timeOut =>
    unfold OutletRun.step
    cases flight : d.writer with
    | none => exact h
    | some w =>
      rintro w' flying
      obtain rfl := Option.some.inj flying
      exact Writing.reposes_timeOut (h w flight)
  | complete =>
    have heeds := d.outlet.heeds_complete
    simp only [OutletRun.step]
    split
    next refused =>
      rw [refused] at heeds
      exact h.heeds rfl heeds
    next passed =>
      rw [passed] at heeds
      exact h.heeds rfl heeds
  | ask ch => exact h
  | flush ch => exact h.heeds rfl (Outlet.heeds_flush within ch _)
  | abort => exact h.heeds rfl d.outlet.heeds_abort
  | become world => exact h

theorem Reposes.run {size : Nat} {d : OutletRun ι σ} (h : d.Reposes) (sound : d.Sound size)
    (moves : List (Move ι σ)) : (d.run moves).Reposes := by
  induction moves generalizing d with
  | nil => exact h
  | cons move rest ih => exact ih (h.step sound move) (sound.step move)

private theorem Reposes.parked_iff {d : OutletRun ι σ} (h : d.Reposes) :
    d.Parked ↔ d.Asleep ∧ d.outlet.conduit.Brimful := by
  constructor
  · rintro ⟨w, flight, parked⟩
    obtain ⟨rest, asleep⟩ := (w.writing.parked_iff d.outlet d.world).mp parked
    have holds := h w flight
    rw [asleep] at holds
    exact ⟨⟨w, rest, _, flight, asleep⟩, holds.2.mp rfl⟩
  · rintro ⟨⟨w, rest, since, flight, asleep⟩, full⟩
    have holds := h w flight
    rw [asleep] at holds
    obtain rfl := holds.2.mpr full
    exact ⟨w, flight, (w.writing.parked_iff d.outlet d.world).mpr ⟨rest, asleep⟩⟩

private theorem Sound.flush_room {size : Nat} {d : OutletRun ι σ} (h : d.Sound size) (ch : ι)
    (accepts : (d.step (.flush ch)).delivered ≠ d.delivered) : ¬ (d.step (.flush ch)).outlet.conduit.Brimful := by
  rintro ⟨full, live⟩
  have after := h.step (.flush ch)
  rcases d.outlet.flush_conduit ch (Chronicle.start (ι := ι) d.world) with same | ⟨n, some, waiting, taken⟩
  · -- nothing has left the outlet, so that nothing can have arrived at a channel
    have same : (d.step (.flush ch)).outlet.conduit = d.outlet.conduit := same
    have placed : (d.step (.flush ch)).placed = d.placed := by
      simp [OutletRun.step, OutletRun.placed]
    have kept := after.outlet.kept live
    have before := h.outlet.kept (same ▸ live)
    rw [same] at kept
    exact accepts (List.append_cancel_right (kept.trans (placed.trans before.symm)))
  · have taken : (d.step (.flush ch)).outlet.conduit = (d.outlet.conduit.drop n).wake := taken
    have there := List.length_pos_iff.mpr waiting
    have within := h.outlet.within
    have sized := h.outlet.sized
    rw [taken] at full
    simp only [Conduit.length, Conduit.wake, Conduit.drop, List.length_drop] at full within
    omega

end OutletRun

/-- In whatever order the sections of a reader and of a writer come with those of their reactors: a worker
that has fallen asleep in a read is parked exactly as long as the buffer is empty, open and live, and in
a write as long as it is full and live. A fill that brings a byte, an end, a flush that takes a byte and
an abort leave nobody parked. -/
theorem parked_for_a_reason {σ' : Type} [CapacityChannel κ σ] [Transport ι σ'] (settings : BufferSettings)
    (inlet : Inlet κ) (outlet : Outlet ι) (made : Outlet.ofSettings settings = .ok outlet) (world : σ)
    (world' : σ') (moves : List (InletRun.Move κ σ)) (moves' : List (OutletRun.Move ι σ')) :
    let i := (InletRun.start inlet world).run moves
    let d := (OutletRun.start outlet world').run moves'
    (i.Parked ↔ i.Asleep ∧ i.inlet.conduit.bytes = [] ∧ i.inlet.conduit.ended = false ∧
      i.inlet.conduit.aborted = false) ∧
    (∀ bytes n, (i.inlet.fill bytes).1 = .ok n → 0 < n → ¬ (i.step (.fill bytes)).Parked) ∧
    ¬ (i.step .markEnd).Parked ∧ ¬ (i.step .abort).Parked ∧
    (d.Parked ↔ d.Asleep ∧ d.outlet.conduit.length = d.outlet.conduit.capacity ∧
      d.outlet.conduit.aborted = false) ∧
    (∀ ch, (d.step (.flush ch)).delivered ≠ d.delivered → ¬ (d.step (.flush ch)).Parked) ∧
    ¬ (d.step .abort).Parked := by
  intro i d
  have reading : i.Reposes := (InletRun.reposes_start inlet world).run moves
  have sound : d.Sound settings.bufferSize := (OutletRun.sound_start settings outlet world' made).run moves'
  have writing : d.Reposes :=
    (OutletRun.reposes_start outlet world').run (OutletRun.sound_start settings outlet world' made) moves'
  refine ⟨reading.parked_iff, fun bytes n brought some parked => ?_, fun parked => ?_, fun parked => ?_,
    writing.parked_iff, fun ch accepts parked => ?_, fun parked => ?_⟩
  · exact Inlet.fill_brings brought some ((reading.step (.fill bytes)).parked_iff.mp parked).2.1
  · exact nomatch ((reading.step .markEnd).parked_iff.mp parked).2.2.1
  · exact nomatch ((reading.step .abort).parked_iff.mp parked).2.2.2
  · exact sound.flush_room ch accepts ((writing.step sound (.flush ch)).parked_iff.mp parked).2
  · exact d.outlet.not_brimful_abort ((writing.step sound .abort).parked_iff.mp parked).2

/-- A read of an empty buffer is parked until a byte comes, and the write of two bytes into a buffer of one
until a channel takes the first. -/
theorem parked_for_a_reason_one :
    let settings : BufferSettings := ⟨1, none⟩
    let inlet : Inlet Unit := ⟨⟨1, none, [], false, false, 0⟩, none, 0, none⟩
    let outlet : Outlet Unit := ⟨⟨1, none, [], false, false, 0⟩, none, false⟩
    let i := (InletRun.start inlet Bell.silent).run [.read 4, .work]
    let d := (OutletRun.start outlet (Window.ofSize 5)).run [.write [1, 2], .work, .work]
    Outlet.ofSettings settings = .ok outlet ∧ i.Parked ∧ ¬ (i.step (.fill [7])).Parked ∧
      d.Parked ∧ ¬ (d.step (.flush ())).Parked := by
  intro settings inlet outlet i d
  obtain ⟨reading, filled, _, _, writing, flushed, _⟩ := parked_for_a_reason settings inlet outlet rfl
    Bell.silent (Window.ofSize 5) [.read 4, .work] [.write [1, 2], .work, .work]
  have asleep : i.Asleep := ⟨⟨4, .asleep 0, []⟩, 0, rfl, rfl⟩
  have asleep' : d.Asleep := ⟨⟨[1, 2], [1], .asleep [2] 0⟩, [2], 0, rfl, rfl⟩
  exact ⟨rfl, reading.mpr ⟨asleep, rfl, rfl, rfl⟩, filled [7] 1 rfl Nat.one_pos,
    writing.mpr ⟨asleep', rfl, rfl⟩, flushed () (by decide)⟩

end Sluice
