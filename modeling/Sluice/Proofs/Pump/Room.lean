import Sluice.Bench.Peer
import Sluice.Proofs.Inlet.Grants
import Sluice.Proofs.Pump.InletPump

/-! An inbound pump in front of an inlet with one worker. Room that was granted once is not announced
again, and still the pump never sleeps while there is room for its bytes. -/
namespace Sluice
open Attended (Pending)

variable {κ σ ρ : Type}

namespace Inlet

/-- The room granted and the bytes that are there do not exceed the inlet. -/
def Within (inlet : Inlet κ) : Prop := inlet.granted + inlet.length ≤ inlet.conduit.capacity

private theorem Within.none_granted {inlet : Inlet κ} (h : inlet.Within) (full : inlet.conduit.free = 0) :
    inlet.granted = 0 := by
  simp only [Within, length, Conduit.free] at h full
  omega

private theorem Within.revoke {inlet : Inlet κ} (h : inlet.Within) (increment : Nat) :
    (inlet.revoke increment).Within :=
  Nat.le_trans (Nat.add_le_add_right (Nat.sub_le _ _) _) h

/-- What a read or its announcement does to an inlet: it grants no more than there is, and the channel stays,
and so do end and abort. -/
structure Serves (inlet inlet' : Inlet κ) : Prop where
  within : inlet.Within → inlet'.Within
  channel : inlet'.channel = inlet.channel
  ended : inlet'.conduit.ended = inlet.conduit.ended
  aborted : inlet'.conduit.aborted = inlet.conduit.aborted

theorem Serves.refl (inlet : Inlet κ) : inlet.Serves inlet := ⟨id, rfl, rfl, rfl⟩

private theorem serves_afterTake (inlet : Inlet κ) (bytes : List UInt8) : inlet.Serves (inlet.afterTake bytes).2 := by
  have granted : inlet.Serves inlet.grant.2 := ⟨inlet.grant_counts.2, rfl, rfl, rfl⟩
  unfold afterTake
  split
  · exact .refl inlet
  · split
    · exact .refl inlet
    · split
      next none =>
        rw [none] at granted
        exact granted
      next some =>
        rw [some] at granted
        exact granted

private theorem serves_take (inlet : Inlet κ) (room : Nat) : inlet.Serves (inlet.take room).2 := by
  unfold take
  split
  · exact .refl inlet
  · split
    · split
      · exact .refl inlet
      · exact .refl inlet
    · obtain ⟨within, channel, ended, aborted⟩ :=
        serves_afterTake { inlet with conduit := inlet.conduit.drop room } (inlet.conduit.bytes.take room)
      refine ⟨fun before => within ?_, channel, ended, aborted⟩
      simp only [Within, length, Conduit.length, Conduit.drop, List.length_drop] at before ⊢
      omega

private theorem serves_enter (inlet : Inlet κ) (room : Nat) : inlet.Serves (inlet.enter room).2 := by
  unfold enter
  split
  · exact ⟨id, rfl, rfl, rfl⟩
  · exact inlet.serves_take room

private theorem serves_fill (inlet : Inlet κ) (bytes : List UInt8) : inlet.Serves (inlet.fill bytes).2 := by
  obtain ⟨_, _, _, wakes, same⟩ := inlet.fill_spec bytes
  refine ⟨fun before => ?_, ?_, ?_, ?_⟩
  · rw [Within, same]
    exact (inlet.fill_counts bytes).2 before
  · unfold fill
    split
    · rfl
    · split
      · rfl
      · rfl
  · rw [same]
  · rw [same]

private theorem registers [CapacityChannel κ σ] (inlet : Inlet κ) (ch : κ) (s : σ) :
    (inlet.Within → (inlet.updateCapacity ch s).2.1.Within) ∧
      (inlet.updateCapacity ch s).2.1.conduit = inlet.conduit ∧
      ((inlet.updateCapacity ch s).1 = .ok () → (inlet.updateCapacity ch s).2.1.channel = some ch) := by
  have within := ({ inlet with channel := some ch } : Inlet κ).grant_counts.2
  unfold updateCapacity register
  by_cases aborted : inlet.conduit.aborted
  · simp only [if_pos aborted]
    exact ⟨id, trivial, nofun⟩
  · simp only [if_neg aborted]
    split
    next failed => cases failed
    next none =>
      obtain ⟨_, rfl⟩ := Prod.mk.inj none
      exact ⟨within, rfl, fun _ => rfl⟩
    next increment inlet' _ some =>
      obtain ⟨_, rfl⟩ := Prod.mk.inj some
      split
      · exact ⟨fun before => Within.revoke (within before) increment, rfl, nofun⟩
      · exact ⟨within, rfl, fun _ => rfl⟩

private theorem fill_full {inlet inlet' : Inlet κ} {bytes : List UInt8} (loaded : bytes ≠ [])
    (refused : inlet.fill bytes = (.ok 0, inlet')) : inlet'.conduit.free = 0 := by
  have full : inlet.conduit.free = 0 := by
    have positive := List.length_pos_iff.mpr loaded
    simp only [fill] at refused
    split at refused
    · cases refused
    · split at refused
      · cases refused
      · have none : min inlet.conduit.free bytes.length = 0 := Except.ok.inj (Prod.mk.inj refused).1
        omega
  obtain ⟨_, _, _, wakes, same⟩ := inlet.fill_spec bytes
  rw [refused] at same
  rw [show inlet'.conduit = _ from same]
  simpa [takenOf, Conduit.free, Conduit.length] using full

private theorem take_announces {inlet : Inlet Unit} (within : inlet.Within) (known : inlet.channel = some ())
    (going : inlet.conduit.ended = false) (full : inlet.conduit.free = 0) (room : Nat) :
    (inlet.take room).2.conduit.free = 0 ∨ (inlet.take room).1.Announces := by
  have granted := within.none_granted full
  simp only [take]
  split
  · exact .inl full
  · split
    · split
      · exact .inl full
      · exact .inl full
    · simp only [afterTake, known]
      rw [if_neg (by simp [Conduit.drop, going])]
      split
      next none =>
        obtain ⟨increment, rfl⟩ := Prod.mk.inj none
        left
        simpa [granted] using increment
      next positive _ => exact .inr (Nat.pos_of_ne_zero positive)

private theorem enter_announces {inlet : Inlet Unit} (within : inlet.Within) (known : inlet.channel = some ())
    (going : inlet.conduit.ended = false) (full : inlet.conduit.free = 0) (room : Nat) :
    (inlet.enter room).2.conduit.free = 0 ∨ (inlet.enter room).1.Announces := by
  unfold enter
  split
  · exact .inl full
  · exact take_announces within known going full room

end Inlet

/-- Why a pump may wait for room: there is none, or the bell rings, or somebody is about to ring it. -/
def Excused (inlet : Inlet Unit) (bell : Bell) (announces : Prop) : Prop :=
  inlet.conduit.free = 0 ∨ bell.Answers ∨ announces

namespace Reading

private theorem serves_step [CapacityChannel κ σ] (room : Nat) (reading : Reading κ) (inlet : Inlet κ) (s : σ) :
    inlet.Serves (reading.step room inlet s).2.2.1 := by
  cases reading with
  | entering => exact inlet.serves_enter room
  | asleep since =>
    simp only [step]
    split
    · exact .refl inlet
    · exact inlet.serves_take room
  | announcing bytes ch increment =>
    simp only [step]
    split
    · exact .refl inlet
    · exact .refl inlet
  | revoking bytes increment fault => exact ⟨fun within => within.revoke increment, rfl, rfl, rfl⟩
  | postponing bytes fault => exact ⟨id, rfl, rfl, rfl⟩
  | done result => exact .refl inlet

/-- No section of a read takes the excuse of the pump. -/
theorem excused_step {inlet : Inlet Unit} (within : inlet.Within) (known : inlet.channel = some ())
    (going : inlet.conduit.ended = false) (room : Nat) (reading : Reading Unit) (w : Belled σ)
    (excused : Excused inlet w.bell reading.Announces) :
    Excused (reading.step room inlet w).2.2.1 (reading.step room inlet w).2.2.2.bell
      (reading.step room inlet w).2.1.Announces := by
  cases reading with
  | entering =>
    rcases excused with full | answers | announces
    · exact (Inlet.enter_announces within known going full room).imp_right .inr
    · exact .inr (.inl answers)
    · exact announces.elim
  | asleep since =>
    simp only [step]
    split
    · exact excused
    · rcases excused with full | answers | announces
      · exact (Inlet.take_announces within known going full room).imp_right .inr
      · exact .inr (.inl answers)
      · exact announces.elim
  | announcing bytes ch increment =>
    by_cases positive : 0 < increment
    · refine .inr (.inl ?_)
      change (if 0 < increment then w.bell.ring else w.bell).Answers
      rw [if_pos positive]
      exact w.bell.answers_ring
    · change Excused inlet (if 0 < increment then w.bell.ring else w.bell) False
      rw [if_neg positive]
      exact excused.imp_right (.imp_right fun announces => absurd announces positive)
  | revoking bytes increment fault => exact excused
  | postponing bytes fault => exact excused
  | done result => exact excused

end Reading

/-- What holds where an inbound pump stands in front of an inlet. Once it is known there it waits only if it
has an excuse, unless the inlet is aborted. -/
def InboundStage.Stands (inlet : Inlet Unit) (bell : Bell) (announces : Prop) : InboundStage → Prop
  | starting => inlet.conduit.ended = false
  | reading | offering _ => inlet.channel = some () ∧ inlet.conduit.ended = false
  | listening _ => inlet.channel = some () ∧ inlet.conduit.ended = false ∧
    (inlet.conduit.aborted = true ∨ Excused inlet bell announces)
  | finished _ => True

private theorem InboundStage.Stands.aside {stage : InboundStage} {inlet inlet' : Inlet Unit} {bell bell' : Bell}
    {announces announces' : Prop} (h : stage.Stands inlet bell announces) (channel : inlet'.channel = inlet.channel)
    (ended : inlet'.conduit.ended = inlet.conduit.ended)
    (aborted : inlet.conduit.aborted = true → inlet'.conduit.aborted = true)
    (excused : inlet.channel = some () → inlet.conduit.ended = false → Excused inlet bell announces →
      inlet'.conduit.aborted = true ∨ Excused inlet' bell' announces') : stage.Stands inlet' bell' announces' := by
  cases stage with
  | starting => exact ended.trans h
  | reading => exact ⟨channel.trans h.1, ended.trans h.2⟩
  | offering chunk => exact ⟨channel.trans h.1, ended.trans h.2⟩
  | listening chunk =>
    obtain ⟨known, going, waits⟩ := h
    refine ⟨channel.trans known, ended.trans going, ?_⟩
    exact waits.elim (fun before => .inl (aborted before)) (excused known going)
  | finished result => trivial

namespace ConsumerPump

private theorem run_append {π α : Type} [Inflow π Unit (Belled σ)] [Host π α σ] [ByteReader ρ]
    (first second : List (Move α σ ρ)) (f : ConsumerPump π σ ρ) : f.run (first ++ second) = (f.run first).run second :=
  List.foldl_append

/-- What holds of a pump in front of an inlet at all times. -/
structure InletPumpSound (f : ConsumerPump InletWithWorker σ ρ) : Prop where
  within : f.consumer.inlet.Within
  stands : f.pump.stage.Stands f.consumer.inlet f.world.bell (Pending f.consumer)

private theorem InletPumpSound.still {f : ConsumerPump InletWithWorker σ ρ} (h : f.InletPumpSound)
    {d : InletWithWorker} (inlet : d.inlet = f.consumer.inlet)
    (pending : Pending f.consumer → Pending d) :
    ({ f with consumer := d } : ConsumerPump InletWithWorker σ ρ).InletPumpSound := by
  have within := h.within
  rw [← inlet] at within
  refine ⟨within, h.stands.aside (by rw [inlet]) (by rw [inlet]) (by rw [inlet]; exact id) ?_⟩
  intro _ _ excused
  rw [← inlet] at excused
  exact .inr (excused.imp_right (.imp_right pending))

private theorem InletPumpSound.read {f : ConsumerPump InletWithWorker σ ρ} (h : f.InletPumpSound)
    {room : Nat} {reading : Reading Unit}
    (flight : f.consumer.reader = some (room, reading)) :
    let (_, reading', inlet', w') := reading.step room f.consumer.inlet f.world
    ({ f with consumer := ⟨inlet', some (room, reading')⟩, world := w' } :
      ConsumerPump InletWithWorker σ ρ).InletPumpSound := by
  obtain ⟨within, channel, ended, aborted⟩ := reading.serves_step room f.consumer.inlet f.world
  have stands := h.stands
  rw [InletWithWorker.pending_iff flight] at stands
  refine ⟨within h.within, ?_⟩
  rw [InletWithWorker.pending_iff rfl]
  apply stands.aside channel ended aborted.trans
  exact fun known going excused => .inr (reading.excused_step h.within known going room f.world excused)

private theorem InletPumpSound.abort {f : ConsumerPump InletWithWorker σ ρ} (h : f.InletPumpSound) :
    ({ f with consumer := ⟨f.consumer.inlet.abort, f.consumer.reader⟩ } :
      ConsumerPump InletWithWorker σ ρ).InletPumpSound := by
  refine ⟨?_, h.stands.aside rfl rfl (fun _ => rfl) fun _ _ _ => .inl rfl⟩
  exact Nat.le_trans (Nat.add_le_add_left (Nat.zero_le _) _) h.within

variable [ByteReader ρ]

private theorem InletPumpSound.act {f : ConsumerPump InletWithWorker σ ρ} (h : f.InletPumpSound)
    (a : InletWithWorker.Act) : (f.step (.act a)).InletPumpSound := by
  have aborts := h.abort
  cases flight : f.consumer.reader with
  | none =>
    have idle := InletWithWorker.not_pending flight
    cases a with
    | abort =>
      simp only [ConsumerPump.step, Host.act, InletWithWorker.act, flight]
      rw [flight] at aborts
      exact aborts
    | _ =>
      simp only [ConsumerPump.step, Host.act, InletWithWorker.act, flight]
      exact h.still rfl fun pending => absurd pending idle
  | some r =>
    obtain ⟨room, reading⟩ := r
    cases a with
    | abort =>
      simp only [ConsumerPump.step, Host.act, InletWithWorker.act, flight]
      rw [flight] at aborts
      exact aborts
    | read more =>
      simp only [ConsumerPump.step, Host.act, InletWithWorker.act, flight]
      exact h
    | timeOut =>
      simp only [ConsumerPump.step, Host.act, InletWithWorker.act, flight]
      refine h.still rfl ?_
      rw [InletWithWorker.pending_iff flight, InletWithWorker.pending_iff rfl]
      exact (reading.announces_timeOut f.consumer.inlet).mpr
    | work =>
      have works := h.read flight
      cases reading with
      | done result =>
        simp only [ConsumerPump.step, Host.act, InletWithWorker.act, flight]
        refine h.still rfl ?_
        rw [InletWithWorker.pending_iff flight]
        exact False.elim
      | _ =>
        simp only [ConsumerPump.step, Host.act, InletWithWorker.act, flight]
        exact works

private theorem InletPumpSound.starts {f : ConsumerPump InletWithWorker σ ρ} (h : f.InletPumpSound)
    (stage : f.pump.stage = .starting) : (f.step .pump).InletPumpSound := by
  obtain ⟨within, stands⟩ := h
  rw [stage] at stands
  have registers := f.consumer.inlet.registers () f.world
  have ran : Inflow.updateCapacity f.consumer f.pump.capacity f.world =
      ((f.consumer.inlet.updateCapacity () f.world).1,
        { f.consumer with inlet := (f.consumer.inlet.updateCapacity () f.world).2.1 },
        (f.consumer.inlet.updateCapacity () f.world).2.2) := rfl
  simp only [ConsumerPump.step, Inbound.step, stage, ran]
  generalize f.consumer.inlet.updateCapacity () f.world = after at registers
  obtain ⟨result, inlet', w'⟩ := after
  obtain ⟨within', conduit, known⟩ := registers
  split
  · exact ⟨within, trivial⟩
  · cases result with
    | error fault => exact ⟨within' within, trivial⟩
    | ok done => exact ⟨within' within, known rfl, (congrArg Conduit.ended conduit).trans stands⟩

private theorem InletPumpSound.reads {f : ConsumerPump InletWithWorker σ ρ} (h : f.InletPumpSound)
    (stage : f.pump.stage = .reading) : (f.step .pump).InletPumpSound := by
  obtain ⟨within, stands⟩ := h
  rw [stage] at stands
  have ran : Inflow.streamEnd Unit f.consumer f.world =
      (.ok (), { f.consumer with inlet := f.consumer.inlet.markEnd }, f.world) := rfl
  simp only [ConsumerPump.step, Inbound.step, stage, ran]
  split
  · exact ⟨within, stands⟩
  · exact ⟨within, trivial⟩
  · exact ⟨within, trivial⟩
  · exact ⟨within, stands⟩

/-- The pump comes to listen only behind an inlet that took nothing, and that was full. -/
private theorem InletPumpSound.offers {f : ConsumerPump InletWithWorker σ ρ} (h : f.InletPumpSound)
    {chunk : List UInt8} (stage : f.pump.stage = .offering chunk) : (f.step .pump).InletPumpSound := by
  obtain ⟨within, stands⟩ := h
  rw [stage] at stands
  cases chunk with
  | nil =>
    simp only [ConsumerPump.step, Inbound.step, stage]
    exact ⟨within, stands⟩
  | cons byte rest =>
    have serves := f.consumer.inlet.serves_fill (byte :: rest)
    have full (inlet' : Inlet Unit) : f.consumer.inlet.fill (byte :: rest) = (.ok 0, inlet') → _ :=
      Inlet.fill_full (List.cons_ne_nil byte rest)
    have ran : Inflow.consume Unit f.consumer (byte :: rest) f.world =
        ((f.consumer.inlet.fill (byte :: rest)).1,
          { f.consumer with inlet := (f.consumer.inlet.fill (byte :: rest)).2 }, f.world) := rfl
    simp only [ConsumerPump.step, Inbound.step, stage, ran]
    generalize f.consumer.inlet.fill (byte :: rest) = after at serves full
    obtain ⟨result, inlet'⟩ := after
    have known : inlet'.channel = some () ∧ inlet'.conduit.ended = false :=
      ⟨serves.channel.trans stands.1, serves.ended.trans stands.2⟩
    cases result with
    | error fault => exact ⟨serves.within within, trivial⟩
    | ok taken =>
      cases taken with
      | zero => exact ⟨serves.within within, known.1, known.2, .inr (.inl (full inlet' rfl))⟩
      | succ n => exact ⟨serves.within within, known⟩

private theorem InletPumpSound.listens {f : ConsumerPump InletWithWorker σ ρ} (h : f.InletPumpSound)
    {chunk : List UInt8} (stage : f.pump.stage = .listening chunk) : (f.step .pump).InletPumpSound := by
  obtain ⟨within, stands⟩ := h
  rw [stage] at stands
  obtain ⟨known, going, waits⟩ := stands
  simp only [ConsumerPump.step, Inbound.step, stage]
  split
  · exact ⟨within, known, going⟩
  next silent =>
    refine ⟨within, ?_⟩
    simp only [stage]
    refine ⟨known, going, waits.imp_right ?_⟩
    exact (.imp_right (.imp_left fun answers => absurd answers silent))

/-- A step of the pump. It waits only for an inlet that has taken nothing. -/
theorem InletPumpSound.pump {f : ConsumerPump InletWithWorker σ ρ} (h : f.InletPumpSound) :
    (f.step .pump).InletPumpSound := by
  cases stage : f.pump.stage with
  | starting => exact h.starts stage
  | reading => exact h.reads stage
  | offering chunk => exact h.offers stage
  | listening chunk => exact h.listens stage
  | finished result =>
    simp only [ConsumerPump.step, Inbound.step, stage]
    exact ⟨h.within, by rw [stage]; trivial⟩

theorem InletPumpSound.step {f : ConsumerPump InletWithWorker σ ρ} (h : f.InletPumpSound)
    (move : Move InletWithWorker.Act σ ρ) : (f.step move).InletPumpSound := by
  cases move with
  | pump => exact h.pump
  | act a => exact h.act a
  | arrive reader => exact ⟨h.within, h.stands⟩
  | become outer => exact ⟨h.within, h.stands⟩

theorem InletPumpSound.run {f : ConsumerPump InletWithWorker σ ρ} (h : f.InletPumpSound)
    (moves : List (Move InletWithWorker.Act σ ρ)) : (f.run moves).InletPumpSound := by
  induction moves generalizing f with
  | nil => exact h
  | cons move rest ih => exact ih (h.step move)

omit [ByteReader ρ] in
private theorem inletPumpSound_start {limits : BufferSettings} {inlet : Inlet Unit}
    (made : Inlet.ofSettings limits = .ok inlet)
    (settings : PumpSettings) (reader : ρ) (outer : σ) :
    (start settings reader (InletWithWorker.mk inlet none) outer).InletPumpSound := by
  obtain rfl := Inlet.ofSettings_ok made
  exact ⟨Nat.zero_le _, rfl⟩

end ConsumerPump

/-- Whatever pump, worker and reader do in whatever order: a pump that waits in front of an inlet that is not
aborted, with no ring of its bell stored or to come, has found it full. -/
theorem inlet_pump_keeps_up [ByteReader ρ] (settings : PumpSettings) (limits : BufferSettings)
    (inlet : Inlet Unit) (made : Inlet.ofSettings limits = .ok inlet) (reader : ρ) (outer : σ)
    (moves : List (ConsumerPump.Move InletWithWorker.Act σ ρ)) (f : ConsumerPump InletWithWorker σ ρ)
    (reached : (ConsumerPump.start settings reader (InletWithWorker.mk inlet none) outer).run moves = f)
    (live : f.consumer.inlet.conduit.aborted = false) (stranded : f.Stranded) :
    f.consumer.inlet.conduit.free = 0 := by
  have sound : f.InletPumpSound := reached ▸ (ConsumerPump.inletPumpSound_start made settings reader outer).run moves
  obtain ⟨⟨chunk, waiting⟩, silent, settled⟩ := stranded
  have stands := sound.stands
  rw [waiting] at stands
  obtain ⟨_, _, aborted | full | answers | pending⟩ := stands
  · rw [live] at aborted
    cases aborted
  · exact full
  · exact absurd answers silent
  · exact absurd pending settled

/-- Three bytes in front of an inlet for one. The worker reads the first, so that the pump delivers the second,
and waits with the third. -/
theorem inlet_pump_keeps_up_full :
    let inlet : Inlet Unit := ⟨⟨1, none, [], false, false, 0⟩, none, 0, none⟩
    let first : ConsumerPump InletWithWorker Unit PlayedReader := .start ⟨1, 3⟩ ⟨[.bytes [1, 2, 3]]⟩ ⟨inlet, none⟩ ()
    let reads : List (ConsumerPump.Move InletWithWorker.Act Unit PlayedReader) :=
      [.act (.read 1), .act .work, .act .work]
    let last : ConsumerPump InletWithWorker Unit PlayedReader := ⟨⟨⟨1, 3⟩, (), ⟨[]⟩, 2, .listening [3]⟩,
      ⟨⟨⟨1, none, [2], false, false, 2⟩, some (), 0, none⟩, some (1, .done (.ok [1]))⟩, ⟨⟨false, .absent⟩, ()⟩⟩
    Inlet.ofSettings ⟨1, none⟩ = .ok inlet ∧
      first.run (.replicate 2 .pump ++ .replicate 2 .pump ++ .replicate 3 .pump ++ reads ++ .replicate 3 .pump) =
        last ∧
      last.Stranded ∧ last.consumer.inlet.conduit.free = 0 := by
  intro inlet first reads last
  have offers : first.run (.replicate 2 .pump) = ⟨⟨⟨1, 3⟩, (), ⟨[]⟩, 0, .offering [1, 2, 3]⟩,
      ⟨⟨⟨1, none, [], false, false, 0⟩, some (), 1, none⟩, none⟩, ⟨⟨true, .absent⟩, ()⟩⟩ := rfl
  have waits : first.run (.replicate 2 .pump ++ .replicate 2 .pump) = ⟨⟨⟨1, 3⟩, (), ⟨[]⟩, 1, .listening [2, 3]⟩,
      ⟨⟨⟨1, none, [1], false, false, 1⟩, some (), 0, none⟩, none⟩, ⟨⟨true, .absent⟩, ()⟩⟩ := by
    rw [ConsumerPump.run_append, offers]
    rfl
  have sleeps : first.run (.replicate 2 .pump ++ .replicate 2 .pump ++ .replicate 3 .pump) =
      ⟨⟨⟨1, 3⟩, (), ⟨[]⟩, 1, .listening [2, 3]⟩,
        ⟨⟨⟨1, none, [1], false, false, 1⟩, some (), 0, none⟩, none⟩, ⟨⟨false, .asleep⟩, ()⟩⟩ := by
    rw [ConsumerPump.run_append, waits]
    rfl
  have called : first.run (.replicate 2 .pump ++ .replicate 2 .pump ++ .replicate 3 .pump ++ reads) =
      ⟨⟨⟨1, 3⟩, (), ⟨[]⟩, 1, .listening [2, 3]⟩,
        ⟨⟨⟨1, none, [], false, false, 1⟩, some (), 1, none⟩, some (1, .done (.ok [1]))⟩,
        ⟨⟨false, .called⟩, ()⟩⟩ := by
    rw [ConsumerPump.run_append, sleeps]
    rfl
  have run : first.run (.replicate 2 .pump ++ .replicate 2 .pump ++ .replicate 3 .pump ++ reads ++
      .replicate 3 .pump) = last := by
    rw [ConsumerPump.run_append, called]
    rfl
  have stranded : last.Stranded := ⟨⟨[3], rfl⟩, nofun, (InletWithWorker.pending_iff rfl).not.mpr id⟩
  exact ⟨rfl, run, stranded, inlet_pump_keeps_up ⟨1, 3⟩ ⟨1, none⟩ inlet rfl _ () _ last run rfl stranded⟩

end Sluice
