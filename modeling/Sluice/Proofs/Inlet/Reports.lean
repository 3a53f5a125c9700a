import Mathlib.Data.List.Induction
import Sluice.Bench
import Sluice.Proofs.Inlet.Fifo

/-! Announcements of a reading worker that fail. The read keeps its bytes, the fault is left behind, and the
next read with room reports it, once and whatever has happened in between. -/
namespace Sluice

variable {κ σ : Type}

def Reading.faults [CapacityChannel κ σ] (reading : Reading κ) (s : σ) : List Fault :=
  match reading with
  | announcing _ ch increment =>
    match (CapacityChannel.update ch increment s).1 with
    | .ok () => []
    | .error fault => [fault]
  | _ => []

/-- A read that has returned, with the bytes it has removed and the faults of its announcements. -/
structure ReadBack where
  room : Nat
  took : List UInt8
  result : Except Fault (List UInt8)
  failed : List Fault

namespace ReadBack

def reported (r : ReadBack) : List Fault :=
  match r.result with
  | .ok _ => []
  | .error fault => [fault]

/-- What the last read with room has left to be reported. -/
def owed (reads : List ReadBack) : List Fault :=
  match (reads.filter (·.room ≠ 0)).getLast? with
  | none => []
  | some r => r.failed

/-- What a read may be like after others. Without room it does nothing. With room it fails if and only if there is
something to report, and then with just that, and removes nothing. Otherwise it returns what it has removed, and if
its own announcement has failed that is at least a byte. -/
def Law (before : List ReadBack) (r : ReadBack) : Prop :=
  (r.room = 0 → r.result = .ok [] ∧ r.took = [] ∧ r.failed = []) ∧
  (r.room ≠ 0 → ∀ fault, r.result = .error fault ↔ owed before = [fault]) ∧
  (∀ fault, r.result = .error fault → r.took = [] ∧ r.failed = []) ∧
  (∀ bytes, r.result = .ok bytes → bytes = r.took) ∧
  (r.failed = [] ∨ ∃ fault, r.failed = [fault] ∧ r.result = .ok r.took ∧ r.took ≠ [])

private theorem owed_append_one (reads : List ReadBack) (r : ReadBack) :
    owed (reads ++ [r]) = if r.room = 0 then owed reads else r.failed := by
  by_cases none : r.room = 0
  · simp [owed, none]
  · simp [owed, none]

/-- Where every read obeys, the faults of all announcements are the reported ones, in order, and behind them what
the last read has left. -/
theorem reported_once (reads : List ReadBack) (lawful : Lawful Law reads) :
    reads.flatMap failed = reads.flatMap reported ++ owed reads ∧ (owed reads).length ≤ 1 := by
  induction reads using List.reverseRecOn with
  | nil => exact ⟨rfl, Nat.zero_le _⟩
  | append_singleton reads r ih =>
    obtain ⟨idle, reports, silent, _, few⟩ := lawful reads r [] rfl
    obtain ⟨all, one⟩ := ih fun before entry after split => lawful before entry (after ++ [r]) (by simp [split])
    simp only [List.flatMap_append, List.flatMap_singleton, owed_append_one, all]
    by_cases none : r.room = 0
    · obtain ⟨result, _, unfailed⟩ := idle none
      simp [none, reported, result, unfailed, one]
    · rw [if_neg none]
      have told : r.reported = owed reads := by
        cases result : r.result with
        | error fault => simp [reported, result, (reports none fault).mp result]
        | ok bytes =>
          match owing : owed reads with
          | [] => simp [reported, result]
          | [fault] =>
            have failing := (reports none fault).mpr owing
            rw [result] at failing
            cases failing
          | _ :: _ :: _ => simp [owing] at one
      refine ⟨by rw [told], ?_⟩
      rcases few with unfailed | ⟨fault, failed, _⟩
      · simp [unfailed]
      · simp [failed]

end ReadBack

/-- A run of an inlet with the faults of the announcements of the read in flight, and the reads that have returned. -/
structure ReadRecord (κ σ : Type) where
  inletRun : InletRun κ σ
  failed : List Fault
  reads : List ReadBack

namespace ReadRecord

def failures (d : ReadRecord κ σ) : List Fault := d.reads.flatMap ReadBack.failed ++ d.failed

def reported (d : ReadRecord κ σ) : List Fault := d.reads.flatMap ReadBack.reported

def pending (d : ReadRecord κ σ) : List Fault := ReadBack.owed d.reads ++ d.failed

variable [CapacityChannel κ σ]

def step (d : ReadRecord κ σ) (move : InletRun.Move κ σ) : ReadRecord κ σ :=
  match move, d.inletRun.reader with
  | .work, some ⟨room, .done result, took⟩ =>
    ⟨d.inletRun.step move, [], d.reads ++ [⟨room, took, result, d.failed⟩]⟩
  | .work, some ⟨_, reading, _⟩ =>
    ⟨d.inletRun.step move, d.failed ++ reading.faults d.inletRun.world, d.reads⟩
  | _, _ => { d with inletRun := d.inletRun.step move }

def run (moves : List (InletRun.Move κ σ)) (d : ReadRecord κ σ) : ReadRecord κ σ := moves.foldl step d

def start (inlet : Inlet κ) (world : σ) : ReadRecord κ σ := ⟨.start inlet world, [], []⟩

@[simp] theorem inletRun_step (d : ReadRecord κ σ) (move : InletRun.Move κ σ) :
    (d.step move).inletRun = d.inletRun.step move := by
  unfold step
  split
  · rfl
  · rfl
  · rfl

/-- The record of the reads goes along with the run of the inlet. -/
theorem inletRun_run (moves : List (InletRun.Move κ σ)) (d : ReadRecord κ σ) :
    (d.run moves).inletRun = d.inletRun.run moves := by
  induction moves generalizing d with
  | nil => rfl
  | cons move rest ih => exact (ih (d.step move)).trans (congrArg _ (d.inletRun_step move))

end ReadRecord

/-- What a read has to do with reports, where it stands: before it enters, what is owed lies in the inlet; once it
has looked into the conduit nothing is owed any more, and what it leaves itself lies in the inlet once it is done. -/
def Reading.Owes (room : Nat) (reading : Reading κ) (deferred : Option Fault) (owed failed : List Fault) : Prop :=
  match reading with
  | entering => room ≠ 0 ∧ deferred.toList = owed ∧ failed = []
  | asleep _ | announcing _ _ _ => room ≠ 0 ∧ deferred = none ∧ owed = [] ∧ failed = []
  | revoking _ _ fault | postponing _ fault => room ≠ 0 ∧ deferred = none ∧ owed = [] ∧ failed = [fault]
  | done (.error fault) => room ≠ 0 ∧ deferred = none ∧ owed = [fault] ∧ failed = []
  | done (.ok bytes) =>
    room = 0 ∧ bytes = [] ∧ deferred.toList = owed ∧ failed = [] ∨
      room ≠ 0 ∧ deferred.toList = failed ∧ owed = [] ∧ (failed ≠ [] → bytes ≠ [])

private theorem Inlet.take_owes (inlet : Inlet κ) {room : Nat} (some : room ≠ 0) (live : inlet.conduit.aborted = false)
    (none : inlet.deferred = none) : (inlet.take room).1.Owes room (inlet.take room).2.deferred [] [] := by
  have finds : ∀ bytes, (Reading.done (.ok bytes) : Reading κ).Owes room inlet.deferred [] [] := by
    intro bytes
    exact .inr ⟨some, by rw [none]; rfl, rfl, fun failed => absurd rfl failed⟩
  unfold take
  rw [if_neg (Bool.eq_false_iff.mp live)]
  split
  · split
    · exact finds []
    · exact ⟨some, none, rfl, rfl⟩
  · rcases afterTake_cases { inlet with conduit := inlet.conduit.drop room } (inlet.conduit.bytes.take room) with
      ⟨_, taken⟩ | ⟨ch, taken⟩
    · rw [taken]
      exact finds _
    · rw [taken]
      exact ⟨some, none, rfl, rfl⟩

namespace Reading

private theorem owes_ofRoom (room : Nat) (deferred : Option Fault) :
    (ofRoom room : Reading κ).Owes room deferred deferred.toList [] := by
  unfold ofRoom
  split
  next none => exact .inl ⟨none, rfl, rfl, rfl⟩
  next some => exact ⟨some, rfl, rfl⟩

private theorem step_owes [CapacityChannel κ σ] {room : Nat} {reading : Reading κ} {inlet : Inlet κ}
    {owed failed : List Fault} (owes : reading.Owes room inlet.deferred owed failed) (sane : reading.Sane room)
    (live : inlet.conduit.aborted = false) (s : σ) (going : ∀ result, reading ≠ done result) :
    let (_, reading', inlet', _) := reading.step room inlet s
    reading'.Owes room inlet'.deferred owed (failed ++ reading.faults s) := by
  cases reading with
  | entering =>
    obtain ⟨some, rfl, rfl⟩ := owes
    simp only [step, Inlet.enter]
    split
    next fault deferred =>
      rw [deferred]
      exact ⟨some, rfl, rfl, rfl⟩
    next none =>
      have looks := inlet.take_owes some live none
      rw [none]
      exact looks
  | asleep since =>
    obtain ⟨some, none, rfl, rfl⟩ := owes
    simp only [step]
    split
    · exact ⟨some, none, rfl, rfl⟩
    · exact inlet.take_owes some live none
  | announcing bytes ch increment =>
    obtain ⟨some, none, rfl, rfl⟩ := owes
    simp only [step, faults]
    split
    next passed =>
      rw [passed]
      exact .inr ⟨some, by rw [none]; rfl, rfl, fun failed => absurd rfl failed⟩
    next fault _ failed =>
      rw [failed]
      exact ⟨some, none, rfl, rfl⟩
  | revoking bytes increment fault =>
    obtain ⟨some, none, rfl, rfl⟩ := owes
    exact ⟨some, none, rfl, rfl⟩
  | postponing bytes fault =>
    obtain ⟨some, none, rfl, rfl⟩ := owes
    exact .inr ⟨some, rfl, rfl, fun _ => sane⟩
  | done result => exact absurd rfl (going result)

private theorem Owes.few {room : Nat} {reading : Reading κ} {deferred : Option Fault} {owed failed : List Fault}
    (owes : reading.Owes room deferred owed failed) : (owed ++ failed).length ≤ 1 := by
  have one : deferred.toList.length ≤ 1 := by
    cases deferred with
    | none => exact Nat.zero_le 1
    | some fault => exact Nat.le_refl 1
  cases reading with
  | entering =>
    obtain ⟨_, rfl, rfl⟩ := owes
    simp
  | asleep since =>
    obtain ⟨_, _, rfl, rfl⟩ := owes
    exact Nat.zero_le 1
  | announcing bytes ch increment =>
    obtain ⟨_, _, rfl, rfl⟩ := owes
    exact Nat.zero_le 1
  | revoking bytes increment fault =>
    obtain ⟨_, _, rfl, rfl⟩ := owes
    exact Nat.le_refl 1
  | postponing bytes fault =>
    obtain ⟨_, _, rfl, rfl⟩ := owes
    exact Nat.le_refl 1
  | done result =>
    cases result with
    | error fault =>
      obtain ⟨_, _, rfl, rfl⟩ := owes
      exact Nat.le_refl 1
    | ok bytes =>
      rcases owes with ⟨_, _, rfl, rfl⟩ | ⟨_, rfl, rfl, _⟩
      · simp
      · exact one

private theorem Owes.law {room : Nat} {result : Except Fault (List UInt8)}
    {deferred : Option Fault} {failed took : List _}
    {reads : List ReadBack} (owes : (done result : Reading κ).Owes room deferred (ReadBack.owed reads) failed)
    (hand : took = (done result : Reading κ).inHand) :
    ReadBack.Law reads ⟨room, took, result, failed⟩ ∧
      deferred.toList = ReadBack.owed (reads ++ [⟨room, took, result, failed⟩]) := by
  rw [ReadBack.owed_append_one]
  cases result with
  | error fault =>
    obtain ⟨some, rfl, owed, rfl⟩ := owes
    refine ⟨⟨fun none => absurd none some, fun _ other => ?_, fun _ _ => ⟨hand, rfl⟩, by simp, .inl rfl⟩, ?_⟩
    · simp [owed]
    · rw [if_neg some]
      rfl
  | ok bytes =>
    rcases owes with ⟨none, rfl, owed, rfl⟩ | ⟨some, rfl, owed, nonempty⟩
    · refine ⟨⟨fun _ => ⟨rfl, hand, rfl⟩, fun some => absurd none some, by simp, ?_, .inl rfl⟩, ?_⟩
      · rintro bytes same
        rw [hand, ← Except.ok.inj same]
        rfl
      · rw [if_pos none]
        exact owed
    · refine ⟨⟨fun none => absurd none some, fun _ other => by simp [owed], by simp, ?_, ?_⟩, ?_⟩
      · rintro bytes same
        rw [hand, ← Except.ok.inj same]
        rfl
      · cases deferred with
        | none => exact .inl rfl
        | some fault => exact .inr ⟨fault, rfl, by rw [hand]; rfl, hand ▸ nonempty (by simp)⟩
      · rw [if_neg some]

end Reading

namespace ReadRecord

/-- What holds as long as nobody aborts and no patience ends. -/
structure Sound (size : Nat) (d : ReadRecord κ σ) : Prop where
  inletRun : d.inletRun.Sound size
  live : d.inletRun.inlet.conduit.aborted = false
  lawful : Lawful ReadBack.Law d.reads
  idle : d.inletRun.reader = none → d.inletRun.inlet.deferred.toList = ReadBack.owed d.reads ∧ d.failed = []
  reading : ∀ r, d.inletRun.reader = some r →
    r.reading.Owes r.room d.inletRun.inlet.deferred (ReadBack.owed d.reads) d.failed

private theorem Sound.frame {size : Nat} {d : ReadRecord κ σ} (h : d.Sound size) {inletRun : InletRun κ σ}
    (sound : inletRun.Sound size) (live : inletRun.inlet.conduit.aborted = d.inletRun.inlet.conduit.aborted)
    (deferred : inletRun.inlet.deferred = d.inletRun.inlet.deferred) (reader : inletRun.reader = d.inletRun.reader) :
    Sound size { d with inletRun } := by
  refine ⟨sound, live.trans h.live, h.lawful, ?_, ?_⟩
  · rw [reader, deferred]
    exact h.idle
  · rw [reader, deferred]
    exact h.reading

variable [CapacityChannel κ σ]

private theorem Sound.works {size : Nat} {d : ReadRecord κ σ} (h : d.Sound size) : (d.step .work).Sound size := by
  have sound := h.inletRun.step .work
  cases flight : d.inletRun.reader with
  | none =>
    have still : d.step .work = d := by simp [step, InletRun.step, flight]
    rw [still]
    exact h
  | some r =>
    obtain ⟨room, reading, took⟩ := r
    obtain ⟨sane, hand⟩ := h.inletRun.holding _ flight
    have owes := h.reading _ flight
    have moved := reading.step_conduit room d.inletRun.inlet d.inletRun.world
    cases reading with
    | done result =>
      obtain ⟨law, left⟩ := owes.law hand
      simp only [step, InletRun.step, flight] at sound ⊢
      exact ⟨sound, h.live, h.lawful.append_one law, fun _ => ⟨left, rfl⟩, by simp⟩
    | _ =>
      have goes := Reading.step_owes owes sane h.live d.inletRun.world (by simp)
      obtain ⟨n, drop⟩ := moved
      simp only [step, InletRun.step, flight] at sound ⊢
      refine ⟨sound, ?_, h.lawful, by simp, ?_⟩
      · rw [drop]
        exact h.live
      · rintro r flying
        obtain rfl := Option.some.inj flying
        exact goes

theorem Sound.step {size : Nat} {d : ReadRecord κ σ} (h : d.Sound size) (move : InletRun.Move κ σ)
    (calm : move ≠ .abort ∧ move ≠ .timeOut) : (d.step move).Sound size := by
  have sound := h.inletRun.step move
  cases move with
  | fill bytes =>
    obtain ⟨_, _, _, wakes, filled⟩ := d.inletRun.inlet.fill_spec bytes
    refine h.frame sound ?_ (Inlet.deferred_fill _ _) rfl
    simp only [InletRun.step, filled]
  | register ch =>
    refine h.frame sound ?_ (Inlet.deferred_register _ _) rfl
    simp only [InletRun.step, Inlet.conduit_register]
  | announce ch increment => exact h.frame sound rfl rfl rfl
  | revoke increment => exact h.frame sound rfl rfl rfl
  | markEnd => exact h.frame sound rfl rfl rfl
  | abort => exact absurd rfl calm.1
  | timeOut => exact absurd rfl calm.2
  | become world => exact h.frame sound rfl rfl rfl
  | work => exact h.works
  | read room =>
    cases flight : d.inletRun.reader with
    | some r =>
      have still : d.step (.read room) = d := by simp [ReadRecord.step, InletRun.step, flight]
      rw [still]
      exact h
    | none =>
      obtain ⟨left, none⟩ := h.idle flight
      simp only [ReadRecord.step, InletRun.step, flight] at sound ⊢
      refine ⟨sound, h.live, h.lawful, by simp, ?_⟩
      rintro r flying
      obtain rfl := Option.some.inj flying
      rw [← left, none]
      exact Reading.owes_ofRoom room _

theorem Sound.run {size : Nat} {d : ReadRecord κ σ} (h : d.Sound size) (moves : List (InletRun.Move κ σ))
    (calm : ∀ move ∈ moves, move ≠ .abort ∧ move ≠ .timeOut) : (d.run moves).Sound size := by
  induction moves generalizing d with
  | nil => exact h
  | cons move rest ih =>
    exact ih (h.step move (calm move List.mem_cons_self)) fun later among => calm later (List.mem_cons_of_mem _ among)

omit [CapacityChannel κ σ] in
private theorem sound_start (settings : BufferSettings) (inlet : Inlet κ) (world : σ)
    (valid : Inlet.ofSettings settings = .ok inlet) : (start inlet world).Sound settings.bufferSize := by
  have inletRun := InletRun.sound_start settings inlet world valid
  obtain rfl := Inlet.ofSettings_ok valid
  exact ⟨inletRun, rfl, .nil, fun _ => ⟨rfl, rfl⟩, fun _ reading => by cases reading⟩

omit [CapacityChannel κ σ] in
/-- The faults so far are those that were reported and behind them the pending ones, of which there is one at most. -/
theorem Sound.reported_once {size : Nat} {d : ReadRecord κ σ} (h : d.Sound size) :
    d.failures = d.reported ++ d.pending ∧ d.pending.length ≤ 1 := by
  obtain ⟨all, one⟩ := ReadBack.reported_once d.reads h.lawful
  refine ⟨by simp [failures, reported, pending, all], ?_⟩
  simp only [pending, List.length_append]
  cases flight : d.inletRun.reader with
  | none => simp [(h.idle flight).2, one]
  | some r =>
    simpa using (h.reading r flight).few

private theorem Sound.reports {size : Nat} {d : ReadRecord κ σ} (h : d.Sound size)
    (idle : d.inletRun.reader = none) {fault : Fault}
    (pending : d.pending = [fault]) {room : Nat} (some : room ≠ 0) :
    let d' := d.run [.read room, .work, .work]
    d'.reads = d.reads ++ [⟨room, [], .error fault, []⟩] ∧ d'.pending = [] ∧
      d'.inletRun.inlet.conduit = d.inletRun.inlet.conduit := by
  obtain ⟨left, none⟩ := h.idle idle
  have deferred : d.inletRun.inlet.deferred = .some fault := by
    rw [ReadRecord.pending, none, List.append_nil, ← left] at pending
    exact Option.toList_eq_singleton_iff.mp pending
  have begun : d.step (.read room) = { d with
      inletRun := { d.inletRun with reader := .some ⟨room, .entering, []⟩ } } := by
    simp [ReadRecord.step, InletRun.step, idle, Reading.ofRoom, some]
  have told : (d.step (.read room)).step .work = { d with
      inletRun := { d.inletRun with
        inlet := { d.inletRun.inlet with deferred := .none }
        reader := .some ⟨room, .done (.error fault), []⟩ } } := by
    rw [begun]
    simp [ReadRecord.step, InletRun.step, Reading.step, Inlet.enter, deferred, Reading.faults]
  intro d'
  have returned : d' = ⟨⟨{ d.inletRun.inlet with deferred := .none }, d.inletRun.world, .none,
      d.inletRun.events ++ [.read room [] (.error fault)]⟩, [], d.reads ++ [⟨room, [], .error fault, []⟩]⟩ := by
    calc d' = ((d.step (.read room)).step .work).step .work := rfl
      _ = _ := by
        rw [told]
        simp [ReadRecord.step, InletRun.step, none]
  rw [returned]
  refine ⟨rfl, ?_, rfl⟩
  simp [ReadRecord.pending, ReadBack.owed_append_one, some]

end ReadRecord

/-- One reading worker and any other calls, in whatever order their sections come and whichever announcements fail,
but nobody aborts and no patience ends. A read whose announcement fails returns its bytes, the next one with room
returns that fault and leaves the bytes where they are, and no read fails otherwise. So the faults of all
announcements of reads are those that reads have reported, in order, but for one at most that the next read with
room will report at once. No byte is lost meanwhile. -/
theorem failures_reported_once [CapacityChannel κ σ] (settings : BufferSettings) (inlet : Inlet κ)
    (valid : Inlet.ofSettings settings = .ok inlet) (world : σ) (moves : List (InletRun.Move κ σ))
    (calm : ∀ move ∈ moves, move ≠ .abort ∧ move ≠ .timeOut) :
    let d := (ReadRecord.start inlet world).run moves
    Lawful ReadBack.Law d.reads ∧
    d.failures = d.reported ++ d.pending ∧ d.pending.length ≤ 1 ∧
    d.inletRun.returned ++ d.inletRun.inHand ++ d.inletRun.inlet.conduit.bytes = d.inletRun.accepted ∧
    (d.inletRun.reader = none → ∀ fault room, d.pending = [fault] → room ≠ 0 →
      let d' := d.run [.read room, .work, .work]
      d'.reads = d.reads ++ [⟨room, [], .error fault, []⟩] ∧ d'.pending = [] ∧
        d'.inletRun.inlet.conduit = d.inletRun.inlet.conduit) := by
  intro d
  have sound : d.Sound settings.bufferSize := (ReadRecord.sound_start settings inlet world valid).run moves calm
  obtain ⟨all, one⟩ := sound.reported_once
  exact ⟨sound.lawful, all, one, sound.inletRun.kept sound.live,
    fun idle _ _ pending some => sound.reports idle pending some⟩

/-- Of two reads the first one cannot announce its room and the second one, behind the end of the stream, reports
that and leaves the last byte, which the third one returns. -/
theorem failures_reported_once_ended :
    let settings : BufferSettings := ⟨2, none⟩
    let inlet : Inlet Line := ⟨⟨2, none, [], false, false, 0⟩, none, 0, none⟩
    let bench := Bench.ofChannels []
    let moves : List (InletRun.Move Line Bench) :=
      [.register (.outside 0), .fill [1, 2], .become (bench.failCapacity 0 true),
        .read 1, .work, .work, .work, .work, .work, .markEnd, .read 1, .work, .work, .read 1, .work, .work]
    let d := (ReadRecord.start inlet bench).run moves
    Inlet.ofSettings settings = .ok inlet ∧ d.failures.length = 1 ∧ d.reported.length = 1 ∧
      d.failures = d.reported ++ d.pending ∧ d.inletRun.returned = [1, 2] := by
  intro settings inlet bench moves d
  have calm : ∀ move ∈ moves, move ≠ .abort ∧ move ≠ .timeOut := by
    simp [moves]
  obtain ⟨_, all, _, _, _⟩ := failures_reported_once settings inlet rfl bench moves calm
  exact ⟨rfl, by decide, by decide, all, by decide⟩

end Sluice
