import Sluice.Bench.Recorder
import Sluice.Proofs.Outlet.Fifo
import Sluice.Proofs.Producer.Coalescing

/-! Channels that report more than they were offered. What is kept for them is dropped as far as it is there, and no
byte goes astray. But the count itself is handed on, by a flush of the stage and by a write that passes by it. -/
namespace Sluice

variable {ι σ : Type} [Transport ι σ]

omit [Transport ι σ] in
private theorem takenOf_nil (result : Except Fault Nat) : takenOf [] result = [] :=
  List.length_eq_zero_iff.mp (Nat.le_zero.mp (takenOf_length_le [] result))

private theorem Stage.flushTo_empty {stage : Stage} (empty : stage.bytes = []) (ch : ι) (s : σ) :
    stage.flushTo ch s = (.ok 0, stage, s) :=
  if_pos (List.isEmpty_iff.mpr empty)

private theorem Stage.flushTo_answer (stage : Stage) (ch : ι) (s : σ) :
    (stage.flushTo ch s).1 = if stage.bytes = [] then .ok 0 else (Transport.write ch stage.bytes s).1 := by
  split
  next empty => rw [flushTo_empty empty]
  next loaded =>
    rw [flushTo, if_neg (by simpa [isEmpty] using loaded)]
    split
    next failed => rw [failed]
    next reported => rw [reported]

/-- A flush drops the bytes that the channel can have taken by its report. -/
theorem Stage.flushTo_drops (stage : Stage) (ch : ι) (s : σ) :
    takenOf stage.bytes (Transport.write ch stage.bytes s).1 ++ (stage.flushTo ch s).2.1.bytes = stage.bytes := by
  by_cases empty : stage.bytes = []
  · rw [flushTo_empty empty, empty, takenOf_nil]
    rfl
  · rw [flushTo_eq, if_neg (by simpa [isEmpty] using empty)]
    split
    next failed =>
      rw [failed]
      rfl
    next reported =>
      rw [reported]
      exact List.take_append_drop _ _

/-- What a flush leaves is what its answer does not cover. The answer is the number of bytes that left unless it is
greater than that of all that were there. -/
theorem Stage.flushTo_left {stage : Stage} {ch : ι} {s : σ} {n : Nat} (answered : (stage.flushTo ch s).1 = .ok n) :
    (stage.flushTo ch s).2.1.length + min n stage.length = stage.length ∧
      ((stage.flushTo ch s).2.1.length + n = stage.length ↔ n ≤ stage.length) := by
  have dropped := congrArg List.length (stage.flushTo_drops ch s)
  rw [flushTo_answer] at answered
  rw [List.length_append] at dropped
  split at answered
  next empty =>
    obtain rfl := Except.ok.inj answered
    rw [flushTo_empty empty]
    simp
  next loaded =>
    rw [answered, takenOf, List.length_take] at dropped
    rw [length, length]
    omega

namespace BinaryCoder

variable {coder : BinaryCoder} {stage : Stage} {bytes : List UInt8} {hint n : Nat} {ch : ι} {s : σ}

/-- A write with an answer beyond its data has passed by an empty stage, and the answer is the channel's. -/
theorem accept_beyond (beyond : bytes.length < n) (answered : (accept coder stage bytes hint ch s).1 = .ok n) :
    stage.remaining < bytes.length ∧ ∃ stage' s', makeRoom stage hint ch s = (.ok (), stage', s') ∧
      stage'.bytes = [] ∧ (Transport.write ch bytes s').1 = .ok n ∧
      accept coder stage bytes hint ch s = (.ok n, coder, stage', (Transport.write ch bytes s').2) := by
  unfold accept at answered ⊢
  split at answered
  next fits =>
    have credit : min stage.remaining bytes.length = n := Except.ok.inj answered
    omega
  next tight =>
    rw [if_neg tight]
    refine ⟨Nat.lt_of_not_le tight, ?_⟩
    rcases made : makeRoom stage hint ch s with ⟨fault | ⟨⟩, stage', s'⟩
    · rw [made] at answered
      cases answered
    · rw [made] at answered
      dsimp only at answered ⊢
      by_cases empty : stage'.isEmpty = true
      · rw [passBy, if_pos empty] at answered ⊢
        rcases reported : Transport.write ch bytes s' with ⟨fault | taken, s''⟩
        · rw [reported] at answered
          cases answered
        · rw [reported] at answered
          dsimp only at answered ⊢
          obtain rfl : taken = n := by
            split at answered
            · exact Except.ok.inj answered
            · exact Except.ok.inj answered
          have whole : ¬ ((!stage'.isEmpty) = true ∨ taken < bytes.length) := by
            simpa [empty] using Nat.le_of_lt beyond
          refine ⟨stage', s', rfl, List.isEmpty_iff.mp empty, congrArg Prod.fst reported, ?_⟩
          rw [if_neg whole, reported]
      · rw [passBy, if_neg empty] at answered
        dsimp only at answered
        have none : 0 = n := by
          split at answered
          · exact Except.ok.inj answered
          · exact Except.ok.inj answered
        omega

private theorem accept_passes (tight : stage.remaining < bytes.length) {stage' : Stage} {s' : σ}
    (made : makeRoom stage hint ch s = (.ok (), stage', s')) (empty : stage'.bytes = [])
    (reported : (Transport.write ch bytes s').1 = .ok n) : (accept coder stage bytes hint ch s).1 = .ok n := by
  have passed : passBy stage' bytes ch s' = Transport.write ch bytes s' := if_pos (List.isEmpty_iff.mpr empty)
  rw [accept, if_neg (Nat.not_le.mpr tight), made]
  dsimp only
  rw [passed]
  rcases called : Transport.write ch bytes s' with ⟨result, s''⟩
  rw [called] at reported
  obtain rfl : result = .ok n := reported
  dsimp only
  split
  · rfl
  · rfl

end BinaryCoder

/-- A write is answered beyond its data exactly when the data did not fit, room was made until nothing was staged,
and the channel, offered the data, reported so. -/
theorem Core.write_beyond_iff (core : Core BinaryCoder ι) (hint : Nat) {data : List UInt8} {n : Nat}
    (beyond : data.length < n) (s : σ) : (core.write hint data s).1 = .ok n ↔
      core.state = .active ∧ core.stage.remaining < data.length ∧
        ∃ stage s', BinaryCoder.makeRoom core.stage hint core.channel s = (.ok (), stage, s') ∧ stage.bytes = [] ∧
          (Transport.write core.channel data s').1 = .ok n := by
  unfold write
  split
  next active =>
    constructor
    · intro answered
      obtain ⟨tight, stage, s', made, empty, reported, _⟩ := BinaryCoder.accept_beyond beyond answered
      exact ⟨active, tight, stage, s', made, empty, reported⟩
    · rintro ⟨_, tight, stage, s', made, empty, reported⟩
      exact BinaryCoder.accept_passes tight made empty reported
  next ended =>
    constructor
    · intro refused
      cases refused
    · rintro ⟨active, _⟩
      exact absurd active ended

private theorem Core.reported_of_write {core : Core BinaryCoder ι} {hint n : Nat}
    {data : List UInt8} {c : Chronicle ι σ}
    (beyond : data.length < n) (answered : (core.write hint data c).1 = .ok n) :
    ∃ ch, Deed.wrote ch data (.ok n) ∈ (core.write hint data c).2.2.deeds := by
  unfold write at answered ⊢
  split at answered
  next active =>
    rw [if_pos active]
    obtain ⟨_, stage, c', _, _, reported, whole⟩ := BinaryCoder.accept_beyond beyond answered
    have deeds : (Coder.accept core.coder core.stage data hint core.channel c).2.2.2.deeds =
        (Transport.write core.channel data c').2.deeds := congrArg (·.2.2.2.deeds) whole
    change ∃ ch, _ ∈ (Coder.accept core.coder core.stage data hint core.channel c).2.2.2.deeds
    rw [deeds, Chronicle.deeds_write]
    cases known : core.channel with
    | none =>
      rw [known] at reported
      obtain rfl : 0 = n := Except.ok.inj reported
      cases beyond
    | some ch =>
      rw [known] at reported
      exact ⟨ch, List.mem_append_right _ (by simp [reported])⟩
  · cases answered

namespace CoreRun

/-- What holds of a producer of bytes in front of any channels. The bytes add up, the stage keeps to its room, and a
write is answered beyond its data only on the word of a channel that was offered that data. -/
structure Trusting (capacity : Nat) (l : CoreRun BinaryCoder (List UInt8) ι σ) : Prop where
  kept : l.core.held l.channels = credited l.writes
  sized : l.core.stage.capacity = capacity
  within : l.core.stage.length ≤ l.core.stage.capacity
  reported : ∀ w ∈ l.writes, ∀ n, w.result = .ok n → w.data.length < n →
    ∃ ch, Deed.wrote ch w.data (.ok n) ∈ l.channels.deeds

omit [Transport ι σ] in
private theorem trusting_initial (capacity : Nat) (world : σ) :
    (initial capacity .initial world : CoreRun BinaryCoder (List UInt8) ι σ).Trusting capacity :=
  ⟨rfl, rfl, Nat.zero_le _, nofun⟩

omit [Transport ι σ] in
private theorem Trusting.later {capacity : Nat} {l : CoreRun BinaryCoder (List UInt8) ι σ} (h : l.Trusting capacity)
    {c : Chronicle ι σ} (grows : l.channels.Grows c) : ∀ w ∈ l.writes, ∀ n, w.result = .ok n → w.data.length < n →
      ∃ ch, Deed.wrote ch w.data (.ok n) ∈ c.deeds := by
  intro w member n answered beyond
  obtain ⟨ch, deed⟩ := h.reported w member n answered beyond
  exact ⟨ch, grows.subset deed⟩

private theorem Trusting.perform {capacity : Nat} (hint : Nat) (l : CoreRun BinaryCoder (List UInt8) ι σ)
    (h : l.Trusting capacity) (s : Section (List UInt8) ι σ) : (l.perform hint s).Trusting capacity := by
  cases s with
  | openTurn ch => exact ⟨h.kept, h.sized, h.within, h.reported⟩
  | write data =>
    obtain ⟨sized, within⟩ := Core.within_write h.within hint data l.channels
    refine ⟨?_, sized.trans h.sized, sized.symm ▸ within, ?_⟩
    · rw [CoreRun.perform, credited_append, credited_one, ← h.kept]
      exact l.core.write_keeps hint data l.channels
    · intro w member n answered beyond
      rcases List.mem_append.mp member with old | new
      · exact h.later (l.core.write_reaches hint data l.channels).grows w old n answered beyond
      · obtain rfl := List.mem_singleton.mp new
        exact Core.reported_of_write beyond answered
  | endStream =>
    have stage : l.core.endStream.stage = l.core.stage := by
      unfold Core.endStream
      split
      · rfl
      · rfl
    exact ⟨(l.core.held_endStream l.channels).trans h.kept, (congrArg Stage.capacity stage).trans h.sized,
      stage.symm ▸ h.within, h.reported⟩
  | closeTurn ch =>
    obtain ⟨sized, within⟩ := Core.within_closeTurn h.within hint ch l.channels
    exact ⟨(l.core.closeTurn_keeps hint ch l.channels).trans h.kept, sized.trans h.sized, sized.symm ▸ within,
      h.later (l.core.closeTurn_reaches hint ch l.channels).grows⟩
  | ask ch =>
    exact ⟨(congrArg (· ++ _) (l.channels.output_requestOutput ch)).trans h.kept, h.sized, h.within,
      h.later (Reaches.of_requestOutput ch l.channels).grows⟩
  | release => exact ⟨rfl, h.sized, Nat.zero_le _, fun _ member => absurd member List.not_mem_nil⟩
  | become world => exact ⟨h.kept, h.sized, h.within, h.reported⟩

private theorem trusting_run (capacity hint : Nat) (world : σ) (sections : List (Section (List UInt8) ι σ)) :
    ((initial capacity .initial world : CoreRun BinaryCoder _ ι σ).run hint sections).Trusting capacity :=
  run_induction hint (Trusting.perform hint) sections _ (trusting_initial capacity world)

end CoreRun

/-- A flush of a live outlet drops the bytes that the channel can have taken by its report. -/
theorem Outlet.flush_drops {outlet : Outlet ι} (live : outlet.conduit.aborted = false) (ch : ι) (s : σ) :
    takenOf outlet.conduit.bytes (Transport.write ch outlet.conduit.bytes s).1 ++
      (outlet.flush ch s).2.1.conduit.bytes = outlet.conduit.bytes := by
  have drained : takenOf outlet.conduit.bytes (Transport.write ch outlet.conduit.bytes s).1 ++
      (Outlet.drain { outlet with channel := some ch } ch s).2.1.conduit.bytes = outlet.conduit.bytes := by
    unfold drain
    split
    next empty =>
      have none : outlet.conduit.bytes = [] := List.isEmpty_iff.mp empty
      rw [none, takenOf_nil]
      rfl
    · split
      next failed =>
        rw [failed]
        rfl
      next reported =>
        rw [reported]
        dsimp only
        split
        · exact List.take_append_drop _ _
        · exact List.take_append_drop _ _
  have signalled : ∀ (o : Outlet ι) (s : σ), (o.signal ch s).2.1.conduit = o.conduit := by
    intro o s
    unfold signal
    split
    · rfl
    · rfl
  unfold flush
  dsimp only
  rw [if_neg (by simp [live])]
  split
  next failed =>
    rw [failed] at drained
    exact drained
  next passed =>
    rw [passed] at drained
    rw [signalled]
    exact drained

/-- Whatever channels report, bytes leave a stage or an outlet from the front and only as far as they are there, none
is lost or doubled, and neither grows beyond its size. A flush of a stage is answered with the report itself, though,
which is the number of bytes that left it unless it is greater than that of all that were there. A write is answered
beyond its data exactly if it did not fit, nothing is staged after room was made for it, and the channel, offered the
data, reported so. -/
theorem counts_within_unless_overstated (settings : BufferSettings) (outlet : Outlet ι)
    (valid : Outlet.ofSettings settings = .ok outlet) :
    (∀ (stage : Stage) (ch : ι) (s : σ), let (answer, stage', _) := stage.flushTo ch s
      let report := (Transport.write ch stage.bytes s).1
      takenOf stage.bytes report ++ stage'.bytes = stage.bytes ∧
      answer = (if stage.bytes = [] then .ok 0 else report) ∧
      ∀ n, answer = .ok n → stage'.length + min n stage.length = stage.length ∧
        (stage'.length + n = stage.length ↔ n ≤ stage.length)) ∧
    (∀ (core : Core BinaryCoder ι) (hint : Nat) (data : List UInt8) (n : Nat) (s : σ), data.length < n →
      ((core.write hint data s).1 = .ok n ↔ core.state = .active ∧ core.stage.remaining < data.length ∧
        ∃ stage s', BinaryCoder.makeRoom core.stage hint core.channel s = (.ok (), stage, s') ∧ stage.bytes = [] ∧
          (Transport.write core.channel data s').1 = .ok n)) ∧
    (∀ (capacity hint : Nat) (world : σ) (sections : List (Section (List UInt8) ι σ)),
      ((CoreRun.initial capacity BinaryCoder.initial world).run hint sections).Trusting capacity) ∧
    (∀ (world : σ) (moves : List (OutletRun.Move ι σ)),
      let d := (OutletRun.start outlet world).run moves
      d.outlet.length ≤ settings.bufferSize ∧
      ∀ ch, d.outlet.conduit.aborted = false →
        takenOf d.outlet.conduit.bytes (Transport.write ch d.outlet.conduit.bytes d.world).1 ++
          (d.outlet.flush ch d.world).2.1.conduit.bytes = d.outlet.conduit.bytes) := by
  refine ⟨fun stage ch s => ⟨?_, ?_, fun n answered => ?_⟩, fun core hint data n s beyond => ?_,
    CoreRun.trusting_run, fun world moves => ⟨?_, fun ch live => ?_⟩⟩
  · exact stage.flushTo_drops ch s
  · exact stage.flushTo_answer ch s
  · exact Stage.flushTo_left answered
  · exact core.write_beyond_iff hint beyond s
  · exact ((OutletRun.sound_start settings outlet world valid).run moves).outlet.within
  · exact Outlet.flush_drops live ch _

/-- A channel that reports three bytes more than it took, in front of a producer and of an outlet. -/
theorem counts_within_unless_overstated_three :
    let settings : BufferSettings := ⟨4, none⟩
    let outlet : Outlet Nat := ⟨⟨4, none, [], false, false, 0⟩, none, false⟩
    let world : List FaultyRecorder := [⟨.withLimit none, ⟨false, false, 3⟩⟩]
    let l := (CoreRun.initial 4 BinaryCoder.initial world).run 2 [.openTurn 0, .write [1, 2, 3], .write [4, 5, 6]]
    let d := (OutletRun.start outlet world).run [.write [1, 2, 3], .work, .work, .flush 0]
    Outlet.ofSettings settings = .ok outlet ∧
      l.core.held l.channels = [1, 2, 3, 4, 5, 6] ∧ l.core.stage.length ≤ 4 ∧ d.outlet.length ≤ 4 := by
  intro settings outlet world l d
  obtain ⟨_, _, producers, outlets⟩ := counts_within_unless_overstated (σ := List FaultyRecorder) settings outlet rfl
  obtain ⟨kept, sized, within, _⟩ := producers 4 2 world [.openTurn 0, .write [1, 2, 3], .write [4, 5, 6]]
  exact ⟨rfl, kept.trans (by decide), sized ▸ within, (outlets world [.write [1, 2, 3], .work, .work, .flush 0]).1⟩

/-- Three bytes leave a stage and six are reported. Five bytes are written, and more than that are reported. -/
theorem overstated_counts_pass :
    let world : List FaultyRecorder := [⟨.withLimit none, ⟨false, false, 3⟩⟩]
    let stage : Stage := ⟨4, [1, 2, 3]⟩
    let core : Core BinaryCoder Nat := (Core.initial 4 .initial).openTurn 0
    (stage.flushTo 0 world).1 = .ok 6 ∧ (stage.flushTo 0 world).2.1 = ⟨4, []⟩ ∧
      (core.write 2 [1, 2, 3, 4, 5] world).1 = .ok 8 := by
  decide

end Sluice
