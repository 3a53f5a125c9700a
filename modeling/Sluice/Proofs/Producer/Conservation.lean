import Sluice.Bench.Script
import Sluice.Proofs.Producer.CoreRun
import Sluice.Pump.Window

/-! A producer of bytes keeps what it was given: what its channels took, with what is staged behind
it, is what its writes were credited for. -/
namespace Sluice

def credited (writes : List (Written (List UInt8))) : List UInt8 :=
  writes.flatMap fun w => takenOf w.data w.result

theorem credited_append (earlier later : List (Written (List UInt8))) :
    credited (earlier ++ later) = credited earlier ++ credited later :=
  List.flatMap_append

theorem credited_one (w : Written (List UInt8)) : credited [w] = takenOf w.data w.result :=
  List.append_nil _

variable {γ ι σ : Type} [Transport ι σ]

private theorem Honest.chronicle (honest : Honest ι σ) : Honest (Option ι) (Chronicle ι σ) := by
  intro ch bytes c n h
  cases ch with
  | none =>
    obtain rfl : 0 = n := Except.ok.inj h
    exact Nat.zero_le _
  | some ch => exact honest ch bytes c.world n h

private theorem Stage.flushTo_keeps (stage : Stage) (ch : Option ι) (c : Chronicle ι σ) :
    (stage.flushTo ch c).2.2.output ++ (stage.flushTo ch c).2.1.bytes = c.output ++ stage.bytes := by
  have told := c.output_write ch stage.bytes
  rw [Stage.flushTo_eq]
  split
  · rfl
  · split
    next refused =>
      rw [refused] at told
      simp [told, takenOf]
    next answered =>
      rw [answered] at told
      simp [told, takenOf]

namespace BinaryCoder

private theorem put_keeps (stage : Stage) (bytes : List UInt8) :
    (stage.put bytes).2.bytes = stage.bytes ++ takenOf bytes (.ok (stage.put bytes).1) := rfl

theorem makeRoom_keeps (stage : Stage) (hint : Nat) (ch : Option ι) (c : Chronicle ι σ) :
    (makeRoom stage hint ch c).2.2.output ++ (makeRoom stage hint ch c).2.1.bytes =
      c.output ++ stage.bytes := by
  unfold makeRoom
  split
  · exact stage.flushTo_keeps ch c
  · rfl

private theorem passBy_keeps (stage : Stage) (bytes : List UInt8) (ch : Option ι) (c : Chronicle ι σ) :
    (passBy stage bytes ch c).2.output ++ stage.bytes =
      c.output ++ stage.bytes ++ takenOf bytes (passBy stage bytes ch c).1 := by
  unfold passBy
  split
  next empty =>
    have none : stage.bytes = [] := List.isEmpty_iff.mp empty
    rw [c.output_write, none, List.append_nil, List.append_nil]
  · exact (List.append_nil _).symm

/-- The coder adds what it answers to have taken, be that behind the stage or past it. -/
theorem accept_keeps (coder : BinaryCoder) (stage : Stage) (bytes : List UInt8) (hint : Nat)
    (ch : Option ι) (c : Chronicle ι σ) :
    (accept coder stage bytes hint ch c).2.2.2.output ++ (accept coder stage bytes hint ch c).2.2.1.bytes =
      c.output ++ stage.bytes ++ takenOf bytes (accept coder stage bytes hint ch c).1 := by
  have room := makeRoom_keeps stage hint ch c
  unfold accept
  split
  · rw [put_keeps, List.append_assoc]
  · split
    next refused =>
      rw [refused] at room
      exact room.trans (List.append_nil _).symm
    next stage c' made =>
      rw [made] at room
      have passed := passBy_keeps stage bytes ch c'
      split
      next refused =>
        rw [refused] at passed
        exact passed.trans (by rw [room])
      next answered =>
        rw [answered] at passed
        split
        · exact (congrArg (· ++ _) (Chronicle.output_requestOutput ch _)).trans (passed.trans (by rw [room]))
        · exact passed.trans (by rw [room])

private theorem accept_le (honest : Honest ι σ) (coder : BinaryCoder) (stage : Stage) (bytes : List UInt8)
    (hint : Nat) (ch : Option ι) (c : Chronicle ι σ) (n : Nat)
    (h : (accept coder stage bytes hint ch c).1 = .ok n) : n ≤ bytes.length := by
  unfold accept at h
  split at h
  · obtain rfl : min stage.remaining bytes.length = n := Except.ok.inj h
    exact Nat.min_le_right _ _
  · split at h
    · cases h
    next stage c' made =>
      split at h
      · cases h
      next taken c'' answered =>
        have bound : taken ≤ bytes.length := by
          unfold passBy at answered
          split at answered
          · exact honest.chronicle ch bytes c' taken (congrArg Prod.fst answered)
          · obtain rfl : 0 = taken := Except.ok.inj (congrArg Prod.fst answered)
            exact Nat.zero_le _
        have same : taken = n := by split at h <;> exact Except.ok.inj h
        exact same ▸ bound

end BinaryCoder

namespace Core

/-- What the channels took, and behind it what is staged. -/
def held (core : Core γ ι) (c : Chronicle ι σ) : List UInt8 := c.output ++ core.stage.bytes

theorem write_keeps (core : Core BinaryCoder ι) (hint : Nat) (data : List UInt8) (c : Chronicle ι σ) :
    (core.write hint data c).2.1.held (core.write hint data c).2.2 =
      core.held c ++ takenOf data (core.write hint data c).1 := by
  unfold write
  split
  · exact BinaryCoder.accept_keeps core.coder core.stage data hint core.channel c
  · exact (List.append_nil _).symm

private theorem write_le (honest : Honest ι σ) (core : Core BinaryCoder ι) (hint : Nat) (data : List UInt8)
    (c : Chronicle ι σ) (n : Nat) (h : (core.write hint data c).1 = .ok n) : n ≤ data.length := by
  unfold write at h
  split at h
  · exact BinaryCoder.accept_le honest core.coder core.stage data hint core.channel c n h
  · cases h

theorem drain_keeps {κ : Type} [Coder γ κ] (core : Core γ ι) (hint : Nat) (ch : ι) (c : Chronicle ι σ) :
    (core.drain hint ch c).2.1.held (core.drain hint ch c).2.2 = core.held c := by
  simp only [drain]
  split
  · exact core.stage.flushTo_keeps (some ch) c
  · rfl

theorem signal_keeps (core : Core γ ι) (ch : ι) (c : Chronicle ι σ) :
    (core.signal ch c).2.1.held (core.signal ch c).2.2 = core.held c := by
  have ended := c.output_endStream (some ch) none
  unfold signal
  split
  · split
    all_goals
      next told =>
        rw [show Transport.endStream (some ch) none c = _ from told] at ended
        exact congrArg (· ++ core.stage.bytes) ended
  · split
    · rfl
    · exact congrArg (· ++ core.stage.bytes) (c.output_requestOutput (some ch))

omit [Transport ι σ] in
@[simp] theorem held_endStream (core : Core γ ι) (c : Chronicle ι σ) :
    core.endStream.held c = core.held c := by
  unfold endStream
  split
  · rfl
  · rfl

omit [Transport ι σ] in
private theorem finishCoding_keeps (core : Core BinaryCoder ι) (c : Chronicle ι σ) :
    core.finishCoding.2.held c = core.held c := by
  unfold finishCoding
  split
  · rfl
  · rfl

/-- The end of a turn moves bytes, whatever comes of it. -/
theorem closeTurn_keeps (core : Core BinaryCoder ι) (hint : Nat) (ch : ι) (c : Chronicle ι σ) :
    (core.closeTurn hint ch c).2.1.held (core.closeTurn hint ch c).2.2 = core.held c := by
  have coded := core.finishCoding_keeps c
  unfold closeTurn
  split
  · rfl
  · split
    next failed =>
      rw [failed] at coded
      exact coded
    next core' passed =>
      rw [passed] at coded
      have drained := core'.drain_keeps hint ch c
      split
      next failed =>
        rw [failed] at drained
        exact drained.trans coded
      next core'' c' passed =>
        rw [passed] at drained
        exact (core''.signal_keeps ch c').trans (drained.trans coded)

end Core

namespace CoreRun

/-- The channels took the bytes of the writes up to those that are still staged, and no write was
credited for more than it brought. -/
structure Balanced (l : CoreRun BinaryCoder (List UInt8) ι σ) : Prop where
  kept : l.core.held l.channels = credited l.writes
  within : ∀ w ∈ l.writes, ∀ n, w.result = .ok n → n ≤ w.data.length

omit [Transport ι σ] in
private theorem balanced_initial (capacity : Nat) (world : σ) :
    (initial capacity .initial world : CoreRun BinaryCoder (List UInt8) ι σ).Balanced :=
  ⟨rfl, fun _ h => absurd h List.not_mem_nil⟩

private theorem Balanced.perform (honest : Honest ι σ) (hint : Nat) (l : CoreRun BinaryCoder (List UInt8) ι σ)
    (h : l.Balanced) (s : Section (List UInt8) ι σ) : (l.perform hint s).Balanced := by
  cases s with
  | openTurn ch => exact ⟨h.kept, h.within⟩
  | write data =>
    constructor
    · rw [CoreRun.perform, credited_append, credited_one, ← h.kept]
      exact l.core.write_keeps hint data l.channels
    · intro w hw n hn
      rcases List.mem_append.mp hw with old | new
      · exact h.within w old n hn
      · obtain rfl := List.mem_singleton.mp new
        exact l.core.write_le honest hint data l.channels n hn
  | endStream => exact ⟨(l.core.held_endStream l.channels).trans h.kept, h.within⟩
  | closeTurn ch => exact ⟨(l.core.closeTurn_keeps hint ch l.channels).trans h.kept, h.within⟩
  | ask ch => exact ⟨(congrArg (· ++ _) (l.channels.output_requestOutput ch)).trans h.kept, h.within⟩
  | release => exact balanced_initial l.core.stage.capacity l.channels.world
  | become world => exact ⟨h.kept, h.within⟩

private theorem balanced_run (honest : Honest ι σ) (capacity hint : Nat) (world : σ)
    (sections : List (Section (List UInt8) ι σ)) :
    ((initial capacity .initial world : CoreRun BinaryCoder _ ι σ).run hint sections).Balanced :=
  run_induction hint (Balanced.perform honest hint) sections _ (balanced_initial capacity world)

end CoreRun

/-- Whatever turns and handles do in whatever order, the output and the stage behind it hold the
prefixes that writes were credited for. A write that fails adds nothing, and a turn adds what the
writes of its source were credited for, whether it fails or not. -/
theorem producer_conserves {τ : Type} [Source τ (List UInt8)] (honest : Honest ι σ)
    (capacity hint : Nat) (world : σ) (sections : List (Section (List UInt8) ι σ)) :
    let l := (CoreRun.initial capacity BinaryCoder.initial world).run hint sections
    l.Balanced ∧
    ∀ p : Producer BinaryCoder ι τ, p.core = l.core → p.hint = hint →
      (∀ data, let (result, q, c) := p.write data l.channels
        q.core.held c = p.core.held l.channels ++ takenOf data result) ∧
      (∀ ch, let (_, q, c) := p.produce ch l.channels
        q.core.held c = p.core.held l.channels ++ credited (p.writes ch l.channels)) := by
  intro l
  have balanced : ∀ more, (l.run hint more).Balanced := by
    intro more
    rw [← CoreRun.run_append]
    exact CoreRun.balanced_run honest capacity hint world (sections ++ more)
  refine ⟨balanced [], ?_⟩
  rintro p hp rfl
  have now : p.core.held l.channels = credited l.writes := hp ▸ (balanced []).kept
  constructor
  · intro data
    obtain ⟨more, hm⟩ := p.write_sections data l hp
    have kept := (balanced more).kept
    rw [hm, credited_append, credited_one, ← now] at kept
    exact kept
  · intro ch
    obtain ⟨more, hm⟩ := p.produce_sections ch l hp
    have kept := (balanced more).kept
    rw [hm, credited_append, ← now] at kept
    exact kept

/-- A window takes a prefix or refuses. -/
theorem window_honest : Honest Unit Window := by
  intro ch bytes w n h
  change (w.write bytes).1 = .ok n at h
  unfold Window.write at h
  split at h
  · cases h
  · obtain rfl := Except.ok.inj h
    exact Nat.min_le_right _ _

/-- Three bytes are staged, four more find the window too small for both, and in the next turn the
source fails behind its write. -/
theorem producer_conserves_window :
    let l := (CoreRun.initial 4 BinaryCoder.initial (Window.ofSize 5)).run 2
      [.openTurn (), .write [1, 2, 3], .write [4, 5, 6, 7], .closeTurn ()]
    let p : Producer BinaryCoder Unit (Script (List UInt8)) :=
      ⟨l.core, .ofActions [.write [6, 7], .fail "broken"], 2, none⟩
    Honest Unit Window ∧ l.Balanced ∧
      (p.produce () l.channels).2.1.core.held (p.produce () l.channels).2.2 = [1, 2, 3, 4, 5, 6, 7] := by
  intro l p
  obtain ⟨balanced, calls⟩ := producer_conserves (τ := Script (List UInt8)) window_honest 4 2
    (Window.ofSize 5) [.openTurn (), .write [1, 2, 3], .write [4, 5, 6, 7], .closeTurn ()]
  have turn := (calls p rfl rfl).2 ()
  exact ⟨window_honest, balanced, turn.trans (by decide)⟩

end Sluice
