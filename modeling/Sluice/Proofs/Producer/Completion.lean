import Sluice.Bench.Recorder
import Sluice.Proofs.Producer.Progress
import Sluice.Proofs.Producer.Conservation

/-! A producer of bytes always comes to its end. Whatever the stage and the hint are, a write that is refused
leaves bytes staged that go out when the turn ends, or bytes have gone out before it was refused. -/
namespace Sluice

variable {ι σ : Type} [Transport ι σ]

namespace BinaryCoder

private theorem makeRoom_obliging (stage : Stage) (hint : Nat) (ch : ι) {c : Chronicle ι σ}
    (obliging : (makeRoom stage hint (some ch) c).2.2.Obliging) :
    (makeRoom stage hint (some ch) c).1 = .ok () ∧
    (makeRoom stage hint (some ch) c).2.1.capacity = stage.capacity ∧
    (makeRoom stage hint (some ch) c).2.1.length ≤ stage.length := by
  simp only [makeRoom] at obliging ⊢
  split
  next due =>
    rw [if_pos due] at obliging
    obtain ⟨⟨n, flushed⟩, _⟩ := stage.flushTo_obliging ch obliging
    change (stage.flushTo (some ch) c).1 = .ok n at flushed
    rw [flushed]
    exact ⟨rfl, stage.flushTo_sized ch c⟩
  · exact ⟨rfl, rfl, Nat.le_refl _⟩

private theorem passBy_obliging (stage : Stage) {bytes : List UInt8} (any : bytes ≠ []) (ch : ι) {c : Chronicle ι σ}
    (obliging : (passBy stage bytes (some ch) c).2.Obliging) :
    ∃ n, (passBy stage bytes (some ch) c).1 = .ok n ∧
      (c.output.length < (passBy stage bytes (some ch) c).2.output.length ∨ stage.bytes ≠ [] ∧ n = 0) := by
  simp only [passBy] at obliging ⊢
  split
  next empty =>
    rw [if_pos empty] at obliging
    have obliging : (Transport.write ch bytes c).2.Obliging := obliging
    obtain ⟨n, answered, _, _⟩ := obliging.write any
    exact ⟨n, answered, .inl (obliging.write_grows any)⟩
  next loaded => exact ⟨0, rfl, .inr ⟨fun none => loaded (List.isEmpty_iff.mpr none), rfl⟩⟩

/-- Once room is made, bytes have gone out or the stage still holds some. -/
private theorem passBy_behind {stage stage' : Stage} {bytes : List UInt8} (any : bytes ≠ []) {hint : Nat} {ch : ι}
    {c c' c'' : Chronicle ι σ} {answer : Except Fault Nat}
    (made : makeRoom stage hint (some ch) c = (.ok (), stage', c'))
    (offered : passBy stage' bytes (some ch) c' = (answer, c'')) (obliging : c''.Obliging) :
    stage'.capacity = stage.capacity ∧ stage'.length ≤ stage.length ∧
      ∃ n, answer = .ok n ∧ (c.output.length < c''.output.length ∨ stage'.bytes ≠ [] ∧ n = 0) := by
  have room := makeRoom_obliging stage hint ch (c := c)
  have before := (makeRoom_reaches stage hint (some ch) c).grows
  have passed := passBy_obliging stage' any ch (c := c')
  have later := (passBy_reaches stage' bytes (some ch) c').grows
  rw [made] at room before
  rw [offered] at passed later
  obtain ⟨_, sized, less⟩ := room (obliging.before later)
  obtain ⟨n, answered, through⟩ := passed obliging
  exact ⟨sized, less, n, answered, through.imp_left (Nat.lt_of_le_of_lt before.output.length_le)⟩

private theorem accept_tight (coder : BinaryCoder) {stage : Stage} {bytes : List UInt8}
    (tight : ¬ bytes.length ≤ stage.remaining) (hint : Nat) (ch : ι) {c : Chronicle ι σ}
    (obliging : (accept coder stage bytes hint (some ch) c).2.2.2.Obliging) :
    let after := accept coder stage bytes hint (some ch) c
    after.2.2.1.capacity = stage.capacity ∧ after.2.2.1.length ≤ stage.length ∧
    ∃ n, after.1 = .ok n ∧ (n < bytes.length →
      c.output.length < after.2.2.2.output.length ∨ after.2.1.deferred = true ∧ after.2.2.1.bytes ≠ []) := by
  have any : bytes ≠ [] := by
    rintro rfl
    exact tight (Nat.zero_le _)
  simp only [accept, if_neg tight] at obliging ⊢
  cases made : makeRoom stage hint (some ch) c with
  | mk result rest =>
    obtain ⟨stage', c'⟩ := rest
    rw [made] at obliging
    cases result with
    | error fault =>
      have passed : (makeRoom stage hint (some ch) c).1 = .ok () :=
        (makeRoom_obliging stage hint ch (made ▸ obliging)).1
      rw [made] at passed
      cases passed
    | ok done =>
      cases offered : passBy stage' bytes (some ch) c' with
      | mk answer c'' =>
        simp only [offered] at obliging ⊢
        cases answer with
        | error fault =>
          obtain ⟨_, _, n, answered, _⟩ := passBy_behind any made offered obliging
          cases answered
        | ok taken =>
          -- whether the channel is asked for another turn makes no difference to what it took
          have asked := c''.output_requestOutput (some ch)
          have obliging : c''.Obliging := by
            dsimp only at obliging
            split at obliging
            · exact obliging.before (Reaches.of_requestOutput (some ch) c'').grows
            · exact obliging
          obtain ⟨sized, less, n, answered, gone⟩ := passBy_behind any made offered obliging
          obtain rfl : taken = n := Except.ok.inj answered
          dsimp only
          split
          · refine ⟨sized, less, taken, rfl, fun _ => ?_⟩
            rw [asked]
            refine gone.imp_right fun waits => ⟨?_, waits.1⟩
            simp [waits.2]
          next whole => exact ⟨sized, less, taken, rfl, fun short => absurd (.inr short) whole⟩

/-- What the coder does with bytes in front of an obliging channel. If it does not take all of them, bytes have
gone out, or there are bytes in the stage that it wants to be flushed. -/
theorem accept_obliging (coder : BinaryCoder) {stage : Stage} {capacity : Nat} (sized : stage.capacity = capacity)
    (within : stage.length ≤ capacity) (bytes : List UInt8) (hint : Nat) (ch : ι) {c : Chronicle ι σ}
    (obliging : (accept coder stage bytes hint (some ch) c).2.2.2.Obliging) :
    let after := accept coder stage bytes hint (some ch) c
    after.2.2.1.capacity = capacity ∧ after.2.2.1.length ≤ capacity ∧
    ∃ n, after.1 = .ok n ∧ (n < bytes.length →
      c.output.length < after.2.2.2.output.length ∨ after.2.1.deferred = true ∧ after.2.2.1.bytes ≠ []) := by
  by_cases fits : bytes.length ≤ stage.remaining
  · have whole : (stage.put bytes).1 = bytes.length := Nat.min_eq_right fits
    simp only [accept, if_pos fits]
    refine ⟨sized, ?_, _, rfl, fun short => absurd whole (Nat.ne_of_lt short)⟩
    simp only [Stage.put, Stage.length, Stage.remaining, List.length_append, List.length_take] at fits within ⊢
    omega
  · obtain ⟨sized', less, taken⟩ := accept_tight coder fits hint ch obliging
    exact ⟨sized'.trans sized, Nat.le_trans less within, taken⟩

/-- Whether the chunks that are still to come complete what is held to a body. -/
def Completes (body : List UInt8) (rest : List (List UInt8)) (_ : BinaryCoder) (held : List UInt8) : Prop :=
  held ++ rest.flatten = body

/-- The coder of bytes always comes on with the chunks of a body, whatever the goal. -/
theorem coderProgress (body : List UInt8) (capacity goal : Nat) : CoderProgress capacity goal (Completes body) where
  accept {ι σ} _ {coder stage chunk rest} hint {ch c} sized within stands obliging := by
    obtain ⟨sized', within', n, answered, short⟩ := accept_obliging coder sized within chunk hint ch obliging
    have kept : _ = _ ++ takenOf chunk _ := accept_keeps coder stage chunk hint (some ch) c
    rw [answered, takenOf] at kept
    have stands : c.output ++ stage.bytes ++ (chunk ++ rest.flatten) = body := stands
    refine ⟨sized', within', n, answered, ?_⟩
    split
    next part =>
      refine ⟨?_, ?_⟩
      · calc
          _ = c.output ++ stage.bytes ++ chunk.take n ++ (chunk.drop n ++ rest.flatten) :=
            congrArg (· ++ (chunk.drop n ++ rest.flatten)) kept
          _ = c.output ++ stage.bytes ++ (chunk ++ rest.flatten) := by
            rw [List.append_assoc, ← List.append_assoc (chunk.take n), List.take_append_drop]
          _ = body := stands
      · rcases short part with out | ⟨wants, loaded⟩
        · exact .inl out
        · exact .inr ⟨wants, fun none => absurd none loaded⟩
    next whole =>
      rw [List.take_of_length_le (Nat.le_of_not_lt whole)] at kept
      calc
        _ = c.output ++ stage.bytes ++ chunk ++ rest.flatten := congrArg (· ++ rest.flatten) kept
        _ = c.output ++ stage.bytes ++ (chunk ++ rest.flatten) := List.append_assoc _ _ _
        _ = body := stands
  finish _ _ := rfl
  forgets stands := stands

end BinaryCoder

/-- With chunks of any sizes, a stage and a hint of any size, and channels that take at least one byte of all
they are offered: a producer of bytes tells a channel of the end in one turn more than there are bytes at
the latest. Until then all turns succeed, and then exactly the chunks have gone out. -/
theorem binary_producer_finishes (settings : ProducerSettings) (contentType : Option MediaType)
    (chunks : List (List UInt8)) (p : Producer BinaryCoder ι (Script (List UInt8)))
    (made : Producer.binary settings contentType (Script.ofActions (Script.supply chunks)) = .ok p) (world : σ)
    (chs : List ι) (obliging : (p.turns chs (Chronicle.start (ι := ι) world)).2.2.Obliging) :
    let after := p.turns chs (Chronicle.start (ι := ι) world)
    (after.2.2.told = false → ∀ result ∈ after.1, result = .ok ()) ∧
    (after.2.2.told = true → after.2.2.output = chunks.flatten) ∧
    (chunks.flatten.length < chs.length → after.2.2.told = true) := by
  intro after
  have fresh : BinaryCoder.Completes chunks.flatten chunks .initial [] := rfl
  have start := Producer.underway_start made fresh world
  have coderProgress := BinaryCoder.coderProgress chunks.flatten settings.bufferSize (chunks.flatten.length + 1)
  rcases start.turns coderProgress obliging with arrived | ⟨passed, ⟨rest, underway, _⟩, far⟩
  · refine ⟨fun untold => ?_, fun _ => ?_, fun _ => arrived.told⟩
    · exact absurd arrived.told (Bool.eq_false_iff.mp untold)
    · have whole : after.2.2.output ++ [] = chunks.flatten := arrived.stands
      rwa [List.append_nil] at whole
  · have whole : after.2.2.output ++ after.2.1.core.stage.bytes ++ rest.flatten = chunks.flatten := underway.stands
    have bound : after.2.2.output.length ≤ chunks.flatten.length := by
      rw [← whole, List.append_assoc, List.length_append]
      exact Nat.le_add_right _ _
    refine ⟨fun _ => passed, fun told => ?_, fun enough => ?_⟩
    · exact absurd told (Bool.eq_false_iff.mp underway.untold)
    · have far : 0 + chs.length ≤ after.2.2.output.length ∨ chunks.flatten.length + 1 ≤ after.2.2.output.length := far
      omega

/-- Five bytes in three chunks, a stage for two bytes, a hint above that, and a channel that takes them one by
one. -/
theorem binary_producer_finishes_bytewise :
    let settings : ProducerSettings := ⟨2, some 5⟩
    let chunks : List (List UInt8) := [[1, 2, 3], [], [4, 5]]
    let p : Producer BinaryCoder Nat (Script (List UInt8)) :=
      ⟨.initial 2 .initial, .ofActions (Script.supply chunks), 5, none⟩
    let world : List FaultyRecorder := [⟨.withLimit (some 1), ⟨false, false, 0⟩⟩]
    let turns := List.replicate 6 0
    Producer.binary settings none (Script.ofActions (Script.supply chunks)) = .ok p ∧
      (p.turns turns (Chronicle.start (ι := Nat) world)).2.2.Obliging ∧
      (p.turns turns (Chronicle.start (ι := Nat) world)).2.2.told = true ∧
      (p.turns turns (Chronicle.start (ι := Nat) world)).2.2.output = [1, 2, 3, 4, 5] := by
  intro settings chunks p world turns
  have obliging : (p.turns turns (Chronicle.start (ι := Nat) world)).2.2.Obliging := by decide +kernel
  have law := binary_producer_finishes settings none chunks p rfl world turns obliging
  have told := law.2.2 (by decide)
  exact ⟨rfl, obliging, told, law.2.1 told⟩

end Sluice
