import Sluice.Bench.Recorder
import Sluice.Proofs.Outlet.AfterAbort

/-! The end of an outlet among any number of callers. One call tells a channel of it, and the outlet
remembers that it was made, whether or not it has succeeded. -/
namespace Sluice

variable {ι σ : Type}

/-- The calls that tell a channel of the end, and be it in vain. -/
def Chronicle.ends (c : Chronicle ι σ) : List (Deed ι) := c.deeds.filter Deed.tellsEnd

namespace Outlet

variable [Transport ι σ] {outlet : Outlet ι} {ch : ι} {c : Chronicle ι σ}

/-- Whether a channel takes all that an outlet holds. -/
def Empties (outlet : Outlet ι) (ch : ι) (world : σ) : Prop :=
  outlet.conduit.bytes = [] ∨
    ∃ n, (Transport.write ch outlet.conduit.bytes world).1 = .ok n ∧ outlet.conduit.bytes.length ≤ n

/-- What makes a flush tell a channel of the end: the outlet is complete and not aborted, nobody was told
before, and the channel takes all that is left. -/
structure Concludes (outlet : Outlet ι) (ch : ι) (world : σ) : Prop where
  live : outlet.conduit.aborted = false
  complete : outlet.conduit.ended = true
  untold : outlet.signalled = false
  empties : outlet.Empties ch world

/-- What a drain does to an outlet whose end is still to come or behind it. It tells nobody, and it succeeds
and leaves nothing exactly if the channel takes all. -/
structure DrainsSilently (outlet : Outlet ι) (ch : ι) (c : Chronicle ι σ) (result : Except Fault Unit)
    (outlet' : Outlet ι) (c' : Chronicle ι σ) : Prop where
  ends : c'.ends = c.ends
  signalled : outlet'.signalled = outlet.signalled
  ended : outlet'.conduit.ended = outlet.conduit.ended
  empty : result = .ok () ∧ outlet'.conduit.bytes = [] ↔ outlet.Empties ch c.world

private theorem drain_silent (outlet : Outlet ι) (ch : ι) (c : Chronicle ι σ) :
    outlet.DrainsSilently ch c (outlet.drain ch c).1 (outlet.drain ch c).2.1 (outlet.drain ch c).2.2 := by
  have quiet : (Transport.write ch outlet.conduit.bytes c).2.ends = c.ends := by
    simp [Chronicle.ends, Transport.write, Deed.tellsEnd]
  have answered : (Transport.write ch outlet.conduit.bytes c).1 =
    (Transport.write ch outlet.conduit.bytes c.world).1 := rfl
  simp only [drain]
  split
  next empty =>
    have empty := List.isEmpty_iff.mp empty
    exact ⟨rfl, rfl, rfl, iff_of_true ⟨rfl, empty⟩ (.inl empty)⟩
  next loaded =>
    have loaded : outlet.conduit.bytes ≠ [] := fun empty => loaded (List.isEmpty_iff.mpr empty)
    split
    next failed =>
      rw [failed] at quiet answered
      refine ⟨quiet, rfl, rfl, iff_of_false (fun passed => nomatch passed.1) ?_⟩
      rintro (empty | ⟨n, taken, _⟩)
      · exact loaded empty
      · cases answered.trans taken
    next n c' taken =>
      rw [taken] at quiet answered
      have takes : outlet.Empties ch c.world ↔ outlet.conduit.bytes.length ≤ n := by
        constructor
        · rintro (empty | ⟨m, taken, all⟩)
          · exact absurd empty loaded
          · cases answered.trans taken
            exact all
        · exact fun all => .inr ⟨n, answered.symm, all⟩
      refine ⟨quiet, rfl, ?_, ?_⟩
      · dsimp only
        split <;> rfl
      · rw [takes, ← List.drop_eq_nil_iff]
        dsimp only
        split
        · exact and_iff_right rfl
        · exact and_iff_right rfl

/-- A flush that has all it takes tells the channel of the end, after all else, and answers what the channel
did. The outlet remembers the call. -/
theorem Concludes.tells (h : outlet.Concludes ch c.world) :
    (outlet.flush ch c).2.1.signalled = true ∧
    ((outlet.flush ch c).2.1.conduit.ended = true ∧ (outlet.flush ch c).2.1.conduit.bytes = []) ∧
    (outlet.flush ch c).2.2.ends = c.ends ++ [.ended ch (outlet.flush ch c).1] ∧
    (outlet.flush ch c).2.2.deeds.getLast? = some (.ended ch (outlet.flush ch c).1) := by
  have drains := drain_silent { outlet with channel := some ch } ch c
  obtain ⟨passed, empty⟩ := drains.empty.mpr h.empties
  simp only [flush, h.live, Bool.false_eq_true, if_false]
  split
  next failed =>
    rw [failed] at passed
    cases passed
  next outlet' c' drained =>
    rw [drained] at drains empty
    have due : outlet'.conduit.bytes.isEmpty = true ∧ outlet'.conduit.ended = true ∧ ¬ outlet'.signalled = true :=
      ⟨List.isEmpty_iff.mpr empty, drains.ended.trans h.complete,
        Bool.eq_false_iff.mp (drains.signalled.trans h.untold)⟩
    have told : (Transport.endStream ch none c').2.deeds =
      c'.deeds ++ [.ended ch (Transport.endStream ch none c').1] := rfl
    simp only [signal, if_pos due]
    refine ⟨trivial, ⟨drains.ended.trans h.complete, empty⟩, ?_, ?_⟩
    · rw [Chronicle.ends, told, List.filter_append, ← drains.ends]
      rfl
    · rw [told]
      exact List.getLast?_concat

private theorem flush_tells_nobody (open' : ¬ outlet.Concludes ch c.world) :
    (outlet.flush ch c).2.1.signalled = outlet.signalled ∧ (outlet.flush ch c).2.2.ends = c.ends := by
  have drains := drain_silent { outlet with channel := some ch } ch c
  simp only [flush]
  split
  · exact ⟨rfl, rfl⟩
  next live =>
    split
    next drained =>
      rw [drained] at drains
      exact ⟨drains.signalled, drains.ends⟩
    next outlet' c' drained =>
      rw [drained] at drains
      have idle : ¬ (outlet'.conduit.bytes.isEmpty = true ∧ outlet'.conduit.ended = true ∧
          ¬ outlet'.signalled = true) := by
        rintro ⟨empty, ended, untold⟩
        refine open' ⟨Bool.eq_false_iff.mpr live, drains.ended.symm.trans ended, ?_, ?_⟩
        · exact drains.signalled.symm.trans (Bool.eq_false_iff.mpr untold)
        · exact drains.empty.mp ⟨rfl, List.isEmpty_iff.mp empty⟩
      simp only [signal, if_neg idle]
      exact ⟨drains.signalled, drains.ends⟩

omit [Transport ι σ] in
private theorem complete_keeps (outlet : Outlet ι) : outlet.complete.2.signalled = outlet.signalled ∧
    outlet.complete.2.conduit.bytes = outlet.conduit.bytes ∧
    (outlet.conduit.ended = true → outlet.complete.2.conduit.ended = true) := by
  simp only [complete]
  split
  · exact ⟨rfl, rfl, id⟩
  · split
    · exact ⟨rfl, rfl, id⟩
    · exact ⟨rfl, rfl, fun _ => rfl⟩

private theorem flush_behind_end (live : outlet.conduit.aborted = false) (empty : outlet.conduit.bytes = [])
    (told : outlet.signalled = true) :
    outlet.flush ch c = (.ok (), { outlet with channel := some ch }, c) := by
  simp [flush, live, drain, empty, signal, told]

end Outlet

private theorem OutletCall.step_complete [Transport ι σ] (call : OutletCall ι) (outlet : Outlet ι) (s : σ) :
    (call.step outlet s).2.1.signalled = outlet.signalled ∧
    (outlet.conduit.ended = true → (call.step outlet s).2.1 = outlet) := by
  cases call with
  | writing w =>
    obtain ⟨piece, moves⟩ := w.step_moves outlet s
    change (w.step outlet s).2.2.1.signalled = outlet.signalled ∧
      (outlet.conduit.ended = true → (w.step outlet s).2.2.1 = outlet)
    rw [moves.put]
    refine ⟨rfl, fun ended => ?_⟩
    have none : piece = [] := Decidable.byContradiction fun some =>
      absurd ended (Bool.eq_false_iff.mp (moves.going some).2)
    rw [none, List.append_nil]
  | _ => exact ⟨rfl, fun _ => rfl⟩

namespace SharedOutlet

/-- What holds of an outlet and the record of its channels: it remembers whether somebody was told of the
end, which happens once at the most, and behind the end there is nothing left. -/
structure Mindful (q : SharedOutlet ι σ) : Prop where
  told : q.record.ends.length = q.outlet.signalled.toNat
  empty : q.outlet.signalled = true → q.outlet.conduit.ended = true ∧ q.outlet.conduit.bytes = []

private theorem mindful_start {settings : BufferSettings} {outlet : Outlet ι}
    (made : Outlet.ofSettings settings = .ok outlet) (world : σ) : (start outlet world).Mindful := by
  obtain rfl := Outlet.ofSettings_ok made
  exact ⟨rfl, nofun⟩

variable [Transport ι σ] {q : SharedOutlet ι σ}

omit [Transport ι σ] in
private theorem Mindful.beside (h : q.Mindful) {q' : SharedOutlet ι σ} (ends : q'.record.ends = q.record.ends)
    (signalled : q'.outlet.signalled = q.outlet.signalled)
    (behind : q.outlet.conduit.ended = true → q.outlet.conduit.bytes = [] →
      q'.outlet.conduit.ended = true ∧ q'.outlet.conduit.bytes = []) : q'.Mindful := by
  refine ⟨?_, fun told => ?_⟩
  · rw [ends, signalled]
    exact h.told
  · obtain ⟨ended, empty⟩ := h.empty (signalled.symm.trans told)
    exact behind ended empty

private theorem ends_requestOutput (known : Option ι) (c : Chronicle ι σ) :
    (Transport.requestOutput known c).ends = c.ends := by
  cases known with
  | none => rfl
  | some ch => simp [Chronicle.ends, Transport.requestOutput, Deed.tellsEnd]

private theorem Mindful.flush (h : q.Mindful) (ch : ι) : (q.step (.flush ch)).Mindful := by
  by_cases due : q.outlet.Concludes ch q.record.world
  · obtain ⟨signalled, gone, ends, _⟩ := due.tells (c := q.record)
    have before : q.record.ends.length = 0 := by
      rw [h.told, due.untold]
      rfl
    refine ⟨?_, fun _ => gone⟩
    simp only [SharedOutlet.step]
    rw [signalled, ends, List.length_append, before]
    rfl
  · obtain ⟨signalled, ends⟩ := Outlet.flush_tells_nobody (c := q.record) due
    refine h.beside ends signalled fun ended empty => ?_
    rcases q.outlet.flush_conduit ch q.record with same | ⟨n, _, loaded, _⟩
    · simp only [SharedOutlet.step]
      rw [same]
      exact ⟨ended, empty⟩
    · exact absurd empty loaded

theorem Mindful.step (h : q.Mindful) (move : Move ι σ) : (q.step move).Mindful := by
  cases move with
  | complete =>
    have section' : (q.step .complete).outlet = q.outlet.complete.2 ∧ (q.step .complete).record = q.record := by
      simp only [SharedOutlet.step]
      split
      next refused => exact ⟨(congrArg Prod.snd refused).symm, rfl⟩
      next passed => exact ⟨(congrArg Prod.snd passed).symm, rfl⟩
    refine h.beside (congrArg Chronicle.ends section'.2) ?_ ?_
    · rw [section'.1]
      exact q.outlet.complete_keeps.1
    · rw [section'.1, q.outlet.complete_keeps.2.1]
      exact fun ended empty => ⟨q.outlet.complete_keeps.2.2 ended, empty⟩
  | flush ch => exact h.flush ch
  | abort =>
    refine h.beside rfl ?_ ?_
    · simp only [SharedOutlet.step, Outlet.abort]
      split <;> rfl
    · intro ended empty
      simp only [SharedOutlet.step, Outlet.abort]
      split
      · exact ⟨ended, empty⟩
      · exact ⟨ended, rfl⟩
  | work place =>
    simp only [SharedOutlet.step]
    split
    · exact h
    next call flight =>
      obtain ⟨known, asks⟩ := call.step_asks q.outlet q.record
      obtain ⟨signalled, still⟩ := call.step_complete q.outlet q.record
      refine h.beside ((congrArg Chronicle.ends asks).trans (ends_requestOutput known q.record)) signalled ?_
      intro ended empty
      simp only [still ended]
      exact ⟨ended, empty⟩
  | timeOut place =>
    simp only [SharedOutlet.step]
    split
    · exact h
    · exact h.beside rfl rfl fun ended empty => ⟨ended, empty⟩
  | write src => exact h.beside rfl rfl fun ended empty => ⟨ended, empty⟩
  | become world => exact h.beside rfl rfl fun ended empty => ⟨ended, empty⟩

theorem Mindful.run (h : q.Mindful) (moves : List (Move ι σ)) : (q.run moves).Mindful := by
  induction moves generalizing q with
  | nil => exact h
  | cons move rest ih => exact ih (h.step move)

omit [Transport ι σ] in
private theorem Mindful.truthful_iff (h : q.Mindful) :
    (q.outlet.signalled = true ↔ ∃ ch, .ended ch (.ok ()) ∈ q.record.ends) ↔
      ∀ ch fault, .ended ch (.error fault) ∉ q.record.ends := by
  have told := h.told
  cases signalled : q.outlet.signalled with
  | false =>
    rw [signalled] at told
    have none : q.record.ends = [] := List.length_eq_zero_iff.mp told
    simp [none]
  | true =>
    rw [signalled] at told
    obtain ⟨deed, only⟩ := List.length_eq_one_iff.mp told
    have tells : deed.tellsEnd = true :=
      (List.mem_filter.mp (only ▸ List.mem_singleton_self deed : deed ∈ q.record.ends)).2
    cases deed with
    | ended ch result =>
      cases result with
      | ok _ => simp [only]
      | error fault => simp [only]
    | _ => cases tells

end SharedOutlet

/-- One flush at the most tells a channel of the end of an outlet, whoever writes to it and in whatever order
things happen. The outlet remembers that flush, even if it has failed: then no channel is told of the end any
more, and flushes succeed all the same. -/
theorem end_told_once [Transport ι σ] (settings : BufferSettings) (outlet : Outlet ι)
    (made : Outlet.ofSettings settings = .ok outlet) (world : σ) (moves : List (SharedOutlet.Move ι σ)) :
    let q := (SharedOutlet.start outlet world).run moves
    q.record.ends.length = q.outlet.signalled.toNat ∧
    ((q.outlet.signalled = true ↔ ∃ ch, .ended ch (.ok ()) ∈ q.record.ends) ↔
      ∀ ch fault, .ended ch (.error fault) ∉ q.record.ends) ∧
    ∀ ch, let r := q.step (.flush ch)
      (r.outlet.signalled = true ↔ q.outlet.signalled = true ∨ q.outlet.Concludes ch q.record.world) ∧
      (q.outlet.Concludes ch q.record.world → r.record.ends = [.ended ch (q.outlet.flush ch q.record).1] ∧
        r.record.deeds.getLast? = some (.ended ch (q.outlet.flush ch q.record).1)) ∧
      (q.outlet.signalled = true → q.outlet.conduit.aborted = false →
        q.outlet.flush ch q.record = (.ok (), { q.outlet with channel := some ch }, q.record)) := by
  intro q
  have mindful : q.Mindful := (SharedOutlet.mindful_start made world).run moves
  refine ⟨mindful.told, mindful.truthful_iff, fun ch => ?_⟩
  have signals : (q.outlet.flush ch q.record).2.1.signalled = true ↔
      q.outlet.signalled = true ∨ q.outlet.Concludes ch q.record.world := by
    by_cases due : q.outlet.Concludes ch q.record.world
    · exact iff_of_true due.tells.1 (.inr due)
    · rw [(Outlet.flush_tells_nobody (c := q.record) due).1, or_iff_left due]
  have tells : q.outlet.Concludes ch q.record.world →
      (q.outlet.flush ch q.record).2.2.ends = [.ended ch (q.outlet.flush ch q.record).1] ∧
      (q.outlet.flush ch q.record).2.2.deeds.getLast? = some (.ended ch (q.outlet.flush ch q.record).1) := by
    intro due
    have nobody : q.record.ends = [] := by
      rw [← List.length_eq_zero_iff, mindful.told, due.untold]
      rfl
    obtain ⟨_, _, ends, last⟩ := due.tells (c := q.record)
    exact ⟨by rw [ends, nobody, List.nil_append], last⟩
  have behind : q.outlet.signalled = true → q.outlet.conduit.aborted = false →
      q.outlet.flush ch q.record = (.ok (), { q.outlet with channel := some ch }, q.record) :=
    fun told live => Outlet.flush_behind_end live (mindful.empty told).2 told
  exact ⟨signals, tells, behind⟩

/-- A body of one byte waits behind its end. The first channel takes the byte and fails to end, and the other
one is never told. -/
theorem end_told_once_two_channels :
    let outlet : Outlet Nat := ⟨⟨4, none, [], false, false, 0⟩, none, false⟩
    let channels : List FaultyRecorder :=
      [⟨.withLimit none, ⟨false, true, 0⟩⟩, ⟨.withLimit none, ⟨false, false, 0⟩⟩]
    let moves : List (SharedOutlet.Move Nat (List FaultyRecorder)) := [.write [97], .work 0, .complete]
    let q := (SharedOutlet.start outlet channels).run moves
    let r := (SharedOutlet.start outlet channels).run (moves ++ [.flush 0])
    Outlet.ofSettings ⟨4, none⟩ = .ok outlet ∧
      q.outlet.Concludes 0 q.record.world ∧ (q.step (.flush 0)).outlet.signalled = true ∧
      r.outlet.signalled = true ∧ r.record.ends.length = 1 ∧
      r.outlet.flush 1 r.record = (.ok (), { r.outlet with channel := some 1 }, r.record) := by
  intro outlet channels moves q r
  obtain ⟨_, _, first⟩ := end_told_once ⟨4, none⟩ outlet rfl channels moves
  obtain ⟨told, _, second⟩ := end_told_once ⟨4, none⟩ outlet rfl channels (moves ++ [.flush 0])
  have due : q.outlet.Concludes 0 q.record.world := ⟨by decide, by decide, by decide, .inr ⟨1, rfl, by decide⟩⟩
  have signalled : r.outlet.signalled = true := by decide
  have live : r.outlet.conduit.aborted = false := by decide
  have once : r.record.ends.length = 1 := by
    rw [told, signalled]
    rfl
  with_reducible
    have signals := (first 0).1.mpr (.inr due)
    have behind := (second 1).2.2 signalled live
    exact ⟨rfl, due, signals, signalled, once, behind⟩

/-- The only call that tells of the end fails. The outlet takes the channel for ended, and when the channel
works again a flush succeeds and does not end it. -/
theorem failed_end_counts_as_told :
    let outlet : Outlet Nat := ⟨⟨4, none, [], false, false, 0⟩, none, false⟩
    let broken : List FaultyRecorder := [⟨.withLimit none, ⟨false, true, 0⟩⟩]
    let mended : List FaultyRecorder := [⟨.withLimit none, ⟨false, false, 0⟩⟩]
    let q := (SharedOutlet.start outlet broken).run [.complete, .flush 0, .become mended]
    Outlet.ofSettings ⟨4, none⟩ = .ok outlet ∧
      q.record.deeds = [.ended 0 (.error (.io .connectionReset "channel end failed"))] ∧
      ¬ (q.outlet.signalled = true ↔ ∃ ch, .ended ch (.ok ()) ∈ q.record.deeds) ∧
      (Transport.endStream 0 none q.record.world).1 = .ok () ∧
      q.outlet.flush 0 q.record = (.ok (), { q.outlet with channel := some 0 }, q.record) := by
  intro outlet broken mended q
  have only : q.record.deeds = [.ended 0 (.error (.io .connectionReset "channel end failed"))] := rfl
  have told : q.outlet.signalled = true := by decide
  have working : (Transport.endStream 0 none q.record.world).1 = .ok () := by decide
  have behind : q.outlet.flush 0 q.record = (.ok (), { q.outlet with channel := some 0 }, q.record) :=
    Outlet.flush_behind_end (by decide) (by decide) told
  have untrue : ¬ (q.outlet.signalled = true ↔ ∃ ch, .ended ch (.ok ()) ∈ q.record.deeds) := by
    intro truthful
    obtain ⟨ch, ended⟩ := truthful.mp told
    rw [only] at ended
    cases List.mem_singleton.mp ended
  exact ⟨rfl, only, untrue, working, behind⟩

end Sluice
