import Sluice.Bench.Index
import Sluice.Outlet.Writing
import Sluice.Proofs.Producer.Run
import Sluice.Proofs.Producer.Conservation

/-! Bytes that a channel was offered and did not take. A coder asks such a channel for another turn, and so
does the end of a turn once the application has ended its stream. The end of any other turn does not, nor
does the flush of an outlet. If the channel took nothing at all, nobody has a reason to come back. -/
namespace Sluice

variable {γ κ ι σ τ : Type}

/-- Whether a call leaves a channel at rest, which takes nothing and is not asked for another turn. -/
def Deed.Calm (ch : ι) : Deed ι → Prop
  | wrote taker _ (.ok n) => taker = ch → n = 0
  | asked known => known ≠ ch
  | _ => True

/-- A channel did not take all that it was offered in some of the calls, and all of them left it at rest. -/
structure Strands (ch : ι) (calls : List (Deed ι)) : Prop where
  refused : ∃ offered n, .wrote ch offered (.ok n) ∈ calls ∧ n < offered.length
  calm : ∀ deed ∈ calls, deed.Calm ch

/-- Every channel that did not take all that it was offered was asked for another turn. -/
def Heeded (calls : List (Deed ι)) : Prop :=
  ∀ ch offered n, .wrote ch offered (.ok n) ∈ calls → n < offered.length → .asked ch ∈ calls

section Calls

variable {ch : ι} {calls more : List (Deed ι)}

private theorem Heeded.not_strands (h : Heeded calls) : ¬ Strands ch calls := by
  rintro ⟨⟨offered, n, member, short⟩, calm⟩
  exact calm _ (h ch offered n member short) rfl

private theorem heeded_nil : Heeded ([] : List (Deed ι)) := by
  intro ch offered n member
  exact absurd member List.not_mem_nil

theorem Heeded.append (first : Heeded calls) (second : Heeded more) : Heeded (calls ++ more) := by
  intro ch offered n member short
  rcases List.mem_append.mp member with early | late
  · exact List.mem_append_left more (first ch offered n early short)
  · exact List.mem_append_right calls (second ch offered n late short)

private theorem Heeded.strands_append (h : Heeded calls) :
    Strands ch (calls ++ more) ↔ (∀ deed ∈ calls, deed.Calm ch) ∧ Strands ch more := by
  constructor
  · rintro ⟨⟨offered, n, member, short⟩, calm⟩
    have before : ∀ deed ∈ calls, deed.Calm ch := fun deed early => calm deed (List.mem_append_left more early)
    refine ⟨before, ?_, fun deed late => calm deed (List.mem_append_right calls late)⟩
    rcases List.mem_append.mp member with early | late
    · exact absurd rfl (before _ (h ch offered n early short))
    · exact ⟨offered, n, late, short⟩
  · rintro ⟨before, ⟨offered, n, late, short⟩, calm⟩
    refine ⟨⟨offered, n, List.mem_append_right calls late, short⟩, fun deed member => ?_⟩
    rcases List.mem_append.mp member with early | late
    · exact before deed early
    · exact calm deed late

private theorem strands_append_ended {told : ι} {result : Except Fault Unit} :
    Strands ch (calls ++ [.ended told result]) ↔ Strands ch calls := by
  constructor
  · rintro ⟨⟨offered, n, member, short⟩, calm⟩
    refine ⟨⟨offered, n, ?_, short⟩, fun deed early => calm deed (List.mem_append_left _ early)⟩
    rcases List.mem_append.mp member with early | late
    · exact early
    · exact absurd late (by simp)
  · rintro ⟨⟨offered, n, member, short⟩, calm⟩
    refine ⟨⟨offered, n, List.mem_append_left _ member, short⟩, fun deed member => ?_⟩
    rcases List.mem_append.mp member with early | late
    · exact calm deed early
    · obtain rfl := List.mem_singleton.mp late
      trivial

private theorem strands_wrote {taker : ι} {offered : List UInt8} (some : offered ≠ []) {answer : Except Fault Nat} :
    Strands ch [.wrote taker offered answer] ↔ ch = taker ∧ answer = .ok 0 := by
  constructor
  · rintro ⟨⟨bytes, n, member, short⟩, calm⟩
    obtain ⟨rfl, rfl, rfl⟩ := Deed.wrote.inj (List.mem_singleton.mp member)
    have none : n = 0 := calm _ (List.mem_singleton_self _) rfl
    exact ⟨rfl, congrArg Except.ok none⟩
  · rintro ⟨rfl, rfl⟩
    refine ⟨⟨offered, 0, List.mem_singleton_self _, List.length_pos_iff.mpr some⟩, fun deed member => ?_⟩
    obtain rfl := List.mem_singleton.mp member
    exact fun _ => rfl

variable [Transport ι σ]

theorem Chronicle.deeds_write (ch : Option ι) (bytes : List UInt8) (c : Chronicle ι σ) :
    (Transport.write ch bytes c).2.deeds =
      c.deeds ++ ch.toList.map fun taker => .wrote taker bytes (Transport.write ch bytes c).1 := by
  cases ch with
  | none => exact (List.append_nil _).symm
  | some ch => rfl

theorem Chronicle.deeds_requestOutput (ch : Option ι) (c : Chronicle ι σ) :
    (Transport.requestOutput ch c).deeds = c.deeds ++ ch.toList.map .asked := by
  cases ch with
  | none => exact (List.append_nil _).symm
  | some ch => rfl

private theorem heeded_requestOutput (ch : Option ι) (world : σ) :
    Heeded (Transport.requestOutput ch (Chronicle.start (ι := ι) world)).deeds := by
  intro taker offered n member
  rw [Chronicle.deeds_requestOutput] at member
  simp [Chronicle.start] at member

end Calls

section Coders

variable [Transport ι σ]

/-- A flush that has bytes to offer makes one call, answers what that answered, and drops so much. -/
theorem Stage.flushTo_wrote {stage : Stage} (loaded : stage.bytes ≠ []) (ch : Option ι) (c : Chronicle ι σ) :
    (stage.flushTo ch c).1 = (Transport.write ch stage.bytes c).1 ∧
    (stage.flushTo ch c).2.2.deeds =
      (c.deeds ++ ch.toList.map fun taker => .wrote taker stage.bytes (stage.flushTo ch c).1) ∧
    ∀ n, (stage.flushTo ch c).1 = .ok n → (stage.flushTo ch c).2.1 = { stage with bytes := stage.bytes.drop n } := by
  have made := c.deeds_write ch stage.bytes
  rw [flushTo_eq, if_neg (by simpa [isEmpty] using loaded)]
  split
  next fault c' failed =>
    rw [failed] at made ⊢
    exact ⟨rfl, made, fun n answered => by cases answered⟩
  next written c' passed =>
    rw [passed] at made ⊢
    exact ⟨rfl, made, fun n answered => by cases answered; rfl⟩

/-- A channel that takes all that it is offered leaves nothing. -/
theorem Stage.flushTo_taken {stage : Stage} {ch : ι} {c : Chronicle ι σ}
    (willing : (Transport.write ch stage.bytes c.world).1 = .ok stage.bytes.length) :
    (∃ n, (stage.flushTo (some ch) c).1 = .ok n) ∧ (stage.flushTo (some ch) c).2.1.bytes = [] := by
  by_cases empty : stage.bytes = []
  · have idle : stage.flushTo (some ch) c = (.ok 0, stage, c) := if_pos (List.isEmpty_iff.mpr empty)
    rw [idle]
    exact ⟨⟨0, rfl⟩, empty⟩
  · obtain ⟨answer, _, dropped⟩ := flushTo_wrote empty (some ch) c
    have all := answer.trans willing
    exact ⟨⟨_, all⟩, by rw [dropped _ all, List.drop_length]⟩

/-- A recording channel does, before its end, if it has no limit and no faults. -/
theorem FaultyRecorder.takes_all {r : Recorder} (unlimited : r.limit = none) (going : r.isEnded = false)
    (bytes : List UInt8) :
    (Transport.write 0 bytes [(⟨r, ⟨false, false, 0⟩⟩ : FaultyRecorder)]).1 = .ok bytes.length := by
  by_cases empty : bytes.length = 0
  · simp [Transport.write, actAt, write, Recorder.write, unlimited, going, Except.map, empty]
  · simp [Transport.write, actAt, write, Recorder.write, unlimited, going, Except.map, empty]

private theorem Stage.flushTo_refused {stage : Stage} {ch : Option ι} {world : σ} {taker : ι}
    {offered : List UInt8} {n : Nat}
    (member : .wrote taker offered (.ok n) ∈ (stage.flushTo ch (Chronicle.start (ι := ι) world)).2.2.deeds)
    (short : n < offered.length) :
    taker ∈ ch ∧ (stage.flushTo ch (Chronicle.start (ι := ι) world)).1 = .ok n ∧
      (stage.flushTo ch (Chronicle.start (ι := ι) world)).2.1.bytes ≠ [] := by
  by_cases empty : stage.bytes = []
  · have idle : stage.flushTo ch (Chronicle.start (ι := ι) world) = (.ok 0, stage, .start world) :=
      if_pos (List.isEmpty_iff.mpr empty)
    rw [idle] at member
    exact absurd member List.not_mem_nil
  · obtain ⟨_, deeds, dropped⟩ := flushTo_wrote empty ch (Chronicle.start (ι := ι) world)
    rw [deeds] at member
    obtain ⟨asker, known, same⟩ := List.mem_map.mp member
    obtain ⟨rfl, rfl, answered⟩ := Deed.wrote.inj same
    refine ⟨Option.mem_toList.mp known, answered, ?_⟩
    rw [dropped n answered]
    intro none
    have length := congrArg List.length none
    simp only [List.length_drop, List.length_nil] at length
    omega

namespace BinaryCoder

private theorem makeRoom_refused {stage : Stage} {hint : Nat} {ch : Option ι} {world : σ}
    {taker : ι} {offered : List UInt8}
    {n : Nat} (member : .wrote taker offered (.ok n) ∈
      (makeRoom stage hint ch (Chronicle.start (ι := ι) world)).2.2.deeds)
    (short : n < offered.length) :
    taker ∈ ch ∧ (makeRoom stage hint ch (Chronicle.start (ι := ι) world)).1 = .ok () ∧
      (makeRoom stage hint ch (Chronicle.start (ι := ι) world)).2.1.bytes ≠ [] := by
  simp only [makeRoom] at member ⊢
  split
  next due =>
    rw [if_pos due] at member
    obtain ⟨known, answered, loaded⟩ := Stage.flushTo_refused member short
    exact ⟨known, by rw [answered]; rfl, loaded⟩
  next idle =>
    rw [if_neg idle] at member
    exact absurd member List.not_mem_nil

private theorem passBy_refused (stage : Stage) (bytes : List UInt8) (ch : Option ι) (c : Chronicle ι σ) :
    (stage.bytes ≠ [] → passBy stage bytes ch c = (.ok 0, c)) ∧
    ∀ taker offered n, .wrote taker offered (.ok n) ∈ (passBy stage bytes ch c).2.deeds →
      .wrote taker offered (.ok n) ∈ c.deeds ∨
        taker ∈ ch ∧ offered = bytes ∧ (passBy stage bytes ch c).1 = .ok n := by
  by_cases empty : stage.isEmpty = true
  · have here : passBy stage bytes ch c = Transport.write ch bytes c := if_pos empty
    refine ⟨fun loaded => absurd (List.isEmpty_iff.mp empty) loaded, fun taker offered n member => ?_⟩
    rw [here, Chronicle.deeds_write] at member
    rcases List.mem_append.mp member with early | late
    · exact .inl early
    · obtain ⟨asker, known, same⟩ := List.mem_map.mp late
      obtain ⟨rfl, rfl, answered⟩ := Deed.wrote.inj same
      exact .inr ⟨Option.mem_toList.mp known, rfl, here ▸ answered⟩
  · have here : passBy stage bytes ch c = (.ok 0, c) := if_neg empty
    refine ⟨fun _ => here, fun taker offered n member => .inl ?_⟩
    rwa [here] at member

private theorem accept_heeded (coder : BinaryCoder) (stage : Stage) (bytes : List UInt8) (hint : Nat) (ch : Option ι)
    (world : σ) : Heeded (accept coder stage bytes hint ch (Chronicle.start (ι := ι) world)).2.2.2.deeds := by
  simp only [accept]
  split
  · exact heeded_nil
  · have room := @makeRoom_refused ι σ _ stage hint ch world
    split
    next failed =>
      rw [failed] at room
      intro taker offered n member short
      obtain ⟨_, passed, _⟩ := room member short
      cases passed
    next stage' c' made =>
      rw [made] at room
      obtain ⟨waits, calls⟩ := passBy_refused stage' bytes ch c'
      split
      next failed =>
        rw [failed] at waits calls
        -- a refusal while room is made leaves the stage loaded, and then nothing passes by that could fail
        intro taker offered n member short
        rcases calls taker offered n member with early | ⟨_, _, answered⟩
        · have answered := congrArg Prod.fst (waits (room early short).2.2)
          cases answered
        · cases answered
      next taken c'' passed =>
        rw [passed] at calls
        split
        next left =>
          intro taker offered n member short
          rw [Chronicle.deeds_requestOutput] at member ⊢
          rcases List.mem_append.mp member with before | asked
          · have known : taker ∈ ch := by
              rcases calls taker offered n before with early | ⟨known, _⟩
              · exact (room early short).1
              · exact known
            exact List.mem_append_right _ (List.mem_map.mpr ⟨taker, Option.mem_toList.mpr known, rfl⟩)
          · exact absurd asked (by simp)
        next whole =>
          have whole : stage'.isEmpty = true ∧ bytes.length ≤ taken := by simpa using whole
          intro taker offered n member short
          rcases calls taker offered n member with early | ⟨_, rfl, answered⟩
          · exact absurd (List.isEmpty_iff.mp whole.1) (room early short).2.2
          · cases answered
            omega

end BinaryCoder

private theorem TextCoder.accept_heeded {ε : Type} [Encoder ε] (coder : TextCoder ε) (stage : Stage) (text : List Char)
    (hint : Nat) (ch : Option ι) (world : σ) :
    Heeded (accept coder stage text hint ch (Chronicle.start (ι := ι) world)).2.2.2.deeds := by
  obtain ⟨_, _, same | same⟩ := coder.accept_stages stage text hint ch (Chronicle.start (ι := ι) world)
  · rw [same]
    exact heeded_nil
  · rw [same]
    exact heeded_requestOutput ch world

/-- A coder that asks a channel for another turn whenever that does not take all it is offered. -/
class HeedingCoder (γ : Type) {κ : outParam Type} [Coder γ κ] : Prop where
  accept {ι σ : Type} [Transport ι σ] (coder : γ) (stage : Stage) (data : κ) (hint : Nat) (ch : Option ι)
    (world : σ) : Heeded (Coder.accept coder stage data hint ch (Chronicle.start (ι := ι) world)).2.2.2.deeds

instance : HeedingCoder BinaryCoder := ⟨BinaryCoder.accept_heeded⟩

instance {ε : Type} [Encoder ε] : HeedingCoder (TextCoder ε) := ⟨TextCoder.accept_heeded⟩

end Coders

/-- What makes the end of a turn leave bytes behind: the application has not ended its stream, the stage is
due and holds bytes, and the channel takes none of them. -/
structure Core.Overlooks [Coder γ κ] [Transport ι σ] (core : Core γ ι) (hint : Nat) (ch : ι) (world : σ) : Prop where
  active : core.state = .active
  going : core.endSignalled = false
  due : core.isDue hint (Coder.takeFlushRequest core.coder).1 = true
  loaded : core.stage.bytes ≠ []
  refuses : (Transport.write ch core.stage.bytes world).1 = .ok 0

section Turns

variable [Coder γ κ] [Transport ι σ] {core : Core γ ι} {hint : Nat} {ch : ι} {world : σ}

namespace Core

theorem drain_due (due : core.isDue hint (Coder.takeFlushRequest core.coder).1 = true) (ch : ι) (s : σ) :
    core.drain hint ch s = ((core.stage.flushTo (some ch) s).1.map fun _ => (),
      { core with
        coder := (Coder.takeFlushRequest core.coder).2
        stage := (core.stage.flushTo (some ch) s).2.1 },
      (core.stage.flushTo (some ch) s).2.2) := if_pos due

theorem drain_idle (idle : ¬ core.isDue hint (Coder.takeFlushRequest core.coder).1 = true) (ch : ι) (s : σ) :
    core.drain hint ch s = (.ok (), { core with coder := (Coder.takeFlushRequest core.coder).2 }, s) := if_neg idle

private theorem drain_refused {taker : ι} {offered : List UInt8} {n : Nat}
    (member : .wrote taker offered (.ok n) ∈ (core.drain hint ch (Chronicle.start (ι := ι) world)).2.2.deeds)
    (short : n < offered.length) :
    taker = ch ∧ (core.drain hint ch (Chronicle.start (ι := ι) world)).1 = .ok () ∧
      (core.drain hint ch (Chronicle.start (ι := ι) world)).2.1.stage.bytes ≠ [] := by
  by_cases due : core.isDue hint (Coder.takeFlushRequest core.coder).1 = true
  · rw [drain_due due] at member ⊢
    obtain ⟨known, answered, loaded⟩ := Stage.flushTo_refused member short
    rw [answered]
    exact ⟨(Option.some.inj known).symm, rfl, loaded⟩
  · rw [drain_idle due] at member
    exact absurd member List.not_mem_nil

omit [Coder γ κ] in
private theorem signal_heeded {c : Chronicle ι σ} (behind : core.state ≠ .active)
    (refused : ∀ taker offered n, .wrote taker offered (.ok n) ∈ c.deeds → n < offered.length →
      taker = ch ∧ core.stage.bytes ≠ []) : Heeded (core.signal ch c).2.2.deeds := by
  by_cases all : core.state = .ended ∧ core.stage.isEmpty = true
  · have calls : (core.signal ch c).2.2.deeds = c.deeds ++ [.ended ch (Transport.endStream ch none c).1] := by
      have made : (Transport.endStream ch none c).2.deeds =
        c.deeds ++ [.ended ch (Transport.endStream ch none c).1] := rfl
      simp only [signal, if_pos all]
      split
      next failed =>
        rw [failed] at made ⊢
        exact made
      next passed =>
        rw [passed] at made ⊢
        exact made
    intro taker offered n member short
    rw [calls] at member
    rcases List.mem_append.mp member with early | late
    · exact absurd (List.isEmpty_iff.mp all.2) (refused taker offered n early short).2
    · exact absurd late (by simp)
  · have calls : (core.signal ch c).2.2.deeds = c.deeds ++ [.asked ch] := by
      simp only [signal, if_neg all, if_neg behind]
      rfl
    intro taker offered n member short
    rw [calls] at member ⊢
    rcases List.mem_append.mp member with early | late
    · obtain ⟨rfl, _⟩ := refused taker offered n early short
      exact List.mem_append_right _ (List.mem_singleton_self _)
    · exact absurd late (by simp)

private theorem closeTurn_heeded (behind : core.state ≠ .active) (hint : Nat) (ch : ι) (world : σ) :
    Heeded (core.closeTurn hint ch (Chronicle.start (ι := ι) world)).2.2.deeds := by
  obtain ⟨next, _, _⟩ := core.state_finishCoding
  simp only [closeTurn]
  split
  · exact heeded_nil
  · split
    · exact heeded_nil
    next core' coded =>
      rw [coded] at next
      have refused := @drain_refused γ κ ι σ _ _ core' hint ch world
      have kept := (core'.state_drain hint ch (Chronicle.start (ι := ι) world)).1
      split
      next failed =>
        rw [failed] at refused
        intro taker offered n member short
        obtain ⟨_, passed, _⟩ := refused member short
        cases passed
      next core'' c drained =>
        rw [drained] at refused kept
        -- what was refused is still staged, so the channel is asked and not told of the end
        apply signal_heeded
        · intro active
          rw [← kept, active] at next
          cases state : core.state with
          | active => exact behind state
          | flushing => exact (state ▸ next : StreamState.Next .flushing .active)
          | ended => exact (state ▸ next : StreamState.Next .ended .active)
        · intro taker offered n member short
          obtain ⟨same, _, loaded⟩ := refused member short
          exact ⟨same, loaded⟩

/-- The end of a turn strands bytes exactly if the channel refuses all that is due. -/
theorem closeTurn_strands {taker : ι} :
    Strands taker (core.closeTurn hint ch (Chronicle.start (ι := ι) world)).2.2.deeds ↔
      taker = ch ∧ core.Overlooks hint ch world := by
  by_cases active : core.state = .active
  · by_cases signalled : core.endSignalled = true
    · have closed : core.closeTurn hint ch (Chronicle.start (ι := ι) world) = (.ok (), core, .start world) :=
        if_pos signalled
      rw [closed]
      refine iff_of_false heeded_nil.not_strands fun overlooks => ?_
      rw [overlooks.2.going] at signalled
      cases signalled
    · have going := Bool.eq_false_iff.mpr signalled
      rw [closeTurn_active active going]
      by_cases due : core.isDue hint (Coder.takeFlushRequest core.coder).1 = true
      · rw [drain_due due]
        by_cases empty : core.stage.bytes = []
        · have idle : core.stage.flushTo (some ch) (Chronicle.start (ι := ι) world) =
              (.ok 0, core.stage, .start world) := if_pos (List.isEmpty_iff.mpr empty)
          rw [idle]
          exact iff_of_false heeded_nil.not_strands fun overlooks => overlooks.2.loaded empty
        · obtain ⟨answered, deeds, _⟩ := Stage.flushTo_wrote empty (some ch) (Chronicle.start (ι := ι) world)
          rw [deeds, answered]
          exact (strands_wrote empty).trans
            (and_congr_right fun _ => ⟨fun refuses => ⟨active, going, due, empty, refuses⟩, (·.refuses)⟩)
      · rw [drain_idle due]
        exact iff_of_false heeded_nil.not_strands fun overlooks => due overlooks.2.due
  · exact iff_of_false (closeTurn_heeded active hint ch world).not_strands fun overlooks => active overlooks.2.active

private theorem Overlooks.leaves (h : core.Overlooks hint ch world) :
    (core.closeTurn hint ch (Chronicle.start (ι := ι) world)).1 = .ok () ∧
      (core.closeTurn hint ch (Chronicle.start (ι := ι) world)).2.1.stage = core.stage := by
  obtain ⟨answered, _, dropped⟩ := Stage.flushTo_wrote h.loaded (some ch) (Chronicle.start (ι := ι) world)
  have refused : (core.stage.flushTo (some ch) (Chronicle.start (ι := ι) world)).1 = .ok 0 :=
    answered.trans h.refuses
  rw [closeTurn_active h.active h.going, drain_due h.due, dropped 0 refused, refused]
  exact ⟨rfl, rfl⟩

private theorem closeTurn_heeded_or_ok (core : Core γ ι) (hint : Nat) (ch : ι) (world : σ) :
    Heeded (core.closeTurn hint ch (Chronicle.start (ι := ι) world)).2.2.deeds ∨
      (core.closeTurn hint ch (Chronicle.start (ι := ι) world)).1 = .ok () := by
  by_cases active : core.state = .active
  · by_cases signalled : core.endSignalled = true
    · right
      rw [closeTurn, if_pos signalled]
    · rw [closeTurn_active active (Bool.eq_false_iff.mpr signalled)]
      cases result : (core.drain hint ch (Chronicle.start (ι := ι) world)).1 with
      | ok done => exact .inr rfl
      | error fault =>
        left
        intro taker offered n member short
        obtain ⟨_, passed, _⟩ := drain_refused member short
        rw [result] at passed
        cases passed
  · exact .inl (closeTurn_heeded active hint ch world)

private theorem write_heeded [HeedingCoder γ] (core : Core γ ι) (hint : Nat) (data : κ) (world : σ) :
    Heeded (core.write hint data (Chronicle.start (ι := ι) world)).2.2.deeds := by
  simp only [write]
  split
  · exact HeedingCoder.accept core.coder core.stage data hint core.channel world
  · exact heeded_nil

end Core

variable [HeedingCoder γ]

private theorem TurnStage.step_heeded [Source τ κ] {t : TurnStage κ ι τ} (before : t ≠ .closing)
    (ch : ι) (p : Producer γ ι τ)
    (world : σ) : Heeded (t.step ch p (Chronicle.start (ι := ι) world)).2.2.deeds := by
  match t with
  | opening | calling (.done (.error _, _)) | calling (.done (.ok (), _)) | calling (.endStream _) | finished _ =>
    exact heeded_nil
  | calling (.write data next) => exact p.core.write_heeded p.hint data world
  | asking known rest => exact heeded_requestOutput known world
  | closing => exact absurd rfl before

private theorem HandleCall.step_heeded (e : HandleCall κ ι) (p : Producer γ ι τ) (world : σ) :
    Heeded (e.step p (Chronicle.start (ι := ι) world)).2.2.deeds := by
  match e with
  | writing data =>
    have wrote := p.core.write_heeded p.hint data world
    simp only [step]
    split
    all_goals
      next written =>
        rw [written] at wrote
        exact wrote
  | ending | done _ => exact heeded_nil
  | asking known answer => exact heeded_requestOutput known world

end Turns

section Runs

variable [Coder γ κ] [Transport ι σ] [Source τ κ]

def ProducerRun.calls (w : ProducerRun γ κ ι σ τ) : ProducerRun.Move κ ι σ τ → List (Deed ι)
  | .work =>
    match w.turn with
    | none => []
    | some (ch, t) => (t.step ch w.producer (Chronicle.start (ι := ι) w.world)).2.2.deeds
  | .resume place =>
    match w.handleCalls[place]? with
    | none => []
    | some e => (e.step w.producer (Chronicle.start (ι := ι) w.world)).2.2.deeds
  | _ => []

/-- A producer with its turns and handles, and the calls in the turn that is under way, or in the last one. -/
structure TurnLog (γ κ ι σ τ : Type) where
  producerRun : ProducerRun γ κ ι σ τ
  calls : List (Deed ι)

namespace TurnLog

/-- A turn begins with an empty record, and while it is under way the record takes up all calls, those of
handles too. -/
def step (l : TurnLog γ κ ι σ τ) (move : ProducerRun.Move κ ι σ τ) : TurnLog γ κ ι σ τ where
  producerRun := l.producerRun.step move
  calls :=
    if l.producerRun.busy then l.calls ++ l.producerRun.calls move
    else match move with
      | .turn _ => []
      | _ => l.calls

def run (moves : List (ProducerRun.Move κ ι σ τ)) (l : TurnLog γ κ ι σ τ) : TurnLog γ κ ι σ τ := moves.foldl step l

/-- The calls of a turn are heeded, unless it has succeeded. Then no other channel is left with bytes. -/
def Stands (l : TurnLog γ κ ι σ τ) : Prop :=
  Heeded l.calls ∨
    ∃ ch, l.producerRun.turn = some (ch, .finished (.ok ())) ∧ ∀ taker, Strands taker l.calls → taker = ch

end TurnLog

/-- Whatever happens to a producer, nothing but the end of a turn strands bytes, and only one that succeeds.
It does so exactly if the turn has left the channel at rest before and the channel now refuses all that is
due while the application goes on. The bytes stay in the stage. -/
def ProducerRun.StrandsAtEnd (first : ProducerRun γ κ ι σ τ) : Prop :=
  ∀ (moves : List (ProducerRun.Move κ ι σ τ)) (ch : ι), let l := TurnLog.run moves ⟨first, []⟩
    (Strands ch l.calls → l.producerRun.turn = some (ch, .finished (.ok ()))) ∧
    (l.producerRun.turn = some (ch, .closing) →
      (Strands ch (l.step .work).calls ↔ (∀ deed ∈ l.calls, deed.Calm ch) ∧
        l.producerRun.producer.core.Overlooks l.producerRun.producer.hint ch l.producerRun.world) ∧
      (Strands ch (l.step .work).calls →
        (l.step .work).producerRun.producer.core.stage = l.producerRun.producer.core.stage))

variable [HeedingCoder γ]

private theorem ProducerRun.calls_heeded (w : ProducerRun γ κ ι σ τ) (move : Move κ ι σ τ)
    (before : ∀ ch, move = .work → w.turn ≠ some (ch, .closing)) : Heeded (w.calls move) := by
  cases move with
  | work =>
    simp only [calls]
    split
    · exact heeded_nil
    next ch t under =>
      apply TurnStage.step_heeded
      rintro rfl
      exact before ch rfl under
  | resume place =>
    simp only [calls]
    split
    · exact heeded_nil
    next e under => exact e.step_heeded w.producer w.world
  | _ => exact heeded_nil

namespace TurnLog

variable {l : TurnLog γ κ ι σ τ} {ch : ι}

omit [HeedingCoder γ] in
private theorem step_closing (closing : l.producerRun.turn = some (ch, .closing)) :
    let core := l.producerRun.producer.core
    let after := core.closeTurn l.producerRun.producer.hint ch (Chronicle.start (ι := ι) l.producerRun.world)
    (l.step .work).calls = l.calls ++ after.2.2.deeds ∧
      (l.step .work).producerRun.turn = some (ch, .finished after.1) ∧
      (l.step .work).producerRun.producer.core = after.2.1 := by
  have busy : l.producerRun.busy = true := by simp [ProducerRun.busy, closing, TurnStage.result?]
  simp [step, busy, ProducerRun.calls, ProducerRun.step, closing, TurnStage.step]

omit [Transport ι σ] [HeedingCoder γ] [Coder γ κ] [Source τ κ] in
private theorem Stands.heeded (h : l.Stands) (going : ∀ ch, l.producerRun.turn ≠ some (ch, .finished (.ok ()))) :
    Heeded l.calls := by
  rcases h with heeded | ⟨ch, past, _⟩
  · exact heeded
  · exact absurd past (going ch)

omit [HeedingCoder γ] in
private theorem step_over (past : l.producerRun.turn = some (ch, .finished (.ok ())))
    (move : ProducerRun.Move κ ι σ τ) :
    (l.step move).calls = [] ∨
      (l.step move).calls = l.calls ∧ (l.step move).producerRun.turn = some (ch, .finished (.ok ())) := by
  have idle : l.producerRun.busy = false := by simp [ProducerRun.busy, past, TurnStage.result?]
  simp only [step, idle, Bool.false_eq_true, if_false]
  cases move with
  | turn other => exact .inl rfl
  | work => exact .inr ⟨rfl, by simp [ProducerRun.step, past, TurnStage.step]⟩
  | resume place =>
    refine .inr ⟨rfl, ?_⟩
    simp only [ProducerRun.step]
    split
    · exact past
    · exact past
  | _ => exact .inr ⟨rfl, past⟩

theorem Stands.step (h : l.Stands) (move : ProducerRun.Move κ ι σ τ) : (l.step move).Stands := by
  -- only the last section of a turn may leave a refusal unheeded
  by_cases last : ∃ ch, move = .work ∧ l.producerRun.turn = some (ch, .closing)
  · obtain ⟨ch, rfl, closing⟩ := last
    obtain ⟨calls, turn, _⟩ := step_closing closing
    have before := h.heeded fun other past => by
      rw [closing] at past
      cases past
    rcases l.producerRun.producer.core.closeTurn_heeded_or_ok l.producerRun.producer.hint ch
      l.producerRun.world with heeded | passed
    · exact .inl (calls ▸ before.append heeded)
    · right
      refine ⟨ch, turn.trans (by rw [passed]), fun taker strands => ?_⟩
      rw [calls, before.strands_append, Core.closeTurn_strands] at strands
      exact strands.2.1
  · rcases h with heeded | ⟨ch, past, only⟩
    · left
      have more := l.producerRun.calls_heeded move fun ch work closing => last ⟨ch, work, closing⟩
      simp only [TurnLog.step]
      split
      · exact heeded.append more
      · split
        · exact heeded_nil
        · exact heeded
    · rcases step_over past move with fresh | ⟨same, still⟩
      · exact .inl (fresh ▸ heeded_nil)
      · exact .inr ⟨ch, still, same ▸ only⟩

theorem Stands.run (h : l.Stands) (moves : List (ProducerRun.Move κ ι σ τ)) : (l.run moves).Stands := by
  induction moves generalizing l with
  | nil => exact h
  | cons move rest ih => exact ih (h.step move)

end TurnLog

private theorem ProducerRun.strandsAtEnd (first : ProducerRun γ κ ι σ τ) : first.StrandsAtEnd := by
  intro moves ch l
  have stands : l.Stands := TurnLog.Stands.run (l := ⟨first, []⟩) (.inl heeded_nil) moves
  constructor
  · intro strands
    rcases stands with heeded | ⟨other, past, only⟩
    · exact absurd strands heeded.not_strands
    · rw [only ch strands]
      exact past
  · intro closing
    obtain ⟨calls, _, core⟩ := TurnLog.step_closing closing
    have before := stands.heeded fun other past => by
      rw [closing] at past
      cases past
    have decided : Strands ch (l.step .work).calls ↔ (∀ deed ∈ l.calls, deed.Calm ch) ∧
        l.producerRun.producer.core.Overlooks l.producerRun.producer.hint ch l.producerRun.world := by
      rw [calls, before.strands_append, Core.closeTurn_strands]
      exact and_congr_right fun _ => and_iff_right rfl
    refine ⟨decided, fun strands => ?_⟩
    rw [core]
    exact (decided.mp strands).2.leaves.2

end Runs

namespace Outlet

/-- What makes a flush leave bytes behind: the outlet is not aborted and holds bytes, and the channel takes
none of them. -/
structure Overlooks [Transport ι σ] (outlet : Outlet ι) (ch : ι) (world : σ) : Prop where
  live : outlet.conduit.aborted = false
  loaded : outlet.conduit.bytes ≠ []
  refuses : (Transport.write ch outlet.conduit.bytes world).1 = .ok 0

variable [Transport ι σ] {outlet : Outlet ι} {ch taker : ι}

private theorem drain_wrote (loaded : outlet.conduit.bytes ≠ []) (ch : ι) (c : Chronicle ι σ) :
    (outlet.drain ch c).2.2.deeds =
      c.deeds ++ [.wrote ch outlet.conduit.bytes (Transport.write ch outlet.conduit.bytes c).1] ∧
    ∀ n, (Transport.write ch outlet.conduit.bytes c).1 = .ok n →
      (outlet.drain ch c).1 = .ok () ∧ (outlet.drain ch c).2.1.conduit.bytes = outlet.conduit.bytes.drop n := by
  have made : (Transport.write ch outlet.conduit.bytes c).2.deeds =
    c.deeds ++ [.wrote ch outlet.conduit.bytes (Transport.write ch outlet.conduit.bytes c).1] := rfl
  rw [drain, if_neg (by simpa using loaded)]
  split
  next failed =>
    rw [failed] at made ⊢
    exact ⟨made, fun n answered => by cases answered⟩
  next written c' passed =>
    rw [passed] at made ⊢
    refine ⟨made, fun n answered => ?_⟩
    cases answered
    refine ⟨rfl, ?_⟩
    dsimp only
    split
    · rfl
    · rfl

private theorem flush_drains (live : outlet.conduit.aborted = false) (ch : ι) (c : Chronicle ι σ) :
    Strands taker (outlet.flush ch c).2.2.deeds ↔
      Strands taker ((({ outlet with channel := some ch } : Outlet ι).drain ch c).2.2.deeds) := by
  simp only [flush, live, Bool.false_eq_true, if_false]
  split
  next failed => rw [failed]
  next outlet' c' passed =>
    rw [passed]
    simp only [signal]
    split
    · exact strands_append_ended
    · rfl

/-- A flush strands bytes exactly if the channel refuses all of them. -/
theorem flush_strands {world : σ} :
    Strands taker (outlet.flush ch (Chronicle.start (ι := ι) world)).2.2.deeds ↔
      taker = ch ∧ outlet.Overlooks ch world := by
  by_cases aborted : outlet.conduit.aborted = true
  · have vain : (outlet.flush ch (Chronicle.start (ι := ι) world)).2.2 = .start world := by
      simp only [flush, aborted, if_true]
    rw [vain]
    refine iff_of_false heeded_nil.not_strands fun overlooks => ?_
    exact absurd aborted (Bool.eq_false_iff.mp overlooks.2.live)
  · have live := Bool.eq_false_iff.mpr aborted
    rw [flush_drains live]
    by_cases empty : outlet.conduit.bytes = []
    · have idle : ({ outlet with channel := some ch } : Outlet ι).drain ch (Chronicle.start (ι := ι) world) =
          (.ok (), { outlet with channel := some ch }, .start world) := if_pos (List.isEmpty_iff.mpr empty)
      rw [idle]
      exact iff_of_false heeded_nil.not_strands fun overlooks => overlooks.2.loaded empty
    · have known : ({ outlet with channel := some ch } : Outlet ι).conduit.bytes ≠ [] := empty
      rw [(drain_wrote known ch (Chronicle.start (ι := ι) world)).1]
      exact (strands_wrote empty).trans
        (and_congr_right fun _ => ⟨fun refuses => ⟨live, empty, refuses⟩, (·.refuses)⟩)

private theorem Overlooks.leaves {world : σ} (h : outlet.Overlooks ch world) :
    (outlet.flush ch (Chronicle.start (ι := ι) world)).1 = .ok () ∧
      (outlet.flush ch (Chronicle.start (ι := ι) world)).2.1.conduit.bytes = outlet.conduit.bytes := by
  have known : ({ outlet with channel := some ch } : Outlet ι).conduit.bytes ≠ [] := h.loaded
  obtain ⟨passed, kept⟩ := (drain_wrote known ch (Chronicle.start (ι := ι) world)).2 0 h.refuses
  simp only [flush, h.live, Bool.false_eq_true, if_false]
  split
  next failed =>
    rw [failed] at passed
    cases passed
  next outlet' c' drained =>
    rw [drained] at kept
    have loaded : outlet'.conduit.bytes.isEmpty = false := by
      rw [show outlet'.conduit.bytes = outlet.conduit.bytes from kept]
      simpa using h.loaded
    simp only [signal, loaded, Bool.false_eq_true, false_and, if_false]
    exact ⟨trivial, kept⟩

end Outlet

/-- Producers of bytes and of text, whatever their source is and whatever turns, handles and channels do, and
outlets in any state: where some bytes that a channel was offered are not accepted, the channel accepts others
in the same turn or is asked for another one, unless the application goes on and the channel accepts nothing
of what is due at the end of the turn, or nothing in a flush. Then nobody asks, and the bytes stay behind. -/
theorem strands_iff_overlooks {ι σ τ υ ε : Type} [Transport ι σ] [Source τ (List UInt8)] [Source υ (List Char)]
    [Encoder ε] (world : σ) :
    (∀ p : Producer BinaryCoder ι τ, (ProducerRun.start p world).StrandsAtEnd) ∧
    (∀ p : Producer (TextCoder ε) ι υ, (ProducerRun.start p world).StrandsAtEnd) ∧
    ∀ (outlet : Outlet ι) (ch : ι), let (result, outlet', c) := outlet.flush ch (Chronicle.start (ι := ι) world)
      (Strands ch c.deeds ↔ outlet.Overlooks ch world) ∧
      (Strands ch c.deeds → result = .ok () ∧ outlet'.conduit.bytes = outlet.conduit.bytes) := by
  refine ⟨fun p => ProducerRun.strandsAtEnd _, fun p => ProducerRun.strandsAtEnd _, ?_⟩
  intro outlet ch
  have decided : Strands ch (outlet.flush ch (Chronicle.start (ι := ι) world)).2.2.deeds ↔
      outlet.Overlooks ch world := Outlet.flush_strands.trans (and_iff_right rfl)
  exact ⟨decided, fun strands => (decided.mp strands).leaves⟩

section Sample

attribute [local instance] sampleIndex

/-- Three bytes are due at the end of a turn, and so are three characters. A window that is full takes none. -/
theorem strands_iff_overlooks_full :
    let p : Producer BinaryCoder Unit (Script (List UInt8)) :=
      ⟨.initial 4 .initial, .ofActions [.write [1, 2, 3]], 2, none⟩
    let q : Producer (TextCoder CharsetEncoder) Unit (Script (List Char)) :=
      ⟨.initial 4 (.ofEncoder (.builtIn ⟨.utf8, false⟩)), .ofActions [.write ['a', 'b', 'c']], 2, none⟩
    let outlet : Outlet Unit := ⟨⟨4, none, [97], false, false, 0⟩, none, false⟩
    let full := Window.ofSize 0
    let moves : List (ProducerRun.Move (List UInt8) Unit Window (Script (List UInt8))) :=
      [.turn (), .work, .work, .work]
    let moves' : List (ProducerRun.Move (List Char) Unit Window (Script (List Char))) := [.turn (), .work, .work, .work]
    let l := TurnLog.run moves ⟨ProducerRun.start p full, []⟩
    let k := TurnLog.run moves' ⟨ProducerRun.start q full, []⟩
    Strands () (l.step .work).calls ∧ (l.step .work).producerRun.producer.core.stage.bytes = [1, 2, 3] ∧
      Strands () (k.step .work).calls ∧ (k.step .work).producerRun.producer.core.stage.bytes = [97, 98, 99] ∧
      Strands () (outlet.flush () (Chronicle.start (ι := Unit) full)).2.2.deeds := by
  intro p q outlet full moves moves' l k
  obtain ⟨binary, text, flush⟩ := strands_iff_overlooks (ι := Unit) (τ := Script (List UInt8))
    (υ := Script (List Char)) (ε := CharsetEncoder) full
  have closing : l.producerRun.turn = some ((), .closing) := rfl
  have closing' : k.producerRun.turn = some ((), .closing) := rfl
  have fresh : l.calls = [] ∧ k.calls = [] := ⟨rfl, rfl⟩
  have calm : ∀ deed ∈ ([] : List (Deed Unit)), deed.Calm () := fun _ member => absurd member List.not_mem_nil
  have staged : l.producerRun.producer.core.stage.bytes = [1, 2, 3] ∧
    k.producerRun.producer.core.stage.bytes = [97, 98, 99] := by decide +kernel
  have still : l.producerRun.world = full ∧ k.producerRun.world = full := by decide +kernel
  have first := ((binary p moves ()).2 closing).1.mpr ⟨by rw [fresh.1]; exact calm, by decide +kernel,
    by decide +kernel, by decide +kernel, by decide +kernel, by rw [staged.1, still.1]; rfl⟩
  have second := ((text q moves' ()).2 closing').1.mpr ⟨by rw [fresh.2]; exact calm, by decide +kernel,
    by decide +kernel, by decide +kernel, by decide +kernel, by rw [staged.2, still.2]; rfl⟩
  have third := (flush outlet ()).1.mpr ⟨rfl, by decide, rfl⟩
  exact ⟨first, by decide, second, by decide, third⟩

end Sample

/-- A channel that is honest and accepts nothing. A turn of a new producer and a flush of an outlet with one
byte offer what they hold, and that is the only call they make. -/
theorem refusal_strands :
    let settings : ProducerSettings := ⟨4, some 2⟩
    let source : Script (List UInt8) := .ofActions [.write [1, 2, 3]]
    let p : Producer BinaryCoder Unit (Script (List UInt8)) := ⟨.initial 4 .initial, source, 2, none⟩
    let outlet : Outlet Unit := ⟨⟨4, none, [], false, false, 0⟩, none, false⟩
    let full := Window.ofSize 0
    let turn := p.produce () (Chronicle.start (ι := Unit) full)
    let flush := (outlet.place [97]).2.flush () (Chronicle.start (ι := Unit) full)
    Honest Unit Window ∧
      Producer.binary settings none source = .ok p ∧ turn.1 = .ok () ∧
      turn.2.2.deeds = [.wrote () [1, 2, 3] (.ok 0)] ∧ Strands () turn.2.2.deeds ∧
      turn.2.1.core.stage.bytes = [1, 2, 3] ∧
      Outlet.ofSettings ⟨4, none⟩ = .ok outlet ∧ flush.1 = .ok () ∧
      flush.2.2.deeds = [.wrote () [97] (.ok 0)] ∧ Strands () flush.2.2.deeds ∧
      flush.2.1.conduit.bytes = [97] := by
  intro settings source p outlet full turn flush
  have offered : turn.2.2.deeds = [.wrote () [1, 2, 3] (.ok 0)] := rfl
  have flushed : flush.2.2.deeds = [.wrote () [97] (.ok 0)] := rfl
  have stranded : Strands () turn.2.2.deeds := offered ▸ (strands_wrote (by decide)).mpr ⟨rfl, rfl⟩
  have stranded' : Strands () flush.2.2.deeds := flushed ▸ (strands_wrote (by decide)).mpr ⟨rfl, rfl⟩
  exact ⟨window_honest, rfl, rfl, offered, stranded, rfl, rfl, rfl, flushed, stranded', rfl⟩

end Sluice
