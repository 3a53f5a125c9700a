import Sluice.Bench.Script
import Sluice.Proofs.Producer.Calls

/-! A producer whose source delivers chunks and then ends its stream, in front of channels that take
something of whatever they are offered. Every turn gets a byte out, until a channel is told of the end or
the coder cannot go on. -/
namespace Sluice

variable {γ κ ι σ : Type}

/-- Whether a channel took something, if it was offered anything. -/
def Deed.Obliging : Deed ι → Prop
  | wrote _ offered (.ok n) => offered ≠ [] → 0 < n ∧ n ≤ offered.length
  | wrote _ offered (.error _) => offered = []
  | _ => True

instance : DecidablePred fun deed : Deed ι => deed.Obliging
  | .wrote _ offered (.ok n) => inferInstanceAs (Decidable (offered ≠ [] → 0 < n ∧ n ≤ offered.length))
  | .wrote _ offered (.error _) => inferInstanceAs (Decidable (offered = []))
  | .asked _ => inferInstanceAs (Decidable True)
  | .ended _ _ => inferInstanceAs (Decidable True)

/-- Whether the channels on record always did so. -/
def Chronicle.Obliging (c : Chronicle ι σ) : Prop := ∀ deed ∈ c.deeds, deed.Obliging

instance (c : Chronicle ι σ) : Decidable c.Obliging := inferInstanceAs (Decidable (∀ deed ∈ c.deeds, deed.Obliging))

/-- The actions of a source that writes chunks in order, each from where the last write stopped, and ends
its stream behind them. -/
def Script.supply (chunks : List κ) : List (Action κ) := chunks.map .write ++ [.endStream]

def Producer.turns {τ : Type} [Coder γ κ] [Transport ι σ] [Source τ κ] :
    List ι → Producer γ ι τ → σ → List (Except Fault Unit) × Producer γ ι τ × σ
  | [], p, s => ([], p, s)
  | ch :: chs, p, s =>
    let (result, p, s) := p.produce ch s
    let (results, p, s) := turns chs p s
    (result :: results, p, s)

variable [Transport ι σ]

namespace Chronicle

omit [Transport ι σ] in
theorem Obliging.before {c c' : Chronicle ι σ} (h : c'.Obliging) (grows : c.Grows c') : c.Obliging :=
  fun deed member => h deed (grows.subset member)

omit [Transport ι σ] in
/-- What was taken stays at the front of what is taken later. -/
theorem Grows.output {c c' : Chronicle ι σ} (h : c.Grows c') : c.output <+: c'.output := by
  obtain ⟨more, behind⟩ := h
  refine ⟨delivered more, ?_⟩
  simp only [Chronicle.output, ← behind, delivered, List.flatMap_append]

theorem Obliging.write {ch : ι} {bytes : List UInt8} {c : Chronicle ι σ}
    (h : (Transport.write ch bytes c).2.Obliging) (some : bytes ≠ []) :
    ∃ n, (Transport.write ch bytes c).1 = .ok n ∧ 0 < n ∧ n ≤ bytes.length := by
  have last : (Deed.wrote ch bytes (Transport.write ch bytes c).1).Obliging :=
    h _ (List.mem_append_right _ (List.mem_singleton_self _))
  cases answered : (Transport.write ch bytes c).1 with
  | ok n =>
    rw [answered] at last
    exact ⟨n, rfl, last some⟩
  | error fault =>
    rw [answered] at last
    exact absurd last some

theorem Obliging.write_grows {ch : ι} {bytes : List UInt8} {c : Chronicle ι σ}
    (h : (Transport.write ch bytes c).2.Obliging) (some : bytes ≠ []) :
    c.output.length < (Transport.write ch bytes c).2.output.length := by
  obtain ⟨n, answered, positive, within⟩ := h.write some
  have output := c.output_write (Option.some ch) bytes
  rw [show (Transport.write (Option.some ch) bytes c).1 = .ok n from answered] at output
  have length := congrArg List.length output
  simp only [takenOf, List.length_append, List.length_take] at length
  change c.output.length < (Transport.write (Option.some ch) bytes c).2.output.length
  omega

end Chronicle

namespace Stage

/-- A flush drops bytes, and in front of an obliging channel it succeeds and drops some if there are any. -/
theorem flushTo_obliging (stage : Stage) (ch : ι) {c : Chronicle ι σ}
    (obliging : (stage.flushTo ch c).2.2.Obliging) :
    (∃ n, (stage.flushTo ch c).1 = .ok n) ∧
    (stage.bytes ≠ [] → c.output.length < (stage.flushTo ch c).2.2.output.length) := by
  by_cases empty : stage.bytes = []
  · have drained : stage.isEmpty = true := List.isEmpty_iff.mpr empty
    rw [flushTo_eq, if_pos drained]
    exact ⟨⟨0, rfl⟩, fun some => absurd empty some⟩
  · have loaded : ¬ stage.isEmpty = true := fun none => empty (List.isEmpty_iff.mp none)
    rw [flushTo_eq, if_neg loaded] at obliging ⊢
    cases offered : Transport.write ch stage.bytes c with
    | mk result c' =>
      have obliging' : (Transport.write ch stage.bytes c).2.Obliging := by
        rw [offered] at obliging ⊢
        cases result with
        | error fault => exact obliging
        | ok n => exact obliging
      obtain ⟨n, answered, _, _⟩ := obliging'.write empty
      have grown := obliging'.write_grows empty
      rw [offered] at answered grown
      obtain rfl : result = .ok n := answered
      exact ⟨⟨n, rfl⟩, fun _ => grown⟩

theorem flushTo_sized (stage : Stage) (ch : ι) (s : σ) :
    (stage.flushTo ch s).2.1.capacity = stage.capacity ∧ (stage.flushTo ch s).2.1.length ≤ stage.length := by
  rw [flushTo_eq]
  split
  · exact ⟨rfl, Nat.le_refl _⟩
  · split
    · exact ⟨rfl, Nat.le_refl _⟩
    · refine ⟨rfl, ?_⟩
      simp only [length, List.length_drop]
      omega

end Stage

variable [Coder γ κ]

/-- A way to tell how far a coder has come with chunks, with a stage of some capacity. `Stands rest coder held`
says that `held` is what has gone out, with what is staged behind it, while `rest` is still to come. The
coder takes a chunk as a whole, or it stops short of that; then bytes have gone out, or it wants the stage to
be flushed, which is not empty unless as many bytes as the goal have gone out. -/
structure CoderProgress [Divisible κ] (capacity goal : Nat) (Stands : List κ → γ → List UInt8 → Prop) : Prop where
  accept {ι σ : Type} [Transport ι σ] {coder : γ} {stage : Stage} {chunk : κ} {rest : List κ} (hint : Nat)
    {ch : ι} {c : Chronicle ι σ} (sized : stage.capacity = capacity) (within : stage.length ≤ capacity)
    (stands : Stands (chunk :: rest) coder (c.output ++ stage.bytes))
    (obliging : (Coder.accept coder stage chunk hint (some ch) c).2.2.2.Obliging) :
    let after := Coder.accept coder stage chunk hint (some ch) c
    let held := after.2.2.2.output ++ after.2.2.1.bytes
    after.2.2.1.capacity = capacity ∧ after.2.2.1.length ≤ capacity ∧
    ∃ n, after.1 = .ok n ∧
      if n < Divisible.size chunk then
        Stands (Divisible.drop n chunk :: rest) after.2.1 held ∧
          (c.output.length < after.2.2.2.output.length ∨
            (Coder.takeFlushRequest after.2.1).1 = true ∧
              (after.2.2.1.bytes = [] → goal ≤ after.2.2.2.output.length))
      else Stands rest after.2.1 held
  finish {coder : γ} {held : List UInt8} (stands : Stands [] coder held) (stage : Stage) :
    Coder.finish coder stage = (.ok true, coder, stage)
  forgets {rest : List κ} {coder : γ} {held : List UInt8} (stands : Stands rest coder held) :
    Stands rest (Coder.takeFlushRequest coder).2 held

namespace Core

variable {capacity goal hint : Nat} {Stands : List κ → γ → List UInt8 → Prop} {core core' : Core γ ι}
  {rest rest' : List κ} {ch : ι} {c c' : Chronicle ι σ}

/-- A producer on its way, within a turn or between two of them, with some chunks still to come. -/
structure Underway (capacity : Nat) (Stands : List κ → γ → List UInt8 → Prop) (core : Core γ ι)
    (rest : List κ) (c : Chronicle ι σ) : Prop where
  untold : c.told = false
  unsignalled : core.endSignalled = false
  sized : core.stage.capacity = capacity
  within : core.stage.length ≤ capacity
  stands : Stands rest core.coder (core.held c)

/-- A producer that has handed on everything and has told a channel so. -/
structure Arrived (Stands : List κ → γ → List UInt8 → Prop) (core : Core γ ι) (c : Chronicle ι σ) : Prop where
  told : c.told = true
  ended : core.state = .ended
  drained : core.stage.bytes = []
  stands : Stands [] core.coder c.output

/-- What a turn has achieved when its end is reached: bytes have gone out, or the end is going to flush some,
or the goal is reached. -/
def Advances (goal : Nat) (earlier : Chronicle ι σ) (core : Core γ ι) (c : Chronicle ι σ) : Prop :=
  earlier.output.length < c.output.length ∨
    (Coder.takeFlushRequest core.coder).1 = true ∧ (core.stage.bytes = [] → goal ≤ c.output.length)

private theorem Underway.drain [Divisible κ] (coderProgress : CoderProgress capacity goal Stands)
    (h : core.Underway capacity Stands rest c) (obliging : (core.drain hint ch c).2.2.Obliging) :
    (core.drain hint ch c).1 = .ok () ∧
    (core.drain hint ch c).2.1.Underway capacity Stands rest (core.drain hint ch c).2.2 ∧
    (core.drain hint ch c).2.1.stage.length ≤ core.stage.length ∧
    (core.state ≠ .active ∨ (Coder.takeFlushRequest core.coder).1 = true → core.stage.bytes ≠ [] →
      c.output.length < (core.drain hint ch c).2.2.output.length) := by
  have held := core.drain_keeps hint ch c
  have stands := coderProgress.forgets h.stands
  rw [← held] at stands
  simp only [Core.drain] at obliging stands ⊢
  split
  next due =>
    rw [if_pos due] at obliging stands
    obtain ⟨⟨n, flushed⟩, grows⟩ := core.stage.flushTo_obliging ch obliging
    obtain ⟨sized, less⟩ := core.stage.flushTo_sized ch c
    refine ⟨?_, ⟨?_, h.unsignalled, sized.trans h.sized, Nat.le_trans less h.within, stands⟩, less,
      fun _ => grows⟩
    · rw [flushed]
      rfl
    · exact (core.stage.told_flushTo (some ch) c).trans h.untold
  next idle =>
    rw [if_neg idle] at stands
    refine ⟨rfl, ⟨h.untold, h.unsignalled, h.sized, h.within, stands⟩, Nat.le_refl _,
      fun due => absurd ?_ idle⟩
    simp only [isDue, Bool.or_eq_true, decide_eq_true_eq]
    rcases due with behind | requested
    · exact .inl (.inl (.inl behind))
    · exact .inr requested

/-- What is left of the end of a turn behind a coder that has nothing to say and a flush that succeeds. -/
theorem closeTurn_drains (going : core.endSignalled = false) (coded : core.finishCoding = (.ok (), core'))
    (drained : (core'.drain hint ch c).1 = .ok ()) :
    core.closeTurn hint ch c = (core'.drain hint ch c).2.1.signal ch (core'.drain hint ch c).2.2 := by
  simp only [closeTurn, going, coded, Bool.false_eq_true, if_false]
  split
  next failed =>
    rw [failed] at drained
    cases drained
  next passed => rw [passed]

omit [Coder γ κ] in
private theorem signal_arrives (ended : core.state = .ended) (drained : core.stage.bytes = [])
    (stands : Stands [] core.coder c.output) (ch : ι) :
    (core.signal ch c).2.1.Arrived Stands (core.signal ch c).2.2 := by
  have output := c.output_endStream (some ch) none
  have heard : (Transport.endStream ch none c).2.told = true := by
    simp [Chronicle.told, Transport.endStream, Deed.tellsEnd]
  rw [signal, if_pos ⟨ended, List.isEmpty_iff.mpr drained⟩]
  split
  next failed =>
    rw [show Transport.endStream (some ch) none c = _ from failed] at output
    rw [failed] at heard
    exact ⟨heard, ended, drained, output ▸ stands⟩
  next passed =>
    rw [show Transport.endStream (some ch) none c = _ from passed] at output
    rw [passed] at heard
    exact ⟨heard, ended, drained, output ▸ stands⟩

private theorem drain_closeTurn (going : core.endSignalled = false) (coded : core.finishCoding = (.ok (), core')) :
    (core'.drain hint ch c).2.2.Grows (core.closeTurn hint ch c).2.2 := by
  simp only [closeTurn, going, coded, Bool.false_eq_true, if_false]
  split
  next failed =>
    rw [failed]
    exact .refl _
  next core'' c' passed =>
    rw [passed]
    exact (core''.signal_reaches ch c').grows

section Closing

variable [Divisible κ] (coderProgress : CoderProgress capacity goal Stands)
include coderProgress

private theorem Underway.closes (h : core.Underway capacity Stands rest c) (active : core.state = .active)
    {earlier : Chronicle ι σ} (advances : core.Advances goal earlier c)
    (before : earlier.output.length ≤ c.output.length) (obliging : (core.closeTurn hint ch c).2.2.Obliging) :
    (core.closeTurn hint ch c).1 = .ok () ∧
    (core.closeTurn hint ch c).2.1.Underway capacity Stands rest (core.closeTurn hint ch c).2.2 ∧
    (core.closeTurn hint ch c).2.1.state = .active ∧
    (earlier.output.length < (core.closeTurn hint ch c).2.2.output.length ∨
      goal ≤ (core.closeTurn hint ch c).2.2.output.length) := by
  rw [closeTurn_active active h.unsignalled] at obliging ⊢
  have grown := (core.drain_reaches hint ch c).grows.output.length_le
  obtain ⟨passed, underway, _, grows⟩ := h.drain coderProgress obliging
  refine ⟨passed, underway, (core.state_drain hint ch c).1.trans active, ?_⟩
  rcases advances with out | ⟨requested, reached⟩
  · exact .inl (Nat.lt_of_lt_of_le out grown)
  · by_cases empty : core.stage.bytes = []
    · exact .inr (Nat.le_trans (reached empty) grown)
    · exact .inl (Nat.lt_of_le_of_lt before (grows (.inr requested) empty))

/-- The end of a turn behind the source's last chunk. The channel is told, or the turn has got bytes out. -/
theorem Underway.finishes (h : core.Underway capacity Stands [] c) (behind : core.state ≠ .active)
    (obliging : (core.closeTurn hint ch c).2.2.Obliging) :
    (core.closeTurn hint ch c).2.1.Arrived Stands (core.closeTurn hint ch c).2.2 ∨
    (core.closeTurn hint ch c).1 = .ok () ∧
      (core.closeTurn hint ch c).2.1.Underway capacity Stands [] (core.closeTurn hint ch c).2.2 ∧
      (core.closeTurn hint ch c).2.1.state = .ended ∧
      c.output.length < (core.closeTurn hint ch c).2.2.output.length := by
  have coded : core.finishCoding = (.ok (), { core with state := .ended }) := by
    simp only [finishCoding, coderProgress.finish h.stands]
    cases state : core.state with
    | active => exact absurd state behind
    | flushing => rfl
    | ended =>
      obtain ⟨stage, coder, _, signalled, known⟩ := core
      obtain rfl : _ = StreamState.ended := state
      rfl
  have h' : Underway capacity Stands { core with state := .ended } [] c :=
    ⟨h.untold, h.unsignalled, h.sized, h.within, h.stands⟩
  obtain ⟨drained, underway, less, grows⟩ :=
    h'.drain coderProgress (obliging.before (drain_closeTurn h.unsignalled coded))
  have ended := (({ core with state := .ended } : Core γ ι).state_drain hint ch c).1
  rw [closeTurn_drains h.unsignalled coded drained]
  generalize ({ core with state := .ended } : Core γ ι).drain hint ch c = after at *
  obtain ⟨_, core', c'⟩ := after
  have ended : core'.state = .ended := ended
  by_cases empty : core'.stage.bytes = []
  · have stands := underway.stands
    rw [held, empty, List.append_nil] at stands
    exact .inl (signal_arrives ended empty stands ch)
  · have before : core.stage.bytes ≠ [] := by
      intro none
      have less : core'.stage.bytes.length ≤ core.stage.bytes.length := less
      rw [none] at less
      exact empty (List.length_eq_zero_iff.mp (Nat.le_zero.mp less))
    have waits : core'.signal ch c' = (.ok (), core', Transport.requestOutput ch c') := by
      simp [signal, ended, Stage.isEmpty, empty]
    have output := c'.output_requestOutput (some ch)
    right
    rw [waits]
    refine ⟨rfl, ⟨?_, underway.unsignalled, underway.sized, underway.within, ?_⟩, ended, ?_⟩
    · exact (c'.told_requestOutput (some ch)).trans underway.untold
    · have stands := underway.stands
      rw [held, ← output] at stands
      exact stands
    · rw [show (Transport.requestOutput ch c').output = c'.output from output]
      exact grows (.inl (show StreamState.ended ≠ .active by decide)) before

end Closing

end Core

/-- A source goes through its chunks until one of them is taken in part only, or until the last is taken and
the stream is ended. -/
theorem Core.Underway.plays [Divisible κ] [KeepingCoder γ] [CallingCoder γ] {capacity goal : Nat}
    {Stands : List κ → γ → List UInt8 → Prop} (coderProgress : CoderProgress capacity goal Stands)
    (script : Script κ) (hint : Nat) {rest : List κ} {core : Core γ ι} {ch : ι} {c : Chronicle ι σ} (log : List Entry)
    (h : core.Underway capacity Stands rest c) (active : core.state = .active) (opened : core.channel = some ch)
    (obliging : ((script.play log (Script.supply rest)).run hint core c).2.2.Obliging) :
    let after := (script.play log (Script.supply rest)).run hint core c
    after.1.1 = .ok () ∧ ∃ rest', after.2.1.Underway capacity Stands rest' after.2.2 ∧
      (after.2.1.state = .active ∧ after.1.2.queue = Script.supply rest' ∧ after.2.1.Advances goal c after.2.2 ∨
        after.2.1.state = .flushing ∧ rest' = []) := by
  induction rest generalizing core c log with
  | nil =>
    have output := c.output_requestOutput core.channel
    have told := c.told_requestOutput core.channel
    refine ⟨rfl, [], ?_, .inr ⟨?_, rfl⟩⟩
    · simp only [Script.supply, List.map_nil, List.nil_append, Script.play, Turn.run, Core.postEnd,
        Core.endStream, active, if_true]
      refine ⟨told.trans h.untold, h.unsignalled, h.sized, h.within, ?_⟩
      rw [Core.held, output]
      exact h.stands
    · simp [Script.supply, Script.play, Turn.run, Core.postEnd, Core.endStream, active]
  | cons chunk rest ih =>
    have wrote : core.write hint chunk c =
        ((Coder.accept core.coder core.stage chunk hint (some ch) c).1,
          { core with
            coder := (Coder.accept core.coder core.stage chunk hint (some ch) c).2.1
            stage := (Coder.accept core.coder core.stage chunk hint (some ch) c).2.2.1 },
          (Coder.accept core.coder core.stage chunk hint (some ch) c).2.2.2) := by
      simp [Core.write, active, opened]
    have first : Script.supply (chunk :: rest) = .write chunk :: Script.supply rest := rfl
    rw [first, Script.play] at obliging ⊢
    simp only [Turn.run, wrote] at obliging ⊢
    have accepted := coderProgress.accept hint h.sized h.within h.stands
      (obliging.before (Turn.run_reaches hint _ _ _).grows)
    have told := (KeepingCoder.accept core.coder core.stage chunk hint (some ch) c).2
    have grows := (CallingCoder.accept core.coder core.stage chunk hint (some ch) c).grows
    generalize Coder.accept core.coder core.stage chunk hint (some ch) c = after at *
    obtain ⟨result, coder', stage', c'⟩ := after
    obtain ⟨sized, within, n, answered, taken⟩ := accepted
    obtain rfl : result = .ok n := answered
    by_cases short : n < Divisible.size chunk
    · rw [if_pos short] at taken
      simp only [short, if_true, Turn.run]
      refine ⟨trivial, _, ⟨told.trans h.untold, h.unsignalled, sized, within, taken.1⟩, .inl ⟨active, rfl, taken.2⟩⟩
    · rw [if_neg short] at taken
      simp only [short, if_false] at obliging ⊢
      have underway : Core.Underway capacity Stands { core with coder := coder', stage := stage' } rest c' :=
        ⟨told.trans h.untold, h.unsignalled, sized, within, taken⟩
      obtain ⟨passed, rest', later, outcome⟩ := ih _ underway active opened obliging
      refine ⟨passed, rest', later, ?_⟩
      rcases outcome with ⟨still, queue, out | wanted⟩ | behind
      · exact .inl ⟨still, queue, .inl (Nat.lt_of_le_of_lt grows.output.length_le out)⟩
      · exact .inl ⟨still, queue, .inr wanted⟩
      · exact .inr behind

private theorem Core.Arrived.closes [Divisible κ] {capacity goal : Nat} {Stands : List κ → γ → List UInt8 → Prop}
    (coderProgress : CoderProgress capacity goal Stands) {core : Core γ ι} {c : Chronicle ι σ}
    (h : core.Arrived Stands c) (hint : Nat) (ch : ι) :
    (core.closeTurn hint ch c).2.1.Arrived Stands (core.closeTurn hint ch c).2.2 := by
  have empty : core.stage.isEmpty = true := List.isEmpty_iff.mpr h.drained
  have coded : core.finishCoding = (.ok (), core) := by simp [finishCoding, h.ended]
  have idle : core.drain hint ch c =
      (.ok (), { core with coder := (Coder.takeFlushRequest core.coder).2 }, c) := by
    simp [drain, Stage.flushTo, empty, Except.map]
  cases going : core.endSignalled with
  | true =>
    simp only [closeTurn, going, if_true]
    exact h
  | false =>
    rw [closeTurn_drains going coded (congrArg Prod.fst idle), idle]
    apply signal_arrives
    · exact h.ended
    · exact h.drained
    · exact coderProgress.forgets h.stands

namespace Producer

variable [Divisible κ] {capacity goal : Nat} {Stands : List κ → γ → List UInt8 → Prop}
  {p : Producer γ ι (Script κ)} {ch : ι} {chs : List ι} {c : Chronicle ι σ}

/-- A producer on its way between two turns. Its source has the chunks that are still to come. -/
def Underway (capacity : Nat) (Stands : List κ → γ → List UInt8 → Prop) (p : Producer γ ι (Script κ))
    (c : Chronicle ι σ) : Prop :=
  ∃ rest, p.core.Underway capacity Stands rest c ∧
    (p.core.state = .active ∧ p.source.queue = Script.supply rest ∨ p.core.state = .ended ∧ rest = [])

private theorem turns_grows [CallingCoder γ] (p : Producer γ ι (Script κ)) (chs : List ι) (c : Chronicle ι σ) :
    c.Grows (p.turns chs c).2.2 := by
  induction chs generalizing p c with
  | nil => exact .refl c
  | cons ch chs ih => exact (p.produce_reaches ch c).grows.trans (ih _ _)

omit [Transport ι σ] [Coder γ κ] [Divisible κ] in
/-- A new producer has a stage of the size that was asked for, and all chunks are to come. -/
theorem underway_start {settings : ProducerSettings} {contentType : Option MediaType} {coder : γ}
    {chunks : List κ} (made : ofCoder settings contentType coder (Script.ofActions (Script.supply chunks)) = .ok p)
    (stands : Stands chunks coder []) (world : σ) :
    p.Underway settings.bufferSize Stands (Chronicle.start world) := by
  obtain ⟨_, _, rfl⟩ := ok_of_map made
  exact ⟨chunks, ⟨rfl, rfl, rfl, Nat.zero_le _, stands⟩, .inl ⟨rfl, rfl⟩⟩

section Turns

variable (coderProgress : CoderProgress capacity goal Stands)
include coderProgress

private theorem produces_arrived (h : p.core.Arrived Stands c) (ch : ι) :
    (p.produce ch c).2.1.core.Arrived Stands (p.produce ch c).2.2 := by
  have opened : (p.core.openTurn ch).Arrived Stands c := ⟨h.told, h.ended, h.drained, h.stands⟩
  have behind : ¬ (p.core.openTurn ch).state = .active := by
    rw [opened.ended]
    decide
  simp only [produce, if_neg behind]
  exact opened.closes coderProgress p.hint ch

/-- A turn tells a channel of the end, or it succeeds and gets bytes out as long as the goal is not reached. -/
theorem Underway.produces [KeepingCoder γ] [CallingCoder γ] (h : p.Underway capacity Stands c)
    (obliging : (p.produce ch c).2.2.Obliging) :
    (p.produce ch c).2.1.core.Arrived Stands (p.produce ch c).2.2 ∨
    (p.produce ch c).1 = .ok () ∧ (p.produce ch c).2.1.Underway capacity Stands (p.produce ch c).2.2 ∧
      (c.output.length < (p.produce ch c).2.2.output.length ∨ goal ≤ (p.produce ch c).2.2.output.length) := by
  obtain ⟨rest, here, ⟨active, queue⟩ | ⟨ended, rfl⟩⟩ := h
  · have opened : (p.core.openTurn ch).Underway capacity Stands rest c :=
      ⟨here.untold, here.unsignalled, here.sized, here.within, here.stands⟩
    have turn : Source.turn p.source = p.source.play p.source.log.reverse (Script.supply rest) := by
      rw [← queue]
      rfl
    have going : (p.core.openTurn ch).state = .active := active
    have called := opened.plays coderProgress p.source p.hint p.source.log.reverse going rfl
    have grows := ((Source.turn p.source).run_reaches p.hint (p.core.openTurn ch) c).grows
    simp only [produce, if_pos going] at obliging ⊢
    rw [← turn] at called
    generalize (Source.turn p.source).run p.hint (p.core.openTurn ch) c = after at *
    obtain ⟨⟨outcome, source⟩, core, c'⟩ := after
    cases outcome with
    | error fault =>
      have passed := (called obliging).1
      cases passed
    | ok done =>
      obtain ⟨_, rest', underway, ⟨still, left, advances⟩ | ⟨flushing, rfl⟩⟩ :=
        called (obliging.before (core.closeTurn_reaches p.hint ch c').grows)
      · obtain ⟨passed, underway', state, out⟩ :=
          underway.closes coderProgress still advances grows.output.length_le obliging
        exact .inr ⟨passed, ⟨rest', underway', .inl ⟨state, left⟩⟩, out⟩
      · have behind : core.state ≠ .active := by
          rw [show core.state = .flushing from flushing]
          decide
        rcases underway.finishes coderProgress behind obliging with arrived | ⟨passed, underway', state, out⟩
        · exact .inl arrived
        · exact .inr ⟨passed, ⟨[], underway', .inr ⟨state, rfl⟩⟩,
            .inl (Nat.lt_of_le_of_lt grows.output.length_le out)⟩
  · have opened : (p.core.openTurn ch).Underway capacity Stands [] c :=
      ⟨here.untold, here.unsignalled, here.sized, here.within, here.stands⟩
    have behind : ¬ (p.core.openTurn ch).state = .active := by
      rw [show (p.core.openTurn ch).state = .ended from ended]
      decide
    simp only [produce, if_neg behind] at obliging ⊢
    rcases opened.finishes coderProgress behind obliging with arrived | ⟨passed, underway, state, out⟩
    · exact .inl arrived
    · exact .inr ⟨passed, ⟨[], underway, .inr ⟨state, rfl⟩⟩, .inl out⟩

private theorem turns_arrived (h : p.core.Arrived Stands c) (chs : List ι) :
    (p.turns chs c).2.1.core.Arrived Stands (p.turns chs c).2.2 := by
  induction chs generalizing p c with
  | nil => exact h
  | cons ch chs ih => exact ih (produces_arrived coderProgress h ch)

/-- Turn by turn a producer gets out at least as many bytes as there were turns, or as the goal says, unless
it is done. -/
theorem Underway.turns [KeepingCoder γ] [CallingCoder γ] (h : p.Underway capacity Stands c)
    (obliging : (p.turns chs c).2.2.Obliging) :
    (p.turns chs c).2.1.core.Arrived Stands (p.turns chs c).2.2 ∨
    (∀ result ∈ (p.turns chs c).1, result = .ok ()) ∧
      (p.turns chs c).2.1.Underway capacity Stands (p.turns chs c).2.2 ∧
      (c.output.length + chs.length ≤ (p.turns chs c).2.2.output.length ∨
        goal ≤ (p.turns chs c).2.2.output.length) := by
  induction chs generalizing p c with
  | nil => exact .inr ⟨fun result member => absurd member List.not_mem_nil, h, .inl (Nat.le_refl _)⟩
  | cons ch chs ih =>
    have grows := turns_grows (p.produce ch c).2.1 chs (p.produce ch c).2.2
    rcases h.produces coderProgress (obliging.before grows) with arrived | ⟨passed, underway, out⟩
    · exact .inl (turns_arrived coderProgress arrived chs)
    · rcases ih underway obliging with arrived | ⟨results, later, more⟩
      · exact .inl arrived
      · refine .inr ⟨?_, later, ?_⟩
        · intro result member
          rcases List.mem_cons.mp member with rfl | member
          · exact passed
          · exact results result member
        · have far := grows.output.length_le
          have after : (p.turns (ch :: chs) c).2.2 = ((p.produce ch c).2.1.turns chs (p.produce ch c).2.2).2.2 := rfl
          rw [List.length_cons, after]
          rcases more with more | reached
          · rcases out with out | reached
            · exact .inl (by omega)
            · exact .inr (Nat.le_trans reached far)
          · exact .inr reached

end Turns

end Producer
end Sluice
