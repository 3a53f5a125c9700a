import Sluice.Producer
import Sluice.Proofs.Chronicle

/-! The critical sections of a producer in any order, with the writes that it answered. Whole turns
and calls of a handle are runs of sections, between which other threads may come in. -/
namespace Sluice

/-- A write and its result. -/
structure Written (κ : Type) where
  data : κ
  result : Except Fault Nat

/-- The core of a producer with its channels and the writes since its last release. -/
structure CoreRun (γ κ ι σ : Type) where
  core : Core γ ι
  channels : Chronicle ι σ
  writes : List (Written κ)

/-- A critical section of a turn or of a handle, a request for a turn, or a move of the channels on
their own. -/
inductive Section (κ ι σ : Type)
  | openTurn (ch : ι)
  | write (data : κ)
  | endStream
  | closeTurn (ch : ι)
  | ask (ch : Option ι)
  | release
  | become (world : σ)

namespace CoreRun

variable {γ κ ι σ τ α : Type}

def initial (capacity : Nat) (coder : γ) (world : σ) : CoreRun γ κ ι σ :=
  ⟨.initial capacity coder, .start world, []⟩

variable [Coder γ κ] [Transport ι σ]

/-- Do one section. A release closes the record of the message and opens the next one. -/
def perform (hint : Nat) (l : CoreRun γ κ ι σ) : Section κ ι σ → CoreRun γ κ ι σ
  | .openTurn ch => { l with core := l.core.openTurn ch }
  | .write data =>
    let (result, core, channels) := l.core.write hint data l.channels
    ⟨core, channels, l.writes ++ [⟨data, result⟩]⟩
  | .endStream => { l with core := l.core.endStream }
  | .closeTurn ch =>
    let (_, core, channels) := l.core.closeTurn hint ch l.channels
    { l with core, channels }
  | .ask ch => { l with channels := Transport.requestOutput ch l.channels }
  | .release => ⟨l.core.release, .start l.channels.world, []⟩
  | .become world => { l with channels := { l.channels with world } }

def run (hint : Nat) (sections : List (Section κ ι σ)) (l : CoreRun γ κ ι σ) : CoreRun γ κ ι σ :=
  sections.foldl (perform hint) l

@[simp] theorem run_nil (hint : Nat) (l : CoreRun γ κ ι σ) : l.run hint [] = l := rfl

@[simp] theorem run_cons (hint : Nat) (s : Section κ ι σ) (rest : List (Section κ ι σ))
    (l : CoreRun γ κ ι σ) : l.run hint (s :: rest) = (l.perform hint s).run hint rest := rfl

theorem run_append (hint : Nat) (first second : List (Section κ ι σ)) (l : CoreRun γ κ ι σ) :
    l.run hint (first ++ second) = (l.run hint first).run hint second :=
  List.foldl_append

/-- What holds at first and survives each section holds after any run. -/
theorem run_induction {holds : CoreRun γ κ ι σ → Prop} (hint : Nat)
    (step : ∀ l, holds l → ∀ s, holds (l.perform hint s))
    (sections : List (Section κ ι σ)) (l : CoreRun γ κ ι σ) (h : holds l) :
    holds (l.run hint sections) := by
  induction sections generalizing l with
  | nil => exact h
  | cons s rest ih => exact ih (l.perform hint s) (step l h s)

end CoreRun

section Turns

variable {γ κ ι σ τ α : Type} [Coder γ κ] [Transport ι σ]

def Turn.writes (hint : Nat) : Turn κ α → Core γ ι → σ → List (Written κ)
  | done _, _, _ => []
  | write data next, core, s =>
    let (result, core, s) := core.write hint data s
    ⟨data, result⟩ :: writes hint (next result) core s
  | endStream next, core, s =>
    let (core, s) := core.postEnd s
    writes hint next core s

/-- A source does its turn in sections. -/
theorem Turn.run_sections (hint : Nat) (turn : Turn κ α) (l : CoreRun γ κ ι σ) :
    ∃ sections : List (Section κ ι σ), l.run hint sections =
      ⟨(turn.run hint l.core l.channels).2.1, (turn.run hint l.core l.channels).2.2,
        l.writes ++ turn.writes hint l.core l.channels⟩ := by
  induction turn generalizing l with
  | done outcome => exact ⟨[], by simp [Turn.run, Turn.writes]⟩
  | write data next ih =>
    obtain ⟨sections, hs⟩ :=
      ih (l.core.write hint data l.channels).1 (l.perform hint (.write data))
    refine ⟨.write data :: sections, hs.trans ?_⟩
    simp [CoreRun.perform, Turn.run, Turn.writes]
  | endStream next ih =>
    obtain ⟨sections, hs⟩ := ih ((l.perform hint .endStream).perform hint (.ask l.core.channel))
    exact ⟨.endStream :: .ask l.core.channel :: sections, hs⟩

/-- A write through a handle is a section and, if anything was taken, a request for a turn. -/
theorem Producer.write_sections (p : Producer γ ι τ) (data : κ) (l : CoreRun γ κ ι σ)
    (hp : p.core = l.core) :
    ∃ sections : List (Section κ ι σ), l.run p.hint sections =
      ⟨(p.write data l.channels).2.1.core, (p.write data l.channels).2.2,
        l.writes ++ [⟨data, (p.write data l.channels).1⟩]⟩ := by
  simp only [Producer.write, Core.post, hp]
  rcases hw : l.core.write p.hint data l.channels with ⟨result, core, channels⟩
  cases result with
  | error fault => exact ⟨[.write data], by simp [CoreRun.perform, hw]⟩
  | ok taken =>
    by_cases some : 0 < taken
    · exact ⟨[.write data, .ask core.channel], by simp [CoreRun.perform, hw, some]⟩
    · exact ⟨[.write data], by simp [CoreRun.perform, hw, some]⟩

variable [Source τ κ]

/-- The writes of the source in a turn of its producer, as long as there are any. -/
def Producer.writes (p : Producer γ ι τ) (ch : ι) (s : σ) : List (Written κ) :=
  let core := p.core.openTurn ch
  if core.state = .active then (Source.turn p.source).writes p.hint core s else []

/-- A producer does a turn in sections. -/
theorem Producer.produce_sections (p : Producer γ ι τ) (ch : ι) (l : CoreRun γ κ ι σ)
    (hp : p.core = l.core) :
    ∃ sections : List (Section κ ι σ), l.run p.hint sections =
      ⟨(p.produce ch l.channels).2.1.core, (p.produce ch l.channels).2.2,
        l.writes ++ p.writes ch l.channels⟩ := by
  have opened : l.perform p.hint (.openTurn ch) = ⟨p.core.openTurn ch, l.channels, l.writes⟩ := by
    rw [hp]
    rfl
  obtain ⟨called, hc⟩ :=
    (Source.turn p.source).run_sections p.hint (l.perform p.hint (.openTurn ch))
  rw [opened] at hc
  simp only [Producer.produce, Producer.writes]
  split
  · split
    next failed =>
      refine ⟨.openTurn ch :: called, ?_⟩
      rw [CoreRun.run_cons, opened, hc, failed]
    next passed =>
      refine ⟨.openTurn ch :: (called ++ [.closeTurn ch]), ?_⟩
      rw [CoreRun.run_cons, opened, CoreRun.run_append, hc, passed]
      rfl
  · refine ⟨[.openTurn ch, .closeTurn ch], ?_⟩
    rw [CoreRun.run_cons, opened, List.append_nil]
    rfl

end Turns
end Sluice
