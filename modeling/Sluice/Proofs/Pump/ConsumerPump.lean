import Sluice.Proofs.Inlet.Sections
import Sluice.Pump.Inbound

/-! An inbound pump with a bell of its own, and a consumer that shares an inlet with a worker. After
an abort only a ring that was under way before it can bring a waiting pump back. -/
namespace Sluice

/-- A world beside the bell of a pump. No channel but the pump's own rings it. -/
structure Belled (σ : Type) where
  bell : Bell
  outer : σ

section

variable {ι σ : Type}

instance : CapacityChannel Unit (Belled σ) where
  update ch increment w :=
    let (result, bell) := CapacityChannel.update ch increment w.bell
    (result, { w with bell })

instance : BellAccess Unit (Belled σ) where
  bell _ w := w.bell
  update _ bell w := { w with bell }

instance [Transport ι σ] : Transport ι (Belled σ) where
  write ch bytes w :=
    let (result, outer) := Transport.write ch bytes w.outer
    (result, { w with outer })
  requestOutput ch w := { w with outer := Transport.requestOutput ch w.outer }
  endStream ch trailers w :=
    let (result, outer) := Transport.endStream ch trailers w.outer
    (result, { w with outer })

instance [ResponseChannel σ] : ResponseChannel (Belled σ) where
  send head entity w :=
    let (result, outer) := ResponseChannel.send head entity w.outer
    (result, { w with outer })

end

namespace Bell

/-- Whether a listener who comes now, or looks again, would be let through. -/
def Answers (bell : Bell) : Prop := bell.listen.1 = true

theorem answers_ring (bell : Bell) : bell.ring.Answers := by
  obtain ⟨stored, listener⟩ := bell
  cases listener with
  | _ => rfl

private theorem answers_listen {bell : Bell} (silent : ¬ bell.Answers) : ¬ bell.listen.2.Answers := by
  obtain ⟨stored, listener⟩ := bell
  cases listener with
  | absent => cases stored with
    | false => exact nofun
    | true => exact absurd rfl silent
  | asleep => exact nofun
  | called => exact absurd rfl silent

end Bell

def Reading.Announces : Reading Unit → Prop
  | announcing _ _ increment => 0 < increment
  | _ => False

/-- What of a consumer matters to a pump in front of it: the inlet, and the worker's read. `Fit`
holds of consumers as they occur. -/
class Attended (π : Type) where
  inlet : π → Option (Inlet Unit)
  reading : π → Option (Reading Unit)
  Fit : π → Prop

namespace Attended

variable {π : Type} [Attended π]

def Aborted (c : π) : Prop := ∃ inlet, Attended.inlet c = some inlet ∧ inlet.conduit.aborted = true

def Pending (c : π) : Prop := ∃ reading, Attended.reading c = some reading ∧ reading.Announces

end Attended

open Attended (Aborted Pending Fit)

/-- A consumer that is moved in other ways than by its pump, each an `α`. One of these is a section
of the worker. -/
class Host (π : Type) (α : outParam Type) (σ : Type) where
  act : α → π → Belled σ → π × Belled σ
  work : α

/-- A section beside the pump. It does not take an abort back, and after an abort it rings the bell
only to announce what was pending. -/
structure Beside {π σ : Type} [Attended π] (c : π) (w : Belled σ) (c' : π) (w' : Belled σ) : Prop where
  fit : Fit c'
  stays : Aborted c → Aborted c'
  ringing : Aborted c' →
    w'.bell = w.bell ∧ (Pending c' ↔ Pending c) ∨ w'.bell = w.bell.ring ∧ ¬ Pending c' ∧ Pending c

/-- A call from the pump. It neither aborts nor takes an abort back, and the worker stays where it is. -/
structure Ahead {π : Type} [Attended π] (c c' : π) : Prop where
  fit : Fit c → Fit c'
  aborted : Aborted c' ↔ Aborted c
  pending : Pending c' ↔ Pending c

theorem Ahead.refl {π : Type} [Attended π] (c : π) : Ahead c c := ⟨id, .rfl, .rfl⟩

private theorem Ahead.call {π β γ : Type} [Attended π] {c : π} {call result : β × π × γ}
    (ahead : Ahead c call.2.1) (same : call = result) : Ahead c result.2.1 := same ▸ ahead

/-- A consumer whose moves are such sections and such calls, which lets its pump know of an abort,
and whose worker announces what is pending in its next section. -/
class LawfulHost (π : Type) {α : outParam Type} (σ : Type) [Attended π] [Inflow π Unit (Belled σ)]
    [Host π α σ] : Prop where
  beside (a : α) (c : π) (w : Belled σ) : Fit c → Beside c w (Host.act a c w).1 (Host.act a c w).2
  announces (c : π) (w : Belled σ) : Fit c → Pending c →
    (Host.act (Host.work π σ) c w).2.bell = w.bell.ring
  updateCapacity (c : π) (ch : Unit) (w : Belled σ) : Ahead c (Inflow.updateCapacity c ch w).2.1
  consume (c : π) (bytes : List UInt8) (w : Belled σ) : Ahead c (Inflow.consume Unit c bytes w).2.1
  streamEnd (c : π) (w : Belled σ) : Ahead c (Inflow.streamEnd Unit c w).2.1
  fails_updateCapacity (c : π) (ch : Unit) (w : Belled σ) :
    Aborted c → (Inflow.updateCapacity c ch w).1 = .error .aborted
  fails_consume (c : π) (bytes : List UInt8) (w : Belled σ) :
    Aborted c → (Inflow.consume Unit c bytes w).1 = .error .aborted

/-- A pump in front of its consumer. -/
structure ConsumerPump (π σ ρ : Type) where
  pump : Inbound Unit ρ
  consumer : π
  world : Belled σ

namespace ConsumerPump

variable {π α σ ρ : Type} [Inflow π Unit (Belled σ)] [Host π α σ] [ByteReader ρ]

/-- A step of the pump, a move of the consumer, or a change on the far side of either. -/
inductive Move (α σ ρ : Type)
  | pump
  | act (a : α)
  | arrive (reader : ρ)
  | become (outer : σ)

def start (settings : PumpSettings) (reader : ρ) (consumer : π) (outer : σ) : ConsumerPump π σ ρ :=
  ⟨.start settings () reader, consumer, ⟨.silent, outer⟩⟩

def step (f : ConsumerPump π σ ρ) : Move α σ ρ → ConsumerPump π σ ρ
  | .pump =>
    let (_, pump, consumer, world) := f.pump.step f.consumer f.world
    { pump, consumer, world }
  | .act a =>
    let (consumer, world) := Host.act a f.consumer f.world
    { f with consumer, world }
  | .arrive reader => { f with pump := { f.pump with reader } }
  | .become outer => { f with world := { f.world with outer } }

def run (moves : List (Move α σ ρ)) (f : ConsumerPump π σ ρ) : ConsumerPump π σ ρ := moves.foldl step f

private theorem pump_listens {f : ConsumerPump π σ ρ} {chunk : List UInt8} (waiting : f.pump.stage = .listening chunk) :
    (f.world.bell.Answers → (f.step .pump).pump.stage = .offering chunk) ∧
    (¬ f.world.bell.Answers → (f.step .pump).pump.stage = .listening chunk ∧
      (f.step .pump).world.bell = f.world.bell.listen.2) ∧
    (f.step .pump).consumer = f.consumer := by
  simp only [step, Inbound.step, waiting]
  split
  next answers => exact ⟨fun _ => rfl, fun silent => absurd answers silent, rfl⟩
  next silent => exact ⟨fun answers => absurd answers silent, fun _ => ⟨waiting, rfl⟩, rfl⟩

private theorem pump_fails {f : ConsumerPump π σ ρ} {chunk : List UInt8} {fault : Fault}
    (offering : f.pump.stage = .offering chunk) (loaded : chunk ≠ [])
    (fails : (Inflow.consume Unit f.consumer chunk f.world).1 = .error fault) :
    (f.step .pump).pump.outcome? = some (.error fault) := by
  obtain ⟨byte, rest, rfl⟩ := List.exists_cons_of_ne_nil loaded
  simp only [step, Inbound.step, offering]
  split
  next failed =>
    rw [failed] at fails
    obtain rfl := Except.error.inj fails
    rfl
  next passed =>
    rw [passed] at fails
    cases fails
  next passed =>
    rw [passed] at fails
    cases fails

private theorem pump_waits {f : ConsumerPump π σ ρ} {chunk : List UInt8}
    (listening : (f.step .pump).pump.stage = .listening chunk) :
    f.pump.stage = .listening chunk ∨ f.pump.stage = .offering chunk ∧ chunk ≠ [] ∧
      (Inflow.consume Unit f.consumer chunk f.world).1 = .ok 0 := by
  simp only [step, Inbound.step] at listening
  split at listening
  · split at listening
    · cases listening
    · split at listening
      · cases listening
      · cases listening
  next reading =>
    split at listening
    · rw [reading] at listening
      cases listening
    · cases listening
    · split at listening
      · cases listening
      · cases listening
    · cases listening
  · cases listening
  next offered some offering =>
    split at listening
    · cases listening
    next full =>
      obtain rfl := InboundStage.listening.inj listening
      exact .inr ⟨offering, some, congrArg Prod.fst full⟩
    · cases listening
  next waiting =>
    split at listening
    · cases listening
    · exact .inl listening
  next finished =>
    rw [finished] at listening
    cases listening

variable [Attended π]

/-- The pump waits for room, or is about to. -/
def Listening (f : ConsumerPump π σ ρ) : Prop := ∃ chunk, f.pump.stage = .listening chunk

/-- The pump waits for room, no ring of its bell is stored or has called it, and none is to come
from an announcement under way. -/
def Stranded (f : ConsumerPump π σ ρ) : Prop :=
  f.Listening ∧ ¬ f.world.bell.Answers ∧ ¬ Pending f.consumer

/-- What holds of a pump and its consumer at all times. -/
structure Sound (f : ConsumerPump π σ ρ) : Prop where
  fit : Fit f.consumer
  loaded : ∀ chunk, f.pump.stage = .listening chunk → chunk ≠ []

variable [LawfulHost π σ]

private theorem pump_ahead (f : ConsumerPump π σ ρ) : Ahead f.consumer (f.step .pump).consumer := by
  simp only [step, Inbound.step]
  split
  · split
    · exact .refl _
    · split
      next failed => exact (LawfulHost.updateCapacity f.consumer f.pump.capacity f.world).call failed
      next passed => exact (LawfulHost.updateCapacity f.consumer f.pump.capacity f.world).call passed
  · split
    · exact .refl _
    · exact .refl _
    · split
      next failed => exact (LawfulHost.streamEnd f.consumer f.world).call failed
      next passed => exact (LawfulHost.streamEnd f.consumer f.world).call passed
    · exact .refl _
  · exact .refl _
  next chunk _ _ =>
    split
    all_goals
      next called => exact (LawfulHost.consume f.consumer chunk f.world).call called
  · split
    · exact .refl _
    · exact .refl _
  · exact .refl _

private theorem pump_stops {f : ConsumerPump π σ ρ} (aborted : Aborted f.consumer) (busy : ¬ f.Listening) :
    ¬ (f.step .pump).Listening := by
  rintro ⟨chunk, listening⟩
  rcases pump_waits listening with before | ⟨_, _, full⟩
  · exact busy ⟨chunk, before⟩
  · rw [LawfulHost.fails_consume f.consumer chunk f.world aborted] at full
    cases full

private theorem stranded_pump {f : ConsumerPump π σ ρ} (aborted : Aborted f.consumer) :
    (f.step .pump).Stranded ↔ f.Stranded := by
  by_cases waits : f.Listening
  · obtain ⟨chunk, waiting⟩ := waits
    obtain ⟨called, stays, same⟩ := pump_listens waiting
    by_cases answers : f.world.bell.Answers
    · have gone := called answers
      constructor
      · rintro ⟨⟨rest, waiting'⟩, _⟩
        rw [gone] at waiting'
        cases waiting'
      · exact fun ⟨_, silent, _⟩ => absurd answers silent
    · obtain ⟨waiting', bell⟩ := stays answers
      have silent := Bell.answers_listen answers
      rw [← bell] at silent
      unfold Stranded
      rw [same]
      exact ⟨fun h => ⟨⟨chunk, waiting⟩, answers, h.2.2⟩, fun h => ⟨⟨chunk, waiting'⟩, silent, h.2.2⟩⟩
  · exact ⟨fun h => absurd h.1 (pump_stops aborted waits), fun h => absurd h.1 waits⟩

/-- Every move keeps that, and no move takes an abort back. -/
theorem Sound.step {f : ConsumerPump π σ ρ} (h : f.Sound) (move : Move α σ ρ) :
    (f.step move).Sound ∧ (Aborted f.consumer → Aborted (f.step move).consumer) := by
  cases move with
  | pump =>
    refine ⟨⟨(pump_ahead f).fit h.fit, ?_⟩, (pump_ahead f).aborted.mpr⟩
    intro chunk listening
    rcases pump_waits listening with before | ⟨_, some, _⟩
    · exact h.loaded chunk before
    · exact some
  | act a =>
    have beside := LawfulHost.beside a f.consumer f.world h.fit
    exact ⟨⟨beside.fit, h.loaded⟩, beside.stays⟩
  | arrive reader => exact ⟨⟨h.fit, h.loaded⟩, id⟩
  | become outer => exact ⟨⟨h.fit, h.loaded⟩, id⟩

/-- A move behind which the consumer is aborted strands the pump only if it was so before, and does
not bring it back either. -/
theorem stranded_step {f : ConsumerPump π σ ρ} (h : f.Sound) (move : Move α σ ρ)
    (aborted : Aborted (f.step move).consumer) : (f.step move).Stranded ↔ f.Stranded := by
  cases move with
  | pump => exact stranded_pump ((pump_ahead f).aborted.mp aborted)
  | act a =>
    rcases (LawfulHost.beside a f.consumer f.world h.fit).ringing aborted with
      ⟨bell, pending⟩ | ⟨bell, settled, pending⟩
    · unfold Stranded
      simp only [ConsumerPump.step, bell, pending]
      exact .rfl
    · constructor
      · rintro ⟨_, silent, _⟩
        simp only [ConsumerPump.step, bell] at silent
        exact absurd f.world.bell.answers_ring silent
      · exact fun ⟨_, _, settled⟩ => absurd pending settled
  | arrive reader => exact .rfl
  | become outer => exact .rfl

theorem Sound.run {f : ConsumerPump π σ ρ} (h : f.Sound) (moves : List (Move α σ ρ)) :
    (f.run moves).Sound ∧ (Aborted f.consumer → Aborted (f.run moves).consumer) := by
  induction moves generalizing f with
  | nil => exact ⟨h, id⟩
  | cons move rest ih =>
    obtain ⟨h', stays⟩ := h.step move
    exact ⟨(ih h').1, fun aborted => (ih h').2 (stays aborted)⟩

private theorem stranded_run {f : ConsumerPump π σ ρ} (h : f.Sound) (aborted : Aborted f.consumer)
    (moves : List (Move α σ ρ)) : (f.run moves).Stranded ↔ f.Stranded := by
  induction moves generalizing f with
  | nil => exact .rfl
  | cons move rest ih =>
    obtain ⟨h', stays⟩ := h.step move
    exact (ih h' (stays aborted)).trans (stranded_step h move (stays aborted))

/-- A waiting pump that is not stranded hears of the abort once the worker has done a section. -/
theorem observes_abort {f : ConsumerPump π σ ρ} (h : f.Sound) (aborted : Aborted f.consumer)
    (waits : f.Listening) (reached : ¬ f.Stranded) :
    (f.run [.act (Host.work π σ), .pump, .pump]).pump.outcome? = some (.error .aborted) := by
  obtain ⟨chunk, waiting⟩ := waits
  have beside := LawfulHost.beside (Host.work π σ) f.consumer f.world h.fit
  have aborted' := beside.stays aborted
  have answers : (f.step (.act (Host.work π σ))).world.bell.Answers := by
    by_cases before : f.world.bell.Answers
    · rcases beside.ringing aborted' with ⟨bell, _⟩ | ⟨bell, _⟩
      · exact bell ▸ before
      · exact bell ▸ f.world.bell.answers_ring
    · have pending : Pending f.consumer := Classical.byContradiction fun settled =>
        reached ⟨⟨chunk, waiting⟩, before, settled⟩
      have bell := LawfulHost.announces f.consumer f.world h.fit pending
      exact bell ▸ f.world.bell.answers_ring
  obtain ⟨called, _, same⟩ := pump_listens (f := f.step (.act (Host.work π σ))) waiting
  apply pump_fails (called answers) (h.loaded chunk waiting)
  exact LawfulHost.fails_consume _ chunk _ (same ▸ aborted')

/-- An abort decides over the pump. Whether it is stranded at any time after the move that aborts is
whether it was just before. A stranded pump is never over, another one that waits hears of the abort. -/
theorem abort_decides {f : ConsumerPump π σ ρ} (h : f.Sound) (move : Move α σ ρ)
    (aborted : Aborted (f.step move).consumer) (more : List (Move α σ ρ)) :
    let g := (f.step move).run more
    Aborted g.consumer ∧ (g.Stranded ↔ f.Stranded) ∧ (g.Stranded → g.pump.outcome? = none) ∧
    (g.Listening → ¬ g.Stranded →
      (g.run [.act (Host.work π σ), .pump, .pump]).pump.outcome? = some (.error .aborted)) := by
  intro g
  obtain ⟨h1, _⟩ := h.step move
  obtain ⟨h2, stays⟩ := h1.run more
  refine ⟨stays aborted, (stranded_run h1 aborted more).trans (stranded_step h move aborted), ?_,
    observes_abort h2 (stays aborted)⟩
  rintro ⟨⟨chunk, waiting⟩, _⟩
  simp only [Inbound.outcome?, waiting]

end ConsumerPump
end Sluice
