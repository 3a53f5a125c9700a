import Sluice.Bench
import Sluice.Bench.Rehearsal
import Sluice.Proofs.Pump.ExchangePump

/-! What an abort means for an inbound pump. It does not ring the pump's bell, so a pump that waits
in front of a full inlet, with no ring on its way, never comes back. -/
namespace Sluice
open Attended (Aborted Fit)

section

variable {π α σ ρ : Type} [Attended π] [Inflow π Unit (Belled σ)] [Host π α σ] [ByteReader ρ]

/-- In every run an abort decides over the pump. Whether the pump is stranded afterwards, at any time,
is whether it was just before the abort. A stranded pump is never over. Another one that waits hears
of the abort once the worker has done a section. -/
def ConsumerPump.AbortDecides (pump : ConsumerPump π σ ρ) : Prop :=
  ∀ (moves : List (ConsumerPump.Move α σ ρ)) (move : ConsumerPump.Move α σ ρ) (more : List (ConsumerPump.Move α σ ρ)),
    let f := pump.run moves
    let g := (f.step move).run more
    Aborted (f.step move).consumer →
      Aborted g.consumer ∧ (g.Stranded ↔ f.Stranded) ∧ (g.Stranded → g.pump.outcome? = none) ∧
      (g.Listening → ¬ g.Stranded →
        (g.run [.act (Host.work π σ), .pump, .pump]).pump.outcome? = some (.error .aborted))

omit [Inflow π Unit (Belled σ)] [ByteReader ρ] in
private theorem ConsumerPump.sound_start (settings : PumpSettings) (reader : ρ) {consumer : π} (fit : Fit consumer)
    (outer : σ) : (ConsumerPump.start settings reader consumer outer).Sound where
  fit := fit
  loaded _ waiting := nomatch waiting

private theorem ConsumerPump.Sound.abortDecides [LawfulHost π σ] {pump : ConsumerPump π σ ρ}
    (sound : pump.Sound) : pump.AbortDecides := by
  intro moves move more f g aborted
  exact abort_decides (sound.run moves).1 move aborted more

/-- Who was stranded before an abort is so for ever. -/
theorem ConsumerPump.Sound.stays_stranded [LawfulHost π σ] {f : ConsumerPump π σ ρ} (sound : f.Sound)
    {move : ConsumerPump.Move α σ ρ} (aborted : Aborted (f.step move).consumer) (stranded : f.Stranded)
    (more : List (ConsumerPump.Move α σ ρ)) :
    ((f.step move).run more).Stranded ∧ ((f.step move).run more).pump.outcome? = none := by
  obtain ⟨_, before, stays, _⟩ := abort_decides sound move aborted more
  exact ⟨before.mpr stranded, stays (before.mpr stranded)⟩

end

/-- A pump in front of an inlet with one worker, or of an exchange: an abort strands nobody, and
brings nobody back who was stranded. -/
theorem abort_decides_waiting {ι σ ρ τ : Type} [Transport ι σ] [ResponseChannel σ] [ByteReader ρ] [Handler τ]
    (settings : PumpSettings) (limits : BufferSettings) (reader : ρ) (outer : σ) :
    (∀ inlet, Inlet.ofSettings limits = .ok inlet →
      (ConsumerPump.start settings reader (InletWithWorker.mk inlet none) outer).AbortDecides) ∧
    (∀ (executor : Executor) (handler : τ) (x : Exchange ι Unit τ),
      Exchange.ofHandler limits executor handler = .ok x →
      (ConsumerPump.start settings reader x outer).AbortDecides) := by
  constructor
  · intro inlet _
    exact (ConsumerPump.sound_start settings reader trivial outer).abortDecides
  · intro executor handler x fresh
    exact (ConsumerPump.sound_start settings reader (Exchange.fit_ofHandler fresh) outer).abortDecides

/-- A body of two bytes in front of an inlet for one. -/
def ConsumerPump.unread : ConsumerPump InletWithWorker Bench PlayedReader :=
  .start ⟨1, 2⟩ ⟨[.bytes [1, 2]]⟩ ⟨⟨⟨1, none, [], false, false, 0⟩, none, 0, none⟩, none⟩ (.ofChannels [])

/-- The same body in front of an exchange with a handler that dies. -/
def ConsumerPump.unheard : ConsumerPump (Exchange Line Unit Rehearsal) Bench PlayedReader :=
  .start ⟨1, 2⟩ ⟨[.bytes [1, 2]]⟩
    ⟨⟨1, none⟩, .runtime, .idle, none, none, none, Rehearsal.silent.tell .crash, none, 0⟩ (.ofChannels [])

/-- The request arrives, then the body. -/
def ConsumerPump.beginning : List (ConsumerPump.Move (Exchange.Event Line) Bench PlayedReader) :=
  .act (.start ⟨"POST", "/"⟩ true ⟨0, []⟩) :: List.replicate 4 .pump

theorem abort_decides_waiting_rung :
    let f := (ConsumerPump.unread.run (List.replicate 4 .pump)).step (.act .abort)
    let x := (ConsumerPump.unheard.run (ConsumerPump.beginning ++ List.replicate 3 (.act .work))).step (.act .work)
    f.Listening ∧ (f.run [.act .work, .pump, .pump]).pump.outcome? = some (.error .aborted) ∧
    x.Listening ∧ (x.run [.act .work, .pump, .pump]).pump.outcome? = some (.error .aborted) := by
  have law := @abort_decides_waiting Line Bench PlayedReader Rehearsal _ _ _ _ ⟨1, 2⟩ ⟨1, none⟩
    ⟨[.bytes [1, 2]]⟩ (.ofChannels [])
  have first := law.1 _ rfl (List.replicate 4 .pump) (.act .abort) [] ⟨_, rfl, rfl⟩
  have second := law.2 .runtime (Rehearsal.silent.tell .crash) _ rfl
    (ConsumerPump.beginning ++ List.replicate 3 (.act .work)) (.act .work) [] ⟨_, rfl, rfl⟩
  have waits : ((ConsumerPump.unread.run (List.replicate 4 .pump)).step (.act .abort)).Listening := ⟨[2], rfl⟩
  have waits' : ((ConsumerPump.unheard.run
      (ConsumerPump.beginning ++ List.replicate 3 (.act .work))).step (.act .work)).Listening :=
    ⟨[2], rfl⟩
  exact ⟨waits, first.2.2.2 waits fun ⟨_, silent, _⟩ => silent rfl,
    waits', second.2.2.2 waits' fun ⟨_, silent, _⟩ => silent rfl⟩

/-- With a buffer of one byte and a body of two the pump soon waits for room. Nobody reads, and the
abort leaves it waiting. -/
theorem abort_strands_unread :
    Inlet.ofSettings ⟨1, none⟩ = .ok ConsumerPump.unread.consumer.inlet ∧
    Aborted ((ConsumerPump.unread.run (List.replicate 7 .pump)).step (.act .abort)).consumer ∧
    ∀ more, let f := ((ConsumerPump.unread.run (List.replicate 7 .pump)).step (.act .abort)).run more
      f.Stranded ∧ f.pump.outcome? = none := by
  have aborted : Aborted ((ConsumerPump.unread.run (List.replicate 7 .pump)).step (.act .abort)).consumer :=
    ⟨_, rfl, rfl⟩
  have full : (ConsumerPump.unread.run (List.replicate 7 .pump)).Stranded := ⟨⟨[2], rfl⟩, nofun, nofun⟩
  have sound : ConsumerPump.unread.Sound := ConsumerPump.sound_start ⟨1, 2⟩ _ trivial _
  refine ⟨rfl, aborted, fun more => ?_⟩
  exact (sound.run _).1.stays_stranded aborted full more

end Sluice
