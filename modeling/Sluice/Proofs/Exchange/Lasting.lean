import Sluice.Proofs.Exchange.Onward
import Sluice.Proofs.Outlet.Sections

/-! What lasts of the buffers of an exchange, whoever moves: they stay in their places, once aborted or
ended they stay so, and behind an end nothing is added. -/
namespace Sluice

variable {ι κ σ τ : Type}

/-- A conduit some time later. -/
structure Conduit.Lasts (c c' : Conduit) : Prop where
  capacity : c'.capacity = c.capacity
  aborted : c.aborted = true → c'.aborted = true
  ended : c.ended = true → c'.ended = true
  dry : c.ended = true → c.bytes = [] → c'.bytes = []

namespace Conduit

theorem Lasts.refl (c : Conduit) : c.Lasts c := ⟨rfl, id, id, fun _ => id⟩

theorem Lasts.trans {c c' c'' : Conduit} (h : c.Lasts c') (h' : c'.Lasts c'') : c.Lasts c'' where
  capacity := h'.capacity.trans h.capacity
  aborted aborted := h'.aborted (h.aborted aborted)
  ended ended := h'.ended (h.ended ended)
  dry ended empty := h'.dry (h.ended ended) (h.dry ended empty)

private theorem lasts_drop (c : Conduit) (n : Nat) : c.Lasts (c.drop n) :=
  ⟨rfl, id, id, fun _ empty => by rw [drop, empty, List.drop_nil]⟩

private theorem lasts_finish (c : Conduit) : c.Lasts c.finish := ⟨rfl, id, fun _ => rfl, fun _ => id⟩

private theorem lasts_wake (c : Conduit) : c.Lasts c.wake := ⟨rfl, id, id, fun _ => id⟩

private theorem lasts_abort (c : Conduit) : c.Lasts c.abort := ⟨rfl, fun _ => rfl, id, fun _ _ => rfl⟩

/-- The conduits of two directions some time later. -/
def AllLast (conduit? conduit?' : Side → Option Conduit) : Prop :=
  ∀ side, Option.Rel Lasts (conduit? side) (conduit?' side)

theorem AllLast.refl (conduit? : Side → Option Conduit) : AllLast conduit? conduit? := by
  intro side
  cases conduit? side with
  | none => exact .none
  | some c => exact .some (.refl c)

end Conduit

namespace Inlet

private theorem fill_lasts (inlet : Inlet κ) (bytes : List UInt8) :
    inlet.conduit.Lasts (inlet.fill bytes).2.conduit := by
  obtain ⟨_, none, _, wakes, after⟩ := inlet.fill_spec bytes
  rw [after]
  exact ⟨rfl, id, id, fun ended empty => by simp only [empty, none ended, List.append_nil]⟩

private theorem markEnd_lasts (inlet : Inlet κ) : inlet.conduit.Lasts inlet.markEnd.conduit :=
  inlet.conduit.lasts_finish.trans (Conduit.lasts_wake _)

end Inlet

namespace Outlet

private theorem complete_lasts (outlet : Outlet ι) : outlet.conduit.Lasts outlet.complete.2.conduit := by
  unfold complete
  split
  · exact .refl _
  · split
    · exact .refl _
    · exact outlet.conduit.lasts_finish

/-- Whoever completes a body and is not told of a fault leaves it complete. -/
theorem complete_ends {outlet : Outlet ι} {ch : Option ι} (passed : outlet.complete.1 = .ok ch) :
    outlet.complete.2.conduit.ended = true := by
  unfold complete at passed ⊢
  split at passed
  · cases passed
  next live =>
    rw [if_neg live]
    split
    next ended => exact ended
    · rfl

private theorem abort_lasts (outlet : Outlet ι) : outlet.conduit.Lasts outlet.abort.2.conduit := by
  unfold abort
  split
  · exact .refl _
  · exact outlet.conduit.lasts_abort

private theorem flush_lasts [Transport ι σ] (outlet : Outlet ι) (ch : ι) (s : σ) :
    outlet.conduit.Lasts (outlet.flush ch s).2.1.conduit := by
  rcases outlet.flush_conduit ch s with same | ⟨n, _, _, taken⟩
  · rw [same]
    exact .refl _
  · rw [taken]
    exact (outlet.conduit.lasts_drop n).trans (Conduit.lasts_wake _)

end Outlet

private theorem Reading.step_lasts [CapacityChannel κ σ] (room : Nat) (r : Reading κ) (inlet : Inlet κ) (s : σ) :
    inlet.conduit.Lasts (r.step room inlet s).2.2.1.conduit := by
  obtain ⟨n, taken⟩ := r.step_conduit room inlet s
  rw [taken]
  exact inlet.conduit.lasts_drop n

private theorem Writing.step_lasts [Transport ι σ] (w : Writing ι) (outlet : Outlet ι) (s : σ) :
    outlet.conduit.Lasts (w.step outlet s).2.2.1.conduit := by
  obtain ⟨piece, moves⟩ := w.step_moves outlet s
  rw [moves.put]
  refine ⟨rfl, id, id, fun ended empty => ?_⟩
  have none : piece = [] := Classical.byContradiction fun some =>
    absurd ended (Bool.eq_false_iff.mp (moves.going some).2)
  simp only [empty, none, List.append_nil]

namespace Call

variable [Transport ι σ] [CapacityChannel κ σ] [ResponseChannel σ]

omit [Transport ι σ] [ResponseChannel σ] in
theorem stepReading_lasts (room : Nat) (r : Reading κ) (g : Ground ι κ) (s : σ) :
    Conduit.AllLast g.conduit? (stepReading room r g s).2.2.1.conduit? := by
  intro side
  cases present : g.inlet with
  | none =>
    simp only [stepReading, present]
    exact Conduit.AllLast.refl _ side
  | some inlet =>
    simp only [stepReading, present]
    cases side with
    | input =>
      have here : g.conduit? .input = some inlet.conduit := congrArg (Option.map Inlet.conduit) present
      exact here ▸ .some (r.step_lasts room inlet s)
    | output => exact .some (.refl _)

theorem step_lasts (call : Call ι κ) (g : Ground ι κ) (s : σ) :
    Conduit.AllLast g.conduit? (call.step g s).2.2.1.conduit? := by
  have passes : ∀ {outlet : Outlet ι}, g.outlet.conduit.Lasts outlet.conduit →
      Conduit.AllLast g.conduit? ({ g with outlet } : Ground ι κ).conduit? := by
    intro outlet lasts side
    cases side with
    | input => exact Conduit.AllLast.refl g.conduit? .input
    | output => exact .some lasts
  cases call with
  | reading room r =>
    have lasts := stepReading_lasts room r g s
    cases r with
    | done result => exact .refl _
    | _ => exact lasts
  | draining r =>
    have lasts := stepReading_lasts drainChunk r g s
    cases r with
    | done result =>
      match result with
      | .error fault => exact .refl _
      | .ok [] => exact .refl _
      | .ok (b :: bytes) => exact .refl _
    | _ => exact lasts
  | announcing head bytes =>
    simp only [step]
    split
    · exact .refl _
    · exact .refl _
  | writing count w =>
    have lasts := w.step_lasts g.outlet s
    cases w with
    | done result => exact .refl _
    | _ => exact passes lasts
  | completing =>
    have lasts := g.outlet.complete_lasts
    simp only [step]
    split
    next refused =>
      rw [refused] at lasts
      exact passes lasts
    next passed =>
      rw [passed] at lasts
      exact passes lasts
  | asking ch => exact .refl _
  | done answer => exact .refl _

end Call

namespace Exchange

/-- An exchange some time later. -/
def Lasts (x x' : Exchange ι κ τ) : Prop := Conduit.AllLast x.conduit? x'.conduit?

theorem lasts_same {x x' : Exchange ι κ τ} (inlet : x'.inlet = x.inlet) (outlet : x'.outlet = x.outlet) :
    x.Lasts x' := by
  have same : x'.conduit? = x.conduit? := by
    funext side
    cases side with
    | input => exact congrArg (Option.map Inlet.conduit) inlet
    | output => exact congrArg (Option.map Outlet.conduit) outlet
  rw [Lasts, same]
  exact .refl _

theorem Lasts.refl (x : Exchange ι κ τ) : x.Lasts x := Conduit.AllLast.refl _

/-- A buffer that is aborted stays so. -/
theorem Shut.lasts {x x' : Exchange ι κ τ} {side : Side} (h : x.Shut side) (lasts : x.Lasts x') : x'.Shut side := by
  intro c' there
  obtain ⟨c, here, later⟩ := Conduit.some_rel there (lasts side)
  exact later.aborted (h c here)

private theorem lasts_inlet {x : Exchange ι κ τ} {inlet inlet' : Inlet κ} (present : x.inlet = some inlet)
    (lasts : inlet.conduit.Lasts inlet'.conduit) : x.Lasts { x with inlet := some inlet' } := by
  intro side
  cases side with
  | input =>
    have here : x.conduit? .input = some inlet.conduit := congrArg (Option.map Inlet.conduit) present
    exact here ▸ .some lasts
  | output => exact Conduit.AllLast.refl _ _

private theorem lasts_outlet {x : Exchange ι κ τ} {outlet outlet' : Outlet ι} (placed : x.outlet = some outlet)
    (lasts : outlet.conduit.Lasts outlet'.conduit) : x.Lasts { x with outlet := some outlet' } := by
  intro side
  cases side with
  | input => exact Conduit.AllLast.refl _ _
  | output =>
    have here : x.conduit? .output = some outlet.conduit := congrArg (Option.map Outlet.conduit) placed
    exact here ▸ .some lasts

theorem consume_lasts (x : Exchange ι κ τ) (bytes : List UInt8) : x.Lasts (x.consume bytes).2 := by
  simp only [consume, input]
  cases present : x.inlet with
  | none => exact .refl x
  | some inlet => exact lasts_inlet present (inlet.fill_lasts bytes)

theorem streamEnd_lasts (x : Exchange ι κ τ) : x.Lasts x.streamEnd.2 := by
  simp only [streamEnd, input]
  cases present : x.inlet with
  | none => exact .refl x
  | some inlet => exact lasts_inlet present inlet.markEnd_lasts

theorem register_lasts {x : Exchange ι κ τ} {inlet : Inlet κ} (present : x.inlet = some inlet) (ch : κ) :
    x.Lasts { x with inlet := some (inlet.register ch).2 } := by
  refine lasts_inlet present ?_
  rw [inlet.conduit_register ch]
  exact .refl _

theorem revoke_lasts (x : Exchange ι κ τ) (increment : Nat) :
    x.Lasts { x with inlet := x.inlet.map (·.revoke increment) } := by
  cases present : x.inlet with
  | none => exact lasts_same present.symm rfl
  | some inlet => exact lasts_inlet present (.refl _)

theorem produce_lasts [Transport ι σ] (x : Exchange ι κ τ) (ch : ι) (s : σ) : x.Lasts (x.produce ch s).2.1 := by
  simp only [produce, output]
  cases placed : x.outlet with
  | none => exact .refl x
  | some outlet => exact lasts_outlet placed (outlet.flush_lasts ch s)

theorem abortInlet_lasts (x : Exchange ι κ τ) : x.Lasts x.abortInlet := by
  unfold abortInlet
  cases present : x.inlet with
  | none => exact lasts_same present.symm rfl
  | some inlet => exact lasts_inlet present inlet.conduit.lasts_abort

theorem abortOutlet_lasts (x : Exchange ι κ τ) : x.Lasts x.abortOutlet.2 := by
  unfold abortOutlet
  cases placed : x.outlet with
  | none => exact .refl x
  | some outlet => exact lasts_outlet placed outlet.abort_lasts

theorem timeOut_lasts (x : Exchange ι κ τ) : x.Lasts x.timeOut := by
  unfold timeOut
  split
  · dsimp only
    split
    · exact lasts_same rfl rfl
    · exact lasts_same rfl rfl
    · exact lasts_same rfl rfl
    · exact .refl x
  · exact .refl x

variable [Transport ι σ] [CapacityChannel κ σ] [ResponseChannel σ]

theorem stepCall_lasts (x : Exchange ι κ τ) (task : Task ι κ) (progress : Call ι κ → Progress ι κ)
    (call : Call ι κ) (s : σ) : x.Lasts (x.stepCall task progress call s).2.1 := by
  cases placed : x.outlet with
  | none =>
    simp only [stepCall, placed]
    exact .refl x
  | some outlet =>
    have lasts := call.step_lasts (x.ground task outlet) s
    rw [x.conduit?_ground task placed] at lasts
    rw [x.stepCall_placed placed]
    intro side
    have later := lasts side
    cases side with
    | input => exact later
    | output => exact later

theorem step_lasts [Handler τ] (x : Exchange ι κ τ) (s : σ) : x.Lasts (x.step s).2.1 := by
  unfold step
  cases x.task with
  | none => exact .refl x
  | some task =>
    obtain ⟨session, progress⟩ := task
    cases progress with
    | calling call =>
      cases call with
      | done answer => exact lasts_same rfl rfl
      | _ => exact x.stepCall_lasts _ _ _ s
    | closingInput call =>
      cases call with
      | done answer => exact lasts_same rfl rfl
      | _ => exact x.stepCall_lasts _ _ _ s
    | closingOutput call =>
      cases call with
      | done answer => exact lasts_same rfl rfl
      | _ => exact x.stepCall_lasts _ _ _ s
    | abortingInlet => exact x.abortInlet_lasts
    | abortingOutlet => exact x.abortOutlet_lasts
    | _ => exact lasts_same rfl rfl

end Exchange
end Sluice
