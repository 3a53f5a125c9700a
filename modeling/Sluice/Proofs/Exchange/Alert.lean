import Sluice.Exchange.Worker
import Sluice.Proofs.Inlet.Sections

/-! What becomes of a call when the buffers of its exchange are aborted. It is awake, and it fails
unless it had got what it came for before. -/
namespace Sluice

variable {ι κ σ τ : Type}

private theorem Pace.going_ne_parked : Pace.going ≠ .parked := by decide

private theorem Pace.finished_ne_parked : Pace.finished ≠ .parked := by decide

namespace Conduit

/-- A conduit some time later, if nobody has aborted it. -/
structure Goes (c c' : Conduit) : Prop where
  aborted : c'.aborted = c.aborted
  wakes : c.wakes ≤ c'.wakes

/-- A conduit some time later. Once aborted it stays so, and an abort wakes everybody. -/
structure Later (c c' : Conduit) : Prop where
  wakes : c.wakes ≤ c'.wakes
  stays : c.aborted = true → c'.aborted = true
  woken : c.aborted = false → c'.aborted = true → c.wakes < c'.wakes

theorem Goes.refl (c : Conduit) : c.Goes c := ⟨rfl, Nat.le_refl _⟩

theorem Goes.later {c c' : Conduit} (h : c.Goes c') : c.Later c' where
  wakes := h.wakes
  stays aborted := h.aborted.trans aborted
  woken live aborted := absurd (aborted.symm.trans h.aborted) (by simp [live])

theorem later_abort (c : Conduit) : c.Later c.abort where
  wakes := Nat.le_succ _
  stays _ := rfl
  woken _ _ := Nat.lt_succ_self _

theorem rel_goes_refl (conduit : Option Conduit) : Option.Rel Goes conduit conduit := by
  cases conduit with
  | none => exact .none
  | some c => exact .some (.refl c)

theorem rel_later_of_goes {conduit conduit' : Option Conduit} (h : Option.Rel Goes conduit conduit') :
    Option.Rel Later conduit conduit' := by
  cases h with
  | none => exact .none
  | some goes => exact .some goes.later

theorem rel_some {related : Conduit → Conduit → Prop} {conduit conduit' : Option Conduit} {c : Conduit}
    (here : conduit = some c) (h : Option.Rel related conduit conduit') :
    ∃ c', conduit' = some c' ∧ related c c' := by
  cases h with
  | none => cases here
  | some rel => exact ⟨_, rfl, Option.some.inj here ▸ rel⟩

theorem rel_none {related : Conduit → Conduit → Prop} {conduit conduit' : Option Conduit}
    (nowhere : conduit = none) (h : Option.Rel related conduit conduit') : conduit' = none := by
  cases h with
  | none => rfl
  | some rel => cases nowhere

theorem some_rel {related : Conduit → Conduit → Prop} {conduit conduit' : Option Conduit} {c' : Conduit}
    (there : conduit' = some c') (h : Option.Rel related conduit conduit') :
    ∃ c, conduit = some c ∧ related c c' := by
  cases h with
  | none => cases there
  | some rel => exact ⟨_, rfl, Option.some.inj there ▸ rel⟩

/-- Whether one who fell asleep at a count may sleep on, and is awake if the conduit is aborted. -/
def Rouses (c : Conduit) (since : Nat) : Prop := since ≤ c.wakes ∧ (c.aborted = true → since < c.wakes)

private theorem rouses_live {c : Conduit} (live : ¬ c.aborted = true) : c.Rouses c.wakes :=
  ⟨Nat.le_refl _, fun aborted => absurd aborted live⟩

private theorem Rouses.later {c c' : Conduit} {since : Nat} (h : c.Rouses since) (later : c.Later c') :
    c'.Rouses since := by
  refine ⟨Nat.le_trans h.1 later.wakes, fun aborted => ?_⟩
  cases before : c.aborted with
  | false => exact Nat.lt_of_le_of_lt h.1 (later.woken before aborted)
  | true => exact Nat.lt_of_lt_of_le (h.2 before) later.wakes

end Conduit

namespace Reading

/-- Whether a read sleeps only where it has been woken by an abort. -/
def Alert (c : Conduit) : Reading κ → Prop
  | asleep since => c.Rouses since
  | _ => True

/-- Whether a read has no bytes yet. -/
def Vain : Reading κ → Prop
  | entering | asleep _ | done (.error _) => True
  | _ => False

theorem Alert.later {c c' : Conduit} {r : Reading κ} (h : r.Alert c) (later : c.Later c') : r.Alert c' := by
  cases r with
  | asleep since => exact Conduit.Rouses.later h later
  | _ => trivial

theorem alert_ofRoom (c : Conduit) (room : Nat) : (ofRoom room : Reading κ).Alert c := by
  simp only [ofRoom]
  split <;> trivial

theorem vain_ofRoom {room : Nat} (some : room ≠ 0) : (ofRoom room : Reading κ).Vain := by
  simp only [ofRoom, some, if_false]
  trivial

end Reading

namespace Inlet

theorem fill_goes (inlet : Inlet κ) (bytes : List UInt8) : inlet.conduit.Goes (inlet.fill bytes).2.conduit := by
  simp only [fill]
  split
  · exact .refl _
  · split
    · exact .refl _
    · split
      · exact ⟨rfl, Nat.le_succ _⟩
      · exact ⟨rfl, Nat.le_refl _⟩

theorem markEnd_goes (inlet : Inlet κ) : inlet.conduit.Goes inlet.markEnd.conduit := ⟨rfl, Nat.le_succ _⟩

/-- What a section of a read that looks for bytes leaves behind. On an aborted inlet it finds none. -/
theorem take_spec (inlet : Inlet κ) (room : Nat) :
    inlet.conduit.Goes (inlet.take room).2.conduit ∧ (inlet.take room).1.Alert (inlet.take room).2.conduit ∧
    (inlet.conduit.aborted = true → (inlet.take room).1 = .done (.error .aborted)) := by
  simp only [take]
  split
  next aborted => exact ⟨.refl _, trivial, fun _ => rfl⟩
  next live =>
    refine and_assoc.mp ⟨?_, fun aborted => absurd aborted live⟩
    split
    · split
      · exact ⟨.refl _, trivial⟩
      · exact ⟨.refl _, Conduit.rouses_live live⟩
    · rw [conduit_afterTake]
      refine ⟨⟨rfl, Nat.le_refl _⟩, ?_⟩
      simp only [afterTake]
      split
      · trivial
      · split
        · trivial
        · split <;> trivial

private theorem enter_spec (inlet : Inlet κ) (room : Nat) :
    inlet.conduit.Goes (inlet.enter room).2.conduit ∧ (inlet.enter room).1.Alert (inlet.enter room).2.conduit ∧
    (inlet.conduit.aborted = true → (inlet.enter room).1.Vain) := by
  simp only [enter]
  split
  · exact ⟨.refl _, trivial, fun _ => trivial⟩
  · obtain ⟨goes, alert, fails⟩ := inlet.take_spec room
    refine ⟨goes, alert, fun aborted => ?_⟩
    rw [fails aborted]
    trivial

end Inlet

namespace Reading

variable [CapacityChannel κ σ]

/-- A read does not abort its inlet, and whenever it falls asleep the inlet is live. -/
theorem step_alert (room : Nat) {r : Reading κ} {inlet : Inlet κ} (alert : r.Alert inlet.conduit) (s : σ) :
    inlet.conduit.Goes (r.step room inlet s).2.2.1.conduit ∧
    (r.step room inlet s).2.1.Alert (r.step room inlet s).2.2.1.conduit := by
  cases r with
  | entering => exact ⟨(inlet.enter_spec room).1, (inlet.enter_spec room).2.1⟩
  | asleep since =>
    simp only [step]
    split
    · exact ⟨.refl _, alert⟩
    · exact ⟨(inlet.take_spec room).1, (inlet.take_spec room).2.1⟩
  | announcing bytes ch increment =>
    simp only [step]
    split
    · exact ⟨.refl _, trivial⟩
    · exact ⟨.refl _, trivial⟩
  | _ => exact ⟨.refl _, trivial⟩

/-- A read of an aborted inlet goes on, and if it has no bytes it gets none. -/
theorem step_aborted (room : Nat) {r : Reading κ} {inlet : Inlet κ} (alert : r.Alert inlet.conduit)
    (aborted : inlet.conduit.aborted = true) (s : σ) :
    (r.step room inlet s).1 ≠ .parked ∧ (r.Vain → (r.step room inlet s).2.1.Vain) := by
  cases r with
  | entering => exact ⟨Pace.going_ne_parked, fun _ => (inlet.enter_spec room).2.2 aborted⟩
  | asleep since =>
    have awake : ¬ since = inlet.conduit.wakes := Nat.ne_of_lt (alert.2 aborted)
    simp only [step, awake, if_false]
    refine ⟨Pace.going_ne_parked, fun _ => ?_⟩
    rw [(inlet.take_spec room).2.2 aborted]
    trivial
  | announcing bytes ch increment =>
    simp only [step]
    split
    · exact ⟨Pace.going_ne_parked, False.elim⟩
    · exact ⟨Pace.going_ne_parked, False.elim⟩
  | done result => exact ⟨Pace.finished_ne_parked, id⟩
  | _ => exact ⟨Pace.going_ne_parked, False.elim⟩

end Reading

namespace Writing

/-- Whether a write sleeps only where it has been woken by an abort. -/
def Alert (c : Conduit) : Writing ι → Prop
  | asleep _ since => c.Rouses since
  | _ => True

/-- Whether a write has bytes left to place. -/
def Vain : Writing ι → Prop
  | placing _ | asleep _ _ | done (.error _) => True
  | asking _ rest => rest ≠ []
  | done (.ok ()) => False

theorem Alert.later {c c' : Conduit} {w : Writing ι} (h : w.Alert c) (later : c.Later c') : w.Alert c' := by
  cases w with
  | asleep rest since => exact Conduit.Rouses.later h later
  | _ => trivial

theorem alert_ofRest (c : Conduit) (rest : List UInt8) : (ofRest rest : Writing ι).Alert c := by
  simp only [ofRest]
  split <;> trivial

private theorem vain_ofRest {rest : List UInt8} (some : rest ≠ []) : (ofRest rest : Writing ι).Vain := by
  cases rest with
  | nil => exact absurd rfl some
  | cons b rest => trivial

end Writing

namespace Outlet

/-- What a section of a write that looks for room leaves behind. On an aborted outlet it finds none. -/
theorem place_spec (outlet : Outlet ι) (rest : List UInt8) :
    outlet.conduit.Goes (outlet.place rest).2.conduit ∧
    (outlet.place rest).1.Alert (outlet.place rest).2.conduit ∧
    (outlet.conduit.aborted = true → (outlet.place rest).1 = .done (.error .aborted)) := by
  simp only [place]
  split
  next aborted => exact ⟨.refl _, trivial, fun _ => rfl⟩
  next live =>
    refine and_assoc.mp ⟨?_, fun aborted => absurd aborted live⟩
    split
    · exact ⟨.refl _, trivial⟩
    · split
      · exact ⟨.refl _, Conduit.rouses_live live⟩
      · split
        · exact ⟨⟨rfl, Nat.le_refl _⟩, Writing.alert_ofRest _ _⟩
        · exact ⟨⟨rfl, Nat.le_refl _⟩, trivial⟩

theorem complete_goes (outlet : Outlet ι) : outlet.conduit.Goes outlet.complete.2.conduit := by
  simp only [complete]
  split
  · exact .refl _
  · split
    · exact .refl _
    · exact ⟨rfl, Nat.le_refl _⟩

theorem abort_later (outlet : Outlet ι) : outlet.conduit.Later outlet.abort.2.conduit := by
  simp only [abort]
  split
  · exact (Conduit.Goes.refl _).later
  · exact outlet.conduit.later_abort

theorem abort_aborted (outlet : Outlet ι) : outlet.abort.2.conduit.aborted = true := by
  simp only [abort]
  split
  next aborted => exact aborted
  · rfl

variable [Transport ι σ]

theorem flush_goes (outlet : Outlet ι) (ch : ι) (s : σ) :
    outlet.conduit.Goes (outlet.flush ch s).2.1.conduit := by
  have drained : ∀ o : Outlet ι, o.conduit.Goes (o.drain ch s).2.1.conduit := by
    intro o
    simp only [drain]
    split
    · exact .refl _
    · split
      · exact .refl _
      · split
        · exact ⟨rfl, Nat.le_succ _⟩
        · exact ⟨rfl, Nat.le_refl _⟩
  have signalled : ∀ (o : Outlet ι) (s : σ), (o.signal ch s).2.1.conduit = o.conduit := by
    intro o s
    simp only [signal]
    split <;> rfl
  have passed := drained { outlet with channel := some ch }
  simp only [flush]
  split
  · exact .refl _
  · split
    next failed =>
      rw [failed] at passed
      exact passed
    next flushed =>
      rw [flushed] at passed
      rw [signalled]
      exact passed

end Outlet

namespace Writing

variable [Transport ι σ]

/-- A write does not abort its outlet, and whenever it falls asleep the outlet is live. -/
theorem step_alert {w : Writing ι} {outlet : Outlet ι} (alert : w.Alert outlet.conduit) (s : σ) :
    outlet.conduit.Goes (w.step outlet s).2.2.1.conduit ∧
    (w.step outlet s).2.1.Alert (w.step outlet s).2.2.1.conduit := by
  cases w with
  | placing rest => exact ⟨(outlet.place_spec rest).1, (outlet.place_spec rest).2.1⟩
  | asleep rest since =>
    simp only [step]
    split
    · exact ⟨.refl _, alert⟩
    · exact ⟨(outlet.place_spec rest).1, (outlet.place_spec rest).2.1⟩
  | asking ch rest => exact ⟨.refl _, alert_ofRest _ _⟩
  | done result => exact ⟨.refl _, trivial⟩

/-- A write to an aborted outlet goes on, and if it has bytes left it places none. -/
theorem step_aborted {w : Writing ι} {outlet : Outlet ι} (alert : w.Alert outlet.conduit)
    (aborted : outlet.conduit.aborted = true) (s : σ) :
    (w.step outlet s).1 ≠ .parked ∧ (w.Vain → (w.step outlet s).2.1.Vain) := by
  cases w with
  | placing rest =>
    refine ⟨nofun, fun _ => ?_⟩
    simp only [step, (outlet.place_spec rest).2.2 aborted]
    trivial
  | asleep rest since =>
    have awake : ¬ since = outlet.conduit.wakes := Nat.ne_of_lt (alert.2 aborted)
    simp only [step, awake, if_false]
    refine ⟨nofun, fun _ => ?_⟩
    rw [(outlet.place_spec rest).2.2 aborted]
    trivial
  | asking ch rest => exact ⟨nofun, vain_ofRest⟩
  | done result => exact ⟨nofun, id⟩

end Writing

/-- The two directions of an exchange. -/
inductive Side
  | input
  | output

/-- The conduits that a call acts on. -/
def Call.Ground.conduit? (g : Call.Ground ι κ) : Side → Option Conduit
  | .input => g.inlet.map Inlet.conduit
  | .output => some g.outlet.conduit

def Answer.Fails : Answer → Prop
  | .bytes (.error _) | .count (.error _) | .plain (.error _) => True
  | _ => False

/-- Whether an act needs a buffer: it asks for bytes or brings some, or closes an open stream. -/
def Act.Needs (session : Session) : Act → Prop
  | .read room => room ≠ 0 ∧ session.hasInput = true ∧ session.inputClosed = false
  | .closeInput => session.hasInput = true ∧ session.inputClosed = false
  | .write bytes => bytes ≠ []
  | .closeOutput => session.outputClosed = false
  | _ => False

namespace Call

/-- Whether a call has its conduit, and sleeps there only where it has been woken by an abort. -/
def Alert (conduit? : Side → Option Conduit) : Call ι κ → Prop
  | .reading _ r | .draining r => ∃ c, conduit? .input = some c ∧ r.Alert c
  | .writing _ w => ∃ c, conduit? .output = some c ∧ w.Alert c
  | _ => True

/-- Whether a call still needs a buffer for what it is to bring about, or has failed already. -/
def Vain : Call ι κ → Prop
  | .reading _ r | .draining r => r.Vain
  | .announcing _ bytes => bytes ≠ some []
  | .writing _ w => w.Vain
  | .completing => True
  | .asking _ => False
  | .done answer => answer.Fails

theorem Alert.later {conduit? conduit?' : Side → Option Conduit} {call : Call ι κ} (h : call.Alert conduit?)
    (later : ∀ side, Option.Rel Conduit.Later (conduit? side) (conduit?' side)) : call.Alert conduit?' := by
  cases call with
  | reading room r =>
    obtain ⟨c, here, alert⟩ := h
    obtain ⟨c', there, later⟩ := Conduit.rel_some here (later _)
    exact ⟨c', there, alert.later later⟩
  | draining r =>
    obtain ⟨c, here, alert⟩ := h
    obtain ⟨c', there, later⟩ := Conduit.rel_some here (later _)
    exact ⟨c', there, alert.later later⟩
  | writing count w =>
    obtain ⟨c, here, alert⟩ := h
    obtain ⟨c', there, later⟩ := Conduit.rel_some here (later _)
    exact ⟨c', there, alert.later later⟩
  | _ => trivial

private theorem alert_behindHead {conduit? : Side → Option Conduit} {c : Conduit} (here : conduit? .output = some c)
    (bytes : Option (List UInt8)) : (behindHead bytes : Call ι κ).Alert conduit? := by
  cases bytes with
  | none => trivial
  | some bytes => exact ⟨c, here, Writing.alert_ofRest c bytes⟩

private theorem vain_behindHead {bytes : Option (List UInt8)} (some : bytes ≠ some []) :
    (behindHead bytes : Call ι κ).Vain := by
  cases bytes with
  | none => trivial
  | some bytes => exact Writing.vain_ofRest fun none => some (congrArg Option.some none)

/-- Whether the conduits are there for which a session has streams. -/
structure Furnished (session : Session) (conduit? : Side → Option Conduit) : Prop where
  input : session.hasInput = true → ∃ c, conduit? .input = some c
  output : ∃ c, conduit? .output = some c

private theorem Furnished.alert_reading {session : Session} {conduit? : Side → Option Conduit}
    (h : Furnished session conduit?) (input : session.hasInput = true) (room : Nat) :
    ∃ c, conduit? .input = some c ∧ (Reading.ofRoom room : Reading κ).Alert c := by
  obtain ⟨c, here⟩ := h.input input
  exact ⟨c, here, Reading.alert_ofRoom c room⟩

theorem alert_closeInput {session : Session} {conduit? : Side → Option Conduit}
    (h : Furnished session conduit?) : (closeInput session : Call ι κ).Alert conduit? := by
  simp only [closeInput]
  split
  · trivial
  next input =>
    split
    · trivial
    · exact h.alert_reading (by simpa using input) drainChunk

private theorem commit_alert {session : Session} {conduit? : Side → Option Conduit}
    (h : Furnished session conduit?) (bytes : Option (List UInt8)) :
    (commit session bytes : Call ι κ × Session).1.Alert conduit? ∧
    (commit session bytes : Call ι κ × Session).2.hasInput = session.hasInput := by
  obtain ⟨c, here⟩ := h.output
  simp only [commit]
  split
  · exact ⟨trivial, rfl⟩
  · exact ⟨alert_behindHead here bytes, rfl⟩

theorem closeOutput_alert {session : Session} {conduit? : Side → Option Conduit}
    (h : Furnished session conduit?) :
    (closeOutput session : Call ι κ × Session).1.Alert conduit? ∧
    (closeOutput session : Call ι κ × Session).2.hasInput = session.hasInput := by
  simp only [closeOutput]
  split
  · exact ⟨trivial, rfl⟩
  · exact commit_alert h none

theorem start_alert {session : Session} {conduit? : Side → Option Conduit} (h : Furnished session conduit?)
    (act : Act) :
    (start session act : Call ι κ × Session).1.Alert conduit? ∧
    (start session act : Call ι κ × Session).2.hasInput = session.hasInput := by
  cases act with
  | read room =>
    refine ⟨?_, rfl⟩
    simp only [start, read]
    split
    · trivial
    next input =>
      split
      · trivial
      · exact h.alert_reading (by simpa using input) room
  | closeInput => exact ⟨alert_closeInput h, rfl⟩
  | write bytes => exact commit_alert h (some bytes)
  | closeOutput => exact closeOutput_alert h
  | _ => exact ⟨trivial, rfl⟩

private theorem commit_vain (session : Session) {bytes : Option (List UInt8)} (some : bytes ≠ some []) :
    (commit session bytes : Call ι κ × Session).1.Vain := by
  simp only [commit]
  split
  · exact some
  · exact vain_behindHead some

/-- A call that needs a buffer begins with nothing achieved. -/
theorem start_vain {session : Session} {act : Act} (needs : act.Needs session) :
    (start session act : Call ι κ × Session).1.Vain := by
  cases act with
  | read room =>
    obtain ⟨some, input, opened⟩ := needs
    simp only [start, read, input, opened]
    exact Reading.vain_ofRoom some
  | closeInput =>
    obtain ⟨input, opened⟩ := needs
    simp only [start, closeInput, input, opened]
    exact Reading.vain_ofRoom (κ := κ) (show drainChunk ≠ 0 by decide)
  | write bytes => exact commit_vain session fun none => needs (Option.some.inj none)
  | closeOutput =>
    have opened : session.outputClosed = false := needs
    simp only [start, closeOutput, opened, Bool.false_eq_true, if_false]
    exact commit_vain session nofun
  | _ => exact needs.elim

theorem timeOut_alert {call : Call ι κ} {g : Ground ι κ} (alert : call.Alert g.conduit?) :
    (call.timeOut g).Alert g.conduit? ∧ (call.Vain → (call.timeOut g).Vain) := by
  have read : ∀ (r : Reading κ) inlet, (∃ c, g.conduit? .input = some c ∧ r.Alert c) →
      (∃ c, g.conduit? .input = some c ∧ (r.timeOut inlet).Alert c) ∧ (r.Vain → (r.timeOut inlet).Vain) := by
    intro r inlet ⟨c, here, alert⟩
    cases r with
    | asleep since =>
      simp only [Reading.timeOut]
      split
      · exact ⟨⟨c, here, trivial⟩, fun _ => trivial⟩
      · exact ⟨⟨c, here, alert⟩, id⟩
    | _ => exact ⟨⟨c, here, trivial⟩, id⟩
  simp only [timeOut]
  split
  next room r inlet _ => exact read r inlet alert
  next r inlet _ => exact read r inlet alert
  next count w =>
    obtain ⟨c, here, alert⟩ := alert
    cases w with
    | asleep rest since =>
      simp only [Writing.timeOut]
      split
      · exact ⟨⟨c, here, trivial⟩, fun _ => trivial⟩
      · exact ⟨⟨c, here, alert⟩, id⟩
    | _ => exact ⟨⟨c, here, trivial⟩, id⟩
  · exact ⟨alert, id⟩

section
variable [Transport ι σ] [CapacityChannel κ σ] [ResponseChannel σ]

/-- What a section of a call leaves behind. -/
structure Steps (g : Ground ι κ) (call' : Call ι κ) (g' : Ground ι κ) : Prop where
  goes : ∀ side, Option.Rel Conduit.Goes (g.conduit? side) (g'.conduit? side)
  hasInput : g'.session.hasInput = g.session.hasInput
  alert : call'.Alert g'.conduit?

omit [Transport ι σ] [ResponseChannel σ] in
private theorem stepReading_alert (room : Nat) {r : Reading κ} {g : Ground ι κ}
    (alert : ∃ c, g.conduit? .input = some c ∧ r.Alert c) (s : σ) :
    (∀ side, Option.Rel Conduit.Goes (g.conduit? side) ((stepReading room r g s).2.2.1.conduit? side)) ∧
    (stepReading room r g s).2.2.1.session = g.session ∧
    ∃ c, (stepReading room r g s).2.2.1.conduit? .input = some c ∧ (stepReading room r g s).2.1.Alert c := by
  obtain ⟨c, here, alert⟩ := alert
  obtain ⟨inlet, present, rfl⟩ := Option.map_eq_some_iff.mp here
  obtain ⟨goes, alert'⟩ := Reading.step_alert room alert s
  simp only [stepReading, present]
  refine ⟨fun side => ?_, trivial, _, rfl, alert'⟩
  cases side with
  | input => exact here ▸ .some goes
  | output => exact .some (.refl _)

omit [Transport ι σ] [ResponseChannel σ] in
private theorem stepReading_aborted (room : Nat) {r : Reading κ} {g : Ground ι κ}
    (alert : ∃ c, g.conduit? .input = some c ∧ r.Alert c)
    (aborted : ∀ side c, g.conduit? side = some c → c.aborted = true) (s : σ) :
    (stepReading room r g s).1 ≠ .parked ∧ (r.Vain → (stepReading room r g s).2.1.Vain) := by
  obtain ⟨c, here, alert⟩ := alert
  obtain ⟨inlet, present, rfl⟩ := Option.map_eq_some_iff.mp here
  simp only [stepReading, present]
  exact Reading.step_aborted room alert (aborted .input _ here) s

omit [Transport ι σ] [CapacityChannel κ σ] [ResponseChannel σ] in
private theorem rel_goes_outlet {g : Ground ι κ} {outlet : Outlet ι} (goes : g.outlet.conduit.Goes outlet.conduit)
    (side : Side) : Option.Rel Conduit.Goes (g.conduit? side) ({ g with outlet }.conduit? side) := by
  cases side with
  | input => exact Conduit.rel_goes_refl _
  | output => exact .some goes

private theorem reading_steps (room : Nat) {r : Reading κ} {g : Ground ι κ}
    (alert : ∃ c, g.conduit? .input = some c ∧ r.Alert c) (s : σ) :
    Steps g ((reading room r : Call ι κ).step g s).2.1 ((reading room r : Call ι κ).step g s).2.2.1 := by
  obtain ⟨goes, session, alert'⟩ := stepReading_alert room alert s
  cases r with
  | done result => exact ⟨fun _ => Conduit.rel_goes_refl _, rfl, trivial⟩
  | _ => exact ⟨goes, congrArg Session.hasInput session, alert'⟩

private theorem draining_steps {r : Reading κ} {g : Ground ι κ}
    (alert : ∃ c, g.conduit? .input = some c ∧ r.Alert c) (s : σ) :
    Steps g ((draining r : Call ι κ).step g s).2.1 ((draining r : Call ι κ).step g s).2.2.1 := by
  have still : ∀ side, Option.Rel Conduit.Goes (g.conduit? side) (g.conduit? side) :=
    fun _ => Conduit.rel_goes_refl _
  obtain ⟨goes, session, alert'⟩ := stepReading_alert drainChunk alert s
  obtain ⟨c, here, _⟩ := alert
  cases r with
  | done result =>
    match result with
    | .error fault => exact ⟨still, rfl, trivial⟩
    | .ok [] => exact ⟨still, rfl, trivial⟩
    | .ok (b :: bytes) => exact ⟨still, rfl, c, here, Reading.alert_ofRoom c _⟩
  | _ => exact ⟨goes, congrArg Session.hasInput session, alert'⟩

private theorem completing_steps (g : Ground ι κ) (s : σ) :
    Steps g ((completing : Call ι κ).step g s).2.1 ((completing : Call ι κ).step g s).2.2.1 := by
  have goes := g.outlet.complete_goes
  simp only [step]
  split
  next completed =>
    rw [completed] at goes
    exact ⟨rel_goes_outlet goes, rfl, trivial⟩
  next completed =>
    rw [completed] at goes
    exact ⟨rel_goes_outlet goes, rfl, trivial⟩

/-- A call aborts nothing, and whenever it falls asleep its buffer is live. -/
theorem step_alert {call : Call ι κ} {g : Ground ι κ} (alert : call.Alert g.conduit?) (s : σ) :
    Steps g (call.step g s).2.1 (call.step g s).2.2.1 := by
  have still : ∀ side, Option.Rel Conduit.Goes (g.conduit? side) (g.conduit? side) :=
    fun side => Conduit.rel_goes_refl _
  cases call with
  | reading room r => exact reading_steps room alert s
  | draining r => exact draining_steps alert s
  | announcing head bytes =>
    simp only [step]
    split
    · cases bytes with
      | none => exact ⟨still, rfl, trivial⟩
      | some bytes => exact ⟨still, rfl, trivial⟩
    · exact ⟨still, rfl, alert_behindHead rfl bytes⟩
  | writing count w =>
    obtain ⟨c, here, alert⟩ := alert
    obtain rfl : g.outlet.conduit = c := Option.some.inj here
    obtain ⟨goes, alert'⟩ := Writing.step_alert alert s
    cases w with
    | done result => exact ⟨still, rfl, trivial⟩
    | _ => exact ⟨rel_goes_outlet goes, rfl, _, rfl, alert'⟩
  | completing => exact completing_steps g s
  | asking ch => exact ⟨still, rfl, trivial⟩
  | done answer => exact ⟨still, rfl, trivial⟩

private theorem reading_aborted (room : Nat) {r : Reading κ} {g : Ground ι κ}
    (alert : ∃ c, g.conduit? .input = some c ∧ r.Alert c)
    (aborted : ∀ side c, g.conduit? side = some c → c.aborted = true) (s : σ) :
    ((reading room r : Call ι κ).step g s).1 ≠ .parked ∧
      (r.Vain → ((reading room r : Call ι κ).step g s).2.1.Vain) := by
  have after := stepReading_aborted room alert aborted s
  cases r with
  | done result =>
    refine ⟨nofun, fun vain => ?_⟩
    cases result with
    | ok bytes => exact vain.elim
    | error fault => trivial
  | _ => exact after

private theorem draining_aborted {r : Reading κ} {g : Ground ι κ}
    (alert : ∃ c, g.conduit? .input = some c ∧ r.Alert c)
    (aborted : ∀ side c, g.conduit? side = some c → c.aborted = true) (s : σ) :
    ((draining r : Call ι κ).step g s).1 ≠ .parked ∧ (r.Vain → ((draining r : Call ι κ).step g s).2.1.Vain) := by
  have after := stepReading_aborted drainChunk alert aborted s
  cases r with
  | done result =>
    match result with
    | .error fault => exact ⟨nofun, fun _ => trivial⟩
    | .ok [] => exact ⟨nofun, False.elim⟩
    | .ok (b :: bytes) => exact ⟨nofun, False.elim⟩
  | _ => exact after

private theorem writing_aborted (count : Nat) {w : Writing ι} {g : Ground ι κ} (alert : w.Alert g.outlet.conduit)
    (aborted : g.outlet.conduit.aborted = true) (s : σ) :
    ((writing count w : Call ι κ).step g s).1 ≠ .parked ∧
      (w.Vain → ((writing count w : Call ι κ).step g s).2.1.Vain) := by
  have after := Writing.step_aborted alert aborted s
  cases w with
  | done result =>
    refine ⟨nofun, fun vain => ?_⟩
    cases result with
    | ok _ => exact vain.elim
    | error fault => trivial
  | _ => exact after

/-- Among aborted buffers a call goes on, and if it still needs one it achieves nothing. -/
theorem step_aborted {call : Call ι κ} {g : Ground ι κ} (alert : call.Alert g.conduit?)
    (aborted : ∀ side c, g.conduit? side = some c → c.aborted = true) (s : σ) :
    (call.step g s).1 ≠ .parked ∧ (call.Vain → (call.step g s).2.1.Vain) := by
  cases call with
  | reading room r => exact reading_aborted room alert aborted s
  | draining r => exact draining_aborted alert aborted s
  | announcing head bytes =>
    simp only [step]
    split
    · refine ⟨nofun, fun _ => ?_⟩
      cases bytes with
      | none => trivial
      | some bytes => trivial
    · exact ⟨nofun, vain_behindHead⟩
  | writing count w =>
    obtain ⟨c, here, alert⟩ := alert
    obtain rfl : g.outlet.conduit = c := Option.some.inj here
    exact writing_aborted count alert (aborted .output _ here) s
  | completing =>
    have shut := aborted .output _ rfl
    simp only [step, Outlet.complete, shut, if_true]
    exact ⟨nofun, fun _ => trivial⟩
  | asking ch => exact ⟨nofun, False.elim⟩
  | done answer => exact ⟨nofun, id⟩

end
end Call
end Sluice
