import Sluice.Proofs.Exchange.Halting
import Sluice.Proofs.Exchange.Lasting
import Sluice.Proofs.Inlet.Sections

/-! What the calls come to by which the streams of an exchange are closed. The input is drained, and the
output is completed behind its head. -/
namespace Sluice

variable {ι κ σ τ : Type}

def Occurrence.sending? : Occurrence ι → Option (Except Fault Unit)
  | .sent result => some result
  | _ => none

def sendingsOf (notes : List (Occurrence ι)) : List (Except Fault Unit) := notes.filterMap Occurrence.sending?

/-- The last thing that a handler did was to return well. -/
def Returned (notes : List (Occurrence ι)) : Prop := (movesOf notes).getLast? = some (.finish (.ok ()))

/-- The body of a request, if there is one, has ended and is read. -/
def Drained (conduit? : Side → Option Conduit) : Prop :=
  ∀ c, conduit? .input = some c → c.ended = true ∧ c.bytes = []

def Concluded (conduit? : Side → Option Conduit) : Prop := ∃ c, conduit? .output = some c ∧ c.ended = true

/-- What it comes to to close a stream: the input is drained, or the head was sent and the output is complete. -/
def Fulfilled (conduit? : Side → Option Conduit) (notes : List (Occurrence ι)) : Side → Prop
  | .input => Drained conduit?
  | .output => Concluded conduit? ∧ ∃ result, .sent result ∈ notes

private theorem Drained.lasts {conduit? conduit?' : Side → Option Conduit} (h : Drained conduit?)
    (lasts : Conduit.AllLast conduit? conduit?') : Drained conduit?' := by
  intro c' there
  obtain ⟨c, here, later⟩ := Conduit.some_rel there (lasts .input)
  obtain ⟨ended, empty⟩ := h c here
  exact ⟨later.ended ended, later.dry ended empty⟩

private theorem Concluded.lasts {conduit? conduit?' : Side → Option Conduit} (h : Concluded conduit?)
    (lasts : Conduit.AllLast conduit? conduit?') : Concluded conduit?' := by
  obtain ⟨c, here, ended⟩ := h
  obtain ⟨c', there, later⟩ := Conduit.rel_some here (lasts .output)
  exact ⟨c', there, later.ended ended⟩

theorem Fulfilled.lasts {conduit? conduit?' : Side → Option Conduit} {notes more : List (Occurrence ι)} {side : Side}
    (h : Fulfilled conduit? notes side) (lasts : Conduit.AllLast conduit? conduit?') :
    Fulfilled conduit?' (notes ++ more) side := by
  cases side with
  | input => exact Drained.lasts h lasts
  | output =>
    obtain ⟨complete, result, sent⟩ := h
    exact ⟨complete.lasts lasts, result, List.mem_append_left more sent⟩

private theorem Cleared.sent {notes : List (Occurrence ι)} (h : Cleared notes) : ∃ result, .sent result ∈ notes := by
  rcases h with sent | ⟨fault, answer, move, _, _, order⟩
  · exact ⟨.ok (), sent⟩
  · exact ⟨.error fault, order.subset List.mem_cons_self⟩

namespace Call

/-- Whether what a call has found out so far is so. -/
def Honours (conduit? : Side → Option Conduit) : Call ι κ → Prop
  | .draining r => r.Sane drainChunk ∧ (r.AtEnd → Drained conduit?)
  | .asking _ => Concluded conduit?
  | _ => True

/-- Whether a call closes the stream of a direction, and has reached its goal if it is over and went well. -/
def Closes (side : Side) (goal : Prop) : Call ι κ → Prop
  | .draining _ => side = .input
  | .announcing _ bytes => side = .output ∧ bytes = none
  | .completing | .asking _ => side = .output
  | .done answer => answer.closed = .ok () → goal
  | _ => False

theorem Honours.lasts {conduit? conduit?' : Side → Option Conduit} {call : Call ι κ} (h : call.Honours conduit?)
    (lasts : Conduit.AllLast conduit? conduit?') : call.Honours conduit?' := by
  cases call with
  | draining r => exact ⟨h.1, fun ending => (h.2 ending).lasts lasts⟩
  | asking ch => exact Concluded.lasts h lasts
  | _ => trivial

private theorem closes_failed (side : Side) (goal : Prop) (fault : Fault) :
    (done (.plain (.error fault)) : Call ι κ).Closes side goal := nofun

theorem Closes.mono {side : Side} {goal goal' : Prop} {call : Call ι κ} (h : call.Closes side goal)
    (reach : goal → goal') : call.Closes side goal' := by
  cases call with
  | done answer => exact fun well => reach (h well)
  | _ => exact h

private theorem honours_draining (conduit? : Side → Option Conduit) :
    (draining (.ofRoom drainChunk) : Call ι κ).Honours conduit? :=
  ⟨Reading.sane_ofRoom drainChunk, nofun⟩

private theorem honours_behindHead (conduit? : Side → Option Conduit) (bytes : Option (List UInt8)) :
    (behindHead bytes : Call ι κ).Honours conduit? := by
  cases bytes with
  | none => trivial
  | some bytes => trivial

private theorem honours_commit (conduit? : Side → Option Conduit) (session : Session) (bytes : Option (List UInt8)) :
    (commit session bytes : Call ι κ × Session).1.Honours conduit? := by
  simp only [commit]
  split
  · trivial
  · exact honours_behindHead conduit? bytes

theorem honours_closeInput (conduit? : Side → Option Conduit) (session : Session) :
    (closeInput session : Call ι κ).Honours conduit? := by
  simp only [closeInput]
  split
  · trivial
  · split
    · trivial
    · exact honours_draining conduit?

theorem honours_closeOutput (conduit? : Side → Option Conduit) (session : Session) :
    (closeOutput session : Call ι κ × Session).1.Honours conduit? := by
  simp only [closeOutput]
  split
  · trivial
  · exact honours_commit conduit? session none

/-- A call begins with nothing found out. -/
theorem honours_start (conduit? : Side → Option Conduit) (session : Session) (act : Act) :
    (start session act : Call ι κ × Session).1.Honours conduit? := by
  cases act with
  | read room =>
    simp only [start, read]
    split
    · trivial
    · split <;> trivial
  | closeInput => exact honours_closeInput conduit? session
  | write bytes => exact honours_commit conduit? session (some bytes)
  | closeOutput => exact honours_closeOutput conduit? session
  | _ => trivial

/-- What a handler has of its exchange, and which of it is closed, is not changed by beginning a call. -/
theorem start_session (session : Session) (act : Act) :
    (start session act : Call ι κ × Session).2 =
      { session with response := (start session act : Call ι κ × Session).2.response } := by
  have committed : ∀ bytes, (commit session bytes : Call ι κ × Session).2 =
      { session with response := (commit session bytes : Call ι κ × Session).2.response } := by
    intro bytes
    simp only [commit]
    split <;> rfl
  cases act with
  | write bytes => exact committed _
  | closeOutput =>
    simp only [start, closeOutput]
    split
    · rfl
    · exact committed none
  | _ => rfl

end Call

def Session.HasClosed (session : Session) : Side → Prop
  | .input => session.inputClosed = true
  | .output => session.outputClosed = true

namespace Call

/-- What a section of a call comes to. Whatever is closed now was closed before or has just come to that. -/
structure Advances (g : Ground ι κ) (notes : List (Occurrence ι)) (call call' : Call ι κ) (g' : Ground ι κ)
    (notes' : List (Occurrence ι)) : Prop where
  honours : call'.Honours g'.conduit?
  hasInput : g'.session.hasInput = g.session.hasInput
  closed : ∀ side, g'.session.HasClosed side → g.session.HasClosed side ∨ Fulfilled g'.conduit? notes' side
  closes : ∀ side, call.Closes side (Fulfilled g.conduit? notes side) →
    call'.Closes side (Fulfilled g'.conduit? notes' side)

variable [Transport ι σ] [CapacityChannel κ σ] [ResponseChannel σ]

omit [Transport ι σ] [ResponseChannel σ] in
theorem stepReading_session (room : Nat) (r : Reading κ) (g : Ground ι κ) (s : σ) :
    (stepReading room r g s).2.2.1.session = g.session := by
  simp only [stepReading]
  cases g.inlet with
  | none => rfl
  | some inlet => rfl

omit [Transport ι σ] [ResponseChannel σ] in
private theorem honours_stepReading {r : Reading κ} {g : Ground ι κ} (h : (draining r : Call ι κ).Honours g.conduit?)
    (s : σ) :
    (draining (stepReading drainChunk r g s).2.1 : Call ι κ).Honours
      (stepReading drainChunk r g s).2.2.1.conduit? := by
  obtain ⟨sane, atEnd⟩ := h
  have lasts := stepReading_lasts drainChunk r g s
  cases present : g.inlet with
  | none =>
    have nowhere : g.conduit? .input = none := congrArg (Option.map Inlet.conduit) present
    have drained : Drained g.conduit? := fun c here => absurd (nowhere.symm.trans here) nofun
    simp only [stepReading, present] at lasts ⊢
    exact ⟨trivial, fun _ => drained.lasts lasts⟩
  | some inlet =>
    have moves := r.step_moves drainChunk inlet s sane
    have here : g.conduit? .input = some inlet.conduit := congrArg (Option.map Inlet.conduit) present
    simp only [stepReading, present] at lasts ⊢
    refine ⟨moves.sane, fun ending => ?_⟩
    have drained : Drained g.conduit? := by
      rcases moves.ending ending with before | ⟨_, ended, empty⟩
      · exact atEnd before
      · intro c found
        obtain rfl := Option.some.inj (here.symm.trans found)
        exact ⟨ended, empty⟩
    exact drained.lasts lasts

private theorem draining_advances (r : Reading κ) {g : Ground ι κ} {m : Minutes ι σ} (more : List (Occurrence ι))
    (honours : (draining r : Call ι κ).Honours g.conduit?) :
    Advances g m.notes (draining r) ((draining r : Call ι κ).step g m).2.1
      ((draining r : Call ι κ).step g m).2.2.1 (m.notes ++ more) := by
  have lasts := (draining r : Call ι κ).step_lasts g m
  have session := stepReading_session (ι := ι) drainChunk r g m
  have honours' := honours_stepReading honours m
  cases r with
  | done result =>
    match result with
    | .error fault => exact ⟨trivial, rfl, fun _ => .inl, fun _ _ => closes_failed _ _ _⟩
    | .ok [] =>
      have drained : Drained g.conduit? := honours.2 rfl
      refine ⟨trivial, rfl, fun side closed => ?_, ?_⟩
      · cases side with
        | input => exact .inr (drained.lasts lasts)
        | output => exact .inl closed
      · rintro side rfl _
        exact drained.lasts lasts
    | .ok (b :: bytes) => exact ⟨honours_draining _, rfl, fun _ => .inl, fun _ => id⟩
  | _ =>
    exact ⟨honours', congrArg Session.hasInput session, fun _ closed => .inl (session ▸ closed), fun _ => id⟩

private theorem announcing_advances (head : Http.Head) (bytes : Option (List UInt8)) (g : Ground ι κ)
    (m : Minutes ι σ) (more : List (Occurrence ι)) :
    Advances g m.notes (announcing head bytes) ((announcing head bytes : Call ι κ).step g m).2.1
      ((announcing head bytes : Call ι κ).step g m).2.2.1 (m.notes ++ more) := by
  simp only [step]
  split
  · cases bytes with
    | none => exact ⟨trivial, rfl, fun _ => .inl, fun _ _ => closes_failed _ _ _⟩
    | some bytes => exact ⟨trivial, rfl, fun _ => .inl, fun _ closes => absurd closes.2 (Option.some_ne_none _)⟩
  · refine ⟨honours_behindHead _ bytes, rfl, fun _ => .inl, ?_⟩
    rintro side ⟨output, rfl⟩
    exact output

private theorem completing_advances (g : Ground ι κ) (m : Minutes ι σ) (more : List (Occurrence ι)) :
    Advances g m.notes completing (step completing g m).2.1 (step completing g m).2.2.1 (m.notes ++ more) := by
  have ends : ∀ ch, g.outlet.complete.1 = .ok ch → g.outlet.complete.2.conduit.ended = true :=
    fun _ passed => Outlet.complete_ends passed
  simp only [step]
  split
  · exact ⟨trivial, rfl, fun _ => .inl, fun _ _ => closes_failed _ _ _⟩
  next completed =>
    rw [completed] at ends
    exact ⟨⟨_, rfl, ends _ rfl⟩, rfl, fun _ => .inl, fun _ => id⟩

theorem step_advances {call : Call ι κ} {g : Ground ι κ} {m : Minutes ι σ}
    (founded : call.Founded g.session.response.committed m.notes) (honours : call.Honours g.conduit?) :
    Advances g m.notes call (call.step g m).2.1 (call.step g m).2.2.1 (call.step g m).2.2.2.notes := by
  have lasts := call.step_lasts g m
  obtain ⟨more, notes, _⟩ := call.step_mutely g m
  rw [notes]
  cases call with
  | reading room r =>
    have session := stepReading_session (ι := ι) room r g m
    cases r with
    | done result => exact ⟨trivial, rfl, fun _ => .inl, fun _ => False.elim⟩
    | _ =>
      exact ⟨trivial, congrArg Session.hasInput session, fun _ closed => .inl (session ▸ closed), fun _ => False.elim⟩
  | draining r => exact draining_advances r more honours
  | announcing head bytes => exact announcing_advances head bytes g m more
  | writing count w =>
    cases w with
    | done result => exact ⟨trivial, rfl, fun _ => .inl, fun _ => False.elim⟩
    | _ => exact ⟨trivial, rfl, fun _ => .inl, fun _ => False.elim⟩
  | completing => exact completing_advances g m more
  | asking ch =>
    have fulfilled : Fulfilled g.conduit? m.notes .output := ⟨honours, founded.2.sent⟩
    refine ⟨trivial, rfl, fun side closed => ?_, ?_⟩
    · cases side with
      | input => exact .inl closed
      | output => exact .inr (fulfilled.lasts lasts)
    · rintro side rfl _
      exact fulfilled.lasts lasts
  | done answer => exact ⟨trivial, rfl, fun _ => .inl, fun _ closes => closes.mono fun goal => goal.lasts lasts⟩

omit [Transport ι σ] [CapacityChannel κ σ] [ResponseChannel σ] in
theorem Honours.timeOut {call : Call ι κ} {g : Ground ι κ} (h : call.Honours g.conduit?) :
    (call.timeOut g).Honours g.conduit? := by
  simp only [Call.timeOut]
  split
  · trivial
  next r inlet present =>
    have moves := r.timeOut_moves drainChunk inlet h.1
    have here : g.conduit? .input = some inlet.conduit := congrArg (Option.map Inlet.conduit) present
    refine ⟨moves.sane, fun ending => ?_⟩
    rcases moves.ending ending with before | ⟨_, ended, empty⟩
    · exact h.2 before
    · intro c found
      obtain rfl := Option.some.inj (here.symm.trans found)
      exact ⟨ended, empty⟩
  · trivial
  · exact h

omit [Transport ι σ] [CapacityChannel κ σ] [ResponseChannel σ] in
theorem Closes.timeOut {side : Side} {goal : Prop} {call : Call ι κ} (h : call.Closes side goal) (g : Ground ι κ) :
    (call.timeOut g).Closes side goal := by
  simp only [Call.timeOut]
  split
  · exact h
  · exact h
  · exact h
  · exact h

omit [Transport ι σ] [CapacityChannel κ σ] [ResponseChannel σ] in
/-- Whoever closes the input has it drained, unless there is none or it was closed before. -/
theorem closes_closeInput {session : Session} {conduit? : Side → Option Conduit} {notes : List (Occurrence ι)}
    (body : (conduit? .input).isSome = session.hasInput)
    (closed : session.HasClosed .input → Fulfilled conduit? notes .input) :
    (closeInput session : Call ι κ).Closes .input (Fulfilled conduit? notes .input) := by
  simp only [closeInput]
  split
  next none =>
    intro _ c here
    rw [here] at body
    rw [← body] at none
    cases none
  · split
    next already => exact fun _ => closed already
    · rfl

omit [Transport ι σ] [CapacityChannel κ σ] [ResponseChannel σ] in
/-- Whoever closes the output has its head sent and completes it, unless it was closed before. -/
theorem closes_closeOutput {session : Session} {conduit? : Side → Option Conduit} {notes : List (Occurrence ι)}
    (closed : session.HasClosed .output → Fulfilled conduit? notes .output) :
    (closeOutput session : Call ι κ × Session).1.Closes .output (Fulfilled conduit? notes .output) := by
  simp only [closeOutput]
  split
  next already => exact fun _ => closed already
  · simp only [commit]
    split
    · exact ⟨rfl, rfl⟩
    · rfl

end Call
end Sluice
