import Sluice.Producer

/-! A turn of a producer and the calls of its handles, section by section. What a caller asks of a
channel behind a section is a step of its own, before which others may come in. -/
namespace Sluice

/-- Where a turn stands. A source that has ended its stream still has to ask for another turn, on the
channel known at that time. -/
inductive TurnStage (κ ι τ : Type)
  | opening
  | calling (rest : Turn κ (Except Fault Unit × τ))
  | asking (known : Option ι) (rest : Turn κ (Except Fault Unit × τ))
  | closing
  | finished (result : Except Fault Unit)

/-- Where the call of a handle stands: before its section, before a request, or at its answer. The end
of a stream answers zero. -/
inductive HandleCall (κ ι : Type)
  | writing (data : κ)
  | ending
  | asking (known : Option ι) (answer : Except Fault Nat)
  | done (answer : Except Fault Nat)

variable {γ κ ι σ τ : Type} [Coder γ κ] [Transport ι σ]

namespace TurnStage

def result? : TurnStage κ ι τ → Option (Except Fault Unit)
  | finished result => some result
  | _ => none

variable [Source τ κ]

def step (ch : ι) (t : TurnStage κ ι τ) (p : Producer γ ι τ) (s : σ) :
    TurnStage κ ι τ × Producer γ ι τ × σ :=
  match t with
  | opening =>
    let core := p.core.openTurn ch
    (if core.state = .active then calling (Source.turn p.source) else closing, { p with core }, s)
  | calling (.done (.error fault, source)) => (finished (.error fault), { p with source }, s)
  | calling (.done (.ok (), source)) => (closing, { p with source }, s)
  | calling (.write data next) =>
    let (result, core, s) := p.core.write p.hint data s
    (calling (next result), { p with core }, s)
  | calling (.endStream next) => (asking p.core.channel next, { p with core := p.core.endStream }, s)
  | asking known rest => (calling rest, p, Transport.requestOutput known s)
  | closing =>
    let (result, core, s) := p.core.closeTurn p.hint ch s
    (finished result, { p with core }, s)
  | finished result => (finished result, p, s)

def run (ch : ι) : Nat → TurnStage κ ι τ → Producer γ ι τ → σ →
    TurnStage κ ι τ × Producer γ ι τ × σ
  | 0, t, p, s => (t, p, s)
  | sections + 1, t, p, s =>
    let (t, p, s) := t.step ch p s
    run ch sections t p s

/-- A source that is called with nobody around does what it does in a turn as a whole. -/
theorem call_alone (ch : ι) (rest : Turn κ (Except Fault Unit × τ)) (p : Producer γ ι τ) (s : σ) :
    ∃ n, ∀ more, run ch (n + more) (calling rest) p s =
      run ch more (calling (.done (rest.run p.hint p.core s).1))
        { p with core := (rest.run p.hint p.core s).2.1 } (rest.run p.hint p.core s).2.2 := by
  induction rest generalizing p s with
  | done outcome =>
    refine ⟨0, fun more => ?_⟩
    rw [Nat.zero_add]
    rfl
  | write data next ih =>
    obtain ⟨n, hn⟩ := ih (p.core.write p.hint data s).1 { p with core := (p.core.write p.hint data s).2.1 }
      (p.core.write p.hint data s).2.2
    refine ⟨n + 1, fun more => ?_⟩
    rw [Nat.add_right_comm]
    exact hn more
  | endStream next ih =>
    obtain ⟨n, hn⟩ := ih { p with core := p.core.endStream } (Transport.requestOutput p.core.channel s)
    refine ⟨n + 2, fun more => ?_⟩
    rw [Nat.add_right_comm]
    exact hn more

/-- With nobody around the sections of a turn are the turn as a whole. -/
theorem produce_alone (ch : ι) (p : Producer γ ι τ) (s : σ) :
    ∃ n, run ch n opening p s =
      (finished (p.produce ch s).1, (p.produce ch s).2.1, (p.produce ch s).2.2) := by
  by_cases active : (p.core.openTurn ch).state = .active
  · obtain ⟨n, hn⟩ := call_alone ch (Source.turn p.source) { p with core := p.core.openTurn ch } s
    refine ⟨n + 2 + 1, ?_⟩
    rw [run]
    simp only [step, if_pos active, hn, Producer.produce]
    rcases (Source.turn p.source).run p.hint (p.core.openTurn ch) s with ⟨⟨outcome, source⟩, core, s'⟩
    cases outcome with
    | error fault => rfl
    | ok done => rfl
  · refine ⟨2, ?_⟩
    simp only [run, step, if_neg active, Producer.produce]

end TurnStage

namespace HandleCall

def step (e : HandleCall κ ι) (p : Producer γ ι τ) (s : σ) : HandleCall κ ι × Producer γ ι τ × σ :=
  match e with
  | writing data =>
    match p.core.write p.hint data s with
    | (.error fault, core, s) => (done (.error fault), { p with core }, s)
    | (.ok 0, core, s) => (done (.ok 0), { p with core }, s)
    | (.ok (n + 1), core, s) => (asking core.channel (.ok (n + 1)), { p with core }, s)
  | ending => (asking p.core.channel (.ok 0), { p with core := p.core.endStream }, s)
  | asking known answer => (done answer, p, Transport.requestOutput known s)
  | done answer => (done answer, p, s)

/-- With nobody around the two steps of a write are the write as a whole. -/
theorem writing_alone (data : κ) (p : Producer γ ι τ) (s : σ) :
    let (e, q, s') := step (writing data : HandleCall κ ι) p s
    step e q s' = (done (p.write data s).1, (p.write data s).2.1, (p.write data s).2.2) := by
  simp only [step, Producer.write, Core.post]
  rcases p.core.write p.hint data s with ⟨result, core, s'⟩
  match result with
  | .error fault => rfl
  | .ok 0 => rfl
  | .ok (n + 1) => rfl

/-- So are the two steps by which a stream is ended. -/
theorem ending_alone (p : Producer γ ι τ) (s : σ) :
    let (e, q, s') := step (ending : HandleCall κ ι) p s
    step e q s' = (done (.ok 0), (p.endStream s).1, (p.endStream s).2) := rfl

end HandleCall
end Sluice
