import Sluice.Proofs.Exchange.Run
import Sluice.Proofs.Outlet.Sections

/-! When the way is free for the body of a response, as the minutes of its exchange tell. What a call
is allowed to do rests upon that, section by section. -/
namespace Sluice

variable {ι κ σ τ : Type}

def Answer.Reports (answer : Answer) (fault : Fault) : Prop :=
  answer = .count (.error fault.toSystem) ∨ answer = .plain (.error fault)

/-- Whether a handler goes on with the body, or leaves it to its exchange to end it. -/
def Move.GoesOn : Move → Prop
  | .act (.write _) | .act .closeOutput | .finish (.ok ()) => True
  | _ => False

/-- No head was sent yet. -/
def Unsent (notes : List (Occurrence ι)) : Prop := ∀ result, .sent result ∉ notes

/-- The way is free for a body: the head was sent, or else the handler has heard that it was not and
has gone on. -/
def Cleared (notes : List (Occurrence ι)) : Prop :=
  .sent (.ok ()) ∈ notes ∨
    ∃ fault answer move, Answer.Reports answer fault ∧ Move.GoesOn move ∧
      [.sent (.error fault), .heard answer, .moved move].Sublist notes

/-- What has to come before an entry: what clears the way for a body, and no other head. -/
def Occurrence.Law (before : List (Occurrence ι)) : Occurrence ι → Prop
  | .placed _ | .deed (.wrote _ _ _) | .deed (.ended _ _) => Cleared before
  | .sent _ => Unsent before
  | _ => True

/-- A handler that has committed its head knows what came of it. -/
def Heard (notes : List (Occurrence ι)) : Prop :=
  Cleared notes ∨ ∃ fault answer, Answer.Reports answer fault ∧
    [.sent (.error fault), .heard answer].Sublist notes

def Known (committed : Bool) (notes : List (Occurrence ι)) : Prop :=
  if committed then Heard notes else Unsent notes

def Closable (committed : Bool) (notes : List (Occurrence ι)) : Prop :=
  if committed then Cleared notes else Unsent notes

theorem Unsent.append {notes more : List (Occurrence ι)} (h : Unsent notes) (quiet : Unsent more) :
    Unsent (notes ++ more) := by
  intro result member
  rcases List.mem_append.mp member with old | new
  · exact h result old
  · exact quiet result new

theorem Cleared.append {notes : List (Occurrence ι)} (h : Cleared notes) (more : List (Occurrence ι)) :
    Cleared (notes ++ more) := by
  rcases h with sent | ⟨fault, answer, move, reports, goesOn, order⟩
  · exact .inl (List.mem_append_left _ sent)
  · exact .inr ⟨fault, answer, move, reports, goesOn, List.sublist_append_of_sublist_left order⟩

theorem Heard.append {notes : List (Occurrence ι)} (h : Heard notes) (more : List (Occurrence ι)) :
    Heard (notes ++ more) := by
  rcases h with cleared | ⟨fault, answer, reports, order⟩
  · exact .inl (cleared.append more)
  · exact .inr ⟨fault, answer, reports, List.sublist_append_of_sublist_left order⟩

theorem Known.append {committed : Bool} {notes more : List (Occurrence ι)} (h : Known committed notes)
    (quiet : Unsent more) : Known committed (notes ++ more) := by
  cases committed with
  | false => exact Unsent.append h quiet
  | true => exact Heard.append h more

theorem Closable.append {committed : Bool} {notes more : List (Occurrence ι)} (h : Closable committed notes)
    (quiet : Unsent more) : Closable committed (notes ++ more) := by
  cases committed with
  | false => exact Unsent.append h quiet
  | true => exact Cleared.append h more

theorem Closable.known {committed : Bool} {notes : List (Occurrence ι)} (h : Closable committed notes) :
    Known committed notes := by
  cases committed with
  | false => exact h
  | true => exact .inl h

private theorem Cleared.known {committed : Bool} {notes : List (Occurrence ι)} (h : Cleared notes)
    (sent : committed = true) : Known committed notes := by
  rw [sent]
  exact .inl h

/-- A handler that knows of its head and goes on may close the output. -/
theorem Known.goesOn {committed : Bool} {notes : List (Occurrence ι)} (h : Known committed notes)
    {move : Move} (goesOn : move.GoesOn) : Closable committed (notes ++ [.moved move]) := by
  cases committed with
  | false => exact Unsent.append h (by simp [Unsent])
  | true =>
    rcases h with cleared | ⟨fault, answer, reports, order⟩
    · exact cleared.append _
    · exact .inr ⟨fault, answer, move, reports, goesOn, order.append (List.Sublist.refl [Occurrence.moved move])⟩

/-- What a call rests upon. The head is sent by the one who has committed it, and nothing is written
before that has gone well or the handler has insisted. -/
def Call.Founded (committed : Bool) (notes : List (Occurrence ι)) : Call ι κ → Prop
  | .reading _ _ | .draining _ => Known committed notes
  | .announcing _ _ => committed = true ∧ Unsent notes
  | .writing _ _ | .completing | .asking _ => committed = true ∧ Cleared notes
  | .done answer => Known committed notes ∨
    ∃ fault, answer.Reports fault ∧ committed = true ∧ .sent (.error fault) ∈ notes

def Call.OfInput : Call ι κ → Prop
  | .reading _ _ | .draining _ | .done _ => True
  | _ => False

def Progress.Founded (committed : Bool) (notes : List (Occurrence ι)) : Progress ι κ → Prop
  | .submitted | .thinking => Known committed notes
  | .calling call | .closingOutput call => call.Founded committed notes
  | .closingInput call => call.OfInput ∧ Closable committed notes
  | _ => True

theorem Call.Founded.append {committed : Bool} {notes more : List (Occurrence ι)} {call : Call ι κ}
    (h : call.Founded committed notes) (quiet : Unsent more) : call.Founded committed (notes ++ more) := by
  cases call with
  | reading room r => exact Known.append h quiet
  | draining r => exact Known.append h quiet
  | announcing head bytes => exact ⟨h.1, h.2.append quiet⟩
  | writing count w => exact ⟨h.1, h.2.append more⟩
  | completing => exact ⟨h.1, h.2.append more⟩
  | asking ch => exact ⟨h.1, h.2.append more⟩
  | done answer =>
    rcases h with known | ⟨fault, reports, committed, sent⟩
    · exact .inl (known.append quiet)
    · exact .inr ⟨fault, reports, committed, List.mem_append_left _ sent⟩

theorem Progress.Founded.append {committed : Bool} {notes more : List (Occurrence ι)} {p : Progress ι κ}
    (h : p.Founded committed notes) (quiet : Unsent more) : p.Founded committed (notes ++ more) := by
  cases p with
  | submitted => exact Known.append h quiet
  | thinking => exact Known.append h quiet
  | calling call => exact Call.Founded.append h quiet
  | closingInput call => exact ⟨h.1, h.2.append quiet⟩
  | closingOutput call => exact Call.Founded.append h quiet
  | _ => trivial

namespace Call

private theorem commit_founded (session : Session) (bytes : Option (List UInt8)) {notes : List (Occurrence ι)}
    (h : Closable session.response.committed notes) :
    (commit session bytes : Call ι κ × Session).1.Founded
      (commit session bytes : Call ι κ × Session).2.response.committed notes := by
  cases committed : session.response.committed with
  | false =>
    rw [committed] at h
    simp only [commit, Response.commit, committed]
    exact ⟨rfl, h⟩
  | true =>
    rw [committed] at h
    simp only [commit, Response.commit, committed, if_true]
    cases bytes with
    | some bytes => exact ⟨rfl, h⟩
    | none => exact ⟨rfl, h⟩

theorem closeOutput_founded (session : Session) {notes : List (Occurrence ι)}
    (h : Closable session.response.committed notes) :
    (closeOutput session : Call ι κ × Session).1.Founded
      (closeOutput session : Call ι κ × Session).2.response.committed notes := by
  simp only [closeOutput]
  split
  · exact .inl h.known
  · exact commit_founded session none h

private theorem change_founded (session : Session) (change : Http.Head → Http.Head) {notes : List (Occurrence ι)}
    (h : Known session.response.committed notes) :
    (Call.change session (session.response.mutate change) : Call ι κ × Session).1.Founded
      (Call.change session (session.response.mutate change) : Call ι κ × Session).2.response.committed
      notes := by
  have same : (session.response.mutate change).2.committed = session.response.committed := by
    simp only [Response.mutate]
    split
    · rfl
    · rfl
  refine .inl ?_
  simp only [Call.change, same]
  exact h

theorem ofInput_closeInput (session : Session) : (closeInput session : Call ι κ).OfInput := by
  simp only [closeInput]
  split
  · trivial
  · split
    · trivial
    · trivial

/-- A call of the input rests upon what the handler knows. -/
theorem OfInput.founded {call : Call ι κ} (input : call.OfInput) {committed : Bool}
    {notes : List (Occurrence ι)} (h : Known committed notes) : call.Founded committed notes := by
  cases call with
  | reading room r => exact h
  | draining r => exact h
  | done answer => exact .inl h
  | _ => exact input.elim

/-- The call that a handler makes rests upon what it knows and upon its move. -/
theorem start_founded (session : Session) (act : Act) {notes : List (Occurrence ι)}
    (h : Known session.response.committed notes) :
    (start session act : Call ι κ × Session).1.Founded
      (start session act : Call ι κ × Session).2.response.committed (notes ++ [.moved (.act act)]) := by
  have known : Known session.response.committed (notes ++ [.moved (.act act)]) := h.append (by simp [Unsent])
  cases act with
  | read room =>
    have input : (read session room : Call ι κ).OfInput := by
      simp only [read]
      split
      · trivial
      · split <;> trivial
    exact input.founded known
  | closeInput => exact (ofInput_closeInput session).founded known
  | write bytes => exact commit_founded session (some bytes) (h.goesOn trivial)
  | closeOutput => exact closeOutput_founded session (h.goesOn trivial)
  | flush => exact .inl known
  | setStatus status => exact change_founded session _ known
  | setVersion version => exact change_founded session _ known
  | setHeader name value => exact change_founded session _ known
  | addHeader name value => exact change_founded session _ known
  | removeHeader name => exact change_founded session _ known

end Call

theorem unsent_asked (ch : Option ι) : Unsent (Minutes.askedOf ch) := by
  cases ch <;> simp [Unsent, Minutes.askedOf]

theorem lawful_asked {notes : List (Occurrence ι)} (h : Lawful Occurrence.Law notes) (ch : Option ι) :
    Lawful Occurrence.Law (notes ++ Minutes.askedOf ch) := by
  apply h.append_free
  intro entry member before
  cases ch with
  | none => cases member
  | some ch =>
    obtain rfl := List.mem_singleton.mp member
    trivial

/-- An outlet in which nothing was placed and which was not completed. -/
def Outlet.Silent (outlet : Outlet ι) : Prop := outlet.conduit.bytes = [] ∧ outlet.conduit.ended = false

namespace Call

variable [Transport ι σ] [CapacityChannel κ σ] [ResponseChannel σ]

/-- A section of a call of the input concerns nothing else, and nothing of it is noted. -/
theorem step_ofInput {call : Call ι κ} (input : call.OfInput) (g : Ground ι κ) (m : Minutes ι σ) :
    (call.step g m).2.1.OfInput ∧ (call.step g m).2.2.1.outlet = g.outlet ∧
    (call.step g m).2.2.1.session.response = g.session.response ∧
    (call.step g m).2.2.2.notes = m.notes := by
  have read : ∀ room (r : Reading κ), (stepReading room r g m).2.2.1.outlet = g.outlet ∧
      (stepReading room r g m).2.2.1.session = g.session ∧ (stepReading room r g m).2.2.2.notes = m.notes := by
    intro room r
    simp only [stepReading]
    cases g.inlet with
    | none => exact ⟨rfl, rfl, rfl⟩
    | some inlet =>
      refine ⟨rfl, rfl, ?_⟩
      cases r with
      | asleep since =>
        simp only [Reading.step]
        split <;> rfl
      | announcing bytes ch increment =>
        simp only [Reading.step]
        split
        next passed => exact (congrArg (·.2.notes) passed).symm
        next failed => exact (congrArg (·.2.notes) failed).symm
      | _ => rfl
  cases call with
  | reading room r =>
    obtain ⟨outlet, session, notes⟩ := read room r
    cases r with
    | done result => exact ⟨trivial, rfl, rfl, rfl⟩
    | _ => exact ⟨trivial, outlet, congrArg Session.response session, notes⟩
  | draining r =>
    obtain ⟨outlet, session, notes⟩ := read drainChunk r
    cases r with
    | done result =>
      match result with
      | .error fault => exact ⟨trivial, rfl, rfl, rfl⟩
      | .ok [] => exact ⟨trivial, rfl, rfl, rfl⟩
      | .ok (b :: bytes) => exact ⟨trivial, rfl, rfl, rfl⟩
    | _ => exact ⟨trivial, outlet, congrArg Session.response session, notes⟩
  | done answer => exact ⟨trivial, rfl, rfl, rfl⟩
  | _ => exact input.elim

/-- What a section of a call comes to: lawful minutes, a call that rests upon them, and an outlet
that is silent unless the way is free. -/
structure Proceeds (m : Minutes ι σ) (call' : Call ι κ) (g' : Ground ι κ) (m' : Minutes ι σ) : Prop where
  lawful : Lawful Occurrence.Law m.notes → Lawful Occurrence.Law m'.notes
  founded : call'.Founded g'.session.response.committed m'.notes
  silent : Cleared m'.notes ∨ g'.outlet.Silent

private theorem input_proceeds (call : Call ι κ) (input : call.OfInput) {g : Ground ι κ} {m : Minutes ι σ}
    (known : Known g.session.response.committed m.notes) (silent : Cleared m.notes ∨ g.outlet.Silent) :
    Proceeds m (call.step g m).2.1 (call.step g m).2.2.1 (call.step g m).2.2.2 := by
  obtain ⟨still, outlet, response, notes⟩ := step_ofInput input g m
  refine ⟨fun h => by rwa [notes], ?_, by rwa [notes, outlet]⟩
  rw [notes, response]
  exact still.founded known

omit [ResponseChannel σ] in
private theorem requestOutput_cleared (ch : Option ι) {m : Minutes ι σ} (cleared : Cleared m.notes) :
    (Lawful Occurrence.Law m.notes → Lawful Occurrence.Law (Transport.requestOutput ch m).notes) ∧
      Cleared (Transport.requestOutput ch m).notes := by
  rw [m.notes_requestOutput]
  exact ⟨fun h => lawful_asked h ch, cleared.append _⟩

private theorem unannounced_reports (fault : Fault) (bytes : Option (List UInt8)) :
    ∃ answer, (unannounced fault bytes : Call ι κ) = .done answer ∧ answer.Reports fault := by
  cases bytes with
  | none => exact ⟨_, rfl, .inr rfl⟩
  | some bytes => exact ⟨_, rfl, .inl rfl⟩

private theorem announcing_proceeds (head : Http.Head) (bytes : Option (List UInt8)) {g : Ground ι κ}
    {m : Minutes ι σ} (committed : g.session.response.committed = true) (unsent : Unsent m.notes)
    (silent : Cleared m.notes ∨ g.outlet.Silent) :
    Proceeds m ((announcing head bytes : Call ι κ).step g m).2.1
      ((announcing head bytes : Call ι κ).step g m).2.2.1
      ((announcing head bytes : Call ι κ).step g m).2.2.2 := by
  have noted : (ResponseChannel.send head head.entity m).2.notes =
    m.notes ++ [.sent (ResponseChannel.send head head.entity m).1] := rfl
  simp only [step]
  split
  next fault m' failed =>
    rw [failed] at noted
    refine ⟨fun h => ?_, ?_, ?_⟩
    · rw [noted]
      exact h.append_one unsent
    · obtain ⟨answer, same, reports⟩ := unannounced_reports fault bytes
      rw [same, noted]
      exact .inr ⟨fault, reports, committed, List.mem_append_right _ List.mem_cons_self⟩
    · rw [noted]
      exact silent.imp_left fun cleared => cleared.append _
  next m' passed =>
    rw [passed] at noted
    have cleared : Cleared m'.notes := by
      rw [noted]
      exact .inl (List.mem_append_right _ List.mem_cons_self)
    refine ⟨fun h => ?_, ?_, .inl cleared⟩
    · rw [noted]
      exact h.append_one unsent
    · cases bytes with
      | none => exact ⟨committed, cleared⟩
      | some bytes => exact ⟨committed, cleared⟩

private theorem writing_proceeds (count : Nat) (w : Writing ι) {g : Ground ι κ} {m : Minutes ι σ}
    (committed : g.session.response.committed = true) (cleared : Cleared m.notes) :
    Proceeds m ((writing count w : Call ι κ).step g m).2.1 ((writing count w : Call ι κ).step g m).2.2.1
      ((writing count w : Call ι κ).step g m).2.2.2 := by
  obtain ⟨ch, asks⟩ := w.step_asks g.outlet m
  obtain ⟨lawful, still⟩ := requestOutput_cleared ch cleared
  rw [← asks] at lawful still
  cases w with
  | done result => exact ⟨id, .inl (cleared.known committed), .inl cleared⟩
  | _ => exact ⟨lawful, ⟨committed, still⟩, .inl still⟩

theorem step_proceeds {call : Call ι κ} {g : Ground ι κ} {m : Minutes ι σ}
    (founded : call.Founded g.session.response.committed m.notes)
    (silent : Cleared m.notes ∨ g.outlet.Silent) :
    Proceeds m (call.step g m).2.1 (call.step g m).2.2.1 (call.step g m).2.2.2 := by
  cases call with
  | reading room r => exact input_proceeds (.reading room r) trivial founded silent
  | draining r => exact input_proceeds (.draining r) trivial founded silent
  | announcing head bytes => exact announcing_proceeds head bytes founded.1 founded.2 silent
  | writing count w => exact writing_proceeds count w founded.1 founded.2
  | completing =>
    obtain ⟨committed, cleared⟩ := founded
    simp only [step]
    split
    · exact ⟨id, .inl (cleared.known committed), .inl cleared⟩
    · exact ⟨id, ⟨committed, cleared⟩, .inl cleared⟩
  | asking ch =>
    obtain ⟨committed, cleared⟩ := founded
    obtain ⟨lawful, still⟩ := requestOutput_cleared ch cleared
    exact ⟨lawful, .inl (still.known committed), .inl still⟩
  | done answer => exact ⟨id, founded, silent⟩

end Call

/-- The patience of a call has nothing to do with the head. -/
theorem Call.founded_timeOut {call : Call ι κ} {committed : Bool} {notes : List (Occurrence ι)} (g : Ground ι κ)
    (h : call.Founded committed notes) : (call.timeOut g).Founded committed notes := by
  simp only [timeOut]
  split
  · exact h
  · exact h
  · exact h
  · exact h

theorem Call.ofInput_timeOut {call : Call ι κ} (g : Ground ι κ) (h : call.OfInput) :
    (call.timeOut g).OfInput := by
  simp only [timeOut]
  split
  · exact h
  · exact h
  · exact h
  · exact h

/-- What a part of a flush comes to. It passes on nothing that the way is not free for. -/
structure Outlet.Passes (m : Minutes ι σ) (outlet' : Outlet ι) (m' : Minutes ι σ) : Prop where
  lawful : Lawful Occurrence.Law m.notes → Lawful Occurrence.Law m'.notes
  silent : Cleared m'.notes ∨ outlet'.Silent

namespace Outlet

theorem Silent.abort {outlet : Outlet ι} (h : outlet.Silent) : outlet.abort.2.Silent := by
  simp only [Outlet.abort]
  split
  · exact h
  · exact ⟨rfl, h.2⟩

private theorem passes_nothing {m : Minutes ι σ} {outlet : Outlet ι} (silent : Cleared m.notes ∨ outlet.Silent) :
    Passes m outlet m := ⟨id, silent⟩

private theorem passes_cleared {m m' : Minutes ι σ} {deed : Deed ι} (outlet : Outlet ι) (cleared : Cleared m.notes)
    (notes : m'.notes = m.notes ++ [.deed deed]) (law : (Occurrence.deed deed).Law m.notes) :
    Passes m outlet m' := by
  refine ⟨fun h => ?_, .inl ?_⟩
  · rw [notes]
    exact h.append_one law
  · rw [notes]
    exact cleared.append _

theorem Passes.trans {m m' m'' : Minutes ι σ} {outlet' outlet'' : Outlet ι} (first : Passes m outlet' m')
    (second : Passes m' outlet'' m'') : Passes m outlet'' m'' :=
  ⟨second.lawful ∘ first.lawful, second.silent⟩

variable [Transport ι σ]

private theorem drain_passes (outlet : Outlet ι) {m : Minutes ι σ} (silent : Cleared m.notes ∨ outlet.Silent) (ch : ι) :
    Passes m (outlet.drain ch m).2.1 (outlet.drain ch m).2.2 := by
  have noted : (Transport.write ch outlet.conduit.bytes m).2.notes =
    m.notes ++ [.deed (.wrote ch outlet.conduit.bytes (Transport.write ch outlet.conduit.bytes m).1)] := rfl
  simp only [drain]
  split
  · exact passes_nothing silent
  next some =>
    have cleared : Cleared m.notes := by
      rcases silent with cleared | silent
      · exact cleared
      · exact absurd (List.isEmpty_iff.mpr silent.1) some
    split
    next failed =>
      rw [failed] at noted
      exact passes_cleared outlet cleared noted cleared
    next passed =>
      rw [passed] at noted
      exact passes_cleared _ cleared noted cleared

private theorem signal_passes {outlet : Outlet ι} {m : Minutes ι σ}
    (silent : Cleared m.notes ∨ outlet.Silent) (ch : ι) :
    Passes m (outlet.signal ch m).2.1 (outlet.signal ch m).2.2 := by
  simp only [signal]
  split
  next due =>
    have cleared : Cleared m.notes := by
      rcases silent with cleared | silent
      · exact cleared
      · exact absurd due.2.1 (Bool.eq_false_iff.mp silent.2)
    exact passes_cleared _ cleared rfl cleared
  · exact passes_nothing silent

/-- What a flush passes on has been cleared, since there was something to pass on. -/
theorem flush_passes (outlet : Outlet ι) {m : Minutes ι σ} (silent : Cleared m.notes ∨ outlet.Silent) (ch : ι) :
    Passes m (outlet.flush ch m).2.1 (outlet.flush ch m).2.2 := by
  have drained := drain_passes { outlet with channel := some ch } silent ch
  simp only [flush]
  split
  · exact passes_nothing silent
  · split
    next failed =>
      rw [failed] at drained
      exact drained
    next passed =>
      rw [passed] at drained
      exact drained.trans (signal_passes drained.silent ch)

/-- What a write keeps, and the passing on of an end, a flush keeps. -/
theorem flush_keeps (outlet : Outlet ι) (ch : ι) (s : σ) (keeps : σ → σ → Prop)
    (refl : ∀ s, keeps s s) (trans : ∀ {s s' s''}, keeps s s' → keeps s' s'' → keeps s s'')
    (write : ∀ bytes s, keeps s (Transport.write ch bytes s).2)
    (ends : ∀ s, keeps s (Transport.endStream ch none s).2) : keeps s (outlet.flush ch s).2.2 := by
  have drained : ∀ outlet : Outlet ι, keeps s (outlet.drain ch s).2.2 := by
    intro outlet
    have wrote := write outlet.conduit.bytes s
    simp only [drain]
    split
    · exact refl s
    · split
      next failed => rwa [failed] at wrote
      next passed => rwa [passed] at wrote
  have signalled : ∀ (outlet : Outlet ι) (s : σ), keeps s (outlet.signal ch s).2.2 := by
    intro outlet s
    simp only [signal]
    split
    · exact ends s
    · exact refl s
  have first := drained { outlet with channel := some ch }
  simp only [flush]
  split
  · exact refl s
  · split
    next failed => rwa [failed] at first
    next passed =>
      rw [passed] at first
      exact trans first (signalled _ _)

theorem flush_deeds (outlet : Outlet ι) (ch : ι) (m : Minutes ι σ) :
    ∃ deeds : List (Deed ι), (outlet.flush ch m).2.2.notes = m.notes ++ deeds.map .deed := by
  refine outlet.flush_keeps ch m (fun m m' => ∃ deeds : List (Deed ι), m'.notes = m.notes ++ deeds.map .deed)
    (fun _ => ⟨[], (List.append_nil _).symm⟩) ?_
    (fun bytes m => ⟨[.wrote ch bytes (Transport.write ch bytes m).1], rfl⟩)
    fun m => ⟨[.ended ch (Transport.endStream ch none m).1], rfl⟩
  rintro m m' m'' ⟨deeds, notes⟩ ⟨rest, notes'⟩
  exact ⟨deeds ++ rest, by rw [notes', notes, List.map_append, List.append_assoc]⟩

end Outlet

end Sluice
