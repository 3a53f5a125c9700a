import Sluice.Proofs.Exchange.Closing

/-! The head of a response as its handler wants it, and the heads that were sent. A handler's changes make a
draft, until something is written or the output is closed. -/
namespace Sluice

variable {ι κ σ τ : Type}

namespace Http.Headers

variable (headers : Headers) (name : HeaderName) (value : HeaderValue)

@[simp] theorem values_append (other : HeaderName) :
    (headers.append name value).values other =
      if other = name then headers.values other ++ [value] else headers.values other := by
  by_cases same : other = name
  · simp [append, values, same]
  · simp [append, values, same, Ne.symm same]

@[simp] theorem values_erase (other : HeaderName) :
    (headers.erase name).values other = if other = name then [] else headers.values other := by
  by_cases same : other = name
  · simp [erase, values, same]
  · have kept : ∀ field ∈ headers.fields, (decide (field.1 = other) && decide (field.1 ≠ name)) =
        decide (field.1 = other) := by
      intro field _
      by_cases here : field.1 = other
      · simp [here, same]
      · simp [here]
    simp only [erase, values, List.filter_filter, List.filter_congr kept, if_neg same]

@[simp] theorem values_insert (other : HeaderName) :
    (headers.insert name value).values other = if other = name then [value] else headers.values other := by
  simp only [insert, values_append, values_erase]
  split
  · rfl
  · rfl

end Http.Headers

/-- The head of a response as its handler wants it, with the values of every header in order. -/
structure Draft where
  status : Http.Status
  version : Http.Version
  values : Http.HeaderName → List Http.HeaderValue

namespace Draft

def initial : Draft := ⟨⟨200⟩, .http11, fun _ => []⟩

def assign (d : Draft) (name : Http.HeaderName) (values : List Http.HeaderValue) : Draft :=
  { d with values := fun other => if other = name then values else d.values other }

/-- What a call of the handler wants of the head. A text that is no header name removes nothing. -/
def amend (d : Draft) : Act → Draft
  | .setStatus status => { d with status }
  | .setVersion version => { d with version }
  | .setHeader name value => d.assign name [value]
  | .addHeader name value => d.assign name (d.values name ++ [value])
  | .removeHeader name => (Http.HeaderName.ofString? name).elim d fun name => d.assign name []
  | _ => d

/-- What is told of a header in the description of the body: its first value, unless that has bytes which are not
visible. -/
def told (d : Draft) (name : Http.HeaderName) : Option String :=
  match d.values name with
  | [] => none
  | value :: _ =>
    if value.bytes.all fun b => b == 9 || (32 ≤ b && b < 127) then
      some (String.ofList (value.bytes.map fun b => Char.ofNat b.toNat))
    else none

/-- What a head says. -/
def ofHead (head : Http.Head) : Draft := ⟨head.status, head.version, head.headers.values⟩

theorem ofHead_initial : ofHead .initial = initial := rfl

theorem ofHead_insert (head : Http.Head) (name : Http.HeaderName) (value : Http.HeaderValue) :
    ofHead { head with headers := head.headers.insert name value } = (ofHead head).assign name [value] :=
  congrArg (Draft.mk head.status head.version) (funext (head.headers.values_insert name value))

theorem ofHead_append (head : Http.Head) (name : Http.HeaderName) (value : Http.HeaderValue) :
    ofHead { head with headers := head.headers.append name value } =
      (ofHead head).assign name ((ofHead head).values name ++ [value]) := by
  refine congrArg (Draft.mk head.status head.version) (funext fun other => ?_)
  rw [head.headers.values_append name value other]
  split
  next same => rw [same]; rfl
  next other => rfl

theorem ofHead_erase (head : Http.Head) (name : Http.HeaderName) :
    ofHead { head with headers := head.headers.erase name } = (ofHead head).assign name [] :=
  congrArg (Draft.mk head.status head.version) (funext (head.headers.values_erase name))

/-- The description that goes with a head tells of its type and its encoding, and that the length is unknown. -/
theorem entity_ofHead (head : Http.Head) :
    head.entity = ⟨none, (ofHead head).told Http.contentType, (ofHead head).told Http.contentEncoding, false, []⟩ := by
  have same : ∀ name, (head.headers.get? name).bind Http.HeaderValue.text? = (ofHead head).told name := by
    intro name
    simp only [told, ofHead, Http.Headers.get?]
    cases head.headers.values name with
    | nil => rfl
    | cons value rest => simp [Http.HeaderValue.text?]
  rw [← same, ← same]
  rfl

end Draft

def Act.Mutates : Act → Prop
  | .setStatus _ | .setVersion _ | .setHeader _ _ | .addHeader _ _ | .removeHeader _ => True
  | _ => False

def Move.commits : Move → Bool
  | .act (.write _) | .act .closeOutput => true
  | _ => false

def Draft.follow (d : Draft) : Move → Draft
  | .act act => d.amend act
  | _ => d

/-- What the moves of a handler want of the head, up to the first write or closing of the output. -/
def draftOf (moves : List Move) : Draft :=
  (moves.takeWhile fun move => !move.commits).foldl Draft.follow .initial

def committing (moves : List Move) : Bool := moves.any Move.commits

theorem committing_append (moves : List Move) (move : Move) :
    committing (moves ++ [move]) = (committing moves || move.commits) := by
  simp [committing]

/-- Behind a write or the closing of the output nothing is wanted any more. -/
theorem draftOf_append (moves : List Move) (move : Move) :
    draftOf (moves ++ [move]) = if committing moves then draftOf moves else (draftOf moves).follow move := by
  cases committed : committing moves with
  | true =>
    have stops : (moves ++ [move]).takeWhile (fun move => !move.commits) =
        moves.takeWhile fun move => !move.commits := by
      induction moves with
      | nil => cases committed
      | cons first rest ih =>
        cases commits : first.commits with
        | true => simp [commits]
        | false =>
          have later : committing rest = true := by simpa [committing, commits] using committed
          simp [commits, ih later]
    rw [draftOf, stops]
    rfl
  | false =>
    have unsent : ∀ first ∈ moves, (!first.commits) = true := by simpa [committing] using committed
    have on : ∀ rest : List Move, (moves ++ rest).takeWhile (fun move => !move.commits) =
        moves ++ rest.takeWhile fun move => !move.commits := fun _ => List.takeWhile_append_of_pos unsent
    have all : moves.takeWhile (fun move => !move.commits) = moves := by simpa using on []
    rw [draftOf, draftOf, on, all, List.foldl_append]
    match move with
    | .act act => cases act <;> rfl
    | .finish result => rfl
    | .crash => rfl
    | .rest => rfl

def mutationOf (moves : List Move) : Except Fault Unit := if committing moves then .error .responseCommitted else .ok ()

/-- A head that was sent, with the description of its body and what came of it. -/
structure HeadRecord where
  head : Http.Head
  entity : Http.Entity
  result : Except Fault Unit

/-- A world with a record of all heads. -/
structure HeadLog (σ : Type) where
  world : σ
  headRecords : List HeadRecord

namespace HeadLog

instance [Transport ι σ] : Transport ι (HeadLog σ) where
  write ch bytes a :=
    let (result, world) := Transport.write ch bytes a.world
    (result, { a with world })
  requestOutput ch a := { a with world := Transport.requestOutput ch a.world }
  endStream ch trailers a :=
    let (result, world) := Transport.endStream ch trailers a.world
    (result, { a with world })

instance [CapacityChannel κ σ] : CapacityChannel κ (HeadLog σ) where
  update ch increment a :=
    let (result, world) := CapacityChannel.update ch increment a.world
    (result, { a with world })

instance [ResponseChannel σ] : ResponseChannel (HeadLog σ) where
  send head entity a :=
    let (result, world) := ResponseChannel.send head entity a.world
    (result, ⟨world, a.headRecords ++ [⟨head, entity, result⟩]⟩)

end HeadLog

/-- The heads that the world of some minutes has on record. -/
def Minutes.headRecords (m : Minutes ι (HeadLog σ)) : List HeadRecord := m.world.headRecords

namespace Minutes

@[simp] theorem headRecords_noting (m : Minutes ι (HeadLog σ)) (notes : List (Occurrence ι)) :
    (m.noting notes).headRecords = m.headRecords := rfl

@[simp] theorem headRecords_requestOutput [Transport ι σ] (ch : Option ι) (m : Minutes ι (HeadLog σ)) :
    (Transport.requestOutput ch m).headRecords = m.headRecords := by
  cases ch with
  | none => rfl
  | some ch => rfl

end Minutes

section
variable [Transport ι σ]

private theorem Writing.step_headRecords (w : Writing ι) (outlet : Outlet ι) (m : Minutes ι (HeadLog σ)) :
    (w.step outlet m).2.2.2.headRecords = m.headRecords := by
  obtain ⟨ch, asks⟩ := w.step_asks outlet m
  rw [asks, Minutes.headRecords_requestOutput]

theorem Outlet.flush_headRecords (outlet : Outlet ι) (ch : ι) (m : Minutes ι (HeadLog σ)) :
    (outlet.flush ch m).2.2.headRecords = m.headRecords :=
  outlet.flush_keeps ch m (fun m m' => m'.headRecords = m.headRecords) (fun _ => rfl)
    (fun first second => second.trans first) (fun _ _ => rfl) fun _ => rfl

end

section
variable [CapacityChannel κ σ]

private theorem Reading.step_headRecords (room : Nat) (r : Reading κ) (inlet : Inlet κ) (m : Minutes ι (HeadLog σ)) :
    (r.step room inlet m).2.2.2.headRecords = m.headRecords := by
  cases r with
  | asleep since =>
    simp only [step]
    split <;> rfl
  | announcing bytes ch increment =>
    have same : (CapacityChannel.update ch increment m).2.headRecords = m.headRecords := rfl
    simp only [step]
    split
    next passed =>
      rw [passed] at same
      exact same
    next failed =>
      rw [failed] at same
      exact same
  | _ => rfl

private theorem Call.stepReading_headRecords (room : Nat) (r : Reading κ) (g : Ground ι κ) (m : Minutes ι (HeadLog σ)) :
    (stepReading room r g m).2.2.2.headRecords = m.headRecords := by
  simp only [stepReading]
  cases g.inlet with
  | none => rfl
  | some inlet => exact r.step_headRecords room inlet m

end

/-- A head that is committed was sent, with its description, and no other. -/
def Filed (headRecords : List HeadRecord) (response : Response) : Prop :=
  if response.committed then ∃ result, headRecords = [⟨response.head, response.head.entity, result⟩]
  else headRecords = []

namespace Call

/-- A head that is committed was sent, or is about to be. -/
def Files (headRecords : List HeadRecord) (response : Response) : Call ι κ → Prop
  | .announcing head _ => response.committed = true ∧ head = response.head ∧ headRecords = []
  | .completing | .asking _ => response.committed = true ∧ Filed headRecords response
  | _ => Filed headRecords response

private theorem files_behindHead {headRecords : List HeadRecord} {response : Response} (h : Filed headRecords response)
    (committed : response.committed = true) (bytes : Option (List UInt8)) :
    (behindHead bytes : Call ι κ).Files headRecords response := by
  cases bytes with
  | none => exact ⟨committed, h⟩
  | some bytes => exact h

private theorem files_commit {headRecords : List HeadRecord} {session : Session}
    (h : Filed headRecords session.response)
    (bytes : Option (List UInt8)) :
    (commit session bytes : Call ι κ × Session).1.Files headRecords
      (commit session bytes : Call ι κ × Session).2.response := by
  cases committed : session.response.committed with
  | true =>
    have same : (commit session bytes : Call ι κ × Session) = (behindHead bytes, session) := by
      simp only [commit, Response.commit, committed, if_true]
    rw [same]
    exact files_behindHead h committed bytes
  | false =>
    have unsent : headRecords = [] := by simpa [Filed, committed] using h
    simp only [commit, Response.commit, committed]
    exact ⟨rfl, rfl, unsent⟩

theorem files_closeOutput {headRecords : List HeadRecord} {session : Session} (h : Filed headRecords session.response) :
    (closeOutput session : Call ι κ × Session).1.Files headRecords
      (closeOutput session : Call ι κ × Session).2.response := by
  simp only [closeOutput]
  split
  · exact h
  · exact files_commit h none

theorem files_closeInput {headRecords : List HeadRecord} {session : Session} (h : Filed headRecords session.response) :
    (closeInput session : Call ι κ).Files headRecords session.response := by
  simp only [closeInput]
  split
  · exact h
  · split
    · exact h
    · exact h

/-- A call that runs out of patience sends no head. -/
theorem files_timeOut {headRecords : List HeadRecord} {response : Response} {call : Call ι κ}
    (h : call.Files headRecords response)
    (g : Ground ι κ) : (call.timeOut g).Files headRecords response := by
  cases call with
  | reading room r =>
    simp only [timeOut]
    split <;> exact h
  | draining r =>
    simp only [timeOut]
    split <;> exact h
  | _ => exact h

theorem filed_mutate {headRecords : List HeadRecord} {response : Response} (h : Filed headRecords response)
    (change : Http.Head → Http.Head) : Filed headRecords (response.mutate change).2 := by
  cases committed : response.committed with
  | true => simpa [Response.mutate, committed] using h
  | false => simpa [Filed, Response.mutate, committed] using h

theorem files_start {headRecords : List HeadRecord} {session : Session}
    (h : Filed headRecords session.response) (act : Act) :
    (start session act : Call ι κ × Session).1.Files headRecords
      (start session act : Call ι κ × Session).2.response := by
  cases act with
  | read room =>
    simp only [start, read]
    split
    · exact h
    · split <;> exact h
  | closeInput => exact files_closeInput h
  | write bytes => exact files_commit h (some bytes)
  | flush => exact h
  | closeOutput => exact files_closeOutput h
  | setStatus status => exact filed_mutate h _
  | setVersion version => exact filed_mutate h _
  | setHeader name value => exact filed_mutate h _
  | addHeader name value => exact filed_mutate h _
  | removeHeader name => exact filed_mutate h _

variable [Transport ι σ] [CapacityChannel κ σ] [ResponseChannel σ]

/-- What a section of a call comes to. It leaves the response alone, and sends the head if that is what it is about. -/
structure Sends (g : Ground ι κ) (m : Minutes ι (HeadLog σ)) (call' : Call ι κ) (g' : Ground ι κ)
    (m' : Minutes ι (HeadLog σ)) : Prop where
  same : g'.session.response = g.session.response
  closed : g'.session.outputClosed = true → g.session.outputClosed = true ∨ g.session.response.committed = true
  files : call'.Files m'.headRecords g.session.response
  kept : m.headRecords ⊆ m'.headRecords

omit [Transport ι σ] [CapacityChannel κ σ] [ResponseChannel σ] in
private theorem sends_nothing {call' : Call ι κ} {g g' : Ground ι κ} {m m' : Minutes ι (HeadLog σ)}
    (session : g'.session = g.session) (headRecords : m'.headRecords = m.headRecords)
    (files : call'.Files m.headRecords g.session.response) : Sends g m call' g' m' where
  same := congrArg Session.response session
  closed closed := .inl (session ▸ closed)
  files := headRecords.symm ▸ files
  kept := headRecords ▸ List.Subset.refl _

private theorem reading_sends (room : Nat) (r : Reading κ) {g : Ground ι κ} {m : Minutes ι (HeadLog σ)}
    (filed : Filed m.headRecords g.session.response) :
    Sends g m ((reading room r : Call ι κ).step g m).2.1 ((reading room r : Call ι κ).step g m).2.2.1
      ((reading room r : Call ι κ).step g m).2.2.2 := by
  have session := stepReading_session (ι := ι) room r g m
  have headRecords := stepReading_headRecords room r g m
  cases r with
  | done result => exact sends_nothing rfl rfl filed
  | _ => exact sends_nothing session headRecords filed

private theorem draining_sends (r : Reading κ) {g : Ground ι κ} {m : Minutes ι (HeadLog σ)}
    (filed : Filed m.headRecords g.session.response) :
    Sends g m ((draining r : Call ι κ).step g m).2.1 ((draining r : Call ι κ).step g m).2.2.1
      ((draining r : Call ι κ).step g m).2.2.2 := by
  have session := stepReading_session (ι := ι) drainChunk r g m
  have headRecords := stepReading_headRecords drainChunk r g m
  cases r with
  | done result =>
    match result with
    | .error fault => exact sends_nothing rfl rfl filed
    | .ok [] => exact ⟨rfl, .inl, filed, List.Subset.refl _⟩
    | .ok (b :: bytes) => exact sends_nothing rfl rfl filed
  | _ => exact sends_nothing session headRecords filed

private theorem announcing_sends (bytes : Option (List UInt8)) {g : Ground ι κ} {m : Minutes ι (HeadLog σ)}
    (committed : g.session.response.committed = true) (unsent : m.headRecords = []) :
    Sends g m ((announcing g.session.response.head bytes : Call ι κ).step g m).2.1
      ((announcing g.session.response.head bytes : Call ι κ).step g m).2.2.1
      ((announcing g.session.response.head bytes : Call ι κ).step g m).2.2.2 := by
  have kept : ∀ headRecords, m.headRecords ⊆ headRecords := fun headRecords => unsent ▸ List.nil_subset headRecords
  have filed : Filed (ResponseChannel.send g.session.response.head g.session.response.head.entity m).2.headRecords
      g.session.response := by
    have sent : (ResponseChannel.send g.session.response.head g.session.response.head.entity m).2.headRecords =
      m.headRecords ++ [⟨g.session.response.head, g.session.response.head.entity, _⟩] := rfl
    rw [sent, unsent, Filed, if_pos committed]
    exact ⟨_, rfl⟩
  simp only [step]
  split
  next failed =>
    rw [failed] at filed
    cases bytes with
    | none => exact ⟨rfl, .inl, filed, kept _⟩
    | some bytes => exact ⟨rfl, .inl, filed, kept _⟩
  next passed =>
    rw [passed] at filed
    exact ⟨rfl, .inl, files_behindHead filed committed bytes, kept _⟩

theorem step_sends {call : Call ι κ} {g : Ground ι κ} {m : Minutes ι (HeadLog σ)}
    (h : call.Files m.headRecords g.session.response) :
    Sends g m (call.step g m).2.1 (call.step g m).2.2.1 (call.step g m).2.2.2 := by
  cases call with
  | reading room r => exact reading_sends room r h
  | draining r => exact draining_sends r h
  | announcing head bytes =>
    obtain ⟨committed, rfl, unsent⟩ := h
    exact announcing_sends bytes committed unsent
  | writing count w =>
    have headRecords := w.step_headRecords g.outlet m
    cases w with
    | done result => exact sends_nothing rfl rfl h
    | _ => exact sends_nothing rfl headRecords h
  | completing =>
    simp only [step]
    split
    · exact sends_nothing rfl rfl h.2
    · exact sends_nothing rfl rfl h
  | asking ch =>
    obtain ⟨committed, filed⟩ := h
    have headRecords := m.headRecords_requestOutput ch
    exact ⟨rfl, fun _ => .inr committed, headRecords.symm ▸ filed, headRecords ▸ List.Subset.refl _⟩
  | done answer => exact sends_nothing rfl rfl h

end Call
end Sluice
