import Sluice.Proofs.Producer.Transcription

/-! The life of a producer goes forward from its first write to its end. Each of its sections adds to
a record of what happened, and leaves producer and record in agreement. -/
namespace Sluice

/-- What happened around a producer: a call on a channel, a turn called the source, bytes came in, a
write was answered, the application ended the stream, the coder told whether it holds anything back,
a turn was closed. -/
inductive ProducerEvent (κ ι : Type)
  | called (deed : Deed ι)
  | sourced
  | entered (bytes : List UInt8)
  | wrote (data : κ) (result : Except Fault Nat)
  | ended
  | finished (report : Except Fault Bool)
  | closed

namespace ProducerEvent

variable {κ ι : Type}

def delivered : ProducerEvent κ ι → List UInt8
  | called deed => deed.taken
  | _ => []

def incoming : ProducerEvent κ ι → List UInt8
  | entered bytes => bytes
  | _ => []

@[simp] theorem delivered_called (deeds : List (Deed ι)) :
    (deeds.map (called : Deed ι → ProducerEvent κ ι)).flatMap delivered = deeds.flatMap Deed.taken := by
  rw [List.flatMap_map]
  rfl

@[simp] theorem incoming_called (deeds : List (Deed ι)) :
    (deeds.map (called : Deed ι → ProducerEvent κ ι)).flatMap incoming = [] := by
  simp [incoming]

/-- A channel was told of the end, and be it in vain. -/
def Tells : ProducerEvent κ ι → Prop
  | called (.ended _ _) => True
  | _ => False

def Succeeds : ProducerEvent κ ι → Prop
  | called (.ended _ (.ok _)) => True
  | _ => False

theorem Succeeds.tells {e : ProducerEvent κ ι} (h : e.Succeeds) : e.Tells := by
  match e with
  | called (.ended _ (.ok _)) => trivial

/-- Nobody ends the stream or is told of that. -/
def Plain : ProducerEvent κ ι → Prop
  | ended | called (.ended _ _) => False
  | _ => True

private theorem Plain.not_ended {e : ProducerEvent κ ι} (h : e.Plain) : e ≠ ended := by
  rintro rfl
  exact h

private theorem Plain.not_tells {e : ProducerEvent κ ι} (h : e.Plain) : ¬ e.Tells := by
  match e with
  | called (.wrote _ _ _) | called (.asked _) => exact id
  | sourced | entered _ | wrote _ _ | finished _ | closed => exact id

/-- What may happen after other things. A channel is told of the end after the application ended the
stream, the coder held nothing back and all that came in was taken, and nobody has been told with
success; nor is any channel written to after that. The source is not called behind the application's
end, nor is a write accepted. A turn that is closed after somebody was told in vain has told again. -/
def Law (before : List (ProducerEvent κ ι)) : ProducerEvent κ ι → Prop
  | called (.ended _ _) =>
    ended ∈ before ∧ finished (.ok true) ∈ before ∧
      before.flatMap delivered = before.flatMap incoming ∧ ∀ e ∈ before, ¬ e.Succeeds
  | called (.wrote _ _ _) => ∀ e ∈ before, ¬ e.Succeeds
  | sourced => ended ∉ before
  | wrote _ result => ended ∈ before → result = .error .writeAfterEnd
  | closed =>
    (∃ e ∈ before, e.Tells) →
      (∃ e ∈ before, e.Succeeds) ∨ ∃ earlier e, before = earlier ++ [e] ∧ e.Tells
  | _ => True

private theorem lawful_calls {events : List (ProducerEvent κ ι)} {deeds : List (Deed ι)} (lawful : Lawful Law events)
    (going : ∀ e ∈ events, ¬ e.Succeeds) (silent : ∀ d ∈ deeds, d.tellsEnd = false) :
    Lawful Law (events ++ deeds.map called) := by
  induction deeds generalizing events with
  | nil => simpa using lawful
  | cons d rest ih =>
    have plain := silent d List.mem_cons_self
    have law : Law events (called d) ∧ ¬ (called d : ProducerEvent κ ι).Succeeds := by
      cases d with
      | wrote ch offered result => exact ⟨going, id⟩
      | asked ch => exact ⟨trivial, id⟩
      | ended ch result => cases plain
    rw [List.map_cons, List.append_cons]
    apply ih (lawful.append_one law.1)
    · intro e member
      rcases List.mem_append.mp member with old | new
      · exact going e old
      · exact List.mem_singleton.mp new ▸ law.2
    · exact fun d member => silent d (List.mem_cons_of_mem _ member)

end ProducerEvent

/-- A state of a producer, or the one that follows it. -/
def StreamState.Next : StreamState → StreamState → Prop
  | .active, .active | .active, .flushing | .flushing, .flushing | .flushing, .ended | .ended, .ended => True
  | _, _ => False

theorem StreamState.Next.refl (state : StreamState) : state.Next state := by
  cases state with
  | _ => trivial

/-- A coder that loses no byte and keeps none to itself unless it says so, and that leaves the end to
its producer. -/
class KeepingCoder (γ : Type) {κ : outParam Type} [Coder γ κ] : Prop where
  accept {ι σ : Type} [Transport ι σ] (coder : γ) (stage : Stage) (data : κ) (hint : Nat) (ch : Option ι)
    (c : Chronicle ι σ) :
    let after := Coder.accept coder stage data hint ch c
    (∃ piece, after.2.2.2.output ++ after.2.2.1.bytes = c.output ++ stage.bytes ++ piece) ∧
      after.2.2.2.told = c.told
  finish (coder : γ) (stage : Stage) : ∃ piece, (Coder.finish coder stage).2.2.bytes = stage.bytes ++ piece

section Coders

variable {ι σ : Type} [Transport ι σ]

private theorem Chronicle.told_write (ch : Option ι) (bytes : List UInt8) (c : Chronicle ι σ) :
    (Transport.write ch bytes c).2.told = c.told := by
  cases ch with
  | none => rfl
  | some ch => simp [told, Transport.write, Deed.tellsEnd]

private theorem BinaryCoder.told_accept (coder : BinaryCoder) (stage : Stage) (bytes : List UInt8) (hint : Nat)
    (ch : Option ι) (c : Chronicle ι σ) : (accept coder stage bytes hint ch c).2.2.2.told = c.told := by
  have room : (makeRoom stage hint ch c).2.2.told = c.told := by
    simp only [makeRoom]
    split
    · exact stage.told_flushTo ch c
    · rfl
  have passed : ∀ (stage : Stage) (c : Chronicle ι σ), (passBy stage bytes ch c).2.told = c.told := by
    intro stage c
    simp only [passBy]
    split
    · exact c.told_write ch bytes
    · rfl
  simp only [accept]
  split
  · rfl
  · split
    next refused =>
      rw [refused] at room
      exact room
    next stage' c' made =>
      rw [made] at room
      have passed := passed stage' c'
      split
      next refused =>
        rw [refused] at passed
        exact passed.trans room
      next answered =>
        rw [answered] at passed
        split
        · exact (Chronicle.told_requestOutput ch _).trans (passed.trans room)
        · exact passed.trans room

instance : KeepingCoder BinaryCoder where
  accept coder stage data hint ch c :=
    ⟨⟨_, BinaryCoder.accept_keeps coder stage data hint ch c⟩,
      BinaryCoder.told_accept coder stage data hint ch c⟩
  finish _ _ := ⟨[], (List.append_nil _).symm⟩

private theorem Stage.writeWith_appends {α : Type} (stage : Stage) (fill : Nat → Except Fault (Filled α)) :
    ∃ piece, (stage.writeWith fill).2.bytes = stage.bytes ++ piece := by
  rw [writeWith_eq]
  split
  · exact ⟨[], (List.append_nil _).symm⟩
  · exact ⟨_, rfl⟩

variable {ε : Type} [Encoder ε]

/-- The coder of text does nothing to a channel but ask it for another turn. -/
theorem TextCoder.accept_stages (coder : TextCoder ε) (stage : Stage) (text : List Char) (hint : Nat)
    (ch : Option ι) (s : σ) :
    ∃ fill : Nat → Except Fault (Filled (Stop × Nat)),
      (accept coder stage text hint ch s).2.2.1 = (stage.writeWith fill).2 ∧
      ((accept coder stage text hint ch s).2.2.2 = s ∨
        (accept coder stage text hint ch s).2.2.2 = Transport.requestOutput ch s) := by
  refine ⟨fun _ => (Encoder.encode coder.encoder text stage.remaining false).1.map filled, ?_⟩
  simp only [accept]
  split
  next failed => exact ⟨by rw [failed], .inl rfl⟩
  next used => exact ⟨by rw [used], .inl rfl⟩
  next full => exact ⟨by rw [full], .inr rfl⟩

instance : KeepingCoder (TextCoder ε) where
  accept coder stage data hint ch c := by
    obtain ⟨fill, staged, same⟩ := coder.accept_stages stage data hint ch c
    obtain ⟨piece, appended⟩ := stage.writeWith_appends fill
    have output : (Coder.accept coder stage data hint ch c).2.2.2.output = c.output := by
      rcases same with same | same
      · exact congrArg Chronicle.output same
      · exact (congrArg Chronicle.output same).trans (c.output_requestOutput ch)
    have told : (Coder.accept coder stage data hint ch c).2.2.2.told = c.told := by
      rcases same with same | same
      · exact congrArg Chronicle.told same
      · exact (congrArg Chronicle.told same).trans (c.told_requestOutput ch)
    refine ⟨⟨piece, ?_⟩, told⟩
    rw [output, List.append_assoc, ← appended, ← staged]
    rfl
  finish coder stage := stage.writeWith_appends fun _ => (TextCoder.ending coder.encoder stage.remaining).1

end Coders

private theorem Stage.flushTo_deeds {ι σ : Type} [Transport ι σ] (stage : Stage) (ch : ι) (c : Chronicle ι σ) :
    stage.bytes = [] ∧ stage.flushTo ch c = (.ok 0, stage, c) ∨
      stage.bytes ≠ [] ∧ ∃ result,
        (stage.flushTo ch c).2.2.deeds = c.deeds ++ [.wrote ch stage.bytes result] ∧
        takenOf stage.bytes result ++ (stage.flushTo ch c).2.1.bytes = stage.bytes := by
  by_cases empty : stage.bytes = []
  · exact .inl ⟨empty, if_pos (List.isEmpty_iff.mpr empty)⟩
  · refine .inr ⟨empty, (Transport.write ch stage.bytes c).1, ?_⟩
    have made : (Transport.write ch stage.bytes c).2.deeds =
      c.deeds ++ [.wrote ch stage.bytes (Transport.write ch stage.bytes c).1] := rfl
    rw [flushTo_eq, if_neg (by simpa [isEmpty] using empty)]
    split
    next refused =>
      rw [refused] at made ⊢
      exact ⟨made, rfl⟩
    next answered =>
      rw [answered] at made ⊢
      exact ⟨made, List.take_append_drop _ _⟩

namespace Core

/-- What holds of a producer and the events since its last release. -/
structure Aged {γ κ ι : Type} (core : Core γ ι) (events : List (ProducerEvent κ ι)) : Prop where
  ended : core.state ≠ .active ↔ .ended ∈ events
  finished : core.state = .ended → .finished (.ok true) ∈ events
  told : (∃ e ∈ events, e.Tells) → core.state = .ended ∧ core.stage.bytes = []
  succeeded : core.endSignalled = true ↔ ∃ e ∈ events, e.Succeeds
  kept : events.flatMap ProducerEvent.delivered ++ core.stage.bytes = events.flatMap ProducerEvent.incoming
  lawful : Lawful ProducerEvent.Law events

namespace Aged

variable {γ κ ι σ : Type} {core core' : Core γ ι} {events : List (ProducerEvent κ ι)}

theorem initial (capacity : Nat) (coder : γ) :
    (Core.initial capacity coder : Core γ ι).Aged ([] : List (ProducerEvent κ ι)) where
  ended := ⟨fun behind => absurd rfl behind, fun member => absurd member List.not_mem_nil⟩
  finished := nofun
  told := fun ⟨_, member, _⟩ => absurd member List.not_mem_nil
  succeeded := ⟨nofun, fun ⟨_, member, _⟩ => absurd member List.not_mem_nil⟩
  kept := rfl
  lawful := .nil

/-- Events by which neither the application ends the stream nor anybody is told of that, around a
producer that stays in its state. -/
theorem goes (h : core.Aged events) (core' : Core γ ι) {new : List (ProducerEvent κ ι)}
    (state : core'.state = core.state) (signalled : core'.endSignalled = core.endSignalled)
    (kept : new.flatMap ProducerEvent.delivered ++ core'.stage.bytes =
      core.stage.bytes ++ new.flatMap ProducerEvent.incoming)
    (drained : (∃ e ∈ events, e.Tells) → core'.stage.bytes = [])
    (plain : ∀ e ∈ new, e.Plain) (lawful : Lawful ProducerEvent.Law (events ++ new)) :
    core'.Aged (events ++ new) := by
  have same : ∀ holds : ProducerEvent κ ι → Prop, (∀ e ∈ new, ¬ holds e) →
      ((∃ e ∈ events ++ new, holds e) ↔ ∃ e ∈ events, holds e) := by
    intro holds none
    constructor
    · rintro ⟨e, member, he⟩
      rcases List.mem_append.mp member with old | late
      · exact ⟨e, old, he⟩
      · exact absurd he (none e late)
    · rintro ⟨e, member, he⟩
      exact ⟨e, List.mem_append_left _ member, he⟩
  constructor
  · rw [state, h.ended, List.mem_append]
    exact ⟨.inl, fun member => member.resolve_right fun late => (plain _ late).not_ended rfl⟩
  · intro ended
    exact List.mem_append_left _ (h.finished (state.symm.trans ended))
  · intro told
    have before := (same ProducerEvent.Tells fun e member => (plain e member).not_tells).mp told
    exact ⟨state.trans (h.told before).1, drained before⟩
  · rw [signalled, h.succeeded]
    exact (same ProducerEvent.Succeeds fun e member succeeds => (plain e member).not_tells succeeds.tells).symm
  · rw [List.flatMap_append, List.flatMap_append, ← h.kept, List.append_assoc, kept, List.append_assoc]
  · exact lawful

private theorem same (h : core.Aged events) (state : core'.state = core.state)
    (signalled : core'.endSignalled = core.endSignalled) (bytes : core'.stage.bytes = core.stage.bytes) :
    core'.Aged events where
  ended := by rw [state]; exact h.ended
  finished := by rw [state]; exact h.finished
  told := by rw [state, bytes]; exact h.told
  succeeded := by rw [signalled]; exact h.succeeded
  kept := by rw [bytes]; exact h.kept
  lawful := h.lawful

private theorem going (h : core.Aged events) (signalled : core.endSignalled = false) : ∀ e ∈ events, ¬ e.Succeeds := by
  intro e member succeeds
  rw [h.succeeded.mpr ⟨e, member, succeeds⟩] at signalled
  cases signalled

private theorem untold (h : core.Aged events) (state : core.state ≠ .ended) : ¬ ∃ e ∈ events, e.Tells :=
  fun told => state (h.told told).1

theorem unsignalled (h : core.Aged events) (active : core.state = .active) : core.endSignalled = false :=
  Bool.eq_false_iff.mpr fun signalled => by
    obtain ⟨e, member, succeeds⟩ := h.succeeded.mp signalled
    exact h.untold (by rw [active]; nofun) ⟨e, member, succeeds.tells⟩

private theorem notes (h : core.Aged events) (e : ProducerEvent κ ι) (law : e.Law events)
    (still : e.delivered = [] ∧ e.incoming = []) (plain : e.Plain) :
    core.Aged (events ++ [e]) := by
  apply h.goes core rfl rfl
  · simp [still.1, still.2]
  · exact fun told => (h.told told).2
  · exact List.forall_mem_singleton.mpr plain
  · exact h.lawful.append_one law

private theorem calls (h : core.Aged events) (core' : Core γ ι) {c : Chronicle ι σ} (state : core'.state = core.state)
    (signalled : core'.endSignalled = core.endSignalled) (going : core.endSignalled = false)
    (silent : c.told = false) {piece : List UInt8}
    (kept : c.output ++ core'.stage.bytes = core.stage.bytes ++ piece)
    (drained : (∃ e ∈ events, e.Tells) → core'.stage.bytes = []) :
    core'.Aged (events ++ (c.deeds.map .called ++ [.entered piece])) := by
  have silent : ∀ d ∈ c.deeds, d.tellsEnd = false := by simpa [Chronicle.told] using silent
  apply h.goes core' state signalled
  · simpa [ProducerEvent.delivered, ProducerEvent.incoming, Chronicle.output, delivered] using kept
  · exact drained
  · intro e member
    rcases List.mem_append.mp member with call | entry
    · obtain ⟨d, made, rfl⟩ := List.mem_map.mp call
      have plain := silent d made
      cases d with
      | ended ch result => cases plain
      | _ => trivial
    · obtain rfl := List.mem_singleton.mp entry
      trivial
  · rw [← List.append_assoc]
    exact (ProducerEvent.lawful_calls h.lawful (h.going going) silent).append_one trivial

/-- A turn begins, and calls the source unless the application has ended the stream. -/
theorem opened (h : core.Aged events) (ch : ι) :
    (core.openTurn ch).Aged (events ++ if core.state = .active then [.sourced] else []) := by
  have known : (core.openTurn ch).Aged events := h.same rfl rfl rfl
  split
  next active => exact known.notes .sourced (fun ended => h.ended.mpr ended active) ⟨rfl, rfl⟩ trivial
  · rw [List.append_nil]
    exact known

/-- The application ends the stream, perhaps again. -/
theorem ends (h : core.Aged events) : core.endStream.Aged (events ++ [.ended]) := by
  have silent : ∀ holds : ProducerEvent κ ι → Prop, ¬ holds .ended →
      ((∃ e ∈ events ++ [.ended], holds e) ↔ ∃ e ∈ events, holds e) := by
    intro holds none
    simp [or_and_right, exists_or, none]
  have moved : core.endStream.stage = core.stage ∧ core.endStream.endSignalled = core.endSignalled ∧
      core.endStream.state ≠ .active ∧ (core.endStream.state = .ended ↔ core.state = .ended) := by
    simp only [endStream]
    split
    next active => simp [active]
    next behind => exact ⟨rfl, rfl, behind, .rfl⟩
  obtain ⟨stage, signalled, behind, state⟩ := moved
  constructor
  · exact iff_of_true behind (by simp)
  · exact fun ended => List.mem_append_left _ (h.finished (state.mp ended))
  · intro told
    rw [state, stage]
    exact h.told ((silent _ id).mp told)
  · rw [signalled, h.succeeded]
    exact (silent _ id).symm
  · rw [stage]
    simpa [ProducerEvent.delivered, ProducerEvent.incoming] using h.kept
  · exact h.lawful.append_one trivial

private theorem finishes (h : core.Aged events) (behind : core.state ≠ .active)
    (reported : .finished (.ok true) ∈ events) : ({ core with state := .ended } : Core γ ι).Aged events where
  ended := iff_of_true nofun (h.ended.mp behind)
  finished _ := reported
  told told := ⟨rfl, (h.told told).2⟩
  succeeded := h.succeeded
  kept := h.kept
  lawful := h.lawful

private theorem tells (h : core.Aged events) (going : core.endSignalled = false) (coded : core.state = .ended)
    (empty : core.stage.bytes = []) (ch : ι) (result : Except Fault Unit) (signalled : Bool)
    (same : signalled = true ↔ (ProducerEvent.called (.ended ch result) : ProducerEvent κ ι).Succeeds) :
    ({ core with endSignalled := signalled } : Core γ ι).Aged (events ++ [.called (.ended ch result)]) := by
  have all := h.kept
  rw [empty, List.append_nil] at all
  have ended : .ended ∈ events := h.ended.mp (by rw [coded]; nofun)
  constructor
  · exact iff_of_true (by rw [coded]; nofun) (List.mem_append_left _ ended)
  · exact fun _ => List.mem_append_left _ (h.finished coded)
  · exact fun _ => ⟨coded, empty⟩
  · simp only [List.mem_append, List.mem_singleton, or_and_right, exists_or, exists_eq_left]
    exact same.trans (or_iff_right fun ⟨e, member, succeeds⟩ => h.going going e member succeeds).symm
  · simpa [ProducerEvent.delivered, ProducerEvent.incoming, Deed.taken, empty] using all
  · exact h.lawful.append_one ⟨ended, h.finished coded, all, h.going going⟩

private theorem closed (h : core.Aged events)
    (settled : core.endSignalled = true ∨ ¬ (core.state = .ended ∧ core.stage.bytes = [])) :
    ProducerEvent.Law events .closed := by
  intro told
  rcases settled with signalled | busy
  · exact .inl (h.succeeded.mp signalled)
  · exact absurd (h.told told) busy

end Aged

variable {γ κ ι σ : Type} [Coder γ κ] [Transport ι σ]

def askMinutes (κ : Type) (known : Option ι) (world : σ) : List (ProducerEvent κ ι) :=
  (Transport.requestOutput known (Chronicle.start (ι := ι) world)).deeds.map .called

def writeMinutes (core : Core γ ι) (hint : Nat) (data : κ) (world : σ) : List (ProducerEvent κ ι) :=
  let (result, core', c) := core.write hint data (Chronicle.start (ι := ι) world)
  c.deeds.map .called ++ [.entered ((core'.held c).drop core.stage.length), .wrote data result]

/-- The minutes of the coder's report at the end of a turn, if it has to make one. -/
def reportMinutes (core : Core γ ι) : List (ProducerEvent κ ι) :=
  if core.state = .flushing then
    let (report, _, stage) := Coder.finish core.coder core.stage
    [.entered (stage.bytes.drop core.stage.length), .finished report]
  else []

def closeMinutes (core : Core γ ι) (hint : Nat) (ch : ι) (world : σ) : List (ProducerEvent κ ι) :=
  (if core.endSignalled then [] else core.reportMinutes) ++
    (core.closeTurn hint ch (Chronicle.start (ι := ι) world)).2.2.deeds.map .called ++ [.closed]

theorem state_write (core : Core γ ι) (hint : Nat) (data : κ) (s : σ) :
    (core.write hint data s).2.1.state = core.state := by
  simp only [write]
  split
  · rfl
  · rfl

theorem state_drain (core : Core γ ι) (hint : Nat) (ch : ι) (s : σ) :
    (core.drain hint ch s).2.1.state = core.state ∧
      (core.drain hint ch s).2.1.endSignalled = core.endSignalled := by
  simp only [drain]
  split
  · exact ⟨rfl, rfl⟩
  · exact ⟨rfl, rfl⟩

omit [Coder γ κ] in
theorem state_signal (core : Core γ ι) (ch : ι) (s : σ) : (core.signal ch s).2.1.state = core.state := by
  simp only [signal]
  split
  · split
    · rfl
    · rfl
  · split
    · rfl
    · rfl

omit [Transport ι σ] in
/-- The coder's report takes the life of a producer a step on, if anything. A coder that fails does not. -/
theorem state_finishCoding (core : Core γ ι) :
    core.state.Next core.finishCoding.2.state ∧ core.finishCoding.2.endSignalled = core.endSignalled ∧
      ∀ fault, core.finishCoding.1 = .error fault → core.finishCoding.2.state ≠ .ended := by
  unfold finishCoding
  split
  next flushing =>
    split
    · exact ⟨.refl _, rfl, fun _ _ => by simp [flushing]⟩
    · exact ⟨.refl _, rfl, nofun⟩
    · exact ⟨by rw [flushing]; trivial, rfl, nofun⟩
  · exact ⟨.refl _, rfl, nofun⟩

/-- The end of a turn takes the life of a producer a step on, if anything. -/
theorem state_closeTurn (core : Core γ ι) (hint : Nat) (ch : ι) (s : σ) :
    core.state.Next (core.closeTurn hint ch s).2.1.state := by
  have coded := core.state_finishCoding.1
  simp only [closeTurn]
  split
  · exact .refl _
  · split
    next failed =>
      rw [failed] at coded
      exact coded
    next core' passed =>
      rw [passed] at coded
      have drained := (core'.state_drain hint ch s).1
      split
      next failed =>
        rw [failed] at drained
        exact drained ▸ coded
      next core'' s' passed =>
        rw [passed] at drained
        rw [core''.state_signal ch s']
        exact drained ▸ coded

/-- While the application goes on, the end of a turn drains the stage and nothing else. -/
theorem closeTurn_active {core : Core γ ι} (active : core.state = .active) (going : core.endSignalled = false)
    (hint : Nat) (ch : ι) (s : σ) : core.closeTurn hint ch s = core.drain hint ch s := by
  have coded : core.finishCoding = (.ok (), core) := by simp [finishCoding, active]
  have kept := (core.state_drain hint ch s).1
  simp only [closeTurn, going, coded, Bool.false_eq_true, if_false]
  split
  next failed => exact failed.symm
  next core' s' drained =>
    rw [drained] at kept ⊢
    have still : core'.state = .active := kept.trans active
    simp [signal, still]

omit [Coder γ κ] [Transport ι σ] in
theorem state_endStream (core : Core γ ι) : core.state.Next core.endStream.state := by
  simp only [endStream]
  split
  next active => rw [active]; trivial
  · exact .refl _

namespace Aged

variable {core : Core γ ι} {events : List (ProducerEvent κ ι)}

omit [Coder γ κ] in
theorem asked (h : core.Aged events) (known : Option ι) (world : σ) :
    core.Aged (events ++ askMinutes κ known world) := by
  cases known with
  | none => exact (List.append_nil events).symm ▸ h
  | some ch => exact h.notes (.called (.asked ch)) trivial ⟨rfl, rfl⟩ trivial

variable [KeepingCoder γ]

/-- A write of the application. Behind its end of the stream it is refused. -/
theorem writes (h : core.Aged events) (hint : Nat) (data : κ) (world : σ) :
    (core.write hint data (Chronicle.start (ι := ι) world)).2.1.Aged
      (events ++ core.writeMinutes hint data world) := by
  by_cases active : core.state = .active
  · obtain ⟨⟨piece, kept⟩, silent⟩ := KeepingCoder.accept core.coder core.stage data hint core.channel
      (Chronicle.start (ι := ι) world)
    have untold := h.untold (by rw [active]; nofun)
    have going := h.unsignalled active
    simp only [writeMinutes, write, if_pos active]
    generalize Coder.accept core.coder core.stage data hint core.channel (Chronicle.start (ι := ι) world) =
      after at kept silent
    obtain ⟨result, coder, stage, c⟩ := after
    have new : (held { core with coder, stage } c).drop core.stage.length = piece := by
      rw [held, kept]
      exact List.drop_left
    rw [new]
    have moved : Aged { core with coder, stage } (events ++ (c.deeds.map .called ++ [.entered piece])) := by
      apply h.calls { core with coder, stage } rfl rfl going silent kept
      exact fun told => absurd told untold
    have noted := moved.notes (.wrote data result) (fun ended => absurd active (moved.ended.mpr ended))
      ⟨rfl, rfl⟩ trivial
    simpa using noted
  · simp only [writeMinutes, write, if_neg active]
    have none : (core.held (Chronicle.start (ι := ι) world)).drop core.stage.length = [] := List.drop_length
    rw [none]
    have idle : core.Aged (events ++ [.entered []]) :=
      h.notes (.entered []) trivial ⟨rfl, rfl⟩ trivial
    have refused := idle.notes (.wrote data (.error .writeAfterEnd)) (fun _ => rfl) ⟨rfl, rfl⟩ trivial
    simpa [Chronicle.start] using refused

private theorem reports (h : core.Aged events) : core.finishCoding.2.Aged (events ++ core.reportMinutes) := by
  by_cases flushing : core.state = .flushing
  · obtain ⟨piece, appended⟩ := KeepingCoder.finish core.coder core.stage
    have untold := h.untold (by rw [flushing]; nofun)
    simp only [reportMinutes, finishCoding, if_pos flushing]
    generalize Coder.finish core.coder core.stage = after at appended
    obtain ⟨report, coder, stage⟩ := after
    have new : stage.bytes.drop core.stage.length = piece := by
      rw [show stage.bytes = _ from appended]
      exact List.drop_left
    rw [new]
    have staged : Aged { core with coder, stage } (events ++ [.entered piece]) := by
      apply h.goes { core with coder, stage } rfl rfl
      · simpa [ProducerEvent.delivered, ProducerEvent.incoming] using appended
      · exact fun told => absurd told untold
      · exact List.forall_mem_singleton.mpr trivial
      · exact h.lawful.append_one trivial
    have noted := staged.notes (.finished report) trivial ⟨rfl, rfl⟩ trivial
    rw [List.append_assoc] at noted
    cases report with
    | error fault => exact noted
    | ok complete =>
      cases complete with
      | false => exact noted
      | true => exact noted.finishes (by simp [flushing]) (by simp)
  · simp only [reportMinutes, finishCoding, if_neg flushing, List.append_nil]
    exact h

omit [KeepingCoder γ] in
private theorem drains {c : Chronicle ι σ} (h : core.Aged (events ++ c.deeds.map .called))
    (going : core.endSignalled = false) (hint : Nat) (ch : ι) :
    (core.drain hint ch c).2.1.Aged (events ++ (core.drain hint ch c).2.2.deeds.map .called) := by
  simp only [drain]
  split
  · rcases core.stage.flushTo_deeds ch c with ⟨_, still⟩ | ⟨some, result, deeds, kept⟩
    · rw [still]
      exact h.same rfl rfl rfl
    · rw [deeds, List.map_append, ← List.append_assoc]
      apply h.goes { core with
        coder := (Coder.takeFlushRequest core.coder).2
        stage := (core.stage.flushTo ch c).2.1 } rfl rfl
      · simpa [ProducerEvent.delivered, ProducerEvent.incoming, Deed.taken] using kept
      · exact fun told => absurd (h.told told).2 some
      · exact List.forall_mem_singleton.mpr trivial
      · exact h.lawful.append_one (h.going going)
  · exact h.same rfl rfl rfl

omit [KeepingCoder γ] in
private theorem drain_fails {c c' : Chronicle ι σ} {hint : Nat} {ch : ι} {fault : Fault} {core' : Core γ ι}
    (failed : core.drain hint ch c = (.error fault, core', c')) : core'.stage.bytes ≠ [] := by
  simp only [drain] at failed
  split at failed
  · simp only [Stage.flushTo] at failed
    split at failed
    · cases failed
    next some =>
      split at failed
      · cases failed
        exact fun none => some (List.isEmpty_iff.mpr none)
      · cases failed
  · cases failed

omit [KeepingCoder γ] [Coder γ κ] in
private theorem signals {c : Chronicle ι σ} (h : core.Aged (events ++ c.deeds.map .called))
    (going : core.endSignalled = false) (ch : ι) :
    (core.signal ch c).2.1.Aged (events ++ (core.signal ch c).2.2.deeds.map .called) ∧
      ProducerEvent.Law (events ++ (core.signal ch c).2.2.deeds.map .called) .closed := by
  simp only [signal]
  split
  next all =>
    have empty := List.isEmpty_iff.mp all.2
    have made : (Transport.endStream ch none c).2.deeds =
      c.deeds ++ [.ended ch (Transport.endStream ch none c).1] := rfl
    split
    next fault c' failed =>
      rw [failed] at made
      rw [show c'.deeds = _ from made, List.map_append, ← List.append_assoc]
      have told := h.tells going all.1 empty ch (.error fault) core.endSignalled
        (by simp [going, ProducerEvent.Succeeds])
      exact ⟨told, fun _ => .inr ⟨_, _, rfl, trivial⟩⟩
    next c' passed =>
      rw [passed] at made
      rw [show c'.deeds = _ from made, List.map_append, ← List.append_assoc]
      have told := h.tells going all.1 empty ch (.ok ()) true (by simp [ProducerEvent.Succeeds])
      exact ⟨told, fun _ => .inr ⟨_, _, rfl, trivial⟩⟩
  next busy =>
    have busy : ¬ (core.state = .ended ∧ core.stage.bytes = []) := fun all =>
      busy ⟨all.1, List.isEmpty_iff.mpr all.2⟩
    split
    · exact ⟨h, h.closed (.inr busy)⟩
    · have asked := h.notes (.called (.asked ch)) trivial ⟨rfl, rfl⟩ trivial
      rw [List.append_assoc, ← List.map_singleton (f := ProducerEvent.called), ← List.map_append] at asked
      exact ⟨asked, asked.closed (.inr busy)⟩

theorem closes (h : core.Aged events) (hint : Nat) (ch : ι) (world : σ) :
    (core.closeTurn hint ch (Chronicle.start (ι := ι) world)).2.1.Aged
      (events ++ core.closeMinutes hint ch world) := by
  rw [closeMinutes, ← List.append_assoc, ← List.append_assoc]
  by_cases going : core.endSignalled = true
  · have still : core.closeTurn hint ch (Chronicle.start (ι := ι) world) = (.ok (), core, .start world) :=
      if_pos going
    rw [if_pos going, still]
    have silent : core.Aged (events ++ [] ++ (Chronicle.start (ι := ι) world).deeds.map .called) := by
      simpa [Chronicle.start] using h
    exact silent.notes .closed (silent.closed (.inl going)) ⟨rfl, rfl⟩ trivial
  · have reported := h.reports
    obtain ⟨_, signalled, behind⟩ := core.state_finishCoding
    rw [Bool.eq_false_iff.mpr going] at signalled
    rw [if_neg going]
    simp only [closeTurn, if_neg going]
    -- a coder that fails has not come to its end, and a drain that fails leaves bytes: nobody was told
    split
    next fault core' failed =>
      rw [failed] at reported behind
      have told : core'.Aged
          (events ++ core.reportMinutes ++ (Chronicle.start (ι := ι) world).deeds.map .called) := by
        simpa [Chronicle.start] using reported
      exact told.notes .closed (told.closed (.inr fun all => behind fault rfl all.1)) ⟨rfl, rfl⟩ trivial
    next core' passed =>
      rw [passed] at reported signalled
      have told : core'.Aged
          (events ++ core.reportMinutes ++ (Chronicle.start (ι := ι) world).deeds.map .called) := by
        simpa [Chronicle.start] using reported
      have drained := told.drains signalled hint ch
      have signalled' := (core'.state_drain hint ch (Chronicle.start (ι := ι) world)).2
      rw [signalled] at signalled'
      split
      next fault core'' c failed =>
        rw [failed] at drained
        have left := drain_fails failed
        exact drained.notes .closed (drained.closed (.inr fun all => left all.2)) ⟨rfl, rfl⟩ trivial
      next core'' c passed =>
        rw [passed] at drained signalled'
        obtain ⟨ended, law⟩ := drained.signals signalled' ch
        exact ended.notes .closed law ⟨rfl, rfl⟩ trivial

end Aged
end Core

end Sluice
