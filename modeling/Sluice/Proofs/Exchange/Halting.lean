import Sluice.Proofs.Exchange.Clearance
import Sluice.Proofs.Exchange.Onward

/-! When an exchange has halted, as its minutes tell, and what of the minutes leaves that as it is. The
worker notes nothing else in a section but what it foretells. -/
namespace Sluice

variable {ι κ σ τ : Type}

def Occurrence.cause? : Occurrence ι → Option Fault
  | .failed cause => some cause
  | _ => none

def Occurrence.answer? : Occurrence ι → Option Answer
  | .heard answer => some answer
  | _ => none

def Occurrence.move? : Occurrence ι → Option Move
  | .moved move => some move
  | _ => none

def movesOf (notes : List (Occurrence ι)) : List Move := notes.filterMap Occurrence.move?

theorem movesOf_append (notes more : List (Occurrence ι)) : movesOf (notes ++ more) = movesOf notes ++ movesOf more :=
  List.filterMap_append

/-- An occurrence that neither begins nor ends anything. -/
def Occurrence.Tame : Occurrence ι → Prop
  | .begun | .refused | .failed _ => False
  | _ => True

/-- An occurrence that, besides, is not an answer. -/
def Occurrence.Plain : Occurrence ι → Prop
  | .begun | .refused | .failed _ | .heard _ => False
  | _ => True

/-- What is done to channels and buffers. -/
def Occurrence.Mute : Occurrence ι → Prop
  | .deed _ | .sent _ | .placed _ => True
  | _ => False

/-- An exchange has failed after its request arrived. -/
def Interrupted (notes : List (Occurrence ι)) : Prop := ∃ cause, [.begun, .failed cause].Sublist notes

/-- An exchange was refused, or has failed after its request arrived. -/
def Halted (notes : List (Occurrence ι)) : Prop := .refused ∈ notes ∨ Interrupted notes

/-- What leaves notes begun, refused and failed as they are. -/
def Tame (more : List (Occurrence ι)) : Prop := ∀ entry ∈ more, entry.Tame

theorem Tame.append {more rest : List (Occurrence ι)} (h : Tame more) (h' : Tame rest) : Tame (more ++ rest) := by
  intro entry member
  rcases List.mem_append.mp member with first | second
  · exact h entry first
  · exact h' entry second

/-- What, besides, holds no answers. -/
def Plain (more : List (Occurrence ι)) : Prop := ∀ entry ∈ more, entry.Plain

theorem Plain.tame {more : List (Occurrence ι)} (h : Plain more) : Tame more := by
  intro entry member
  have plain := h entry member
  cases entry with
  | heard answer => exact plain.elim
  | _ => exact plain

theorem Plain.unheard {more : List (Occurrence ι)} (h : Plain more) :
    more.filterMap Occurrence.answer? = [] := by
  apply List.filterMap_eq_nil_iff.mpr
  intro entry member
  have plain := h entry member
  cases entry with
  | heard answer => exact plain.elim
  | _ => rfl

/-- What, besides, holds no word of the handler or about it. -/
def Mute (more : List (Occurrence ι)) : Prop := ∀ entry ∈ more, entry.Mute

theorem Mute.append {more rest : List (Occurrence ι)} (h : Mute more) (h' : Mute rest) : Mute (more ++ rest) := by
  intro entry member
  rcases List.mem_append.mp member with first | second
  · exact h entry first
  · exact h' entry second

theorem Mute.plain {more : List (Occurrence ι)} (h : Mute more) : Plain more := by
  intro entry member
  have mute := h entry member
  cases entry with
  | deed deed => trivial
  | sent result => trivial
  | placed piece => trivial
  | _ => exact mute.elim

theorem Mute.unmoved {more : List (Occurrence ι)} (h : Mute more) : movesOf more = [] := by
  apply List.filterMap_eq_nil_iff.mpr
  intro entry member
  have mute := h entry member
  cases entry with
  | moved move => exact mute.elim
  | _ => rfl

/-- What moves no bytes: a request for a turn, or a head that was sent. -/
def Occurrence.Inert : Occurrence ι → Prop
  | .deed (.asked _) | .sent _ => True
  | _ => False

/-- What holds nothing else. -/
def Inert (more : List (Occurrence ι)) : Prop := ∀ entry ∈ more, entry.Inert

theorem Inert.mute {more : List (Occurrence ι)} (h : Inert more) : Mute more := by
  intro entry member
  have inert := h entry member
  cases entry with
  | deed call => trivial
  | sent result => trivial
  | _ => exact inert.elim

theorem inert_asked (ch : Option ι) : Inert (Minutes.askedOf ch) := by
  cases ch <;> simp [Inert, Minutes.askedOf, Occurrence.Inert]

private theorem mute_nil : Mute ([] : List (Occurrence ι)) := fun _ => nofun

theorem mute_deeds (deeds : List (Deed ι)) : Mute (deeds.map .deed) := by
  intro entry member
  obtain ⟨deed, _, rfl⟩ := List.mem_map.mp member
  trivial

private theorem mute_asked (ch : Option ι) : Mute (Minutes.askedOf ch) := (inert_asked ch).mute

theorem mute_placedBetween (x x' : Exchange ι κ τ) : Mute (ExchangeRun.placedBetween x x') := by
  simp only [ExchangeRun.placedBetween]
  split
  · exact mute_nil
  · intro entry member
    obtain rfl := List.mem_singleton.mp member
    trivial

/-- Whether only plain things were noted in between. -/
def Minutes.Quietly (m m' : Minutes ι σ) : Prop := ∃ more, m'.notes = m.notes ++ more ∧ Plain more

namespace Minutes

theorem quietly_same {m m' : Minutes ι σ} (same : m'.notes = m.notes) : m.Quietly m' :=
  ⟨[], same.trans (List.append_nil _).symm, mute_nil.plain⟩

theorem Quietly.refl (m : Minutes ι σ) : m.Quietly m := quietly_same rfl

theorem quietly_requestOutput [Transport ι σ] (ch : Option ι) (m : Minutes ι σ) :
    m.Quietly (Transport.requestOutput ch m) :=
  ⟨_, m.notes_requestOutput ch, (mute_asked ch).plain⟩

/-- Whether only deeds were noted in between. -/
def Mutely (m m' : Minutes ι σ) : Prop := ∃ more, m'.notes = m.notes ++ more ∧ Mute more

private theorem mutely_same {m m' : Minutes ι σ} (same : m'.notes = m.notes) : m.Mutely m' :=
  ⟨[], same.trans (List.append_nil _).symm, mute_nil⟩

theorem Mutely.refl (m : Minutes ι σ) : m.Mutely m := mutely_same rfl

theorem mutely_requestOutput [Transport ι σ] (ch : Option ι) (m : Minutes ι σ) :
    m.Mutely (Transport.requestOutput ch m) :=
  ⟨_, m.notes_requestOutput ch, mute_asked ch⟩

end Minutes

theorem Halted.append {notes : List (Occurrence ι)} (h : Halted notes) (more : List (Occurrence ι)) :
    Halted (notes ++ more) := by
  rcases h with refused | ⟨cause, order⟩
  · exact .inl (List.mem_append_left _ refused)
  · exact .inr ⟨cause, List.sublist_append_of_sublist_left order⟩

theorem Interrupted.of_append {notes more : List (Occurrence ι)} (h : Interrupted (notes ++ more))
    (calm : ∀ cause, .failed cause ∉ more) : Interrupted notes := by
  obtain ⟨cause, order⟩ := h
  obtain ⟨front, back, parts, before, after⟩ := List.sublist_append_iff.mp order
  rcases List.eq_nil_or_concat back with rfl | ⟨rest, last, rfl⟩
  · rw [List.append_nil] at parts
    exact ⟨cause, parts ▸ before⟩
  · have ends : [Occurrence.begun] ++ [.failed cause] = (front ++ rest) ++ [last] := by simpa using parts
    obtain rfl : Occurrence.failed cause = last := List.singleton_inj.mp (List.append_inj' ends rfl).2
    exact absurd (after.subset (by simp)) (calm cause)

/-- Where no failure is noted the causes stay the same. -/
theorem causes_append {notes more : List (Occurrence ι)} (calm : more.filterMap Occurrence.cause? = []) :
    (notes ++ more).filterMap Occurrence.cause? = notes.filterMap Occurrence.cause? := by
  rw [List.filterMap_append, calm, List.append_nil]

namespace Tame

variable {notes more : List (Occurrence ι)}

theorem begun_mem (h : Tame more) : .begun ∈ notes ++ more ↔ .begun ∈ notes := by
  refine ⟨fun member => ?_, List.mem_append_left more⟩
  exact (List.mem_append.mp member).resolve_right (h _)

theorem halted_iff (h : Tame more) : Halted (notes ++ more) ↔ Halted notes := by
  refine ⟨fun halted => ?_, fun halted => halted.append more⟩
  rcases halted with refused | interrupted
  · exact .inl ((List.mem_append.mp refused).resolve_right (h _))
  · exact .inr (interrupted.of_append fun cause => h (.failed cause))

theorem causes (h : Tame more) :
    (notes ++ more).filterMap Occurrence.cause? = notes.filterMap Occurrence.cause? := by
  apply causes_append
  apply List.filterMap_eq_nil_iff.mpr
  intro entry member
  have tame := h entry member
  cases entry with
  | failed cause => exact tame.elim
  | _ => rfl

end Tame

section
variable [Transport ι σ] [CapacityChannel κ σ] [ResponseChannel σ]

/-- Of a section of a call it is noted whom it asks for a turn and what became of a head. -/
theorem Call.step_inertly (call : Call ι κ) (g : Ground ι κ) (m : Minutes ι σ) :
    ∃ more, (call.step g m).2.2.2.notes = m.notes ++ more ∧ Inert more := by
  have same : ∀ {m' : Minutes ι σ}, m'.notes = m.notes → ∃ more, m'.notes = m.notes ++ more ∧ Inert more :=
    fun same => ⟨[], same.trans (List.append_nil _).symm, fun _ => nofun⟩
  have asks : ∀ ch : Option ι, ∃ more, (Transport.requestOutput ch m).notes = m.notes ++ more ∧ Inert more :=
    fun ch => ⟨_, m.notes_requestOutput ch, inert_asked ch⟩
  have input : call.OfInput → ∃ more, (call.step g m).2.2.2.notes = m.notes ++ more ∧ Inert more :=
    fun input => same (step_ofInput input g m).2.2.2
  cases call with
  | reading room r => exact input trivial
  | draining r => exact input trivial
  | announcing head bytes =>
    refine ⟨[.sent (ResponseChannel.send head head.entity m).1], ?_, by simp [Inert, Occurrence.Inert]⟩
    simp only [step]
    split
    next failed => exact (congrArg (·.2.notes) failed).symm
    next passed => exact (congrArg (·.2.notes) passed).symm
  | writing count w =>
    obtain ⟨ch, asked⟩ := w.step_asks g.outlet m
    cases w with
    | done result => exact same rfl
    | _ =>
      have inertly := asks ch
      rw [← asked] at inertly
      exact inertly
  | completing =>
    simp only [step]
    split
    · exact same rfl
    · exact same rfl
  | asking ch => exact asks ch
  | done answer => exact same rfl

/-- Only what is done is noted of a section of a call. -/
theorem Call.step_mutely (call : Call ι κ) (g : Ground ι κ) (m : Minutes ι σ) :
    m.Mutely (call.step g m).2.2.2 := by
  obtain ⟨more, notes, inert⟩ := call.step_inertly g m
  exact ⟨more, notes, inert.mute⟩

theorem Exchange.step_mutely [Handler τ] (x : Exchange ι κ τ) (m : Minutes ι σ) :
    m.Mutely (x.step m).2.2 := by
  have called : ∀ task (progress : Call ι κ → Progress ι κ) call,
      m.Mutely (x.stepCall task progress call m).2.2 := by
    intro task progress call
    cases placed : x.outlet with
    | none =>
      simp only [stepCall, placed]
      exact .refl m
    | some outlet =>
      rw [x.stepCall_placed placed]
      exact call.step_mutely (x.ground task outlet) m
  simp only [step]
  cases x.task with
  | none => exact .refl m
  | some task =>
    obtain ⟨session, progress⟩ := task
    cases progress with
    | calling call =>
      cases call with
      | done answer => exact .refl m
      | _ => exact called _ _ _
    | closingInput call =>
      cases call with
      | done answer => exact .refl m
      | _ => exact called _ _ _
    | closingOutput call =>
      cases call with
      | done answer => exact .refl m
      | _ => exact called _ _ _
    | asking ch => exact m.mutely_requestOutput ch
    | _ => exact .refl m

end

end Sluice
