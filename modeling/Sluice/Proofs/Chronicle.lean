import Sluice.Transport

/-! Channels whose calls are written down, and laws that a record keeps entry by entry. -/
namespace Sluice

/-- A call on a data channel and its result. -/
inductive Deed (ι : Type)
  | wrote (channel : ι) (offered : List UInt8) (result : Except Fault Nat)
  | asked (channel : ι)
  | ended (channel : ι) (result : Except Fault Unit)

/-- The bytes that a call took: the prefix whose length it answers, nothing if it fails. -/
def takenOf (offered : List UInt8) : Except Fault Nat → List UInt8
  | .ok n => offered.take n
  | .error _ => []

theorem takenOf_length_le (offered : List UInt8) (result : Except Fault Nat) :
    (takenOf offered result).length ≤ offered.length := by
  cases result with
  | ok n => exact List.length_take_le' n offered
  | error fault => exact Nat.zero_le _

def Deed.taken {ι : Type} : Deed ι → List UInt8
  | wrote _ offered result => takenOf offered result
  | _ => []

def Deed.tellsEnd {ι : Type} : Deed ι → Bool
  | ended _ _ => true
  | _ => false

/-- The bytes that all channels together took, in order. -/
def delivered {ι : Type} (deeds : List (Deed ι)) : List UInt8 := deeds.flatMap Deed.taken

/-- A world with a record of all calls on its data channels. -/
structure Chronicle (ι σ : Type) where
  world : σ
  deeds : List (Deed ι)

instance {ι σ : Type} [Transport ι σ] : Transport ι (Chronicle ι σ) where
  write ch bytes c :=
    let (result, world) := Transport.write ch bytes c.world
    (result, ⟨world, c.deeds ++ [.wrote ch bytes result]⟩)
  requestOutput ch c := ⟨Transport.requestOutput ch c.world, c.deeds ++ [.asked ch]⟩
  endStream ch trailers c :=
    let (result, world) := Transport.endStream ch trailers c.world
    (result, ⟨world, c.deeds ++ [.ended ch result]⟩)

/-- Channels that answer a write with the length of the prefix they took. -/
def Honest (ι σ : Type) [Transport ι σ] : Prop :=
  ∀ (ch : ι) (bytes : List UInt8) (s : σ) (n : Nat),
    (Transport.write ch bytes s).1 = .ok n → n ≤ bytes.length

namespace Chronicle

variable {ι σ : Type}

def start (world : σ) : Chronicle ι σ := ⟨world, []⟩

def output (c : Chronicle ι σ) : List UInt8 := delivered c.deeds

variable [Transport ι σ]

/-- A write adds to the output what its result tells. Where no channel is known yet, the result is
zero and the record stays as it is. -/
theorem output_write (ch : Option ι) (bytes : List UInt8) (c : Chronicle ι σ) :
    (Transport.write ch bytes c).2.output = c.output ++ takenOf bytes (Transport.write ch bytes c).1 := by
  cases ch with
  | none => exact (List.append_nil _).symm
  | some ch => simp [output, delivered, Transport.write, Deed.taken]

@[simp] theorem output_requestOutput (ch : Option ι) (c : Chronicle ι σ) :
    (Transport.requestOutput ch c).output = c.output := by
  cases ch with
  | none => rfl
  | some ch => simp [output, delivered, Transport.requestOutput, Deed.taken]

@[simp] theorem output_endStream (ch : Option ι) (trailers : Option Http.Headers) (c : Chronicle ι σ) :
    (Transport.endStream ch trailers c).2.output = c.output := by
  cases ch with
  | none => rfl
  | some ch => simp [output, delivered, Transport.endStream, Deed.taken]

end Chronicle

/-- A record keeps a law if each of its entries does, in view of those before it. -/
def Lawful {α : Type} (law : List α → α → Prop) (entries : List α) : Prop :=
  ∀ before entry after, entries = before ++ entry :: after → law before entry

namespace Lawful

variable {α : Type} {law : List α → α → Prop}

theorem nil : Lawful law [] := by
  intro before entry after h
  exact absurd h (by simp)

/-- A new entry has to keep the law in view of all others. -/
theorem append_one {entries : List α} {e : α} (h : Lawful law entries) (he : law entries e) :
    Lawful law (entries ++ [e]) := by
  intro before entry after hs
  rcases List.eq_nil_or_concat after with rfl | ⟨after, last, rfl⟩
  · obtain ⟨rfl, h1⟩ := List.append_inj' hs rfl
    exact List.singleton_inj.mp h1 ▸ he
  · have hs : entries ++ [e] = (before ++ entry :: after) ++ [last] := by simpa using hs
    exact h before entry after (List.append_inj' hs rfl).1

/-- Entries that the law leaves free may be added. -/
theorem append_free {entries more : List α} (h : Lawful law entries)
    (free : ∀ entry ∈ more, ∀ before, law before entry) : Lawful law (entries ++ more) := by
  induction more generalizing entries with
  | nil => rwa [List.append_nil]
  | cons entry more ih =>
    rw [List.append_cons]
    exact ih (h.append_one (free entry List.mem_cons_self entries))
      fun entry member => free entry (List.mem_cons_of_mem _ member)

end Lawful

/-- What stays once a step of one kind has met its cause holds behind a run that has met it there. -/
theorem holds_foldl_iff {α β : Type} {step : β → α → β} (holds meets : β → Prop) (p : α)
    (steps : ∀ b a, holds (step b a) ↔ holds b ∨ a = p ∧ meets b) (b : β) (as : List α) :
    holds (as.foldl step b) ↔
      holds b ∨ ∃ before after, as = before ++ p :: after ∧ meets (before.foldl step b) := by
  induction as generalizing b with
  | nil => simp
  | cons a as ih =>
    rw [List.foldl_cons, ih, steps, or_assoc]
    refine or_congr_right ⟨?_, ?_⟩
    · rintro (⟨rfl, here⟩ | ⟨before, after, rfl, there⟩)
      · exact ⟨[], as, rfl, here⟩
      · exact ⟨a :: before, after, rfl, there⟩
    · rintro ⟨before, after, split, there⟩
      cases before with
      | nil =>
        obtain ⟨rfl, rfl⟩ := List.cons.inj split
        exact .inl ⟨rfl, there⟩
      | cons first before =>
        obtain ⟨rfl, rfl⟩ := List.cons.inj split
        exact .inr ⟨before, after, rfl, there⟩

/-- Results can be compared. -/
instance decidableEqResult {ε α : Type} [DecidableEq ε] [DecidableEq α] : DecidableEq (Except ε α)
  | .ok a, .ok b => decidable_of_iff (a = b) ⟨congrArg _, Except.ok.inj⟩
  | .error a, .error b => decidable_of_iff (a = b) ⟨congrArg _, Except.error.inj⟩
  | .ok _, .error _ => isFalse nofun
  | .error _, .ok _ => isFalse nofun

end Sluice
