import Sluice.Proofs.Producer.Lifecycle

/-! What a producer does to its channels it does by calls, one after the other. A record of these grows at its
end, so whatever was called so far is known from a record at any later time. -/
namespace Sluice

variable {γ κ ι σ τ α : Type} [Transport ι σ]

/-- What calls on some channels can make of a world. -/
inductive Reaches (ι : Type) {σ : Type} [Transport ι σ] (s : σ) : σ → Prop
  | refl : Reaches ι s s
  | write {s' : σ} (ch : ι) (bytes : List UInt8) : Reaches ι s s' → Reaches ι s (Transport.write ch bytes s').2
  | requestOutput {s' : σ} (ch : ι) : Reaches ι s s' → Reaches ι s (Transport.requestOutput ch s')
  | endStream {s' : σ} (ch : ι) (trailers : Option Http.Headers) :
      Reaches ι s s' → Reaches ι s (Transport.endStream ch trailers s').2

namespace Reaches

variable {s s' s'' : σ}

theorem trans (first : Reaches ι s s') (second : Reaches ι s' s'') : Reaches ι s s'' := by
  induction second with
  | refl => exact first
  | write ch bytes _ ih => exact ih.write ch bytes
  | requestOutput ch _ ih => exact ih.requestOutput ch
  | endStream ch trailers _ ih => exact ih.endStream ch trailers

theorem of_write (ch : Option ι) (bytes : List UInt8) (s : σ) : Reaches ι s (Transport.write ch bytes s).2 := by
  cases ch with
  | none => exact .refl
  | some ch => exact refl.write ch bytes

theorem of_requestOutput (ch : Option ι) (s : σ) : Reaches ι s (Transport.requestOutput ch s) := by
  cases ch with
  | none => exact .refl
  | some ch => exact refl.requestOutput ch

end Reaches

namespace Chronicle

def Grows (c c' : Chronicle ι σ) : Prop := c.deeds <+: c'.deeds

omit [Transport ι σ] in
theorem Grows.refl (c : Chronicle ι σ) : c.Grows c := List.prefix_rfl

omit [Transport ι σ] in
theorem Grows.trans {c c' c'' : Chronicle ι σ} (first : c.Grows c') (second : c'.Grows c'') : c.Grows c'' :=
  List.IsPrefix.trans first second

end Chronicle

theorem Reaches.grows {c c' : Chronicle ι σ} (h : Reaches ι c c') : c.Grows c' := by
  induction h with
  | refl => exact .refl c
  | write ch bytes _ ih => exact ih.trans (List.prefix_append _ _)
  | requestOutput ch _ ih => exact ih.trans (List.prefix_append _ _)
  | endStream ch trailers _ ih => exact ih.trans (List.prefix_append _ _)

private theorem Stage.flushTo_reaches (stage : Stage) (ch : Option ι) (s : σ) :
    Reaches ι s (stage.flushTo ch s).2.2 := by
  have written := Reaches.of_write ch stage.bytes s
  simp only [flushTo]
  split
  · exact .refl
  · split
    next refused =>
      rw [refused] at written
      exact written
    next answered =>
      rw [answered] at written
      exact written

namespace BinaryCoder

theorem makeRoom_reaches (stage : Stage) (hint : Nat) (ch : Option ι) (s : σ) :
    Reaches ι s (makeRoom stage hint ch s).2.2 := by
  simp only [makeRoom]
  split
  · exact stage.flushTo_reaches ch s
  · exact .refl

theorem passBy_reaches (stage : Stage) (bytes : List UInt8) (ch : Option ι) (s : σ) :
    Reaches ι s (passBy stage bytes ch s).2 := by
  simp only [passBy]
  split
  · exact .of_write ch bytes s
  · exact .refl

private theorem accept_reaches (coder : BinaryCoder) (stage : Stage) (bytes : List UInt8) (hint : Nat) (ch : Option ι)
    (s : σ) : Reaches ι s (accept coder stage bytes hint ch s).2.2.2 := by
  have room := makeRoom_reaches stage hint ch s
  simp only [accept]
  split
  · exact .refl
  · split
    next refused =>
      rw [refused] at room
      exact room
    next stage' s' made =>
      rw [made] at room
      have passed := passBy_reaches stage' bytes ch s'
      split
      next refused =>
        rw [refused] at passed
        exact room.trans passed
      next answered =>
        rw [answered] at passed
        split
        · exact (room.trans passed).trans (.of_requestOutput ch _)
        · exact room.trans passed

end BinaryCoder

private theorem TextCoder.accept_reaches {ε : Type} [Encoder ε] (coder : TextCoder ε) (stage : Stage) (text : List Char)
    (hint : Nat) (ch : Option ι) (s : σ) : Reaches ι s (accept coder stage text hint ch s).2.2.2 := by
  obtain ⟨_, _, same | same⟩ := coder.accept_stages stage text hint ch s
  · rw [same]
    exact .refl
  · rw [same]
    exact .of_requestOutput ch s

/-- A coder that acts on a channel by calls. -/
class CallingCoder (γ : Type) {κ : outParam Type} [Coder γ κ] : Prop where
  accept {ι σ : Type} [Transport ι σ] (coder : γ) (stage : Stage) (data : κ) (hint : Nat) (ch : Option ι)
    (s : σ) : Reaches ι s (Coder.accept coder stage data hint ch s).2.2.2

instance : CallingCoder BinaryCoder := ⟨BinaryCoder.accept_reaches⟩

instance {ε : Type} [Encoder ε] : CallingCoder (TextCoder ε) := ⟨TextCoder.accept_reaches⟩

variable [Coder γ κ]

namespace Core

theorem drain_reaches (core : Core γ ι) (hint : Nat) (ch : ι) (s : σ) :
    Reaches ι s (core.drain hint ch s).2.2 := by
  simp only [drain]
  split
  · exact core.stage.flushTo_reaches (some ch) s
  · exact .refl

omit [Coder γ κ] in
theorem signal_reaches (core : Core γ ι) (ch : ι) (s : σ) : Reaches ι s (core.signal ch s).2.2 := by
  have ended := Reaches.refl.endStream (s := s) ch none
  simp only [signal]
  split
  · split
    next failed =>
      rw [failed] at ended
      exact ended
    next told =>
      rw [told] at ended
      exact ended
  · split
    · exact .refl
    · exact .of_requestOutput (some ch) s

theorem closeTurn_reaches (core : Core γ ι) (hint : Nat) (ch : ι) (s : σ) :
    Reaches ι s (core.closeTurn hint ch s).2.2 := by
  simp only [closeTurn]
  split
  · exact .refl
  · split
    · exact .refl
    next core' _ =>
      have drained := core'.drain_reaches hint ch s
      split
      next failed =>
        rw [failed] at drained
        exact drained
      next core'' s' passed =>
        rw [passed] at drained
        exact drained.trans (core''.signal_reaches ch s')

variable [CallingCoder γ]

theorem write_reaches (core : Core γ ι) (hint : Nat) (data : κ) (s : σ) :
    Reaches ι s (core.write hint data s).2.2 := by
  simp only [write]
  split
  · exact CallingCoder.accept core.coder core.stage data hint core.channel s
  · exact .refl

end Core

variable [CallingCoder γ]

theorem Turn.run_reaches (hint : Nat) (turn : Turn κ α) (core : Core γ ι) (s : σ) :
    Reaches ι s (turn.run hint core s).2.2 := by
  induction turn generalizing core s with
  | done outcome => exact .refl
  | write data next ih => exact (core.write_reaches hint data s).trans (ih _ _ _)
  | endStream next ih => exact (Reaches.of_requestOutput core.channel s).trans (ih _ _)

theorem Producer.produce_reaches [Source τ κ] (p : Producer γ ι τ) (ch : ι) (s : σ) :
    Reaches ι s (p.produce ch s).2.2 := by
  have called := (Source.turn p.source).run_reaches p.hint (p.core.openTurn ch) s
  simp only [produce]
  split
  · split
    next failed =>
      rw [failed] at called
      exact called
    next core s' passed =>
      rw [passed] at called
      exact called.trans (core.closeTurn_reaches p.hint ch s')
  · exact (p.core.openTurn ch).closeTurn_reaches p.hint ch s

end Sluice
