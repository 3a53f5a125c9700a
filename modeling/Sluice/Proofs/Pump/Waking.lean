import Sluice.Producer
import Sluice.Proofs.Pump.SupplierPump

/-! Coders in front of the window of a pump. Whatever a coder does there, somebody hears of it who can wake
the pump, or nothing has changed that matters. -/
namespace Sluice

/-- What a flush into a window does that is known or not. Only the end makes it fail. -/
theorem Stage.flushTo_window (stage : Stage) (known : Option Unit) (w : Window) :
    (stage.flushTo known w).2.2.size = w.size ∧ (stage.flushTo known w).2.2.ended = w.ended ∧
      ∀ fault, (stage.flushTo known w).1 = .error fault → w.ended = true := by
  obtain ⟨size, ended, fails⟩ := w.write_spec known stage.bytes
  simp only [flushTo]
  split
  · exact ⟨rfl, rfl, by simp⟩
  · split
    next failed =>
      rw [failed] at size ended fails
      exact ⟨size, ended, fun _ _ => fails _ rfl⟩
    next written =>
      rw [written] at size ended
      exact ⟨size, ended, by simp⟩

/-- Behind a flush that succeeds there are bytes in the window, or there were none in the stage. -/
theorem Stage.flushTo_serves (stage : Stage) {w : Window} (live : 0 < w.size) {n : Nat}
    (flushed : (stage.flushTo () w).1 = .ok n) :
    (stage.flushTo () w).2.2.pending ≠ [] ∨ stage.bytes = [] ∧ (stage.flushTo () w).2.1 = stage := by
  simp only [flushTo] at flushed ⊢
  split
  next empty => exact .inr ⟨List.isEmpty_iff.mp empty, rfl⟩
  next loaded =>
    rw [if_neg loaded] at flushed
    split
    next failed =>
      rw [failed] at flushed
      cases flushed
    next written => exact .inl (Window.write_holds live (fun none => loaded (List.isEmpty_iff.mpr none)) written)

/-- What a coder does in front of a window. If it knows that and takes nothing, it asks for output or leaves
everything as it was, unless the stream is over. -/
structure Wakes {α : Type} (flag : α → Bool) (coder : α) (stage : Stage) (known : Option Unit) (w : Window)
    (result : Except Fault Nat) (coder' : α) (stage' : Stage) (w' : Window) : Prop where
  size : w'.size = w.size
  ended : w'.ended = w.ended
  wakes : known = some () → (∃ n, result = .ok (n + 1)) ∨ (w'.requested = true ∧ w'.bell.Answers) ∨
    w.ended = true ∨ w' = w ∧ stage' = stage ∧ flag coder' = flag coder

/-- A coder that does so, and forgets its flush request when that is taken. -/
class WakingCoder (γ : Type) {κ : outParam Type} [Coder γ κ] : Prop where
  accept (coder : γ) (stage : Stage) (data : κ) (hint : Nat) (known : Option Unit) (w : Window) :
    let after := Coder.accept coder stage data hint known w
    Wakes (fun c : γ => (Coder.takeFlushRequest c).1) coder stage known w after.1 after.2.1 after.2.2.1 after.2.2.2
  forgets (coder : γ) : (Coder.takeFlushRequest (Coder.takeFlushRequest coder).2).1 = false

namespace BinaryCoder

private theorem makeRoom_window (stage : Stage) (hint : Nat) (known : Option Unit) (w : Window) :
    (makeRoom stage hint known w).2.2.size = w.size ∧ (makeRoom stage hint known w).2.2.ended = w.ended ∧
      ∀ fault, (makeRoom stage hint known w).1 = .error fault → w.ended = true := by
  obtain ⟨size, ended, fails⟩ := stage.flushTo_window known w
  simp only [makeRoom]
  split
  · exact ⟨size, ended, fun fault failed => fails fault (error_of_map failed)⟩
  · exact ⟨rfl, rfl, by simp⟩

private theorem passBy_window (stage : Stage) (bytes : List UInt8) (known : Option Unit) (w : Window) :
    (passBy stage bytes known w).2.size = w.size ∧ (passBy stage bytes known w).2.ended = w.ended ∧
      ∀ fault, (passBy stage bytes known w).1 = .error fault → w.ended = true := by
  simp only [passBy]
  split
  · exact w.write_spec known bytes
  · exact ⟨rfl, rfl, by simp⟩

instance : WakingCoder BinaryCoder where
  accept coder stage bytes hint known w := by
    obtain ⟨size, ended, fails⟩ := makeRoom_window stage hint known w
    simp only [Coder.accept, BinaryCoder.accept]
    split
    next fits =>
      refine ⟨rfl, rfl, fun _ => ?_⟩
      cases bytes with
      | nil => exact .inr (.inr (.inr ⟨rfl, by simp [Stage.put], rfl⟩))
      | cons byte rest =>
        refine .inl ⟨rest.length, congrArg Except.ok ?_⟩
        exact Nat.min_eq_right fits
    next tight =>
      split
      next failed =>
        rw [failed] at size ended fails
        exact ⟨size, ended, fun _ => .inr (.inr (.inl (fails _ rfl)))⟩
      next stage' w' made =>
        rw [made] at size ended
        obtain ⟨size', ended', fails'⟩ := passBy_window stage' bytes known w'
        split
        next failed =>
          rw [failed] at size' ended' fails'
          exact ⟨size'.trans size, ended'.trans ended, fun _ =>
            .inr (.inr (.inl (ended.symm.trans (fails' _ rfl))))⟩
        next taken w'' passed =>
          rw [passed] at size' ended'
          split
          · refine ⟨?_, ?_, ?_⟩
            · exact (Window.size_requestOutput known w'').trans (size'.trans size)
            · exact (Window.ended_requestOutput known w'').trans (ended'.trans ended)
            · rintro rfl
              exact .inr (.inl w''.requestOutput_heard)
          next all =>
            refine ⟨size'.trans size, ended'.trans ended, fun _ => .inl ⟨taken - 1, congrArg Except.ok ?_⟩⟩
            simp only [not_or, Nat.not_lt] at all
            omega
  forgets _ := rfl

end BinaryCoder

/-- Nothing was written if nothing was used, unless there was no room for more. -/
def Spares {ε : Type} (result : Except ε Encoded) : Prop :=
  ∀ bytes, result = .ok ⟨.inputUsed, 0, bytes⟩ → bytes = []

/-- An encoder that does so as long as its text goes on. -/
class SparingEncoder (ε : Type) [Encoder ε] : Prop where
  spares (e : ε) (text : List Char) (room : Nat) : Spares (Encoder.encode e text room false).1

instance {ε : Type} [Encoder ε] [SparingEncoder ε] : WakingCoder (TextCoder ε) where
  accept coder stage text hint known w := by
    have spares := SparingEncoder.spares coder.encoder text stage.remaining
    simp only [Coder.accept, TextCoder.accept]
    generalize Encoder.encode coder.encoder text stage.remaining false = encoded at spares
    match encoded with
    | (.error fault, encoder) =>
      refine ⟨rfl, rfl, fun _ => .inr (.inr (.inr ⟨rfl, ?_, rfl⟩))⟩
      simp [Stage.writeWith_eq, Except.map]
    | (.ok ⟨.outputFull, read, bytes⟩, encoder) =>
      refine ⟨w.size_requestOutput known, w.ended_requestOutput known, ?_⟩
      rintro rfl
      exact .inr (.inl w.requestOutput_heard)
    | (.ok ⟨.inputUsed, read + 1, bytes⟩, encoder) => exact ⟨rfl, rfl, fun _ => .inl ⟨read, rfl⟩⟩
    | (.ok ⟨.inputUsed, 0, bytes⟩, encoder) =>
      obtain rfl := spares bytes rfl
      refine ⟨rfl, rfl, fun _ => .inr (.inr (.inr ⟨rfl, ?_, rfl⟩))⟩
      simp [Stage.writeWith_eq, Except.map, TextCoder.filled, windowPrefix]
  forgets _ := rfl

section Encoders

private theorem spares_after {ε : Type} (result : Except ε Encoded) (c : Char) (bytes : List UInt8) :
    Spares (result.map (·.after c bytes)) := by
  intro written done
  obtain ⟨e, _, same⟩ := ok_of_map done
  have positive := c.utf8Size_pos
  have used := congrArg Encoded.read same
  simp only [Encoded.after] at used
  omega

private theorem BuiltInEncoder.spares_encodeChars (charset : Charset) (owed : Bool) (room : Nat) (text : List Char) :
    Spares (encodeChars charset owed room text).1 := by
  cases text with
  | nil => exact fun _ done => (congrArg Encoded.bytes (Except.ok.inj done)).symm
  | cons c cs =>
    simp only [encodeChars]
    split
    · rintro _ ⟨⟩
    next bytes _ =>
      generalize (if owed = true then byteOrderMark ++ bytes else bytes) = marked
      split
      · rintro _ ⟨⟩
      · exact spares_after _ c _

private theorem WebEncoding.spares_encodeChars [CodeIndex] (encoding : WebEncoding) (wide : Bool)
    (room : Nat) (text : List Char) :
    Spares (encoding.encodeChars wide room text) := by
  cases text with
  | nil => exact fun _ done => (congrArg Encoded.bytes (Except.ok.inj done)).symm
  | cons c cs =>
    simp only [encodeChars]
    split
    · rintro _ ⟨⟩
    · split
      · rintro _ ⟨⟩
      · exact spares_after _ c _

private theorem Shift.spares_encodeChars [CodeIndex] (shift : Shift) (room : Nat) (text : List Char) :
    Spares (encodeChars false shift room text).1 := by
  cases text with
  | nil => exact fun _ done => (congrArg Encoded.bytes (Except.ok.inj done)).symm
  | cons c cs =>
    simp only [encodeChars]
    split
    · rintro _ ⟨⟩
    · split
      · rintro _ ⟨⟩
      next target _ =>
        generalize (if target = shift then [] else target.escape) = escape
        split
        · rintro _ ⟨⟩
        · split
          · rintro _ ⟨⟩
          · exact spares_after _ c _

/-- All encoders of charsets do. -/
instance [CodeIndex] : SparingEncoder CharsetEncoder where
  spares e text room := by
    cases e with
    | builtIn e => exact BuiltInEncoder.spares_encodeChars e.charset e.markOwed room text
    | web e =>
      have named {result : Except Char Encoded} (spares : Spares result) :
          Spares (WebEncoder.named e.encoding result) := by
        intro bytes done
        cases result with
        | error c => cases done
        | ok encoded =>
          obtain rfl := Except.ok.inj done
          exact spares bytes rfl
      simp only [Encoder.encode, Prod.map]
      split
      · exact named (Shift.spares_encodeChars e.shift room text)
      · exact named (WebEncoding.spares_encodeChars _ false room text)

end Encoders

end Sluice
