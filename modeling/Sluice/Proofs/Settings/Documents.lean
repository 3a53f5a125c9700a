import Sluice.Proofs.Conduit
import Sluice.Proofs.Json.Objects
import Sluice.Settings.Document

/-! Documents of settings. Whatever a document gives, in whatever order and with whatever else in it, it replaces in the
default settings, and nothing but that. -/
namespace Sluice

open Json (Blanks Vocabulary WordText NullableText NumberEnds Yields)
open Json.Vocabulary (IsLead trails_last trails_more single single_read single_once single_apart gather gather_once)

namespace ProducerSettings

def vocabulary : Vocabulary ProducerSettings (Nat ⊕ Option Nat) :=
  (single "buffer_size" WordText fun p n => { p with bufferSize := n }).append
    (single "fragment_size_hint" NullableText fun p n => { p with fragmentHint := n })

private theorem fields_read : vocabulary.ReadBy fields :=
  (single_read Json.readWord_yields _ _).append (single_read Json.readWord?_yields _ _)
    (single_apart (by decide) _ _ _ _) fun _ _ _ => rfl

/-- What a document may give for a producer. -/
structure Override where
  bufferSize : Option Nat
  fragmentHint : Option (Option Nat)
  deriving Inhabited

def Override.given (o : Override) : List (Nat ⊕ Option Nat) := gather o.bufferSize.toList o.fragmentHint.toList

/-- The default settings with what is given in place of theirs. -/
def Override.applied (o : Override) : ProducerSettings :=
  ⟨o.bufferSize.getD default.bufferSize, o.fragmentHint.getD default.fragmentHint⟩

private theorem Override.given_once (o : Override) : (o.given.map vocabulary.name).Nodup :=
  gather_once (single_once _ _ _ _) (single_once _ _ _ _) (single_apart (by decide) _ _ _ _)

private theorem Override.read (o : Override) :
    Yields (Json.readRecord fields default) (vocabulary.States o.given) o.applied := by
  have given := fields_read.yields o.given_once default
  obtain ⟨_ | size, _ | hint⟩ := o
  all_goals exact given

private theorem document_states {p : ProducerSettings} (size : p.bufferSize ≤ maxWord)
    (hint : ∀ n ∈ p.fragmentHint, n ≤ maxWord) :
    vocabulary.States (Override.given ⟨some p.bufferSize, some p.fragmentHint⟩) p.document.toList := by
  have first : IsLead '\x7b' "buffer_size" "\x7b\"buffer_size\":" := by decide +kernel
  have second : IsLead ',' "fragment_size_hint" ",\"fragment_size_hint\":" := by decide +kernel
  unfold document
  simp only [String.toList_append, List.append_assoc]
  exact (trails_more first (Json.wordText_toString size) (trails_last second (Json.nullableText_elim hint))).states

end ProducerSettings

namespace BufferSettings

def vocabulary : Vocabulary BufferSettings (Nat ⊕ Option Nat) :=
  (single "buffer_size" WordText fun b n => { b with bufferSize := n }).append
    (single "wait_timeout_ms" NullableText fun b n => { b with waitMillis := n })

private theorem fields_read : vocabulary.ReadBy fields :=
  (single_read Json.readWord_yields _ _).append (single_read Json.readWord?_yields _ _)
    (single_apart (by decide) _ _ _ _) fun _ _ _ => rfl

/-- What a document may give for the shared buffers. -/
structure Override where
  bufferSize : Option Nat
  waitMillis : Option (Option Nat)
  deriving Inhabited

def Override.given (o : Override) : List (Nat ⊕ Option Nat) := gather o.bufferSize.toList o.waitMillis.toList

def Override.applied (o : Override) : BufferSettings :=
  ⟨o.bufferSize.getD default.bufferSize, o.waitMillis.getD default.waitMillis⟩

private theorem Override.given_once (o : Override) : (o.given.map vocabulary.name).Nodup :=
  gather_once (single_once _ _ _ _) (single_once _ _ _ _) (single_apart (by decide) _ _ _ _)

private theorem Override.read (o : Override) :
    Yields (Json.readRecord fields default) (vocabulary.States o.given) o.applied := by
  have given := fields_read.yields o.given_once default
  obtain ⟨_ | size, _ | wait⟩ := o
  all_goals exact given

private theorem document_states {b : BufferSettings} (size : b.bufferSize ≤ maxWord)
    (wait : ∀ n ∈ b.waitMillis, n ≤ maxWord) :
    vocabulary.States (Override.given ⟨some b.bufferSize, some b.waitMillis⟩) b.document.toList := by
  have first : IsLead '\x7b' "buffer_size" "\x7b\"buffer_size\":" := by decide +kernel
  have second : IsLead ',' "wait_timeout_ms" ",\"wait_timeout_ms\":" := by decide +kernel
  unfold document
  simp only [String.toList_append, List.append_assoc]
  exact (trails_more first (Json.wordText_toString size) (trails_last second (Json.nullableText_elim wait))).states

end BufferSettings

namespace PumpSettings

def vocabulary : Vocabulary PumpSettings (Nat ⊕ Nat) :=
  (single "window_size" WordText fun p n => { p with windowSize := n }).append
    (single "read_chunk_size" WordText fun p n => { p with readChunk := n })

private theorem fields_read : vocabulary.ReadBy fields :=
  (single_read Json.readWord_yields _ _).append (single_read Json.readWord_yields _ _)
    (single_apart (by decide) _ _ _ _) fun _ _ _ => rfl

/-- What a document may give for the pumps. -/
structure Override where
  windowSize : Option Nat
  readChunk : Option Nat
  deriving Inhabited

def Override.given (o : Override) : List (Nat ⊕ Nat) := gather o.windowSize.toList o.readChunk.toList

def Override.applied (o : Override) : PumpSettings :=
  ⟨o.windowSize.getD default.windowSize, o.readChunk.getD default.readChunk⟩

private theorem Override.given_once (o : Override) : (o.given.map vocabulary.name).Nodup :=
  gather_once (single_once _ _ _ _) (single_once _ _ _ _) (single_apart (by decide) _ _ _ _)

private theorem Override.read (o : Override) :
    Yields (Json.readRecord fields default) (vocabulary.States o.given) o.applied := by
  have given := fields_read.yields o.given_once default
  obtain ⟨_ | window, _ | chunk⟩ := o
  all_goals exact given

private theorem document_states {p : PumpSettings} (window : p.windowSize ≤ maxWord) (chunk : p.readChunk ≤ maxWord) :
    vocabulary.States (Override.given ⟨some p.windowSize, some p.readChunk⟩) p.document.toList := by
  have first : IsLead '\x7b' "window_size" "\x7b\"window_size\":" := by decide +kernel
  have second : IsLead ',' "read_chunk_size" ",\"read_chunk_size\":" := by decide +kernel
  unfold document
  simp only [String.toList_append, List.append_assoc]
  exact (trails_more first (Json.wordText_toString window) (trails_last second (Json.wordText_toString chunk))).states

end PumpSettings

namespace Settings

def vocabulary :
    Vocabulary Settings (ProducerSettings.Override ⊕ (BufferSettings.Override ⊕ PumpSettings.Override)) :=
  (single "producer" (fun o => ProducerSettings.vocabulary.States o.given)
      fun c o => { c with producer := o.applied }).append
    ((single "buffer" (fun o => BufferSettings.vocabulary.States o.given)
        fun c o => { c with buffer := o.applied }).append
      (single "pump" (fun o => PumpSettings.vocabulary.States o.given) fun c o => { c with pump := o.applied }))

private theorem producer_apart {ρ α β γ : Type} (Valued : α → List Char → Prop) (Valued' : β → List Char → Prop)
    (Valued'' : γ → List Char → Prop) (set : ρ → α → ρ) (set' : ρ → β → ρ) (set'' : ρ → γ → ρ) :
    (single "producer" Valued set).Apart ((single "buffer" Valued' set').append (single "pump" Valued'' set''))
  | _, .inl _ => (by decide : "producer" ≠ "buffer")
  | _, .inr _ => (by decide : "producer" ≠ "pump")

private theorem fields_read : vocabulary.ReadBy fields := by
  have others :=
    (single_read BufferSettings.Override.read "buffer" fun (c : Settings) b => { c with buffer := b }).append
    (single_read PumpSettings.Override.read "pump" fun c p => { c with pump := p })
    (single_apart (by decide) _ _ _ _) fun _ _ _ => rfl
  refine (single_read ProducerSettings.Override.read "producer" fun (c : Settings) p => { c with producer := p }).append
    others (producer_apart _ _ _ _ _ _) ?_
  rintro _ (_ | _) _
  · rfl
  · rfl

/-- What a document may give. -/
structure Override where
  producer : Option ProducerSettings.Override
  buffer : Option BufferSettings.Override
  pump : Option PumpSettings.Override

def Override.given (o : Override) :
    List (ProducerSettings.Override ⊕ (BufferSettings.Override ⊕ PumpSettings.Override)) :=
  gather o.producer.toList (gather o.buffer.toList o.pump.toList)

def Override.applied (o : Override) : Settings :=
  ⟨o.producer.elim .default (·.applied), o.buffer.elim .default (·.applied), o.pump.elim .default (·.applied)⟩

private theorem Override.given_once (o : Override) : (o.given.map vocabulary.name).Nodup :=
  gather_once (single_once _ _ _ _)
    (gather_once (single_once _ _ _ _) (single_once _ _ _ _) (single_apart (by decide) _ _ _ _))
    (producer_apart _ _ _ _ _ _)

private theorem Override.read (o : Override) :
    Yields (Json.readRecord fields default) (vocabulary.States o.given) o.applied := by
  have given := fields_read.yields o.given_once default
  obtain ⟨_ | producer, _ | buffer, _ | pump⟩ := o
  all_goals exact given

/-- A text that gives just this, in any order, with blanks around it. -/
def Override.Stated (o : Override) (text : String) : Prop :=
  ∃ before object after, text.toList = before ++ (object ++ after) ∧ Blanks before ∧ Blanks after ∧
    vocabulary.States o.given object

private theorem Override.readAll {o : Override} {text : String} (h : o.Stated text) :
    Json.readAll (Json.readRecord fields default) text.toList = .ok o.applied := by
  obtain ⟨before, object, after, whole, first, last, states⟩ := h
  have ends : NumberEnds after := by
    have ends : NumberEnds (after ++ []) := .behind last nofun
    rwa [List.append_nil] at ends
  have nothing : Json.skipBlanks after = [] := List.dropWhile_eq_nil_iff.mpr last
  rw [Json.readAll, whole, o.read before object after first states ends]
  dsimp only
  rw [nothing]
  rfl

/-- Every size has to be positive, and the first section with another size is the one that is reported. -/
theorem ofDocument_of_read {text : String} {c : Settings}
    (read : Json.readAll (Json.readRecord fields default) text.toList = .ok c) :
    ofDocument text =
      if c.producer.bufferSize = 0 then .error (.invalidConfig "producer buffer_size must be positive")
      else if c.buffer.bufferSize = 0 then .error (.invalidConfig "shared buffer_size must be positive")
      else if c.pump.windowSize = 0 ∨ c.pump.readChunk = 0 then
        .error (.invalidConfig "pump window_size and read_chunk_size must be positive")
      else .ok c := by
  rw [ofDocument, read]
  dsimp only
  unfold validate ProducerSettings.validate BufferSettings.validate PumpSettings.validate
  by_cases producer : c.producer.bufferSize = 0
  · simp only [if_pos producer]
    rfl
  · by_cases buffer : c.buffer.bufferSize = 0
    · simp only [if_neg producer, if_pos buffer]
      rfl
    · by_cases pump : c.pump.windowSize = 0 ∨ c.pump.readChunk = 0
      · simp only [if_neg producer, if_neg buffer, if_pos pump]
        rfl
      · simp only [if_neg producer, if_neg buffer, if_neg pump]
        rfl

/-- Settings whose numbers fit words. -/
structure Fits (c : Settings) : Prop where
  stage : c.producer.bufferSize ≤ maxWord
  hint : ∀ n ∈ c.producer.fragmentHint, n ≤ maxWord
  buffer : c.buffer.bufferSize ≤ maxWord
  wait : ∀ n ∈ c.buffer.waitMillis, n ≤ maxWord
  window : c.pump.windowSize ≤ maxWord
  chunk : c.pump.readChunk ≤ maxWord

def override (c : Settings) : Override :=
  ⟨some ⟨some c.producer.bufferSize, some c.producer.fragmentHint⟩,
    some ⟨some c.buffer.bufferSize, some c.buffer.waitMillis⟩,
    some ⟨some c.pump.windowSize, some c.pump.readChunk⟩⟩

private theorem document_stated {c : Settings} (h : c.Fits) : c.override.Stated c.document := by
  have first : IsLead '\x7b' "producer" "\x7b\"producer\":" := by decide +kernel
  have second : IsLead ',' "buffer" ",\"buffer\":" := by decide +kernel
  have third : IsLead ',' "pump" ",\"pump\":" := by decide +kernel
  refine ⟨[], c.document.toList, [], by simp, Json.blanks_nil, Json.blanks_nil, ?_⟩
  unfold document
  simp only [String.toList_append, List.append_assoc]
  exact (trails_more first (ProducerSettings.document_states h.stage h.hint)
    (trails_more second (BufferSettings.document_states h.buffer h.wait)
      (trails_last third (PumpSettings.document_states h.window h.chunk)))).states

private theorem positive_of_validate {c : Settings} (valid : c.validate = .ok ()) :
    c.producer.bufferSize ≠ 0 ∧ c.buffer.bufferSize ≠ 0 ∧ ¬ (c.pump.windowSize = 0 ∨ c.pump.readChunk = 0) := by
  unfold validate ProducerSettings.validate BufferSettings.validate PumpSettings.validate at valid
  refine ⟨fun producer => ?_, fun buffer => ?_, fun pump => ?_⟩
  · rw [if_pos producer] at valid
    cases valid
  · rw [if_pos buffer] at valid
    split at valid
    · cases valid
    · cases valid
  · rw [if_pos pump] at valid
    split at valid
    · cases valid
    · split at valid
      · cases valid
      · cases valid

end Settings

/-- A document is read as the default settings with what it gives in their place, in whatever order and with whatever
else in it. It is refused only if a size is zero then, and the section of that size is named. So settings that hold
together are read from the document that is written of them. -/
theorem document_overrides_defaults :
    (∀ (o : Settings.Override) (text : String), o.Stated text → Settings.ofDocument text =
      if o.applied.producer.bufferSize = 0 then .error (.invalidConfig "producer buffer_size must be positive")
      else if o.applied.buffer.bufferSize = 0 then .error (.invalidConfig "shared buffer_size must be positive")
      else if o.applied.pump.windowSize = 0 ∨ o.applied.pump.readChunk = 0 then
        .error (.invalidConfig "pump window_size and read_chunk_size must be positive")
      else .ok o.applied) ∧
    ∀ c : Settings, c.Fits → c.validate = .ok () → Settings.ofDocument c.document = .ok c := by
  refine ⟨fun o text stated => Settings.ofDocument_of_read (Settings.Override.readAll stated), fun c fits valid => ?_⟩
  obtain ⟨producer, buffer, pump⟩ := Settings.positive_of_validate valid
  have read : Json.readAll (Json.readRecord Settings.fields .default) c.document.toList = .ok c :=
    Settings.Override.readAll (Settings.document_stated fits)
  rw [Settings.ofDocument_of_read read, if_neg producer, if_neg buffer, if_neg pump]

/-- Sections in another order, the largest word, `null`, a name with an escape in it, and a value that nobody asks
for. -/
theorem document_overrides_defaults_mixed :
    let text := "\x7b \"later\":[true,\x7b\x7d],\n\"buffer\":\x7b\"wait_timeout_ms\":18446744073709551615\x7d," ++
      "\"producer\":\x7b\"fragment_size_hint\":null,\"buffer_s\\u0069ze\":16\x7d\x7d"
    let o : Settings.Override := ⟨some ⟨some 16, some none⟩, some ⟨none, some (some 18446744073709551615)⟩, none⟩
    let c : Settings := ⟨⟨16, none⟩, ⟨8192, some 18446744073709551615⟩, ⟨65536, 65536⟩⟩
    o.Stated text ∧ Settings.ofDocument text = .ok c ∧
      c.Fits ∧ c.validate = .ok () ∧ Settings.ofDocument c.document = .ok c := by
  intro text o c
  have none := Json.blanks_nil
  have spelled : ∀ name : String, Json.ArePlain name.toList → Json.Spelled name.toList name.toList :=
    fun _ => Json.spelled_self
  have wait : BufferSettings.vocabulary.MemberText (some (.inr (some 18446744073709551615))) _ :=
    .known (spelled "wait_timeout_ms" (by decide +kernel)) none none (.word (Json.wordText_toString (by decide)))
  have hint : ProducerSettings.vocabulary.MemberText (some (.inr .none)) _ :=
    .known (spelled "fragment_size_hint" (by decide +kernel)) none none .null
  have letter := Json.HexUnit.digits (rfl : Json.hexDigit? '0' = some 0) (rfl : Json.hexDigit? '0' = some 0)
    (rfl : Json.hexDigit? '6' = some 6) (rfl : Json.hexDigit? '9' = some 9)
  have escaped : Json.Spelled "buffer_s\\u0069ze".toList "buffer_size".toList :=
    Json.spelled_append (s := "buffer_s".toList) (by decide +kernel)
      (.unit letter (.inl (by decide)) (spelled "ze" (by decide +kernel)))
  have size : ProducerSettings.vocabulary.MemberText (some (.inl 16)) _ :=
    .known escaped none none (Json.wordText_toString (by decide))
  have buffer : Settings.vocabulary.MemberText (some (.inr (.inl ⟨.none, some (some 18446744073709551615)⟩))) _ :=
    .known (spelled "buffer" (by decide +kernel)) none none ⟨_, .refl _, .members (.one none wait none)⟩
  have producer : Settings.vocabulary.MemberText (some (.inl ⟨some 16, some .none⟩)) _ :=
    .known (spelled "producer" (by decide +kernel)) none none
      ⟨_, .swap _ _ _, .members (.more none hint none (.one none size none))⟩
  have other : ∀ a, "later".toList ≠ (Settings.vocabulary.name a).toList
    | .inl _ => (by decide : "later".toList ≠ "producer".toList)
    | .inr (.inl _) => (by decide : "later".toList ≠ "buffer".toList)
    | .inr (.inr _) => (by decide : "later".toList ≠ "pump".toList)
  have later : Settings.vocabulary.MemberText .none _ :=
    .unknown (spelled "later" (by decide +kernel)) other none none
      (.bracketed (.more (.element none (.scalar .true) none) (.one (.element none (.empty .object none) none))))
  have space : Blanks [' '] := List.forall_mem_singleton.mpr rfl
  have line : Blanks ['\n'] := List.forall_mem_singleton.mpr rfl
  have stated : o.Stated text := by
    refine ⟨[], _, [], ?_, none, none, _, .swap _ _ _,
      .members (.more space later none (.more line buffer none (.one none producer none)))⟩
    decide +kernel
  have fits : c.Fits := ⟨by decide, nofun, by decide, by decide, by decide, by decide⟩
  have valid : c.validate = .ok () := rfl
  obtain ⟨reads, writes⟩ := document_overrides_defaults
  exact ⟨stated, (reads o text stated).trans rfl, fits, valid, writes c fits valid⟩

end Sluice
