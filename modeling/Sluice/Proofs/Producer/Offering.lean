import Sluice.Proofs.Charset.Fitting
import Sluice.Proofs.Producer.Renewal
import Sluice.Proofs.Producer.Stranding

/-! What a producer offers to its channels in a section, and what may make it do so. All that is staged goes out at
once, and only data that the stage has no room for may pass by it. -/
namespace Sluice

section Encoders

/-- Whoever was stopped has left some of the text. -/
def LeavesText {ε : Type} (text : List Char) (result : Except ε Encoded) : Prop :=
  ∀ e, result = .ok e → e.stop = .outputFull → e.read < Text.utf8Length text

private theorem leavesText_error {ε : Type} (text : List Char) (fault : ε) : LeavesText text (.error fault) := nofun

private theorem leavesText_full {ε : Type} (c : Char) (text : List Char) (bytes : List UInt8) :
    LeavesText (c :: text) (.ok ⟨.outputFull, 0, bytes⟩ : Except ε Encoded) := by
  rintro _ ⟨⟩ _
  exact Nat.lt_of_lt_of_le c.utf8Size_pos (Nat.le_add_right _ _)

private theorem LeavesText.after {ε : Type} {text : List Char} {result : Except ε Encoded} (h : LeavesText text result)
    (c : Char) (bytes : List UInt8) : LeavesText (c :: text) (result.map (·.after c bytes)) := by
  intro e done stopped
  obtain ⟨e', called, rfl⟩ := ok_of_map done
  have less := h e' called stopped
  simp only [Encoded.after, Text.utf8Length]
  omega

/-- An encoder that is stopped only in front of a character. -/
class PressingEncoder (ε : Type) [Encoder ε] : Prop where
  encode (e : ε) (text : List Char) (room : Nat) : LeavesText text (Encoder.encode e text room false).1

private theorem BuiltInEncoder.encodeChars_leaves (charset : Charset) (owed : Bool) (room : Nat) (text : List Char) :
    LeavesText text (encodeChars charset owed room text).1 := by
  induction text generalizing owed room with
  | nil => rintro _ ⟨⟩ ⟨⟩
  | cons c cs ih =>
    simp only [encodeChars]
    split
    · exact leavesText_error _ _
    next bytes _ =>
      generalize (if owed = true then byteOrderMark ++ bytes else bytes) = marked
      split
      · exact leavesText_full c cs []
      · exact (ih false _).after c marked

private theorem WebEncoding.encodeChars_leaves [CodeIndex] (encoding : WebEncoding) (wide : Bool)
    (room : Nat) (text : List Char) :
    LeavesText text (encoding.encodeChars wide room text) := by
  induction text generalizing wide room with
  | nil => rintro _ ⟨⟩ ⟨⟩
  | cons c cs ih =>
    simp only [encodeChars]
    split
    · exact leavesText_full c cs []
    · split
      · exact leavesText_error _ _
      next bytes _ => exact (ih _ _).after c bytes

private theorem Shift.encodeChars_leaves [CodeIndex] (shift : Shift) (room : Nat) (text : List Char) :
    LeavesText text (encodeChars false shift room text).1 := by
  induction text generalizing shift room with
  | nil => rintro _ ⟨⟩ ⟨⟩
  | cons c cs ih =>
    simp only [encodeChars]
    split
    · exact leavesText_full c cs []
    · split
      · exact leavesText_error _ _
      next target _ =>
        generalize (if target = shift then [] else target.escape) = escape
        split
        · exact leavesText_full c cs escape
        · split
          · exact leavesText_error _ _
          · exact (ih target _).after c _

/-- All encoders of charsets do. -/
instance [CodeIndex] : PressingEncoder CharsetEncoder where
  encode e text room := by
    cases e with
    | builtIn e => exact BuiltInEncoder.encodeChars_leaves e.charset e.markOwed room text
    | web e =>
      have named {result : Except Char Encoded} (leaves : LeavesText text result) :
          LeavesText text (WebEncoder.named e.encoding result) := by
        intro encoded done
        cases result with
        | error c => cases done
        | ok encoded' =>
          obtain rfl := Except.ok.inj done
          exact leaves encoded' rfl
      simp only [Encoder.encode, Prod.map]
      split
      · exact named (Shift.encodeChars_leaves e.shift room text)
      · exact named (WebEncoding.encodeChars_leaves _ false room text)

end Encoders

variable {γ κ ι σ τ : Type}

/-- A law for what channels are offered, in view of the calls before. -/
def Deed.Offers (law : List (Deed ι) → List UInt8 → Prop) (before : List (Deed ι)) : Deed ι → Prop
  | wrote _ offered _ => law before offered
  | _ => True

theorem Lawful.mono {α : Type} {law law' : List α → α → Prop} {entries : List α} (h : Lawful law entries)
    (weaker : ∀ before entry, law before entry → law' before entry) : Lawful law' entries :=
  fun before entry after split => weaker before entry (h before entry after split)

theorem Deed.Offers.mono {law law' : List (Deed ι) → List UInt8 → Prop}
    (weaker : ∀ before offered, law before offered → law' before offered) (before : List (Deed ι)) (deed : Deed ι)
    (h : deed.Offers law before) : deed.Offers law' before := by
  cases deed with
  | wrote taker offered result => exact weaker before offered h
  | _ => trivial

/-- All that is staged is offered, and before anything else. -/
structure Stage.Drains (stage : Stage) (before : List (Deed ι)) (offered : List UInt8) : Prop where
  first : before = []
  whole : offered = stage.bytes
  loaded : offered ≠ []

/-- Data is offered for which the stage had no room, once all that was staged has been taken. -/
structure Stage.Skips (stage : Stage) (before : List (Deed ι)) (offered : List UInt8) : Prop where
  long : stage.remaining < offered.length
  empty : delivered before = stage.bytes

/-- What may be offered in a write: the stage if it is full or has reached the hint, or the data itself. `passes`
tells what of the data a channel can be offered as it is. -/
def Stage.Admits (stage : Stage) (passes : κ → List UInt8 → Prop) (data : κ) (hint : Nat) (before : List (Deed ι))
    (offered : List UInt8) : Prop :=
  stage.Drains before offered ∧ (stage.isFull = true ∨ hint ≤ stage.length) ∨
    passes data offered ∧ stage.Skips before offered

section Coders

variable [Transport ι σ]

theorem offers_requestOutput {law : List (Deed ι) → List UInt8 → Prop} {c : Chronicle ι σ}
    (lawful : Lawful (Deed.Offers law) c.deeds) (known : Option ι) :
    Lawful (Deed.Offers law) (Transport.requestOutput known c).deeds := by
  rw [Chronicle.deeds_requestOutput]
  refine lawful.append_free fun entry asked before => ?_
  obtain ⟨_, _, rfl⟩ := List.mem_map.mp asked
  trivial

private theorem Stage.flushTo_offers (stage : Stage) (ch : Option ι) (world : σ) :
    Lawful (Deed.Offers stage.Drains) (stage.flushTo ch (Chronicle.start (ι := ι) world)).2.2.deeds := by
  by_cases empty : stage.bytes = []
  · have idle : stage.flushTo ch (Chronicle.start (ι := ι) world) = (.ok 0, stage, .start world) :=
      if_pos (List.isEmpty_iff.mpr empty)
    rw [idle]
    exact .nil
  · rw [(flushTo_wrote empty ch (Chronicle.start (ι := ι) world)).2.1]
    cases ch with
    | none => exact .nil
    | some taker => exact Lawful.nil.append_one ⟨rfl, rfl, empty⟩

namespace BinaryCoder

private theorem makeRoom_offers (stage : Stage) (hint : Nat) (ch : Option ι) (world : σ) :
    Lawful (Deed.Offers fun before offered =>
      stage.Drains before offered ∧ (stage.isFull = true ∨ hint ≤ stage.length))
      (makeRoom stage hint ch (Chronicle.start (ι := ι) world)).2.2.deeds := by
  simp only [makeRoom]
  split
  next due =>
    exact (stage.flushTo_offers ch world).mono (Deed.Offers.mono fun _ _ drains => ⟨drains, due⟩)
  · exact .nil

private theorem passBy_offers {law : List (Deed ι) → List UInt8 → Prop} {c : Chronicle ι σ}
    (lawful : Lawful (Deed.Offers law) c.deeds) (stage : Stage) (bytes : List UInt8) (ch : Option ι)
    (passes : stage.bytes = [] → law c.deeds bytes) :
    Lawful (Deed.Offers law) (passBy stage bytes ch c).2.deeds := by
  simp only [passBy]
  split
  next empty =>
    rw [Chronicle.deeds_write]
    cases ch with
    | none =>
      rw [Option.toList_none, List.map_nil, List.append_nil]
      exact lawful
    | some taker => exact lawful.append_one (passes (List.isEmpty_iff.mp empty))
  · exact lawful

/-- The coder of bytes offers what is staged if that is due, and the bytes themselves behind that. -/
theorem accept_offers (coder : BinaryCoder) (stage : Stage) (bytes : List UInt8) (hint : Nat) (ch : Option ι)
    (world : σ) :
    Lawful (Deed.Offers (stage.Admits (fun data offered => offered = data) bytes hint))
      (accept coder stage bytes hint ch (Chronicle.start (ι := ι) world)).2.2.2.deeds := by
  simp only [accept]
  split
  · exact .nil
  next tight =>
    have room : Lawful (Deed.Offers (stage.Admits (fun data offered => offered = data) bytes hint))
        (makeRoom stage hint ch (Chronicle.start (ι := ι) world)).2.2.deeds :=
      (makeRoom_offers stage hint ch world).mono (Deed.Offers.mono fun _ _ drains => .inl drains)
    have kept := makeRoom_keeps stage hint ch (Chronicle.start (ι := ι) world)
    split
    next failed =>
      rw [failed] at room
      exact room
    next stage' c' made =>
      rw [made] at room kept
      have passed := passBy_offers room stage' bytes ch fun empty => by
        have taken : c'.output ++ stage'.bytes = [] ++ stage.bytes := kept
        rw [empty, List.append_nil, List.nil_append] at taken
        exact .inr ⟨rfl, Nat.lt_of_not_le tight, taken⟩
      split
      next failed =>
        rw [failed] at passed
        exact passed
      next answered =>
        rw [answered] at passed
        split
        · exact offers_requestOutput passed ch
        · exact passed

private theorem accept_within (coder : BinaryCoder) {stage : Stage} (within : stage.length ≤ stage.capacity)
    (bytes : List UInt8) (hint : Nat) (ch : Option ι) (s : σ) :
    (accept coder stage bytes hint ch s).2.2.1.length ≤ stage.capacity := by
  have room : (makeRoom stage hint ch s).2.1.length ≤ stage.length := by
    simp only [makeRoom]
    split
    · exact (stage.flushTo_sized ch s).2
    · exact Nat.le_refl _
  simp only [accept]
  split
  next fits =>
    simp only [Stage.put, Stage.length, Stage.remaining, List.length_append, List.length_take] at fits within ⊢
    omega
  · split
    next failed =>
      rw [failed] at room
      exact Nat.le_trans room within
    next made =>
      rw [made] at room
      split
      · exact Nat.le_trans room within
      · split
        · exact Nat.le_trans room within
        · exact Nat.le_trans room within

private theorem accept_requests (coder : BinaryCoder) (stage : Stage) (bytes : List UInt8)
    (hint : Nat) (ch : Option ι) (s : σ)
    (requested : (accept coder stage bytes hint ch s).2.1.deferred = true) :
    coder.deferred = true ∨ ∃ n, (accept coder stage bytes hint ch s).1 = .ok n ∧ n < bytes.length := by
  simp only [accept] at requested ⊢
  split
  next fits =>
    rw [if_pos fits] at requested
    exact .inl requested
  next tight =>
    rw [if_neg tight] at requested
    split
    next failed =>
      rw [failed] at requested
      exact .inl requested
    next made =>
      rw [made] at requested
      dsimp only at requested
      split
      next failed =>
        rw [failed] at requested
        exact .inl requested
      next taken s' answered =>
        rw [answered] at requested
        dsimp only at requested
        split
        next left =>
          rw [if_pos left] at requested
          rcases Bool.or_eq_true_iff.mp requested with before | refused
          · exact .inl before
          · obtain rfl := beq_iff_eq.mp refused
            exact .inr ⟨0, rfl, by omega⟩
        next whole =>
          rw [if_neg whole] at requested
          exact .inl requested

end BinaryCoder

namespace TextCoder

variable {ε : Type} [Encoder ε]

private theorem accept_silent (coder : TextCoder ε) (stage : Stage) (text : List Char) (hint : Nat) (ch : Option ι)
    (world : σ) (law : List (Deed ι) → List UInt8 → Prop) :
    Lawful (Deed.Offers law) (accept coder stage text hint ch (Chronicle.start (ι := ι) world)).2.2.2.deeds := by
  obtain ⟨_, _, same | same⟩ := coder.accept_stages stage text hint ch (Chronicle.start (ι := ι) world)
  · rw [same]
    exact .nil
  · rw [same]
    exact offers_requestOutput .nil ch

private theorem accept_requests [PressingEncoder ε] (coder : TextCoder ε) (stage : Stage)
    (text : List Char) (hint : Nat)
    (ch : Option ι) (s : σ) (requested : (accept coder stage text hint ch s).2.1.overflowed = true) :
    coder.overflowed = true ∨ ∃ n, (accept coder stage text hint ch s).1 = .ok n ∧ n < Text.utf8Length text := by
  have leaves := PressingEncoder.encode coder.encoder text stage.remaining
  simp only [accept] at requested ⊢
  generalize Encoder.encode coder.encoder text stage.remaining false = called at leaves requested ⊢
  obtain ⟨result, encoder⟩ := called
  cases result with
  | error fault => exact .inl requested
  | ok encoded =>
    obtain ⟨stop, read, bytes⟩ := encoded
    cases stop with
    | inputUsed => exact .inl requested
    | outputFull => exact .inr ⟨read, rfl, leaves _ rfl rfl⟩

end TextCoder

theorem Stage.isFull_iff {stage : Stage} : stage.isFull = true ↔ stage.capacity ≤ stage.length := by
  rw [isFull, remaining, beq_iff_eq, Nat.sub_eq_zero_iff_le]

private theorem Stage.writeWith_within {α : Type} {stage : Stage} (within : stage.length ≤ stage.capacity)
    (fill : Nat → Except Fault (Filled α)) : (stage.writeWith fill).2.length ≤ stage.capacity := by
  rw [writeWith_eq]
  split
  · exact within
  · simp only [windowPrefix, remaining, length, List.length_append, List.length_take, List.length_replicate] at within ⊢
    omega

end Coders

/-- A coder that offers nothing in a write without a reason. -/
class OfferingCoder (γ : Type) {κ : outParam Type} [Coder γ κ] (passes : outParam (κ → List UInt8 → Prop)) : Prop where
  offers {ι σ : Type} [Transport ι σ] (coder : γ) (stage : Stage) (data : κ) (hint : Nat) (ch : Option ι) (world : σ) :
    Lawful (Deed.Offers (stage.Admits passes data hint))
      (Coder.accept coder stage data hint ch (Chronicle.start (ι := ι) world)).2.2.2.deeds

instance : OfferingCoder BinaryCoder fun data offered => offered = data := ⟨BinaryCoder.accept_offers⟩

instance {ε : Type} [Encoder ε] : OfferingCoder (TextCoder ε) fun _ _ => False :=
  ⟨fun coder stage text hint ch world => coder.accept_silent stage text hint ch world _⟩

/-- A coder that keeps to the room of its stage, and requests a flush only if some data was not taken as a whole. -/
class StagingCoder (γ : Type) {κ : outParam Type} [Coder γ κ] [Divisible κ] : Prop where
  accept {ι σ : Type} [Transport ι σ] (coder : γ) (stage : Stage) (data : κ) (hint : Nat) (ch : Option ι) (s : σ) :
    stage.length ≤ stage.capacity → (Coder.accept coder stage data hint ch s).2.2.1.length ≤ stage.capacity
  requests {ι σ : Type} [Transport ι σ] (coder : γ) (stage : Stage) (data : κ) (hint : Nat) (ch : Option ι) (s : σ) :
    let after := Coder.accept coder stage data hint ch s
    (Coder.takeFlushRequest after.2.1).1 = true →
      (Coder.takeFlushRequest coder).1 = true ∨ ∃ n, after.1 = .ok n ∧ n < Divisible.size data
  finish (coder : γ) (stage : Stage) :
    stage.length ≤ stage.capacity → (Coder.finish coder stage).2.2.length ≤ stage.capacity
  forgets (coder : γ) : (Coder.takeFlushRequest (Coder.takeFlushRequest coder).2).1 = false

instance : StagingCoder BinaryCoder where
  accept coder _ data hint ch s within := coder.accept_within within data hint ch s
  requests := BinaryCoder.accept_requests
  finish _ _ within := within
  forgets _ := rfl

instance {ε : Type} [Encoder ε] [PressingEncoder ε] : StagingCoder (TextCoder ε) where
  accept coder stage text hint ch s within := by
    obtain ⟨fill, staged, _⟩ := coder.accept_stages stage text hint ch s
    exact staged.symm ▸ stage.writeWith_within within fill
  requests := TextCoder.accept_requests
  finish coder stage within := stage.writeWith_within within fun _ => (TextCoder.ending coder.encoder stage.remaining).1
  forgets _ := rfl

namespace Core

section Sections

variable [Coder γ κ] [Transport ι σ] {core : Core γ ι} {hint : Nat} {ch : ι} {world : σ}

omit [Coder γ κ] [Transport ι σ] in
theorem isDue_iff {requested : Bool} : core.isDue hint requested = true ↔
    core.state ≠ .active ∨ core.stage.isFull = true ∨ hint ≤ core.stage.length ∨ requested = true := by
  simp only [isDue, Bool.or_eq_true, decide_eq_true_eq, or_assoc]

theorem coder_drain (core : Core γ ι) (hint : Nat) (ch : ι) (s : σ) :
    (core.drain hint ch s).2.1.coder = (Coder.takeFlushRequest core.coder).2 := by
  simp only [drain]
  split
  · rfl
  · rfl

private theorem signal_offers {law : List (Deed ι) → List UInt8 → Prop} {c : Chronicle ι σ}
    (lawful : Lawful (Deed.Offers law) c.deeds) (core : Core γ ι) (ch : ι) :
    Lawful (Deed.Offers law) (core.signal ch c).2.2.deeds := by
  have told : (Transport.endStream ch none c).2.deeds = c.deeds ++ [.ended ch (Transport.endStream ch none c).1] := rfl
  simp only [signal]
  split
  · split
    next failed =>
      rw [failed] at told
      exact told ▸ lawful.append_one trivial
    next passed =>
      rw [passed] at told
      exact told ▸ lawful.append_one trivial
  · split
    · exact lawful
    · exact lawful.append_one trivial

theorem write_offers {passes : κ → List UInt8 → Prop} [OfferingCoder γ passes] (core : Core γ ι) (hint : Nat) (data : κ)
    (world : σ) : Lawful (Deed.Offers (core.stage.Admits passes data hint))
      (core.write hint data (Chronicle.start (ι := ι) world)).2.2.deeds := by
  simp only [write]
  split
  · exact OfferingCoder.offers core.coder core.stage data hint core.channel world
  · exact .nil

/-- The end of a turn offers what is staged, with what the coder has held back, if that is due. -/
theorem closeTurn_offers (core : Core γ ι) (hint : Nat) (ch : ι) (world : σ) :
    Lawful (Deed.Offers fun before offered => core.finishCoding.2.stage.Drains before offered ∧
      core.finishCoding.2.isDue hint (Coder.takeFlushRequest core.finishCoding.2.coder).1 = true)
      (core.closeTurn hint ch (Chronicle.start (ι := ι) world)).2.2.deeds := by
  simp only [closeTurn]
  split
  · exact .nil
  · generalize core.finishCoding = coded
    obtain ⟨result, core'⟩ := coded
    cases result with
    | error fault => exact .nil
    | ok done =>
      have drained : Lawful (Deed.Offers fun before offered => core'.stage.Drains before offered ∧
          core'.isDue hint (Coder.takeFlushRequest core'.coder).1 = true)
          (core'.drain hint ch (Chronicle.start (ι := ι) world)).2.2.deeds := by
        by_cases due : core'.isDue hint (Coder.takeFlushRequest core'.coder).1 = true
        · rw [drain_due due]
          exact (core'.stage.flushTo_offers (some ch) world).mono (Deed.Offers.mono fun _ _ drains => ⟨drains, due⟩)
        · rw [drain_idle due]
          exact .nil
      dsimp only
      split
      next failed =>
        rw [failed] at drained
        exact drained
      next core'' c passed =>
        rw [passed] at drained
        exact signal_offers drained core'' ch

variable [Divisible κ] [RenewingCoder γ] [StagingCoder γ]

theorem within_write (within : core.stage.length ≤ core.stage.capacity) (hint : Nat) (data : κ) (s : σ) :
    (core.write hint data s).2.1.stage.capacity = core.stage.capacity ∧
      (core.write hint data s).2.1.stage.length ≤ core.stage.capacity := by
  simp only [write]
  split
  · exact ⟨(RenewingCoder.accept core.coder core.stage data hint core.channel s).2,
      StagingCoder.accept core.coder core.stage data hint core.channel s within⟩
  · exact ⟨rfl, within⟩

omit [Transport ι σ] in
theorem within_finishCoding (within : core.stage.length ≤ core.stage.capacity) :
    core.finishCoding.2.stage.capacity = core.stage.capacity ∧
      core.finishCoding.2.stage.length ≤ core.stage.capacity := by
  have finished := (RenewingCoder.finish core.coder core.stage).2
  have staged := StagingCoder.finish core.coder core.stage within
  simp only [finishCoding]
  split
  · split
    all_goals
      next called =>
        rw [called] at finished staged
        exact ⟨finished, staged⟩
  · exact ⟨rfl, within⟩

theorem within_closeTurn (within : core.stage.length ≤ core.stage.capacity) (hint : Nat) (ch : ι) (s : σ) :
    (core.closeTurn hint ch s).2.1.stage.capacity = core.stage.capacity ∧
      (core.closeTurn hint ch s).2.1.stage.length ≤ core.stage.capacity := by
  have coded := within_finishCoding within
  simp only [closeTurn]
  split
  · exact ⟨rfl, within⟩
  · generalize core.finishCoding = finished at coded
    obtain ⟨result, core'⟩ := finished
    have drained : (core'.drain hint ch s).2.1.stage.capacity = core.stage.capacity ∧
        (core'.drain hint ch s).2.1.stage.length ≤ core.stage.capacity := by
      obtain ⟨sized, less⟩ := core'.stage.flushTo_sized ch s
      simp only [drain]
      split
      · exact ⟨sized.trans coded.1, Nat.le_trans less coded.2⟩
      · exact coded
    split
    next failed =>
      obtain rfl := (Prod.mk.inj failed).2
      exact coded
    next passed =>
      obtain rfl := (Prod.mk.inj passed).2
      split
      next failed =>
        rw [failed] at drained
        exact drained
      next core'' s' passed =>
        rw [passed] at drained
        rw [stage_signal]
        exact drained

end Sections

end Core

end Sluice
