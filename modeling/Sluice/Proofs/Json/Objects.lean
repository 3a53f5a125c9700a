import Mathlib.Data.List.Nodup
import Sluice.Proofs.Json.Reading

/-! Objects that are read into a record. Members that the record knows set its fields, in the order in which they come,
and the others are skipped. -/
namespace Sluice.Json

variable {ρ α : Type} {s t rest : List Char}

private theorem takeColon_append {blanks : List Char} (h : Blanks blanks) (s : List Char) :
    takeColon (blanks ++ ':' :: s) = .ok s := by
  rw [takeColon, skipBlanks_append h]
  rfl

/-- The settings that an object may give for a record: the name of each, the texts of its value, and what it makes of
the record. -/
structure Vocabulary (ρ α : Type) where
  name : α → String
  Valued : α → List Char → Prop
  apply : ρ → α → ρ

namespace Vocabulary

/-- A member without the blanks around it. It gives a setting, or nothing if its name is unknown. -/
inductive MemberText (V : Vocabulary ρ α) : Option α → List Char → Prop
  | known {a : α} {q b c v : List Char} (spelled : Spelled q (V.name a).toList) (colon : Blanks b) (space : Blanks c)
      (valued : V.Valued a v) : MemberText V (some a) ('"' :: (q ++ '"' :: (b ++ ':' :: (c ++ v))))
  | unknown {name q b c v : List Char} (spelled : Spelled q name) (other : ∀ a, name ≠ (V.name a).toList)
      (colon : Blanks b) (space : Blanks c) (value : Phrase.value.Text v) :
      MemberText V none ('"' :: (q ++ '"' :: (b ++ ':' :: (c ++ v))))

/-- Members with commas between them, and the settings that they give in order. -/
inductive MembersText (V : Vocabulary ρ α) : List α → List Char → Prop
  | one {given : Option α} {a s b : List Char} (before : Blanks a) (only : V.MemberText given s) (after : Blanks b) :
      MembersText V given.toList (a ++ (s ++ b))
  | more {given : Option α} {others : List α} {a s b t : List Char} (before : Blanks a) (first : V.MemberText given s)
      (after : Blanks b) (rest : MembersText V others t) :
      MembersText V (given.toList ++ others) (a ++ (s ++ (b ++ ',' :: t)))

/-- An object and the settings that it gives in order. -/
inductive ObjectText (V : Vocabulary ρ α) : List α → List Char → Prop
  | empty {a : List Char} (blanks : Blanks a) : ObjectText V [] ('\x7b' :: (a ++ ['\x7d']))
  | members {given : List α} {s : List Char} (inside : V.MembersText given s) :
      ObjectText V given ('\x7b' :: (s ++ ['\x7d']))

/-- An object that gives these settings, each once and in any order. -/
def States (V : Vocabulary ρ α) (given : List α) (s : List Char) : Prop :=
  ∃ order, order.Perm given ∧ V.ObjectText order s

/-- Fields that read a vocabulary: each setting by the field of its name, and nothing else. Settings of different
names do not get in each other's way. -/
structure ReadBy (V : Vocabulary ρ α) (fields : List (RecordField ρ)) : Prop where
  known (a : α) : ∃ field, fields.find? (·.name.toList = (V.name a).toList) = some field ∧ field.name = V.name a ∧
    ∀ record, Yields (field.read record) (V.Valued a) (V.apply record a)
  unknown (name : List Char) : (∀ a, name ≠ (V.name a).toList) → fields.find? (·.name.toList = name) = none
  commutes (a b : α) (record : ρ) : V.name a ≠ V.name b →
    V.apply (V.apply record a) b = V.apply (V.apply record b) a

variable {V : Vocabulary ρ α} {fields : List (RecordField ρ)}

private theorem MemberText.read {given : Option α} (h : V.MemberText given s) (reads : V.ReadBy fields) (record : ρ)
    {seen : List String} (unseen : ∀ a ∈ given.toList, V.name a ∉ seen) (ends : NumberEnds rest) :
    ∃ q name mid, s = '"' :: q ∧ readString (q ++ rest) = .ok (name, mid) ∧
      readMember fields seen name record mid =
        .ok ((given.toList.foldl V.apply record, given.toList.map V.name ++ seen), rest) := by
  cases h with
  | @known a q b c v spelled colon space valued =>
    obtain ⟨field, found, named, reads⟩ := reads.known a
    refine ⟨_, (V.name a).toList, b ++ ':' :: (c ++ (v ++ rest)), rfl, ?_, ?_⟩
    · simpa only [List.append_assoc, List.cons_append] using readString_append spelled (b ++ ':' :: (c ++ (v ++ rest)))
    · have fresh : seen.contains (V.name a) = false := by
        rw [Bool.eq_false_iff, ne_eq, List.contains_iff_mem]
        exact unseen a (List.mem_singleton_self a)
      simp only [readMember, found, named, fresh, takeColon_append colon, bind, Except.bind,
        reads record _ _ _ space valued ends]
      rfl
  | @unknown name q b c v spelled other colon space value =>
    refine ⟨_, name, b ++ ':' :: (c ++ (v ++ rest)), rfl, ?_, ?_⟩
    · simpa only [List.append_assoc, List.cons_append] using readString_append spelled (b ++ ':' :: (c ++ (v ++ rest)))
    · simp only [readMember, reads.unknown name other, takeColon_append colon, bind, Except.bind,
        skipValue_append space value ends]
      rfl

/-- What stands before a member: nothing, or the comma behind another one. -/
inductive Leads : Bool → List Char → Prop
  | start : Leads true []
  | comma {b : List Char} (after : Blanks b) : Leads false (b ++ [','])

private theorem nextMember_named {first : Bool} {before a : List Char} (leads : Leads first before) (blanks : Blanks a)
    (s : List Char) : nextMember first (before ++ (a ++ '"' :: s)) = .ok (.named s) := by
  cases leads with
  | start =>
    rw [List.nil_append, nextMember, skipBlanks_append blanks]
    rfl
  | @comma b after =>
    have comma : skipBlanks (b ++ ',' :: (a ++ '"' :: s)) = ',' :: (a ++ '"' :: s) := by
      rw [skipBlanks_append after]
      rfl
    have quote : skipBlanks (a ++ '"' :: s) = '"' :: s := by
      rw [skipBlanks_append blanks]
      rfl
    simp [nextMember, comma, quote]

private theorem nextMember_closed (first : Bool) {b : List Char} (blanks : Blanks b) (rest : List Char) :
    nextMember first (b ++ '\x7d' :: rest) = .ok (.closed rest) := by
  rw [nextMember, skipBlanks_append blanks]
  rfl

private theorem MemberText.goes_on {given : Option α} (h : V.MemberText given s)
    (reads : V.ReadBy fields) {first : Bool}
    {before a : List Char} (leads : Leads first before) (blanks : Blanks a) {seen : List String}
    (unseen : ∀ b ∈ given.toList, V.name b ∉ seen) (ends : NumberEnds rest) (n : Nat) (record : ρ) :
    readMembers fields (n + 1) first seen record (before ++ (a ++ (s ++ rest))) =
      readMembers fields n false (given.toList.map V.name ++ seen) (given.toList.foldl V.apply record) rest := by
  obtain ⟨q, name, mid, rfl, spelled, member⟩ := h.read reads record unseen ends
  have named := nextMember_named leads blanks (q ++ rest)
  rw [List.cons_append, readMembers, named]
  dsimp only
  rw [spelled]
  dsimp only
  rw [member]

/-- Members are read in their order up to the closing brace, provided that no setting was made before or is made
twice. -/
theorem MembersText.read {given : List α} (h : V.MembersText given s) (reads : V.ReadBy fields) {n : Nat}
    {first : Bool} {before : List Char} (leads : Leads first before) (enough : s.length < n) {seen : List String}
    (unseen : ∀ a ∈ given, V.name a ∉ seen) (once : (given.map V.name).Nodup) (record : ρ) :
    readMembers fields n first seen record (before ++ (s ++ '\x7d' :: rest)) =
      .ok (given.foldl V.apply record, rest) := by
  induction h generalizing n first before seen record with
  | @one given a s b blanks only after =>
    have follows : Bracket.object.Follows '\x7d' := .inr rfl
    have ends := (follows.ends rest).behind after
    obtain ⟨q, _, _, rfl, _⟩ := only.read reads record unseen ends
    obtain ⟨n, rfl⟩ : ∃ m, n = m + 2 := by
      simp only [List.length_append, List.length_cons] at enough
      exact ⟨n - 2, by omega⟩
    rw [List.append_assoc, List.append_assoc, only.goes_on reads leads blanks unseen ends, readMembers,
      nextMember_closed false after]
  | @more given others a s b t blanks member after inside ih =>
    have follows : Bracket.object.Follows ',' := .inl rfl
    have ends := (follows.ends (t ++ '\x7d' :: rest)).behind after
    obtain ⟨n, rfl⟩ : ∃ m, n = m + 1 := ⟨n - 1, by omega⟩
    have less : t.length < n := by
      simp only [List.length_append, List.length_cons] at enough
      omega
    rw [List.map_append, List.nodup_append] at once
    obtain ⟨_, once, apart⟩ := once
    have fresh : ∀ x ∈ others, V.name x ∉ given.toList.map V.name ++ seen := by
      intro x made
      rw [List.mem_append, not_or]
      exact ⟨fun both => apart _ both _ (List.mem_map_of_mem made) rfl, unseen x (List.mem_append_right _ made)⟩
    have here : ∀ x ∈ given.toList, V.name x ∉ seen := fun x made => unseen x (List.mem_append_left _ made)
    have begun := member.goes_on reads leads blanks here ends n record
    have going := ih (.comma after) less fresh once (given.toList.foldl V.apply record)
    simp only [List.append_assoc, List.cons_append, List.nil_append] at begun going ⊢
    rw [begun, going, List.foldl_append]

/-- An object is read into a record, whatever blanks are before it. -/
theorem ObjectText.read {given : List α} (h : V.ObjectText given s) (reads : V.ReadBy fields)
    (once : (given.map V.name).Nodup) (record : ρ) {blanks : List Char} (before : Blanks blanks) (rest : List Char) :
    readRecord fields record (blanks ++ (s ++ rest)) = .ok (given.foldl V.apply record, rest) := by
  have opened : ∀ t, readRecord fields record (blanks ++ '\x7b' :: t) =
      readMembers fields (t.length + 1) true [] record t := by
    intro t
    rw [readRecord, skipBlanks_append before]
    rfl
  cases h with
  | @empty a inside =>
    have closed := nextMember_closed true inside rest
    rw [List.cons_append, opened, List.append_assoc, List.singleton_append, readMembers, closed]
    rfl
  | @members _ s inside =>
    have enough : s.length < (s ++ '\x7d' :: rest).length + 1 := by
      rw [List.length_append]
      omega
    rw [List.cons_append, opened, List.append_assoc]
    exact inside.read reads .start enough (fun _ _ => List.not_mem_nil) once record

/-- An object yields the record with the settings that it gives, in whatever order it gives them. -/
theorem ReadBy.yields (reads : V.ReadBy fields) {given : List α} (once : (given.map V.name).Nodup) (record : ρ) :
    Yields (readRecord fields record) (V.States given) (given.foldl V.apply record) := by
  rintro blanks s rest before ⟨order, perm, object⟩ _
  have once : (order.map V.name).Nodup := (perm.map V.name).nodup_iff.mpr once
  have same : order.foldl V.apply record = given.foldl V.apply record := by
    refine perm.foldl_eq' (fun a first b second record => ?_) record
    by_cases same : V.name a = V.name b
    · rw [List.inj_on_of_nodup_map once first second same]
    · exact reads.commutes a b record same
  rw [object.read reads once record before rest, same]

section Fields

variable {β : Type} {W : Vocabulary ρ β} {more : List (RecordField ρ)}

def single (name : String) (Valued : α → List Char → Prop) (set : ρ → α → ρ) : Vocabulary ρ α :=
  ⟨fun _ => name, Valued, set⟩

/-- A field reads its vocabulary if it reads the values, for what they mean. -/
theorem single_read [Nonempty α] {read : Reader β} {Valued : α → List Char → Prop} {means : α → β}
    (reads : ∀ a, Yields read (Valued a) (means a)) (name : String) (set : ρ → β → ρ) :
    (single name Valued fun record a => set record (means a)).ReadBy
      [⟨name, fun record s => (read s).map fun (b, s) => (set record b, s)⟩] where
  known a := by
    refine ⟨_, List.find?_cons_of_pos (decide_eq_true rfl), rfl, fun record blanks v rest before valued ends => ?_⟩
    dsimp only
    rw [reads a blanks v rest before valued ends]
    rfl
  unknown other unlike := by
    obtain ⟨a⟩ := ‹Nonempty α›
    rw [List.find?_singleton, if_neg]
    exact fun same => unlike a (of_decide_eq_true same).symm
  commutes _ _ _ other := absurd rfl other

def Apart (V : Vocabulary ρ α) (W : Vocabulary ρ β) : Prop := ∀ a b, V.name a ≠ W.name b

theorem single_apart {name name' : String} (other : name ≠ name') (Valued : α → List Char → Prop)
    (Valued' : β → List Char → Prop) (set : ρ → α → ρ) (set' : ρ → β → ρ) :
    (single name Valued set).Apart (single name' Valued' set') :=
  fun _ _ => other

def append (V : Vocabulary ρ α) (W : Vocabulary ρ β) : Vocabulary ρ (α ⊕ β) where
  name := Sum.elim V.name W.name
  Valued := Sum.elim V.Valued W.Valued
  apply record := Sum.elim (V.apply record) (W.apply record)

theorem ReadBy.append (first : V.ReadBy fields) (second : W.ReadBy more) (apart : V.Apart W)
    (commutes : ∀ a b record, W.apply (V.apply record a) b = V.apply (W.apply record b) a) :
    (V.append W).ReadBy (fields ++ more) where
  known
    | .inl a => by
      obtain ⟨field, found, named, reads⟩ := first.known a
      refine ⟨field, ?_, named, reads⟩
      rw [List.find?_append]
      exact congrArg (Option.or · _) found
    | .inr b => by
      obtain ⟨field, found, named, reads⟩ := second.known b
      have absent := first.unknown (W.name b).toList fun a same => apart a b (String.toList_inj.mp same).symm
      refine ⟨field, ?_, named, reads⟩
      rw [List.find?_append]
      exact (congrArg (Option.or · _) absent).trans found
  unknown name unlike := by
    rw [List.find?_append, first.unknown name fun a => unlike (.inl a), second.unknown name fun b => unlike (.inr b)]
    rfl
  commutes
    | .inl a, .inl b, record, other => first.commutes a b record other
    | .inl a, .inr b, record, _ => commutes a b record
    | .inr a, .inl b, record, _ => (commutes b a record).symm
    | .inr a, .inr b, record, other => second.commutes a b record other

def gather (as : List α) (bs : List β) : List (α ⊕ β) := as.map .inl ++ bs.map .inr

/-- A field is set at most once. -/
theorem single_once (name : String) (Valued : α → List Char → Prop) (set : ρ → α → ρ) (given : Option α) :
    (given.toList.map (single name Valued set).name).Nodup := by
  cases given with
  | none => exact List.nodup_nil
  | some a => exact List.nodup_singleton _

theorem gather_once {as : List α} {bs : List β} (first : (as.map V.name).Nodup) (second : (bs.map W.name).Nodup)
    (apart : V.Apart W) : ((gather as bs).map (V.append W).name).Nodup := by
  have names : (gather as bs).map (V.append W).name = as.map V.name ++ bs.map W.name := by
    rw [gather, List.map_append, List.map_map, List.map_map]
    rfl
  rw [names, List.nodup_append]
  refine ⟨first, second, fun x here y there => ?_⟩
  obtain ⟨a, _, rfl⟩ := List.mem_map.mp here
  obtain ⟨b, _, rfl⟩ := List.mem_map.mp there
  exact apart a b

end Fields

section Compact

/-- What is written in front of a value if there are no blanks: a brace or a comma, and the name as it is. -/
structure IsLead (c : Char) (name lead : String) : Prop where
  written : lead.toList = c :: '"' :: (name.toList ++ ['"', ':'])
  plain : ArePlain name.toList

instance (c : Char) (name lead : String) : Decidable (IsLead c name lead) :=
  decidable_of_iff (lead.toList = c :: '"' :: (name.toList ++ ['"', ':']) ∧ ArePlain name.toList)
    ⟨fun ⟨written, plain⟩ => ⟨written, plain⟩, fun ⟨written, plain⟩ => ⟨written, plain⟩⟩

/-- The rest of an object without blanks, from the brace or the comma in front of some settings on. -/
def Trails (V : Vocabulary ρ α) (c : Char) (given : List α) (s : List Char) : Prop :=
  ∃ members, V.MembersText given members ∧ s = c :: (members ++ ['\x7d'])

variable {a : α} {others : List α} {lead : String} {c : Char}

theorem trails_last (named : IsLead c (V.name a) lead) (valued : V.Valued a s) :
    V.Trails c [a] (lead.toList ++ (s ++ "\x7d".toList)) := by
  have member := MemberText.known (spelled_self named.plain) blanks_nil blanks_nil valued
  refine ⟨_, .one blanks_nil member blanks_nil, ?_⟩
  rw [named.written]
  simp

theorem trails_more (named : IsLead c (V.name a) lead) (valued : V.Valued a s) (rest : V.Trails ',' others t) :
    V.Trails c (a :: others) (lead.toList ++ (s ++ t)) := by
  obtain ⟨members, inside, rfl⟩ := rest
  have member := MemberText.known (spelled_self named.plain) blanks_nil blanks_nil valued
  refine ⟨_, .more blanks_nil member blanks_nil inside, ?_⟩
  rw [named.written]
  simp

theorem Trails.states {given : List α} (h : V.Trails '\x7b' given s) : V.States given s := by
  obtain ⟨members, inside, rfl⟩ := h
  exact ⟨given, .refl given, .members inside⟩

end Compact

end Vocabulary
end Sluice.Json
