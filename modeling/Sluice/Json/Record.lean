import Sluice.Json.Skip

/-!
Reading a JSON object, or a list of its fields in order, into a record. Fields that are absent
keep the value they have, unknown members are skipped.
-/
namespace Sluice.Json

/-- A reader of a value: it answers the value and the text behind it. -/
abbrev Reader (α : Type) : Type := List Char → Except JsonFlaw (α × List Char)

/-- A named field of a record and how its value is read into the record. -/
structure RecordField (ρ : Type) where
  name : String
  read : ρ → Reader ρ

/-- The flaw of a value that is not of the wanted type. A value that is itself no JSON is reported
for that. -/
def wrongType : List Char → JsonFlaw
  | [] => .truncated
  | 'n' :: s => flawOr (skipLetters "ull".toList s)
  | 't' :: s => flawOr (skipLetters "rue".toList s)
  | 'f' :: s => flawOr (skipLetters "alse".toList s)
  | '"' :: s => flawOr (readString s)
  | '-' :: s => flawOr (readNumber false s)
  | '[' :: _ => .mistyped
  | '{' :: _ => .mistyped
  | c :: s => if c.isDigit then flawOr (readNumber true (c :: s)) else .malformed
where
  flawOr {α : Type} : Except JsonFlaw α → JsonFlaw
    | .error flaw => flaw
    | .ok _ => .mistyped

def readWord : Reader Nat := fun s =>
  match skipBlanks s with
  | [] => .error .truncated
  | c :: s =>
    if c.isDigit then
      match readNumber true (c :: s) with
      | .error flaw => .error flaw
      | .ok (.whole n, s) => .ok (n, s)
      | .ok (.other, _) => .error .mistyped
    else .error (wrongType (c :: s))

def readWord? : Reader (Option Nat) := fun s =>
  match skipBlanks s with
  | 'n' :: s => (skipLetters "ull".toList s).map fun s => (none, s)
  | s => (readWord s).map fun (n, s) => (some n, s)

/-- Read the elements of a list into the fields in their order, up to the closing bracket or the
last field. -/
def readElements {ρ : Type} (first : Bool) : List (RecordField ρ) → ρ → Reader ρ
  | [], record, s => .ok (record, s)
  | field :: fields, record, s =>
    match skipBlanks s with
    | [] => .error .truncated
    | ']' :: s => .ok (record, ']' :: s)
    | c :: s =>
      if first then
        match field.read record (c :: s) with
        | .error flaw => .error flaw
        | .ok (record, s) => readElements false fields record s
      else if c = ',' then
        match skipBlanks s with
        | [] => .error .truncated
        | ']' :: _ => .error .malformed
        | s =>
          match field.read record s with
          | .error flaw => .error flaw
          | .ok (record, s) => readElements false fields record s
      else .error .malformed

def closeList (s : List Char) : Except JsonFlaw (List Char) :=
  match skipBlanks s with
  | [] => .error .truncated
  | ']' :: s => .ok s
  | _ => .error .malformed

/-- Where the members of an object go on: behind the closing brace, or at the name of the next
member, whose quote is taken. -/
inductive Members
  | closed (rest : List Char)
  | named (rest : List Char)

def nextMember (first : Bool) (s : List Char) : Except JsonFlaw Members :=
  match skipBlanks s with
  | [] => .error .truncated
  | '}' :: s => .ok (.closed s)
  | c :: s =>
    if first then if c = '"' then .ok (.named s) else .error .malformed
    else if c = ',' then
      match skipBlanks s with
      | [] => .error .truncated
      | '"' :: s => .ok (.named s)
      | _ => .error .malformed
    else .error .malformed

def takeColon (s : List Char) : Except JsonFlaw (List Char) :=
  match skipBlanks s with
  | [] => .error .truncated
  | ':' :: s => .ok s
  | _ => .error .malformed

/-- Read the value of a member. A field that was `seen` before is refused before its value is
looked at. -/
def readMember {ρ : Type} (fields : List (RecordField ρ)) (seen : List String) (name : List Char)
    (record : ρ) : Reader (ρ × List String) := fun s =>
  match fields.find? (·.name.toList = name) with
  | none => do
    let s ← takeColon s
    let s ← skipValue s
    return ((record, seen), s)
  | some field => do
    if seen.contains field.name then throw .mistyped
    let s ← takeColon s
    let (record, s) ← field.read record s
    return ((record, field.name :: seen), s)

/-- Read at most the given number of members, up to the closing brace. -/
def readMembers {ρ : Type} (fields : List (RecordField ρ)) :
    Nat → Bool → List String → ρ → Reader ρ
  | 0, _, _, _, _ => .error .truncated
  | members + 1, first, seen, record, s =>
    match nextMember first s with
    | .error flaw => .error flaw
    | .ok (.closed s) => .ok (record, s)
    | .ok (.named s) =>
      match readString s with
      | .error flaw => .error flaw
      | .ok (name, s) =>
        match readMember fields seen name record s with
        | .error flaw => .error flaw
        | .ok ((record, seen), s) => readMembers fields members false seen record s

/-- Read an object or a list of fields over a record. A member takes characters of the text, so
there are fewer members than characters. -/
def readRecord {ρ : Type} (fields : List (RecordField ρ)) (record : ρ) : Reader ρ := fun s =>
  match skipBlanks s with
  | [] => .error .truncated
  | '[' :: s => do
    let (record, s) ← readElements true fields record s
    return (record, ← closeList s)
  | '{' :: s => readMembers fields (s.length + 1) true [] record s
  | s => .error (wrongType s)

/-- Read a text that holds one value and blanks around it. -/
def readAll {α : Type} (read : Reader α) (s : List Char) : Except JsonFlaw α :=
  match read s with
  | .error flaw => .error flaw
  | .ok (a, s) => if (skipBlanks s).isEmpty then .ok a else .error .malformed

end Sluice.Json
