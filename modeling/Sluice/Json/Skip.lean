import Sluice.Json.Number

/-!
Skipping a JSON value of any depth. The brackets that are still open are kept on a list, so
nesting is bounded by the text alone.
-/
namespace Sluice.Json

inductive Bracket
  | list
  | object
  deriving DecidableEq

/-- What the skipper looks for next: a value, a value or the end of the innermost bracket, a member
name, or what may follow a value. -/
inductive Expecting
  | value
  | valueOrEnd
  | name
  | nameOrEnd
  | next

def skipScalar : List Char → Except JsonFlaw (List Char)
  | [] => .error .truncated
  | 'n' :: s => skipLetters "ull".toList s
  | 't' :: s => skipLetters "rue".toList s
  | 'f' :: s => skipLetters "alse".toList s
  | '"' :: s => skipString s
  | '-' :: s => skipNumber s
  | c :: s => if c.isDigit then skipNumber (c :: s) else .error .malformed

def skipName : List Char → Except JsonFlaw (List Char)
  | '"' :: s =>
    match skipString s with
    | .error flaw => .error flaw
    | .ok s =>
      match skipBlanks s with
      | [] => .error .truncated
      | ':' :: s => .ok s
      | _ => .error .malformed
  | [] => .error .truncated
  | _ => .error .malformed

/-- What the skipper expects inside a bracket behind a comma. -/
def Bracket.member : Bracket → Expecting
  | list => .value
  | object => .name

def Bracket.closing : Bracket → Char
  | list => ']'
  | object => '}'

/-- One step of the skipper in front of a text without leading blanks: the brackets still open,
what is expected next and what is left, or `none` once the value is behind it. -/
def skipStep (opened : List Bracket) (expecting : Expecting) (s : List Char) :
    Except JsonFlaw (List Bracket × Expecting × List Char) :=
  match expecting, opened, s with
  | .value, _, '[' :: s => .ok (.list :: opened, .valueOrEnd, s)
  | .value, _, '{' :: s => .ok (.object :: opened, .nameOrEnd, s)
  | .value, _, s => (skipScalar s).map fun s => (opened, .next, s)
  | .valueOrEnd, _ :: outer, ']' :: s => .ok (outer, .next, s)
  | .valueOrEnd, _, s => .ok (opened, .value, s)
  | .nameOrEnd, _ :: outer, '}' :: s => .ok (outer, .next, s)
  | .nameOrEnd, _, s => .ok (opened, .name, s)
  | .name, _, s => (skipName s).map fun s => (opened, .value, s)
  | .next, _, [] => .error .truncated
  | .next, [], s => .ok ([], .next, s)
  | .next, bracket :: outer, c :: s =>
    if c = ',' then .ok (opened, bracket.member, s)
    else if c = bracket.closing then .ok (outer, .next, s)
    else .error .malformed

/-- Skip until no bracket is open, in at most the given number of steps. -/
def skipWithin : Nat → List Bracket → Expecting → List Char → Except JsonFlaw (List Char)
  | _, [], .next, s => .ok s
  | 0, _, _, _ => .error .truncated
  | steps + 1, opened, expecting, s =>
    match skipStep opened expecting (skipBlanks s) with
    | .error flaw => .error flaw
    | .ok (opened, expecting, s) => skipWithin steps opened expecting s

/-- Skip one value. Every second step takes a character, so twice the length is enough. -/
def skipValue (s : List Char) : Except JsonFlaw (List Char) :=
  skipWithin (2 * s.length + 1) [] .value s

end Sluice.Json
