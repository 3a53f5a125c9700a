import Sluice.Settings
import Sluice.Json.Scan

/-!
Numbers in JSON: reading a whole number that fits a word, and skipping a number of any size.
-/
namespace Sluice.Json

/-- What a number turned out to be: a whole number that fits a word, or any other number. -/
inductive Number
  | whole (n : Nat)
  | other

/-- Round to 53 significant bits, a tie to the even neighbour. -/
def roundTo53 (n : Nat) : Nat :=
  let unit := Nat.pow 2 (n.log2 + 1 - 53)
  let low := n / unit
  let rest := 2 * (n % unit)
  if unit < rest ∨ (rest = unit ∧ low % 2 = 1) then (low + 1) * unit else low * unit

/-- Whether `n * 10 ^ e`, computed in doubles from rounded factors, leaves the range of doubles. -/
def exceedsDouble (n e : Nat) : Bool :=
  n != 0 && (308 < e || Nat.pow 2 1024 ≤ roundTo53 (roundTo53 n * roundTo53 (Nat.pow 10 e)))

/-- The digits of a number so far: the value of those that fit a word and how many those are. -/
structure Digits where
  value : Nat
  taken : Nat
  full : Bool
  rest : List Char

def takeDigits (value taken : Nat) : List Char → Digits
  | [] => ⟨value, taken, false, []⟩
  | c :: s =>
    if c.isDigit then
      if maxWord < value * 10 + (c.toNat - 48) then ⟨value, taken, true, c :: s⟩
      else takeDigits (value * 10 + (c.toNat - 48)) (taken + 1) s
    else ⟨value, taken, false, c :: s⟩

def skipDigits (s : List Char) : List Char := s.dropWhile Char.isDigit

/-- A number with a fraction or an exponent, or one too large for a word, is no whole number. It
is still refused if no double comes near it. -/
def inexact (value : Nat) (exponent : Int) (s : List Char) :
    Except JsonFlaw (Number × List Char) :=
  match exponent with
  | .ofNat e => if exceedsDouble value e then .error .malformed else .ok (.other, s)
  | .negSucc _ => .ok (.other, s)

def exponentDigits (e : Nat) : List Char → Option Nat × List Char
  | [] => (some e, [])
  | c :: s =>
    if c.isDigit then
      if 2147483647 < e * 10 + (c.toNat - 48) then (none, skipDigits s)
      else exponentDigits (e * 10 + (c.toNat - 48)) s
    else (some e, c :: s)

/-- The sign of an exponent: whether it is positive, and what follows. -/
def exponentSign : List Char → Bool × List Char
  | '+' :: s => (true, s)
  | '-' :: s => (false, s)
  | s => (true, s)

def readExponent (value : Nat) (start : Int) (s : List Char) :
    Except JsonFlaw (Number × List Char) :=
  match exponentSign s with
  | (_, []) => .error .truncated
  | (positive, c :: s) =>
    if c.isDigit then
      match exponentDigits 0 (c :: s) with
      | (some e, s) => inexact value (if positive then start + e else start - e) s
      | (none, s) => if value ≠ 0 ∧ positive then .error .malformed else .ok (.other, s)
    else .error .malformed

/-- Go on behind the digits of a number with an exponent, if there is one. -/
def afterDigits (value : Nat) (exponent : Int) : List Char → Except JsonFlaw (Number × List Char)
  | 'e' :: s => readExponent value exponent s
  | 'E' :: s => readExponent value exponent s
  | s => inexact value exponent s

/-- Read a fraction behind its point. Digits that no longer fit a word count for nothing. -/
def readFraction (value : Nat) (exponent : Int) (s : List Char) :
    Except JsonFlaw (Number × List Char) :=
  let digits := takeDigits value 0 s
  if digits.full then afterDigits digits.value (exponent - digits.taken) (skipDigits digits.rest)
  else if digits.taken = 0 then
    .error (if digits.rest.isEmpty then .truncated else .malformed)
  else afterDigits digits.value (exponent - digits.taken) digits.rest

/-- Go on behind the whole part of a number that fits a word. -/
def afterWhole (positive : Bool) (value : Nat) : List Char → Except JsonFlaw (Number × List Char)
  | '.' :: s => readFraction value 0 s
  | 'e' :: s => readExponent value 0 s
  | 'E' :: s => readExponent value 0 s
  | s => .ok (if positive then .whole value else .other, s)

/-- Go on behind the digits of a whole part too large for a word. -/
def afterLong (value dropped : Nat) : List Char → Except JsonFlaw (Number × List Char)
  | '.' :: s => readFraction value dropped s
  | s => afterDigits value dropped s

def readNumber (positive : Bool) : List Char → Except JsonFlaw (Number × List Char)
  | [] => .error .truncated
  | c :: s =>
    if c = '0' then
      match s with
      | d :: _ => if d.isDigit then .error .malformed else afterWhole positive 0 s
      | [] => afterWhole positive 0 s
    else if c.isDigit then
      let digits := takeDigits 0 0 (c :: s)
      if digits.full then
        let rest := skipDigits digits.rest
        afterLong digits.value (digits.rest.length - rest.length) rest
      else afterWhole positive digits.value digits.rest
    else .error .malformed

def skipExponent (s : List Char) : Except JsonFlaw (List Char) :=
  match (exponentSign s).2 with
  | c :: s => if c.isDigit then .ok (skipDigits s) else .error .malformed
  | [] => .error .malformed

def skipFraction : List Char → Except JsonFlaw (List Char)
  | [] => .error .malformed
  | c :: s =>
    if c.isDigit then
      match skipDigits s with
      | 'e' :: s => skipExponent s
      | 'E' :: s => skipExponent s
      | s => .ok s
    else .error .malformed

/-- Go on behind the whole part of a skipped number. -/
def skipAfterWhole : List Char → Except JsonFlaw (List Char)
  | '.' :: s => skipFraction s
  | 'e' :: s => skipExponent s
  | 'E' :: s => skipExponent s
  | s => .ok s

/-- Skip a number behind its sign. A number cut short by the end of the text is malformed here. -/
def skipNumber : List Char → Except JsonFlaw (List Char)
  | [] => .error .malformed
  | c :: s =>
    if c = '0' then
      match s with
      | d :: _ => if d.isDigit then .error .malformed else skipAfterWhole s
      | [] => skipAfterWhole s
    else if c.isDigit then skipAfterWhole (skipDigits s)
    else .error .malformed

end Sluice.Json
