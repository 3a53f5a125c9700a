import Sluice.Fault
import Sluice.Text.Blank

/-!
Reading JSON from the front of a text. Every scanner takes the characters still to come and
answers those behind what it took, or the first flaw it met.
-/
namespace Sluice.Json

def isBlank (c : Char) : Bool := c == ' ' || c == '\n' || c == '\t' || c == '\r'

def skipBlanks (s : List Char) : List Char := s.dropWhile isBlank

def skipLetters : List Char → List Char → Except JsonFlaw (List Char)
  | [], s => .ok s
  | _ :: _, [] => .error .truncated
  | l :: ls, c :: s => if c = l then skipLetters ls s else .error .malformed

def hexDigit? (c : Char) : Option Nat :=
  if c.isDigit then some (c.toNat - 48)
  else if 'a' ≤ c ∧ c ≤ 'f' then some (c.toNat - 87)
  else if 'A' ≤ c ∧ c ≤ 'F' then some (c.toNat - 55)
  else none

/-- The character a one-letter escape stands for. -/
def shortEscape? : Char → Option Char
  | '"' => some '"'
  | '\\' => some '\\'
  | '/' => some '/'
  | 'b' => some '\x08'
  | 'f' => some '\x0c'
  | 'n' => some '\n'
  | 'r' => some '\r'
  | 't' => some '\t'
  | _ => none

/-- Where a scanner stands inside a string. `high` is the first half of a surrogate pair. -/
inductive StringState
  | plain
  | escape
  | unit (high : Option Nat) (missing value : Nat)
  | backslashFor (high : Nat)
  | letterFor (high : Nat)

/-- What four hexadecimal digits mean behind an optional first half of a pair. -/
inductive UnitMeaning
  | char (c : Char)
  | half (high : Nat)
  | unpaired

def unitMeaning (high : Option Nat) (value : Nat) : UnitMeaning :=
  match high with
  | none =>
    if 0xDC00 ≤ value ∧ value ≤ 0xDFFF then .unpaired
    else if 0xD800 ≤ value ∧ value ≤ 0xDBFF then .half value
    else .char (Char.ofNat value)
  | some h =>
    if 0xDC00 ≤ value ∧ value ≤ 0xDFFF then
      .char (Char.ofNat ((h - 0xD800) * 1024 + (value - 0xDC00) + 0x10000))
    else .unpaired

/-- Scan a string behind its opening quote and collect its characters in reverse. When `strict`,
escaped surrogates have to form pairs; otherwise every escaped unit passes, and nothing is
collected for it. An escaped unit with fewer than four bytes behind it is truncated. -/
def scanString (strict : Bool) : StringState → List Char → List Char →
    Except JsonFlaw (List Char × List Char)
  | _, _, [] => .error .truncated
  | .plain, acc, c :: s =>
    if c = '"' then .ok (acc.reverse, s)
    else if c = '\\' then scanString strict .escape acc s
    else if c.toNat < 0x20 then .error .malformed
    else scanString strict .plain (c :: acc) s
  | .escape, acc, c :: s =>
    if c = 'u' then
      if Text.utf8Length (s.take 4) < 4 then .error .truncated
      else scanString strict (.unit none 4 0) acc s
    else match shortEscape? c with
      | some e => scanString strict .plain (e :: acc) s
      | none => .error .malformed
  | .unit high missing value, acc, c :: s =>
    match hexDigit? c with
    | none => .error .malformed
    | some d =>
      let value := value * 16 + d
      if 1 < missing then scanString strict (.unit high (missing - 1) value) acc s
      else if strict then
        match unitMeaning high value with
        | .char c => scanString strict .plain (c :: acc) s
        | .half h => scanString strict (.backslashFor h) acc s
        | .unpaired => .error .malformed
      else scanString strict .plain acc s
  | .backslashFor high, acc, c :: s =>
    if c = '\\' then scanString strict (.letterFor high) acc s else .error .malformed
  | .letterFor high, acc, c :: s =>
    if c = 'u' then
      if Text.utf8Length (s.take 4) < 4 then .error .truncated
      else scanString strict (.unit (some high) 4 0) acc s
    else .error .malformed

def readString (s : List Char) : Except JsonFlaw (List Char × List Char) :=
  scanString true .plain [] s

def skipString (s : List Char) : Except JsonFlaw (List Char) :=
  (scanString false .plain [] s).map (·.2)

end Sluice.Json
