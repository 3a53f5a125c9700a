import Sluice.Json.Record

/-! The grammar of JSON texts: blanks, numbers, strings, and the values made of them. A string may be read for its
characters, or be skipped. Whatever is skipped only has to be of the right form, so that half of a surrogate pair may
stand alone in it. -/
namespace Sluice.Json

def Blanks (s : List Char) : Prop := ∀ c ∈ s, isBlank c = true

theorem blanks_nil : Blanks [] := nofun

def AreDigits (s : List Char) : Prop := ∀ c ∈ s, c.isDigit = true

/-- One digit or more. -/
inductive Numeral : List Char → Prop
  | digits {d : Char} {ds : List Char} (digit : d.isDigit = true) (more : AreDigits ds) : Numeral (d :: ds)

/-- The whole part of a number: zero alone, or digits that start with another one. -/
inductive WholePart : List Char → Prop
  | zero : WholePart ['0']
  | digits {d : Char} {ds : List Char} (digit : d.isDigit = true) (other : d ≠ '0') (more : AreDigits ds) :
      WholePart (d :: ds)

inductive FractionPart : List Char → Prop
  | none : FractionPart []
  | digits {s : List Char} (numeral : Numeral s) : FractionPart ('.' :: s)

inductive ExponentPart : List Char → Prop
  | none : ExponentPart []
  | digits {e : Char} {sign s : List Char} (letter : e = 'e' ∨ e = 'E')
      (signed : sign = [] ∨ sign = ['+'] ∨ sign = ['-']) (numeral : Numeral s) : ExponentPart (e :: (sign ++ s))

/-- A number of any size. -/
inductive NumberText : List Char → Prop
  | parts {sign whole fraction exponent : List Char} (signed : sign = [] ∨ sign = ['-']) (first : WholePart whole)
      (second : FractionPart fraction) (third : ExponentPart exponent) :
      NumberText (sign ++ (whole ++ (fraction ++ exponent)))

/-- A character that may stand in a string as it is. -/
def IsPlain (c : Char) : Prop := 0x20 ≤ c.toNat ∧ c ≠ '"' ∧ c ≠ '\\'

instance : DecidablePred IsPlain :=
  fun c => inferInstanceAs (Decidable (0x20 ≤ c.toNat ∧ c ≠ '"' ∧ c ≠ '\\'))

def ArePlain (s : List Char) : Prop := ∀ c ∈ s, IsPlain c

instance : DecidablePred ArePlain :=
  fun s => List.decidableBAll IsPlain s

/-- Four hexadecimal digits and the number that they make. -/
inductive HexUnit : List Char → Nat → Prop
  | digits {a b c d : Char} {i j k l : Nat} (first : hexDigit? a = some i) (second : hexDigit? b = some j)
      (third : hexDigit? c = some k) (fourth : hexDigit? d = some l) :
      HexUnit [a, b, c, d] (((i * 16 + j) * 16 + k) * 16 + l)

/-- What stands between the quotes of a string, if it is only looked at for its form. -/
inductive StringText : List Char → Prop
  | nil : StringText []
  | plain {c : Char} {s : List Char} (plain : IsPlain c) (rest : StringText s) : StringText (c :: s)
  | short {e c : Char} {s : List Char} (means : shortEscape? e = some c) (rest : StringText s) :
      StringText ('\\' :: e :: s)
  | unit {u s : List Char} {n : Nat} (unit : HexUnit u n) (rest : StringText s) : StringText ('\\' :: 'u' :: (u ++ s))

/-- What stands between the quotes of a string, and the characters that it means. -/
inductive Spelled : List Char → List Char → Prop
  | nil : Spelled [] []
  | plain {c : Char} {s t : List Char} (plain : IsPlain c) (rest : Spelled s t) : Spelled (c :: s) (c :: t)
  | short {e c : Char} {s t : List Char} (means : shortEscape? e = some c) (rest : Spelled s t) :
      Spelled ('\\' :: e :: s) (c :: t)
  | unit {u s t : List Char} {n : Nat} (unit : HexUnit u n) (whole : n < 0xD800 ∨ 0xDFFF < n) (rest : Spelled s t) :
      Spelled ('\\' :: 'u' :: (u ++ s)) (Char.ofNat n :: t)
  | pair {u v s t : List Char} {h l : Nat} (first : HexUnit u h) (second : HexUnit v l)
      (high : 0xD800 ≤ h ∧ h ≤ 0xDBFF) (low : 0xDC00 ≤ l ∧ l ≤ 0xDFFF) (rest : Spelled s t) :
      Spelled ('\\' :: 'u' :: (u ++ '\\' :: 'u' :: (v ++ s)))
        (Char.ofNat ((h - 0xD800) * 1024 + (l - 0xDC00) + 0x10000) :: t)

/-- A value that is no list and no object. -/
inductive ScalarText : List Char → Prop
  | null : ScalarText "null".toList
  | true : ScalarText "true".toList
  | false : ScalarText "false".toList
  | number {s : List Char} (number : NumberText s) : ScalarText s
  | string {s : List Char} (string : StringText s) : ScalarText ('"' :: (s ++ ['"']))

def Bracket.opening : Bracket → Char
  | list => '['
  | object => '\x7b'

/-- A value, or what stands between brackets: one item, or all of them. -/
inductive Phrase
  | value
  | item (bracket : Bracket)
  | items (bracket : Bracket)

/-- The texts of a phrase. An item has its blanks around it, a value does not. -/
inductive Phrase.Text : Phrase → List Char → Prop
  | scalar {s : List Char} (scalar : ScalarText s) : Text value s
  | empty (bracket : Bracket) {a : List Char} (blanks : Blanks a) :
      Text value (bracket.opening :: (a ++ [bracket.closing]))
  | bracketed {bracket : Bracket} {s : List Char} (inside : Text (items bracket) s) :
      Text value (bracket.opening :: (s ++ [bracket.closing]))
  | element {a v b : List Char} (before : Blanks a) (inside : Text value v) (after : Blanks b) :
      Text (item .list) (a ++ (v ++ b))
  | member {a name b c v d : List Char} (before : Blanks a) (named : StringText name) (colon : Blanks b)
      (space : Blanks c) (inside : Text value v) (after : Blanks d) :
      Text (item .object) (a ++ '"' :: (name ++ '"' :: (b ++ ':' :: (c ++ (v ++ d)))))
  | one {bracket : Bracket} {s : List Char} (only : Text (item bracket) s) : Text (items bracket) s
  | more {bracket : Bracket} {s t : List Char} (first : Text (item bracket) s) (rest : Text (items bracket) t) :
      Text (items bracket) (s ++ ',' :: t)

end Sluice.Json
