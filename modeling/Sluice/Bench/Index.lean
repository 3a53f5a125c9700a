import Sluice.Charset.Web

/-!
An index for the bench: letters, punctuation and a few ideographs of each multi-byte encoding, at
the rows and cells of its character set.
-/
namespace Sluice
namespace Grid

/-- Consecutive code points in consecutive cells of one row. -/
structure CellRun where
  first : Nat
  count : Nat
  row : Nat
  cell : Nat

/-- Row and cell of a code point. -/
def cell? (point : Nat) : List CellRun → Option (Nat × Nat)
  | [] => none
  | run :: runs =>
    if run.first ≤ point ∧ point < run.first + run.count then
      some (run.row, run.cell + (point - run.first))
    else cell? point runs

/-- The two bytes of a row and a cell above a common base. -/
def pair (base : Nat) (place : Nat × Nat) : List UInt8 :=
  [UInt8.ofNat (base + place.1), UInt8.ofNat (base + place.2)]

def jis0208 : List CellRun :=
  [⟨0x3000, 3, 1, 1⟩, ⟨0xFF0C, 1, 1, 4⟩, ⟨0xFF0E, 1, 1, 5⟩, ⟨0x30FB, 1, 1, 6⟩, ⟨0xFF1A, 2, 1, 7⟩,
   ⟨0xFF1F, 1, 1, 9⟩, ⟨0xFF01, 1, 1, 10⟩, ⟨0x309B, 2, 1, 11⟩, ⟨0xB4, 1, 1, 13⟩, ⟨0xFF40, 1, 1, 14⟩,
   ⟨0xA8, 1, 1, 15⟩, ⟨0xFF3E, 1, 1, 16⟩, ⟨0xFFE3, 1, 1, 17⟩, ⟨0xFF3F, 1, 1, 18⟩, ⟨0x30FD, 2, 1, 19⟩,
   ⟨0x309D, 2, 1, 21⟩, ⟨0x3003, 1, 1, 23⟩, ⟨0x3005, 3, 1, 25⟩, ⟨0x30FC, 1, 1, 28⟩, ⟨0xFF0D, 1, 1, 61⟩,
   ⟨0xFF10, 10, 3, 16⟩, ⟨0xFF21, 26, 3, 33⟩, ⟨0xFF41, 26, 3, 65⟩, ⟨0x3041, 83, 4, 1⟩,
   ⟨0x30A1, 86, 5, 1⟩, ⟨0x391, 17, 6, 1⟩, ⟨0x3A3, 7, 6, 18⟩, ⟨0x3B1, 17, 6, 33⟩, ⟨0x3C3, 7, 6, 50⟩,
   ⟨0x65E5, 1, 38, 92⟩, ⟨0x672C, 1, 43, 60⟩]

def ksx1001 : List CellRun :=
  [⟨0x3041, 83, 10, 1⟩, ⟨0x30A1, 86, 11, 1⟩, ⟨0xAC00, 2, 16, 1⟩, ⟨0xAE00, 1, 17, 59⟩,
   ⟨0xD55C, 1, 39, 49⟩, ⟨0x4E2D, 1, 81, 73⟩]

def gb2312 : List CellRun :=
  [⟨0x3041, 83, 4, 1⟩, ⟨0x30A1, 86, 5, 1⟩, ⟨0xE9, 1, 8, 6⟩, ⟨0xEA, 1, 8, 26⟩, ⟨0x6587, 1, 46, 36⟩,
   ⟨0x4E2D, 1, 54, 48⟩]

/-- The places of Big5, as the two bytes themselves. -/
def big5 : List CellRun :=
  [⟨0x3001, 1, 0xA1, 0x42⟩, ⟨0x4E00, 1, 0xA4, 0x40⟩, ⟨0x4E2D, 1, 0xA4, 0xA4⟩,
   ⟨0x6587, 1, 0xA4, 0xE5⟩]

/-- The place of a code point in the rows of JIS X 0208, where the minus sign shares a place with its
wide form. -/
def jisCell? (point : Nat) : Option (Nat × Nat) :=
  cell? (if point = 0x2212 then 0xFF0D else point) jis0208

/-- The wide forms of the narrow katakana and their punctuation, from U+FF61 on. -/
def wideKatakana : List Nat :=
  [0x3002, 0x300C, 0x300D, 0x3001, 0x30FB, 0x30F2, 0x30A1, 0x30A3, 0x30A5, 0x30A7, 0x30A9, 0x30E3,
   0x30E5, 0x30E7, 0x30C3, 0x30FC, 0x30A2, 0x30A4, 0x30A6, 0x30A8, 0x30AA, 0x30AB, 0x30AD, 0x30AF,
   0x30B1, 0x30B3, 0x30B5, 0x30B7, 0x30B9, 0x30BB, 0x30BD, 0x30BF, 0x30C1, 0x30C4, 0x30C6, 0x30C8,
   0x30CA, 0x30CB, 0x30CC, 0x30CD, 0x30CE, 0x30CF, 0x30D2, 0x30D5, 0x30D8, 0x30DB, 0x30DE, 0x30DF,
   0x30E0, 0x30E1, 0x30E2, 0x30E4, 0x30E6, 0x30E8, 0x30E9, 0x30EA, 0x30EB, 0x30EC, 0x30ED, 0x30EF,
   0x30F3, 0x309B, 0x309C]

def isNarrowKatakana (point : Nat) : Bool := 0xFF61 ≤ point && point ≤ 0xFF9F

def widen (point : Nat) : Nat :=
  if isNarrowKatakana point then wideKatakana.getD (point - 0xFF61) point else point

/-- The bytes of a JIS X 0208 place when pairs of rows share a lead byte. -/
def shiftedPair (place : Nat × Nat) : List UInt8 :=
  let lead := (place.1 - 1) / 2 + if place.1 ≤ 62 then 0x81 else 0xC1
  let trail :=
    if place.1 % 2 = 0 then place.2 + 0x9E
    else place.2 + if place.2 ≤ 63 then 0x3F else 0x40
  [UInt8.ofNat lead, UInt8.ofNat trail]

/-- The four bytes of a number in the mixed base of GB 18030. -/
def fourBytes (n : Nat) : List UInt8 :=
  [UInt8.ofNat (0x81 + n / 12600), UInt8.ofNat (0x30 + n / 1260 % 10),
   UInt8.ofNat (0x81 + n / 10 % 126), UInt8.ofNat (0x30 + n % 10)]

/-- The number of a code point that GB 18030 writes in four bytes. -/
def fourByteNumber? (point : Nat) : Option Nat :=
  if 0x10000 ≤ point then some (189000 + (point - 0x10000))
  else if point = 0xE7C7 then some 7457
  else if 0xFFE6 ≤ point then some (39394 + (point - 0xFFE6))
  else if 0x80 ≤ point ∧ point ≤ 0xA3 then some (point - 0x80)
  else none

def bytes? (encoding : WebEncoding) (point : Nat) : Option (List UInt8) :=
  match encoding with
  | .shiftJis =>
    if point = 0x80 then some [0x80]
    else if point = 0xA5 then some [0x5C]
    else if point = 0x203E then some [0x7E]
    else if isNarrowKatakana point then some [UInt8.ofNat (0xA1 + (point - 0xFF61))]
    else (jisCell? point).map shiftedPair
  | .eucJp =>
    if point = 0xA5 then some [0x5C]
    else if point = 0x203E then some [0x7E]
    else if isNarrowKatakana point then some [0x8E, UInt8.ofNat (0xA1 + (point - 0xFF61))]
    else (jisCell? point).map (pair 0xA0)
  | .eucKr => (cell? point ksx1001).map (pair 0xA0)
  | .gbk => if point = 0x20AC then some [0x80] else (cell? point gb2312).map (pair 0xA0)
  | .gb18030 =>
    if point = 0x20AC then some [0xA2, 0xE3]
    else match cell? point gb2312 with
      | some place => some (pair 0xA0 place)
      | none => (fourByteNumber? point).map fourBytes
  | .big5 => (cell? point big5).map (pair 0)
  | _ => none

theorem length_bytes?_le {encoding : WebEncoding} {c : Char} {bytes : List UInt8}
    (letter : bytes? encoding c.toNat = some bytes) : bytes.length ≤ encoding.wideDemand c := by
  cases encoding <;> simp only [bytes?, WebEncoding.wideDemand, reduceCtorEq] at letter ⊢ <;>
    grind [Option.map_eq_some_iff, pair, shiftedPair, fourBytes]

end Grid

@[reducible]
def sampleIndex : CodeIndex where
  bytes? encoding c := Grid.bytes? encoding c.toNat
  jisPair? c :=
    (Grid.jisCell? (Grid.widen c.toNat)).map fun place =>
      (UInt8.ofNat (0x20 + place.1), UInt8.ofNat (0x20 + place.2))
  length_bytes?_le := Grid.length_bytes?_le

end Sluice
