import Sluice.Charset.Encoder
import Sluice.Charset.SingleByte

/-!
The encoders of the web encodings. All but ISO-2022-JP write each character on its own. What the
multi-byte encodings have for a character above ASCII stands in an index, which is given from
outside.
-/
namespace Sluice
namespace WebEncoding

/-- The room an encoder wants before a character above ASCII, whatever the length of that. -/
def wideDemand (encoding : WebEncoding) (c : Char) : Nat :=
  match encoding with
  | utf8 => c.utf8Size
  | shiftJis | eucJp | eucKr | big5 => 2
  | gbk | gb18030 => 4
  | _ => 1

end WebEncoding

/-- The indexes of the multi-byte encodings. -/
class CodeIndex where
  /-- The bytes of a character above ASCII in an encoding without shift states. -/
  bytes? : WebEncoding → Char → Option (List UInt8)
  /-- The two bytes of a character in the wide shift of ISO-2022-JP. -/
  jisPair? : Char → Option (UInt8 × UInt8)
  length_bytes?_le {encoding : WebEncoding} {c : Char} {bytes : List UInt8}
    (letter : bytes? encoding c = some bytes) : bytes.length ≤ encoding.wideDemand c

namespace WebEncoding

variable [CodeIndex]

/-- The bytes of a character above ASCII in an encoding without shift states. -/
def wideBytes? (encoding : WebEncoding) (c : Char) : Option (List UInt8) :=
  match encoding with
  | utf8 => some (String.utf8EncodeChar c)
  | shiftJis | eucJp | eucKr | gbk | gb18030 | big5 => CodeIndex.bytes? encoding c
  | encoding =>
    encoding.upperHalf?.bind fun runs =>
      (Run.byte? 0x80 c.toNat runs).map fun byte => [UInt8.ofNat byte]

def bytes? (encoding : WebEncoding) (c : Char) : Option (List UInt8) :=
  if c.toNat < 0x80 then some [UInt8.ofNat c.toNat] else encoding.wideBytes? c

/-- The room an encoder wants before a character. After a wide character an ASCII one is treated
like it. -/
def demand (encoding : WebEncoding) (wide : Bool) (c : Char) : Nat :=
  if c.toNat < 0x80 then
    match encoding with
    | utf8 => 1
    | _ => if wide then encoding.wideDemand c else 1
  else encoding.wideDemand c

/-- Whether the character behind `c` is treated as a wide one. -/
def wideAfter (encoding : WebEncoding) (wide : Bool) (c : Char) : Bool :=
  if c.toNat < 0x80 then wide && encoding == eucKr && c.toNat < 0x3C else true

/-- Encode characters as long as there is room for them, or answer the first one without bytes. -/
def encodeChars (encoding : WebEncoding) : Bool → Nat → List Char → Except Char Encoded
  | _, _, [] => .ok ⟨.inputUsed, 0, []⟩
  | wide, room, c :: cs =>
    if room < encoding.demand wide c then .ok .full
    else match encoding.bytes? c with
      | none => .error c
      | some bytes =>
        (encodeChars encoding (encoding.wideAfter wide c) (room - bytes.length) cs).map
          (·.after c bytes)

end WebEncoding

/-- The character set that ISO-2022-JP is shifted to. -/
inductive Shift
  | ascii
  | roman
  | jis0208
  deriving DecidableEq

namespace Shift

def escape : Shift → List UInt8
  | ascii => [0x1B, 0x28, 0x42]
  | roman => [0x1B, 0x28, 0x4A]
  | jis0208 => [0x1B, 0x24, 0x42]

/-- The characters that would shift the reader themselves. -/
def isControl (c : Char) : Bool := c == '\x0e' || c == '\x0f' || c == '\x1b'

variable [CodeIndex]

/-- The shift a character is written in next, if there is one. -/
def target? (shift : Shift) (c : Char) : Option Shift :=
  let point := c.toNat
  if point < 0x80 then
    match shift with
    | roman => if point = 0x5C ∨ point = 0x7E then some ascii else some roman
    | _ => some ascii
  else if point = 0xA5 ∨ point = 0x203E then some roman
  else (CodeIndex.jisPair? c).map fun _ => jis0208

def bytes (shift : Shift) (c : Char) : List UInt8 :=
  match shift with
  | ascii => [UInt8.ofNat c.toNat]
  | roman => [if c.toNat = 0xA5 then 0x5C else if c.toNat = 0x203E then 0x7E else UInt8.ofNat c.toNat]
  | jis0208 => ((CodeIndex.jisPair? c).map fun pair => [pair.1, pair.2]).getD []

/-- The shift after a character without bytes. -/
def afterUnmappable : Shift → Shift
  | jis0208 => ascii
  | shift => shift

/-- Encode characters as long as each step has room for three bytes. An escape sequence is a step
of its own, also the one back to ASCII behind the last text. -/
def encodeChars (last : Bool) : Shift → Nat → List Char → Except Char Encoded × Shift
  | shift, room, [] =>
    if last ∧ shift ≠ ascii then
      if room < 3 then (.ok .full, shift) else (.ok ⟨.inputUsed, 0, ascii.escape⟩, ascii)
    else (.ok ⟨.inputUsed, 0, []⟩, shift)
  | shift, room, c :: cs =>
    if room < 3 then (.ok .full, shift)
    else match shift.target? c with
      | none => (.error c, shift.afterUnmappable)
      | some target =>
        let escape := if target = shift then [] else target.escape
        if room - escape.length < 3 then (.ok ⟨.outputFull, 0, escape⟩, target)
        else if isControl c then (.error '\uFFFD', target)
        else
          let bytes := escape ++ target.bytes c
          let (result, shift) := encodeChars last target (room - bytes.length) cs
          (result.map (·.after c bytes), shift)

end Shift

/-- The encoder of a web encoding. Only ISO-2022-JP uses the shift. -/
structure WebEncoder where
  encoding : WebEncoding
  shift : Shift
  deriving DecidableEq

namespace WebEncoder

def ofEncoding (encoding : WebEncoding) : WebEncoder := ⟨encoding, .ascii⟩

/-- The answer of an encoder that names its first character without bytes. -/
def named (encoding : WebEncoding) : Except Char Encoded → Except Fault Encoded
  | .error c => .error (.unmappable c encoding.name)
  | .ok encoded => .ok encoded

instance [CodeIndex] : Encoder WebEncoder where
  charset e := .web e.encoding
  encode e text room last :=
    match e.encoding with
    | .iso2022Jp =>
      let (result, shift) := Shift.encodeChars last e.shift room text
      (named e.encoding result, { e with shift })
    | encoding => (named encoding (encoding.encodeChars false room text), e)
  flush e _ := (.ok (.inputUsed, []), e)
  reset e := ofEncoding e.encoding

end WebEncoder

/-- The encoder a charset is written with. -/
inductive CharsetEncoder
  | builtIn (encoder : BuiltInEncoder)
  | web (encoder : WebEncoder)
  deriving DecidableEq

namespace CharsetEncoder

instance [CodeIndex] : Encoder CharsetEncoder where
  charset
    | builtIn e => Encoder.charset e
    | web e => Encoder.charset e
  encode
    | builtIn e, text, room, last => (Encoder.encode e text room last).map id builtIn
    | web e, text, room, last => (Encoder.encode e text room last).map id web
  flush
    | builtIn e, room => (Encoder.flush e room).map id builtIn
    | web e, room => (Encoder.flush e room).map id web
  reset
    | builtIn e => builtIn (Encoder.reset e)
    | web e => web (Encoder.reset e)

end CharsetEncoder

def Charset.encoder : Charset → CharsetEncoder
  | .web encoding => .web (.ofEncoding encoding)
  | charset => .builtIn (.ofCharset charset)

end Sluice
