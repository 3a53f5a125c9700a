import Sluice.Charset

/-!
What an encoder is, and the encoder of the built-in charsets. An encoder turns text into bytes
window by window and never splits a character: it stops before the first one that does not fit.
-/
namespace Sluice

/-- Why an encoder came back: it has used up its input, or the window is too small for more. -/
inductive Stop
  | inputUsed
  | outputFull
  deriving DecidableEq

/-- What an encoder did with a window: why it stopped, how many bytes of UTF-8 of its input it has
used, and the bytes it wrote. -/
structure Encoded where
  stop : Stop
  read : Nat
  bytes : List UInt8
  deriving DecidableEq

def Encoded.full : Encoded := ⟨.outputFull, 0, []⟩

/-- What an encoder did that wrote `bytes` for `c` first. -/
def Encoded.after (c : Char) (bytes : List UInt8) (e : Encoded) : Encoded :=
  ⟨e.stop, e.read + c.utf8Size, bytes ++ e.bytes⟩

/-- An encoder with its state. `encode` gets a text, the size of the window and whether the text is
the last one; `flush` writes what is held back. -/
class Encoder (ε : Type) where
  charset : ε → Charset
  encode : ε → List Char → Nat → Bool → Except Fault Encoded × ε
  flush : ε → Nat → Except Fault (Stop × List UInt8) × ε
  reset : ε → ε

def Fault.unmappable (c : Char) (charset : String) : Fault :=
  .encoding ("unmappable character U+" ++ Text.hex4 c.toNat ++ " for " ++ charset)

def byteOrderMark : List UInt8 := [0xFE, 0xFF]

def utf16Units (c : Char) : List Nat :=
  let n := c.toNat
  if n < 0x10000 then [n] else [0xD800 + (n - 0x10000) / 1024, 0xDC00 + (n - 0x10000) % 1024]

def bigEndian (unit : Nat) : List UInt8 := [UInt8.ofNat (unit / 256), UInt8.ofNat (unit % 256)]

def littleEndian (unit : Nat) : List UInt8 := [UInt8.ofNat (unit % 256), UInt8.ofNat (unit / 256)]

namespace Charset

def bytes (charset : Charset) (c : Char) : Except Fault (List UInt8) :=
  match charset with
  | usAscii => if c.toNat < 0x80 then .ok [UInt8.ofNat c.toNat] else .error (.unmappable c charset.name)
  | latin1 => if c.toNat < 0x100 then .ok [UInt8.ofNat c.toNat] else .error (.unmappable c charset.name)
  | utf8 => .ok (String.utf8EncodeChar c)
  | utf16be | utf16 => .ok ((utf16Units c).flatMap bigEndian)
  | utf16le => .ok ((utf16Units c).flatMap littleEndian)
  | web encoding => .error (.encoding (encoding.name ++ " is not a built-in charset"))

end Charset

/-- The encoder of a built-in charset. While `markOwed` is set a byte order mark goes in front of the
next character. -/
structure BuiltInEncoder where
  charset : Charset
  markOwed : Bool
  deriving DecidableEq

namespace BuiltInEncoder

def ofCharset (charset : Charset) : BuiltInEncoder := ⟨charset, charset = .utf16⟩

/-- Encode characters as long as they fit `room` bytes. The mark and its character go together. -/
def encodeChars (charset : Charset) : Bool → Nat → List Char → Except Fault Encoded × Bool
  | owed, _, [] => (.ok ⟨.inputUsed, 0, []⟩, owed)
  | owed, room, c :: cs =>
    match charset.bytes c with
    | .error fault => (.error fault, owed)
    | .ok bytes =>
      let bytes := if owed then byteOrderMark ++ bytes else bytes
      if room < bytes.length then (.ok .full, owed)
      else
        let (result, owed) := encodeChars charset false (room - bytes.length) cs
        (result.map (·.after c bytes), owed)

instance : Encoder BuiltInEncoder where
  charset e := e.charset
  encode e text room _ :=
    let (result, owed) := encodeChars e.charset e.markOwed room text
    (result, { e with markOwed := owed })
  flush e _ := (.ok (.inputUsed, []), e)
  reset e := ofCharset e.charset

end BuiltInEncoder
end Sluice
