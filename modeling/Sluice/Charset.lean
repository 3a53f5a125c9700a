import Sluice.Fault
import Sluice.Charset.Encoding

/-!
Charsets and the labels that name them. Six charsets are built in; the rest are encodings of the
web.
-/
namespace Sluice

inductive Charset
  | usAscii
  | latin1
  | utf8
  | utf16be
  | utf16le
  | utf16
  | web (encoding : WebEncoding)
  deriving DecidableEq

namespace Charset

def name : Charset → String
  | usAscii => "US-ASCII"
  | latin1 => "ISO-8859-1"
  | utf8 => "UTF-8"
  | utf16be => "UTF-16BE"
  | utf16le => "UTF-16LE"
  | utf16 => "UTF-16"
  | web encoding => encoding.name

/-- The built-in charset of a bare label in lower case. -/
def builtIn? : String → Option Charset
  | "us-ascii" | "ascii" | "iso646-us" => some usAscii
  | "iso-8859-1" | "iso8859-1" | "latin1" | "l1" => some latin1
  | "utf-8" | "utf8" => some utf8
  | "utf-16be" => some utf16be
  | "utf-16le" => some utf16le
  | "utf-16" | "utf16" => some utf16
  | _ => none

/-- A label without the white space around it, then without the quotes around it, in lower case. -/
def bareLabel (label : List Char) : List Char :=
  Text.lower (Text.trimBy (· == '"') (Text.trim label))

/-- The charset of a label. Built-in charsets go first; only the labels of the web may have blanks
inside their quotes. -/
def ofLabel? (label : List Char) : Option Charset :=
  match builtIn? (String.ofList (bareLabel label)) with
  | some charset => some charset
  | none => (WebEncoding.ofLabel? (bareLabel label)).map web

/-- The charset of a label, or the fault that names the label as it was given. -/
def parse (label : List Char) : Except Fault Charset :=
  match ofLabel? label with
  | some charset => .ok charset
  | none => .error (.encoding ("unsupported charset: " ++ String.ofList label))

end Charset
end Sluice
