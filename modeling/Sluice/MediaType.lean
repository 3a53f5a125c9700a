import Sluice.Charset

/-!
Media types with an optional charset, as they stand in a header field.
-/
namespace Sluice

structure MediaType where
  mime : String
  charset : Option Charset
  deriving DecidableEq

namespace MediaType

/-- Media types are kept in lower case. -/
def ofMime (mime : List Char) (charset : Option Charset) : MediaType :=
  ⟨String.ofList (Text.lower mime), charset⟩

def octetStream : MediaType := ⟨"application/octet-stream", none⟩

def textPlainUtf8 : MediaType := ⟨"text/plain", some .utf8⟩

def withCharset (type : MediaType) (charset : Charset) : MediaType :=
  { type with charset := some charset }

/-- Whether a parameter name asks for the charset. -/
def isCharsetName (name : List Char) : Bool :=
  Text.lower (Text.trim name) == "charset".toList

/-- The charset after one parameter. A parameter without a value, or with another name, changes
nothing. -/
def readParameter (charset : Option Charset) (parameter : List Char) :
    Except Fault (Option Charset) :=
  match Text.cut? '=' parameter with
  | none => .ok charset
  | some (name, value) =>
    if isCharsetName name then (Charset.parse value).map some else .ok charset

/-- The charset after a list of parameters: the last one given counts, and the first bad one is the
fault. -/
def readParameters : Option Charset → List (List Char) → Except Fault (Option Charset)
  | charset, [] => .ok charset
  | charset, parameter :: parameters =>
    match readParameter charset parameter with
    | .error fault => .error fault
    | .ok charset => readParameters charset parameters

/-- Read a header value: a media type with a slash in it, and parameters behind semicolons. -/
def parse (value : List Char) : Except Fault MediaType :=
  match Text.pieces ';' value with
  | [] => .error (invalid value)
  | first :: parameters =>
    let mime := Text.trim first
    if mime.contains '/' then
      (readParameters none parameters).map fun charset => ofMime mime charset
    else .error (invalid value)
where
  invalid (value : List Char) : Fault :=
    .invalidConfig ("invalid content type: " ++ String.ofList value)

def text (type : MediaType) : String :=
  match type.charset with
  | none => type.mime
  | some charset => type.mime ++ "; charset=" ++ charset.name

end MediaType
end Sluice
