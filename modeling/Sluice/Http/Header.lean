import Sluice.Text.Blank

/-!
Header fields: a multimap from lower-case names to byte strings.
-/
namespace Sluice.Http

def isTokenChar (c : Char) : Bool :=
  c.isAlphanum || "!#$%&'*+-.^_\x60|~".toList.contains c

/-- A header name, in lower case. -/
structure HeaderName where
  text : String
  deriving DecidableEq

/-- A header value: bytes without control bytes other than tab. -/
structure HeaderValue where
  bytes : List UInt8
  deriving DecidableEq

/-- Names are tokens, and case does not matter. -/
def HeaderName.ofString? (s : String) : Option HeaderName :=
  if s.toList ≠ [] ∧ s.toList.all isTokenChar then
    some ⟨String.ofList (Text.lower s.toList)⟩
  else none

def HeaderValue.ofBytes? (bytes : List UInt8) : Option HeaderValue :=
  if bytes.all fun b => b == 9 || (32 ≤ b && b != 127) then some ⟨bytes⟩ else none

/-- The value as text, if it is visible ASCII, spaces and tabs only. -/
def HeaderValue.text? (value : HeaderValue) : Option String :=
  if value.bytes.all fun b => b == 9 || (32 ≤ b && b < 127) then
    some (String.ofList (value.bytes.map fun b => Char.ofNat b.toNat))
  else none

def contentType : HeaderName := ⟨"content-type"⟩
def contentEncoding : HeaderName := ⟨"content-encoding"⟩

/-- Header fields in the order in which they were added. -/
structure Headers where
  fields : List (HeaderName × HeaderValue)
  deriving DecidableEq

namespace Headers

def empty : Headers := ⟨[]⟩

def values (headers : Headers) (name : HeaderName) : List HeaderValue :=
  (headers.fields.filter (·.1 = name)).map (·.2)

def get? (headers : Headers) (name : HeaderName) : Option HeaderValue :=
  (headers.values name).head?

def names (headers : Headers) : List HeaderName := (headers.fields.map (·.1)).eraseDups

def append (headers : Headers) (name : HeaderName) (value : HeaderValue) : Headers :=
  ⟨headers.fields ++ [(name, value)]⟩

def erase (headers : Headers) (name : HeaderName) : Headers :=
  ⟨headers.fields.filter (·.1 ≠ name)⟩

def insert (headers : Headers) (name : HeaderName) (value : HeaderValue) : Headers :=
  (headers.erase name).append name value

end Headers
end Sluice.Http
