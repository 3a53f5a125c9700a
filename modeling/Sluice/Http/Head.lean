import Sluice.Http.Header

/-!
The head of a response and the description of the body announced with it.
-/
namespace Sluice.Http

inductive Version
  | http09
  | http10
  | http11
  | http2
  | http3
  deriving DecidableEq

def Version.all : List Version := [.http09, .http10, .http11, .http2, .http3]

def Version.text : Version → String
  | .http09 => "HTTP/0.9"
  | .http10 => "HTTP/1.0"
  | .http11 => "HTTP/1.1"
  | .http2 => "HTTP/2.0"
  | .http3 => "HTTP/3.0"

def Version.ofString? (s : String) : Option Version := Version.all.find? (·.text = s)

/-- A status code has three digits. -/
structure Status where
  code : Nat
  deriving DecidableEq

def Status.ofNat? (code : Nat) : Option Status :=
  if 100 ≤ code ∧ code < 1000 then some ⟨code⟩ else none

structure Head where
  status : Status
  version : Version
  headers : Headers
  deriving DecidableEq

def Head.initial : Head := ⟨⟨200⟩, .http11, .empty⟩

/-- What is known of a message body before it is sent. -/
structure Entity where
  contentLength : Option Nat
  contentType : Option String
  contentEncoding : Option String
  chunked : Bool
  trailers : List HeaderName
  deriving DecidableEq

/-- A body of unknown length, not chunked, without trailers. -/
def Entity.streamed (contentType contentEncoding : Option String) : Entity :=
  ⟨none, contentType, contentEncoding, false, []⟩

def Entity.unknown : Entity := .streamed none none

/-- The body of a response is streamed, and its type and encoding are the first values of their
headers as far as these are text. -/
def Head.entity (head : Head) : Entity :=
  .streamed ((head.headers.get? Http.contentType).bind HeaderValue.text?)
    ((head.headers.get? Http.contentEncoding).bind HeaderValue.text?)

end Sluice.Http
