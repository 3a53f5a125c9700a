import Sluice.Fault
import Sluice.Http.Head

/-!
The head of a response as a handler builds it. Once it is committed it cannot be changed any more.
-/
namespace Sluice

structure Response where
  head : Http.Head
  committed : Bool
  deriving DecidableEq

namespace Response

def initial : Response := ⟨.initial, false⟩

/-- Change the head, unless it is committed. -/
def mutate (r : Response) (change : Http.Head → Http.Head) : Except Fault Unit × Response :=
  if r.committed then (.error .responseCommitted, r)
  else (.ok (), { r with head := change r.head })

def setStatus (r : Response) (status : Http.Status) : Except Fault Unit × Response :=
  r.mutate fun head => { head with status }

def setVersion (r : Response) (version : Http.Version) : Except Fault Unit × Response :=
  r.mutate fun head => { head with version }

def addHeader (r : Response) (name : Http.HeaderName) (value : Http.HeaderValue) :
    Except Fault Unit × Response :=
  r.mutate fun head => { head with headers := head.headers.append name value }

def setHeader (r : Response) (name : Http.HeaderName) (value : Http.HeaderValue) :
    Except Fault Unit × Response :=
  r.mutate fun head => { head with headers := head.headers.insert name value }

/-- Remove all values of a header. A text that is no header name removes nothing. -/
def removeHeader (r : Response) (name : String) : Except Fault Unit × Response :=
  r.mutate fun head =>
    { head with headers := (Http.HeaderName.ofString? name).elim head.headers head.headers.erase }

def header? (r : Response) (name : String) : Option Http.HeaderValue :=
  (Http.HeaderName.ofString? name).bind r.head.headers.get?

/-- Commit the head, and answer it to the one who did so first and has to send it. -/
def commit (r : Response) : Option Http.Head × Response :=
  if r.committed then (none, r) else (some r.head, { r with committed := true })

end Response
end Sluice
