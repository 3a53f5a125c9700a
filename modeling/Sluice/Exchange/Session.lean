import Sluice.Exchange.Context
import Sluice.Exchange.Response
import Sluice.Inlet
import Sluice.Outlet

/-!
What a handler holds while it runs: the request, the two streams and the response.
-/
namespace Sluice

structure Request where
  method : String
  uri : String
  deriving DecidableEq

/-- The handler's side of an exchange. The input stream is there only if the request has a body. -/
structure Session where
  request : Request
  context : Context
  hasInput : Bool
  inputClosed : Bool
  outputClosed : Bool
  response : Response
  deriving DecidableEq

namespace Session

def start (request : Request) (context : Context) (hasInput : Bool) : Session :=
  ⟨request, context, hasInput, false, false, .initial⟩

def inputText {κ : Type} (session : Session) (inlet : Inlet κ) : String :=
  "ContentInputStream \x7b buffer: " ++ inlet.text ++ ", closed: " ++
    toString session.inputClosed ++ " \x7d"

def outputText {ι : Type} (session : Session) (outlet : Outlet ι) : String :=
  "ContentOutputStream \x7b buffer: " ++ outlet.text ++ ", committed: " ++
    toString session.response.committed ++ ", closed: " ++ toString session.outputClosed ++ " \x7d"

end Session
end Sluice
