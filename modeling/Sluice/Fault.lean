/-!
Why an operation failed, and how a failure crosses a boundary that only knows system errors.
-/
namespace Sluice

/-- The kinds of system error. -/
inductive ErrorKind
  | addrInUse | addrNotAvailable | alreadyExists | argumentListTooLong | brokenPipe
  | connectionAborted | connectionRefused | connectionReset | crossesDevices | deadlock
  | directoryNotEmpty | executableFileBusy | fileTooLarge | filesystemLoop | hostUnreachable
  | inProgress | interrupted | invalidData | invalidFilename | invalidInput | isADirectory
  | networkDown | networkUnreachable | notADirectory | notConnected | notFound | notSeekable
  | other | outOfMemory | permissionDenied | quotaExceeded | readOnlyFilesystem | resourceBusy
  | staleNetworkFileHandle | storageFull | timedOut | tooManyLinks | unexpectedEof | unsupported
  | wouldBlock | writeZero | uncategorized
  deriving DecidableEq

/-- Why a JSON text was not accepted: no JSON text goes on like this, the value is of another type
than the one wanted, or the text ended early. -/
inductive JsonFlaw
  | malformed
  | mistyped
  | truncated
  deriving DecidableEq

/-- The cause of a failure. A system error carries a text or another fault. So does the failure of a
handler, or else it carries a system error with what that carries. -/
inductive Fault
  | io (kind : ErrorKind) (text : String)
  | ioOf (kind : ErrorKind) (cause : Fault)
  | json (flaw : JsonFlaw)
  | encoding (detail : String)
  | aborted
  | timeout
  | responseCommitted
  | illegalState (detail : String)
  | invalidConfig (detail : String)
  | handler (text : String)
  | handlerOf (cause : Fault)
  | handlerIo (kind : ErrorKind) (text : String)
  | handlerIoOf (kind : ErrorKind) (cause : Fault)
  deriving DecidableEq

/-- An error as it crosses a byte stream: a kind with a text or with a fault inside. -/
inductive SystemError
  | plain (kind : ErrorKind) (text : String)
  | carrying (kind : ErrorKind) (cause : Fault)
  deriving DecidableEq

def JsonFlaw.text : JsonFlaw → String
  | .malformed => "malformed text"
  | .mistyped => "value of a wrong type"
  | .truncated => "unexpected end of text"

namespace Fault

/-- The text shown for a fault. A carried fault is shown in full behind its carrier's words. -/
def message : Fault → String
  | io _ text => "I/O error: " ++ text
  | ioOf _ cause => "I/O error: " ++ cause.message
  | json flaw => "JSON error: " ++ flaw.text
  | encoding detail => "Encoding error: " ++ detail
  | aborted => "Operation aborted"
  | timeout => "Timed out waiting on shared buffer"
  | responseCommitted => "Response already committed"
  | illegalState detail => "Illegal state: " ++ detail
  | invalidConfig detail => "Invalid configuration: " ++ detail
  | handler text => "Handler failed: " ++ text
  | handlerOf cause => "Handler failed: " ++ cause.message
  | handlerIo _ text => "Handler failed: " ++ text
  | handlerIoOf _ cause => "Handler failed: " ++ cause.message

/-- A fault is an abort if it is one under any number of system errors. The failure of a handler
hides what it carries. -/
def isAborted : Fault → Bool
  | aborted => true
  | ioOf _ cause => cause.isAborted
  | _ => false

/-- A system error inside a fault comes out as it is. Any other fault becomes the payload of a new
one, whose kind tells aborts and timeouts from the rest. -/
def toSystem : Fault → SystemError
  | io kind text => .plain kind text
  | ioOf kind cause => .carrying kind cause
  | aborted => .carrying .connectionAborted aborted
  | timeout => .carrying .timedOut timeout
  | fault => .carrying .other fault

def ofSystem : SystemError → Fault
  | .plain kind text => io kind text
  | .carrying kind cause => ioOf kind cause

/-- The failure of a handler that was stopped by a system error. -/
def ofHandler : SystemError → Fault
  | .plain kind text => handlerIo kind text
  | .carrying kind cause => handlerIoOf kind cause

def writeAfterEnd : Fault := illegalState "write after end of stream"

def fillAfterEnd : Fault := illegalState "fill after end of stream"

end Fault

namespace SystemError

def kind : SystemError → ErrorKind
  | plain kind _ => kind
  | carrying kind _ => kind

def message : SystemError → String
  | plain _ text => text
  | carrying _ cause => cause.message

/-- The fault carried directly inside, if any. -/
def inner : SystemError → Option Fault
  | plain _ _ => none
  | carrying _ cause => some cause

end SystemError
end Sluice
