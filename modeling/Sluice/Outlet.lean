import Sluice.Conduit
import Sluice.Transport

/-!
The buffer through which a body goes out: the worker writes, the reactor flushes into a channel and
ends it there once the worker has completed the body. Each operation is one critical section, and
those that make the reactor's help necessary answer the channel to be asked for it afterwards.
-/
namespace Sluice

/-- A conduit for bytes on their way out, the channel of the last flush, and whether the end of the
body was passed on. -/
structure Outlet (ι : Type) where
  conduit : Conduit
  channel : Option ι
  signalled : Bool
  deriving DecidableEq

namespace Outlet

variable {ι σ : Type}

def ofSettings (settings : BufferSettings) : Except Fault (Outlet ι) :=
  (Conduit.ofSettings settings).map fun conduit => ⟨conduit, none, false⟩

/-- Complete the body. To do so again changes nothing, and nobody is asked. -/
def complete (outlet : Outlet ι) : Except Fault (Option ι) × Outlet ι :=
  if outlet.conduit.aborted then (.error .aborted, outlet)
  else if outlet.conduit.ended then (.ok none, outlet)
  else (.ok outlet.channel, { outlet with conduit := outlet.conduit.finish })

/-- Let a channel take bytes, and wake the writers if it took any. It cannot take more than there
are, whatever it reports. -/
def drain [Transport ι σ] (outlet : Outlet ι) (ch : ι) (s : σ) :
    Except Fault Unit × Outlet ι × σ :=
  if outlet.conduit.bytes.isEmpty then (.ok (), outlet, s)
  else match Transport.write ch outlet.conduit.bytes s with
    | (.error fault, s) => (.error fault, outlet, s)
    | (.ok written, s) =>
      let conduit := outlet.conduit.drop written
      (.ok (), { outlet with conduit := if 0 < written then conduit.wake else conduit }, s)

/-- Pass the end on, once, when the body is complete and drained. -/
def signal [Transport ι σ] (outlet : Outlet ι) (ch : ι) (s : σ) :
    Except Fault Unit × Outlet ι × σ :=
  if outlet.conduit.bytes.isEmpty ∧ outlet.conduit.ended ∧ ¬outlet.signalled then
    let (result, s) := Transport.endStream ch none s
    (result, { outlet with signalled := true }, s)
  else (.ok (), outlet, s)

/-- Move as much into a channel as it takes, then the end. The channel is kept for requests. -/
def flush [Transport ι σ] (outlet : Outlet ι) (ch : ι) (s : σ) :
    Except Fault Unit × Outlet ι × σ :=
  let outlet := { outlet with channel := some ch }
  if outlet.conduit.aborted then (.error .aborted, outlet, s)
  else match outlet.drain ch s with
    | (.error fault, outlet, s) => (.error fault, outlet, s)
    | (.ok (), outlet, s) => outlet.signal ch s

def abort (outlet : Outlet ι) : Option ι × Outlet ι :=
  if outlet.conduit.aborted then (none, outlet)
  else (outlet.channel, { outlet with conduit := outlet.conduit.abort })

def length (outlet : Outlet ι) : Nat := outlet.conduit.length

def text (outlet : Outlet ι) : String :=
  "SharedOutputBuffer \x7b length: " ++ toString outlet.length ++ ", capacity: " ++
    toString outlet.conduit.capacity ++ ", end_stream: " ++ toString outlet.conduit.ended ++
    ", end_signalled: " ++ toString outlet.signalled ++ ", aborted: " ++
    toString outlet.conduit.aborted ++ " \x7d"

end Outlet
end Sluice
