import Sluice.Pump.Inbound

/-!
The far ends of pumps, played from a script: a byte sink with limits and faults, and a reader.
-/
namespace Sluice

/-- How a sink behaves: it takes at most `limit` bytes at once and `failAfter` bytes in all, never
answers while `pending`, and may fail to flush. -/
structure SinkManner where
  limit : Option Nat
  failAfter : Option Nat
  pending : Bool
  failFlush : Bool
  deriving DecidableEq

/-- A sink with what it took, write by write, and how often it was flushed. -/
structure PlayedSink where
  manner : SinkManner
  taken : Nat
  writes : List (List UInt8)
  flushes : Nat
  deriving DecidableEq

namespace PlayedSink

def ofManner (manner : SinkManner) : PlayedSink := ⟨manner, 0, [], 0⟩

/-- How much a sink takes of some bytes, or `none` if it has failed. -/
def portion (sink : PlayedSink) (length : Nat) : Option Nat :=
  let wanted := sink.manner.limit.elim length (min · length)
  match sink.manner.failAfter with
  | none => some wanted
  | some most => if most ≤ sink.taken then none else some (min wanted (most - sink.taken))

def write (sink : PlayedSink) (bytes : List UInt8) : Poll (Except Fault Nat) × PlayedSink :=
  if sink.manner.pending then (.pending, sink)
  else match sink.portion bytes.length with
    | none => (.ready (.error (.io .brokenPipe "peer gone")), sink)
    | some 0 => (.ready (.ok 0), sink)
    | some n => (.ready (.ok n),
        { sink with taken := sink.taken + n, writes := sink.writes ++ [bytes.take n] })

/-- A flush counts even if it fails. -/
def flush (sink : PlayedSink) : Poll (Except Fault Unit) × PlayedSink :=
  let sink := { sink with flushes := sink.flushes + 1 }
  if sink.manner.failFlush then (.ready (.error (.io .other "flush failed")), sink)
  else (.ready (.ok ()), sink)

def since (sink earlier : PlayedSink) : PlayedSink :=
  { sink with
    writes := sink.writes.drop earlier.writes.length
    flushes := sink.flushes - earlier.flushes }

def isQuiet (sink : PlayedSink) : Bool := sink.writes.isEmpty && sink.flushes == 0

instance : ByteSink PlayedSink := ⟨write, flush⟩

end PlayedSink

/-- What a played reader has in store: bytes, a poll without an answer, or a fault. -/
inductive ReaderItem
  | bytes (bytes : List UInt8)
  | pending
  | fail

/-- A reader that plays its items and then ends. -/
structure PlayedReader where
  items : List ReaderItem

namespace PlayedReader

/-- Read at most `room` bytes of the next item that has any. -/
def readItems (room : Nat) :
    List ReaderItem → Poll (Except Fault (List UInt8)) × List ReaderItem
  | [] => (.ready (.ok []), [])
  | .pending :: items => (.pending, items)
  | .fail :: items => (.ready (.error (.io .connectionReset "read failed")), items)
  | .bytes [] :: items => readItems room items
  | .bytes bytes :: items =>
    (.ready (.ok (bytes.take room)),
      if bytes.length ≤ room then items else .bytes (bytes.drop room) :: items)

instance : ByteReader PlayedReader where
  read reader room :=
    let (answer, items) := readItems room reader.items
    (answer, ⟨items⟩)

end PlayedReader
end Sluice
