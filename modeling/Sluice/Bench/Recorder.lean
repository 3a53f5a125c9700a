import Sluice.Transport

/-!
A data channel that records what happens to it, and one that can also be told to misbehave.
-/
namespace Sluice

/-- Everything that was written, the sizes of the writes, how often the end and more output were
asked for, and the last trailers. At most `limit` bytes are taken at once. -/
structure Recorder where
  data : List UInt8
  writes : List Nat
  ends : Nat
  requests : Nat
  trailers : Option Http.Headers
  limit : Option Nat
  deriving DecidableEq

namespace Recorder

def withLimit (limit : Option Nat) : Recorder := ⟨[], [], 0, 0, none, limit⟩

def isEnded (r : Recorder) : Bool := 0 < r.ends

/-- Take as much as the limit allows. Behind the end every write fails, an empty one too. -/
def write (r : Recorder) (bytes : List UInt8) : Except Fault Nat × Recorder :=
  if r.isEnded then (.error .writeAfterEnd, r)
  else
    let taken := r.limit.elim bytes.length (min · bytes.length)
    if taken = 0 then (.ok 0, r)
    else (.ok taken, { r with data := r.data ++ bytes.take taken, writes := r.writes ++ [taken] })

def requestOutput (r : Recorder) : Recorder := { r with requests := r.requests + 1 }

def endStream (r : Recorder) (trailers : Option Http.Headers) : Recorder :=
  { r with ends := r.ends + 1, trailers }

def since (r earlier : Recorder) : Recorder :=
  { r with
    data := r.data.drop earlier.data.length
    writes := r.writes.drop earlier.writes.length
    ends := r.ends - earlier.ends
    requests := r.requests - earlier.requests }

def cut : List Nat → List UInt8 → List (List UInt8)
  | [], _ => []
  | n :: sizes, bytes => bytes.take n :: cut sizes (bytes.drop n)

def pieces (r : Recorder) : List (List UInt8) := cut r.writes r.data

def isQuiet (r : Recorder) : Bool := r.writes.isEmpty && r.requests == 0 && r.ends == 0

end Recorder

/-- How a channel misbehaves: writes fail, the end fails, or writes report more than they took. -/
structure Misbehaviour where
  failWrite : Bool
  failEnd : Bool
  excess : Nat
  deriving DecidableEq

/-- A recording channel with faults. -/
structure FaultyRecorder where
  recorder : Recorder
  faults : Misbehaviour
  deriving DecidableEq

namespace FaultyRecorder

def write (f : FaultyRecorder) (bytes : List UInt8) : Except Fault Nat × FaultyRecorder :=
  if f.faults.failWrite then (.error (.io .brokenPipe "channel write failed"), f)
  else
    let (result, recorder) := f.recorder.write bytes
    (result.map (· + f.faults.excess), { f with recorder })

def requestOutput (f : FaultyRecorder) : FaultyRecorder :=
  { f with recorder := f.recorder.requestOutput }

def endStream (f : FaultyRecorder) (trailers : Option Http.Headers) :
    Except Fault Unit × FaultyRecorder :=
  if f.faults.failEnd then (.error (.io .connectionReset "channel end failed"), f)
  else (.ok (), { f with recorder := f.recorder.endStream trailers })

/-- Change the limit and the faults of a channel and keep what it recorded. -/
def rewire (f : FaultyRecorder) (limit : Option Nat) (faults : Misbehaviour) : FaultyRecorder :=
  { recorder := { f.recorder with limit }, faults }

end FaultyRecorder

/-- Act on the entry at a place of a list, or answer `absent` if there is none. -/
def actAt {τ α : Type} (act : τ → α × τ) (absent : α) : Nat → List τ → α × List τ
  | _, [] => (absent, [])
  | 0, t :: ts =>
    let (a, t) := act t
    (a, t :: ts)
  | n + 1, t :: ts =>
    let (a, ts) := actAt act absent n ts
    (a, t :: ts)

/-- Recording channels named by their places in a list. -/
instance : Transport Nat (List FaultyRecorder) where
  write n bytes := actAt (·.write bytes) (.ok 0) n
  requestOutput n s := (actAt (fun f => ((), f.requestOutput)) () n s).2
  endStream n trailers := actAt (·.endStream trailers) (.ok ()) n

end Sluice
