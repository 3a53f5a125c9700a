import Sluice.Exchange.Handler

/-!
Handlers that answer a body with a body.
-/
namespace Sluice

/-- What a replying handler does: it writes a chunk back as it comes or changed, writes the whole
body reversed, or reads once and writes nothing. -/
inductive Manner
  | chunkwise (change : List UInt8 → List UInt8)
  | reversed
  | silent

def upper (b : UInt8) : UInt8 := if 97 ≤ b && b ≤ 122 then b - 32 else b

/-- A replying handler that reads some number of bytes at once, with the body kept so far and its
next move. -/
structure Replier where
  manner : Manner
  chunk : Nat
  body : List UInt8
  move : Move

namespace Replier

def ofManner (manner : Manner) (chunk : Nat) : Replier := ⟨manner, chunk, [], .act (.read chunk)⟩

def choose (r : Replier) (move : Move) : Replier := { r with move }

/-- What follows a chunk. An empty one is the end of the body. -/
def afterChunk (r : Replier) (bytes : List UInt8) : Replier :=
  match r.manner with
  | .silent => r.choose (.finish (.ok ()))
  | .chunkwise change =>
    r.choose (if bytes.isEmpty then .finish (.ok ()) else .act (.write (change bytes)))
  | .reversed =>
    if bytes.isEmpty then { r with body := [], move := .act (.write r.body.reverse) }
    else { r with body := r.body ++ bytes, move := .act (.read r.chunk) }

def afterWrite (r : Replier) : Replier :=
  match r.manner with
  | .chunkwise _ => r.choose (.act (.read r.chunk))
  | _ => r.choose (.finish (.ok ()))

def hear (answer : Answer) (r : Replier) : Replier :=
  match answer with
  | .noInput => r.afterChunk []
  | .bytes (.ok bytes) => r.afterChunk bytes
  | .count (.ok _) | .plain (.ok ()) => r.afterWrite
  | .bytes (.error e) | .count (.error e) => r.choose (.finish (.error (.ofSystem e)))
  | .plain (.error fault) => r.choose (.finish (.error fault))

instance : Handler Replier where
  next _ r := (r.move, r)
  hear := hear
  release r := r

end Replier

end Sluice
