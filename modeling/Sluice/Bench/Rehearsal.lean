import Sluice.Exchange.Handler

/-!
A handler that is told its moves one by one and reports what came of each.
-/
namespace Sluice

/-- What a rehearsed handler is told: to make a call, to read to the end in windows of some room, to
return, to return the latest failure it has heard of, or to die. -/
inductive Cue
  | act (act : Act)
  | readAll (room : Nat) (got : List UInt8)
  | finish (result : Except Fault Unit)
  | propagate
  | crash

/-- What a rehearsed handler reports. -/
inductive Report
  | heard (answer : Answer)
  | gathered (bytes : List UInt8) (trouble : Option SystemError)

/-- The next cue, the report on the last one, the latest failure heard of, and how often the handler
was released. -/
structure Rehearsal where
  cue : Option Cue
  report : Option Report
  trouble : Option Fault
  released : Nat

def Answer.fault? : Answer → Option Fault
  | .bytes (.error e) | .count (.error e) => some (.ofSystem e)
  | .plain (.error fault) => some fault
  | _ => none

namespace Rehearsal

def silent : Rehearsal := ⟨none, none, none, 0⟩

def tell (r : Rehearsal) (cue : Cue) : Rehearsal := { r with cue := some cue, report := none }

def next (r : Rehearsal) : Move × Rehearsal :=
  match r.cue with
  | none => (.rest, r)
  | some (.act act) => (.act act, { r with cue := none })
  | some (.readAll room _) => (.act (.read room), r)
  | some (.finish result) => (.finish result, { r with cue := none })
  | some .propagate =>
    (.finish (r.trouble.elim (.ok ()) .error), { r with cue := none })
  | some .crash => (.crash, { r with cue := none })

def tellOf (r : Rehearsal) (report : Report) : Rehearsal :=
  { r with cue := none, report := some report }

def hear (answer : Answer) (r : Rehearsal) : Rehearsal :=
  let r := { r with trouble := answer.fault?.or r.trouble }
  match r.cue, answer with
  | some (.readAll _ got), .bytes (.ok []) => r.tellOf (.gathered got none)
  | some (.readAll room got), .bytes (.ok bytes) =>
    { r with cue := some (.readAll room (got ++ bytes)) }
  | some (.readAll _ got), .bytes (.error e) => r.tellOf (.gathered got (some e))
  | _, answer => r.tellOf (.heard answer)

instance : Handler Rehearsal where
  next _ := next
  hear := hear
  release r := { r with released := r.released + 1 }

end Rehearsal
end Sluice
