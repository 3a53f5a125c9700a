import Sluice.Producer

/-!
A source that plays a list of actions and keeps a log of them.
-/
namespace Sluice

/-- Data that a coder can take in part: its size in units, and what is left behind some units. -/
class Divisible (κ : Type) where
  size : κ → Nat
  drop : Nat → κ → κ

instance : Divisible (List UInt8) := ⟨List.length, List.drop⟩

/-- Text is measured in bytes of UTF-8. -/
instance : Divisible (List Char) := ⟨Text.utf8Length, Text.dropUtf8⟩

/-- `write` comes back with the rest in the next turn after a short write, `attempt` drops the rest
and goes on; `pause` ends the turn. -/
inductive Action (κ : Type)
  | write (data : κ)
  | attempt (data : κ)
  | endStream
  | pause
  | fail (text : String)

/-- What a source did and heard. -/
inductive Entry
  | wrote (result : Except Fault Nat)
  | ended
  | paused
  | failed

/-- The actions to come, the log since the page was turned, and how often the source was released. -/
structure Script (κ : Type) where
  queue : List (Action κ)
  log : List Entry
  released : Nat

namespace Script

variable {κ : Type} [Divisible κ]

def ofActions (queue : List (Action κ)) : Script κ := ⟨queue, [], 0⟩

def leave (script : Script κ) (queue : List (Action κ)) (log : List Entry) : Script κ :=
  { script with queue, log := log.reverse }

/-- Play actions up to a pause, a fault, a short write or the end of the list. -/
def play (script : Script κ) (log : List Entry) :
    List (Action κ) → Turn κ (Except Fault Unit × Script κ)
  | [] => .done (.ok (), script.leave [] log)
  | .write data :: queue => .write data fun
    | .error fault => .done (.error fault, script.leave queue (.wrote (.error fault) :: log))
    | .ok taken =>
      let log := .wrote (.ok taken) :: log
      if taken < Divisible.size data then
        .done (.ok (), script.leave (.write (Divisible.drop taken data) :: queue) log)
      else play script log queue
  | .attempt data :: queue => .write data fun
    | .error fault => .done (.error fault, script.leave queue (.wrote (.error fault) :: log))
    | .ok taken => play script (.wrote (.ok taken) :: log) queue
  | .endStream :: queue => .endStream (play script (.ended :: log) queue)
  | .pause :: queue => .done (.ok (), script.leave queue (.paused :: log))
  | .fail text :: queue => .done (.error (.handler text), script.leave queue (.failed :: log))

instance : Source (Script κ) κ where
  turn script := play script script.log.reverse script.queue
  release script := { script with released := script.released + 1 }

def push (script : Script κ) (actions : List (Action κ)) : Script κ :=
  { script with queue := script.queue ++ actions }

def turnPage (script : Script κ) : Script κ := { script with log := [], released := 0 }

end Script
end Sluice
