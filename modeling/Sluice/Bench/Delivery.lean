import Sluice.Bench
import Sluice.Exchange.Worker

/-!
A whole exchange, in which worker and reactor take turns.
-/
namespace Sluice

/-- A reactor that delivers a body: what is left of it, how much was taken, and whether its end was
told. -/
structure Delivery where
  rest : List UInt8
  taken : Nat
  ended : Bool

namespace Delivery

def offer {τ : Type} (d : Delivery) (x : Exchange Line Line τ) : Delivery × Exchange Line Line τ :=
  if d.ended then (d, x)
  else
    let (result, x) := x.consume d.rest
    let n := result.toOption.getD 0
    let d := { d with rest := d.rest.drop n, taken := d.taken + n }
    if d.rest.isEmpty then ({ d with ended := true }, x.streamEnd.2) else (d, x)

/-- Let worker and reactor take turns until the first channel has seen the end, for at most the given
number of rounds. -/
def run {τ : Type} [Handler τ] (steps : Nat) :
    Nat → Delivery → Exchange Line Line τ → Bench → Delivery × Exchange Line Line τ × Bench
  | 0, d, x, b => (d, x, b)
  | rounds + 1, d, x, b =>
    let (_, x, b) := x.run steps b
    if (b.recorder 0).isEnded then (d, x, b)
    else
      let (d, x) := d.offer x
      let (_, x, b) := x.produce (Line.outside 0) b
      run steps rounds d x b

end Delivery
end Sluice
