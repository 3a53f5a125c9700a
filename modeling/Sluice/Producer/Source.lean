import Sluice.Producer.Core

/-!
Sources of application data. A producer calls its source once in each turn, and the source talks to
the producer until it is done.
-/
namespace Sluice

/-- What a source does in one turn: it writes and hears how much was taken, ends the stream, or is
done. -/
inductive Turn (κ α : Type)
  | done (outcome : α)
  | write (data : κ) (next : Except Fault Nat → Turn κ α)
  | endStream (next : Turn κ α)

/-- A source with its state. A turn answers whether it succeeded and the source afterwards. -/
class Source (τ : Type) (κ : outParam Type) where
  turn : τ → Turn κ (Except Fault Unit × τ)
  release : τ → τ

namespace Core

variable {γ κ ι σ : Type} [Coder γ κ] [Transport ι σ]

/-- A write from outside a turn. If anything was taken, the channel of the last turn is asked for
another one. -/
def post (core : Core γ ι) (hint : Nat) (data : κ) (s : σ) : Except Fault Nat × Core γ ι × σ :=
  let (result, core, s) := core.write hint data s
  match result with
  | .error fault => (.error fault, core, s)
  | .ok taken =>
    (.ok taken, core, if 0 < taken then Transport.requestOutput core.channel s else s)

/-- End the stream and ask for a turn. -/
def postEnd (core : Core γ ι) (s : σ) : Core γ ι × σ :=
  (core.endStream, Transport.requestOutput core.channel s)

end Core

namespace Turn

variable {γ κ ι σ α : Type} [Coder γ κ] [Transport ι σ]

/-- Let a source do its turn. Its writes ask for no other turn. -/
def run (hint : Nat) : Turn κ α → Core γ ι → σ → α × Core γ ι × σ
  | done outcome, core, s => (outcome, core, s)
  | write data next, core, s =>
    let (result, core, s) := core.write hint data s
    run hint (next result) core s
  | endStream next, core, s =>
    let (core, s) := core.postEnd s
    run hint next core s

end Turn
end Sluice
