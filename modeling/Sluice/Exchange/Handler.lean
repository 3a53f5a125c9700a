import Sluice.Exchange.Call

/-!
Handlers of requests, written against blocking streams.
-/
namespace Sluice

/-- What a handler does next: a call, its end with a result, its death, or something of its own that
takes time. -/
inductive Move
  | act (act : Act)
  | finish (result : Except Fault Unit)
  | crash
  | rest

/-- A handler with its state `τ`. It sees its session, chooses its next move and hears the answer to
each call. `release` is for when its exchange has failed or is given up. -/
class Handler (τ : Type) where
  next : Session → τ → Move × τ
  hear : Answer → τ → τ
  release : τ → τ

end Sluice
