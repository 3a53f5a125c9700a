import Sluice.Fault

/-!
Executors take blocking work off the reactor.
-/
namespace Sluice

/-- Starts a thread for each task and numbers them from zero. -/
structure ThreadPool where
  stem : String
  started : Nat
  deriving DecidableEq

namespace ThreadPool

def named (stem : String) : ThreadPool := ⟨stem, 0⟩

def default : ThreadPool := named "bodybridge-worker"

def start (pool : ThreadPool) : String × ThreadPool :=
  (pool.stem ++ "-" ++ toString pool.started, { pool with started := pool.started + 1 })

def startMany : Nat → ThreadPool → List String × ThreadPool
  | 0, pool => ([], pool)
  | n + 1, pool =>
    let (name, pool) := pool.start
    let (names, pool) := startMany n pool
    (name :: names, pool)

end ThreadPool

/-- Who runs the tasks: threads of their own, a runtime that is there already, or nobody any more. -/
inductive Executor
  | threads (pool : ThreadPool)
  | runtime
  | shutDown
  deriving DecidableEq

namespace Executor

def submit : Executor → Except Fault Unit × Executor
  | threads pool => (.ok (), threads pool.start.2)
  | runtime => (.ok (), runtime)
  | shutDown => (.error (.illegalState "executor shut down"), shutDown)

def noRuntime : Fault := .io .other "no runtime is running here"

end Executor
end Sluice
