import Workflow.Executor
/-!
Workers. A worker does the work of a task and names the code of an error; it remembers what it likes
in a state of its own, of type `ρ`, and its errors are of type `ε`.
-/

namespace Workflow

structure Worker (ρ ε : Type) where
  run : String → Json → ρ → Except ε Json × ρ
  /-- The code that catchers know an error by. -/
  code : ε → ρ → String × ρ

abbrev Call := String × Json

namespace Worker

variable {ρ ε : Type}

/-- The output of a task or the code of its error. The code is asked for only after an error. -/
def perform (worker : Worker ρ ε) (resource : String) (input : Json) (memory : ρ) :
    Except String Json × ρ :=
  match worker.run resource input memory with
  | (.ok output, memory) => (.ok output, memory)
  | (.error error, memory) =>
    let (code, memory) := worker.code error memory
    (.error code, memory)

def runTask (worker : Worker ρ ε) (resource : String) (input : Json) :
    Action (Stage × ρ) Outcome := fun (stage, memory) =>
  match Stage.taskInFlight stage with
  | .error error stage => .error error (stage, memory)
  | .ok (name, task) stage =>
    let (report, memory) := worker.perform resource input memory
    match Stage.recordReport name task report stage with
    | .ok outcome stage => .ok outcome (stage, memory)
    | .error error stage => .error error (stage, memory)

/-- Takes the oldest task of the queue and runs it. A task whose context is of no use goes back. -/
def runNext (worker : Worker ρ ε) : Action (Site × ρ) (Option Outcome) := fun (site, memory) =>
  match site.queue.take with
  | (none, _) => .ok none (site, memory)
  | (some task, queue) =>
    match Executor.hydrate task.context { site with queue } with
    | .error error site => .error error ({ site with queue := site.queue.putBack task }, memory)
    | .ok executor site =>
      match worker.runTask task.resource task.input ({ executor, site }, memory) with
      | .ok outcome (stage, memory) => .ok (some outcome) (stage.site, memory)
      | .error error (stage, memory) => .error error (stage.site, memory)

/-- Runs queued tasks until there is none, but no more than `limit` of them. -/
def drain (worker : Worker ρ ε) : (limit : Nat) → Action (Site × ρ) (List Outcome)
  | 0 => return []
  | limit + 1 => do
    match ← worker.runNext with
    | none => return []
    | some outcome =>
      let outcomes ← drain worker limit
      return outcome :: outcomes

/-- Runs queued tasks until there is none. After `limit` of them none may be left. -/
def runUntilIdle (worker : Worker ρ ε) (limit : Nat) : Action (Site × ρ) (List Outcome) := do
  let outcomes ← worker.drain limit
  let (site, _) ← get
  match site.queue.pending with
  | [] => return outcomes
  | task :: _ =>
    throw (.component (.dispatchFailed task.resource s!"still pending after {limit} tasks"))

end Worker

end Workflow
