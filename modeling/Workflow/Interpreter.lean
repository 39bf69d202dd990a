import Workflow.Worker
/-!
What a machine does, told without queue, context, table or log. A machine is either at a task whose
work is not done or has a result; the report of the task takes it on. Names of states that are not
there lead nowhere.
-/

namespace Workflow

/-- What a machine has come to. -/
inductive Progress where
  | pending (state resource : String) (payload : Json)
  | done (result : ExecutionResult)
  deriving DecidableEq

namespace Progress

def outcome : Progress → Outcome
  | .pending state resource _ => .suspended state resource
  | .done result => .finished result

end Progress

/-- What happened while a worker took a machine on, oldest first, and what came of it. -/
structure Trace where
  calls : List Call
  outcomes : List Outcome
  progress : Progress
  deriving DecidableEq

namespace Trace

def start (progress : Progress) : Trace :=
  { calls := []
    outcomes := []
    progress }

def after (call : Call) (outcome : Outcome) (trace : Trace) : Trace :=
  { trace with
    calls := call :: trace.calls
    outcomes := outcome :: trace.outcomes }

end Trace

namespace Machine

def enter? (machine : Machine) (name : String) (payload : Json) : Option Progress :=
  (machine.state? name).map fun
    | .task task => .pending name task.resource payload
    | .succeed _ => .done (.succeeded none)
    | .fail failure => .done (.failed failure.error failure.cause)

/-- Where the report of a task leads. -/
def complete? (machine : Machine) (task : TaskState) : Except String Json → Option Progress
  | .ok output =>
    match task.next with
    | some next => machine.enter? next output
    | none => some (.done (.succeeded (some output)))
  | .error code =>
    match task.catchers.find? fun catcher => code ∈ catcher.codes ∨ anyError ∈ catcher.codes with
    | some catcher => machine.enter? catcher.next .emptyObject
    | none => some (.done (.failed taskFailed noMatchingCatcher))

variable {ρ ε : Type}

/-- Lets a worker do pending tasks, no more than `limit` of them. -/
def run? (machine : Machine) (worker : Worker ρ ε) :
    (limit : Nat) → Progress → ρ → Option (Trace × ρ)
  | 0, progress, memory => some (.start progress, memory)
  | _ + 1, .done result, memory => some (.start (.done result), memory)
  | limit + 1, .pending state resource payload, memory => do
    let task ← (machine.state? state).bind (·.task?)
    let (report, memory) := worker.perform resource payload memory
    let progress ← machine.complete? task report
    let (trace, memory) ← run? machine worker limit progress memory
    return (trace.after (resource, payload) progress.outcome, memory)

end Machine

end Workflow
