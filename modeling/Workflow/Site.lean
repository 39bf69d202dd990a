import Workflow.Execution.Basic
import Workflow.Identifier
import Workflow.Log
import Workflow.Queue
import Workflow.Store.Definitions
/-!
A site: the stores, the log and the queue that executors work with. An action on a site keeps what
it has done when it fails.
-/

namespace Workflow

inductive ExecutorError where
  | component (error : ComponentError)
  | context (error : ContextError)
  | unknownState (name : String)
  | notAtTask (name kind : String)
  | noTaskInFlight
  | alreadyFinished (status : Status)
  deriving DecidableEq

def ExecutorError.message : ExecutorError → String
  | .component error => error.message
  | .context error => error.message
  | .unknownState name => s!"State '{name}' does not exist in the definition"
  | .notAtTask name kind => s!"State '{name}' is a {kind} state, not a Task"
  | .noTaskInFlight => "No task is in flight"
  | .alreadyFinished status => "Execution already finished with status " ++ status.name

structure ExecutionRecord where
  definitionId : Option String
  state : Option ExecutionState
  result : Option ExecutionResult
  deriving DecidableEq

def ExecutionRecord.blank : ExecutionRecord :=
  { definitionId := none
    state := none
    result := none }

structure Site where
  library : Library
  definitions : DefinitionStore
  /-- Whether executions are kept in the site's table, or carried in their context. -/
  central : Bool
  table : Dict ExecutionRecord
  log : List LogLine
  queue : Queue
  /-- Why tasks are turned away, while they are. -/
  rejection : Option String
  issued : Nat
  deriving DecidableEq

/-- The name of the shelf, and of the store, of a site that shares neither. -/
def homeShelf : String := "definitions"

namespace Site

def fresh (central : Bool) : Site :=
  { library := .empty
    definitions := .plain homeShelf
    central
    table := .empty
    log := []
    queue := .empty
    rejection := none
    issued := 0 }

end Site

/-- An action on a state of type `σ`, which can fail; the state is what it is after a failure, too. -/
abbrev Action (σ α : Type) := EStateM ExecutorError σ α

namespace Action

variable {σ τ α : Type}

def ofComponent : Except ComponentError α → Action σ α
  | .ok value => pure value
  | .error error => throw (.component error)

def ofContext : Except ContextError α → Action σ α
  | .ok value => pure value
  | .error error => throw (.context error)

def onPart (get : τ → σ) (put : τ → σ → τ) (action : Action σ α) : Action τ α := fun state =>
  match action (get state) with
  | .ok value part => .ok value (put state part)
  | .error error part => .error error (put state part)

end Action

namespace Site

def freshId : Action Site String := do
  let site ← get
  set { site with issued := site.issued + 1 }
  return Identifier.spell site.issued

/-- Hands a task to whoever works off the queue. -/
def handOff (task : QueuedTask) (site : Site) : Except ComponentError Site :=
  match site.rejection with
  | some reason => .error (.dispatchFailed task.resource reason)
  | none => .ok { site with queue := site.queue.push task }

end Site

end Workflow
