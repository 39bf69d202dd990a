import Workflow.Site
/-!
Putting a site together from its parts, all of which are needed.
-/

namespace Workflow

inductive WiringError where
  | noDefinitionStore
  | noExecutionStore
  | noLogger
  | noDispatcher
  deriving DecidableEq

/-- A missing part, and the two names of the call that provides it. -/
def WiringError.advice (part call argument : String) : String :=
  s!"{part} not specified. Call .{call}({argument}) before .build()"

def WiringError.message : WiringError → String
  | .noDefinitionStore => advice "Definition store" "definition_store" "store"
  | .noExecutionStore => advice "Execution store" "execution_store" "store"
  | .noLogger => advice "Logger factory" "logger_factory" "factory"
  | .noDispatcher => advice "Task dispatcher" "task_dispatcher" "dispatcher"

structure Wiring where
  definitions : Option DefinitionStore
  /-- Whether executions are kept in a table. -/
  central : Option Bool
  log : Option (List LogLine)
  queue : Option Queue

namespace Wiring

def empty : Wiring :=
  { definitions := none
    central := none
    log := none
    queue := none }

def ofSite (site : Site) : Wiring :=
  { definitions := some site.definitions
    central := some site.central
    log := some site.log
    queue := some site.queue }

/-- The site of the parts, or what is missing first. -/
def build (wiring : Wiring) : Except WiringError Site :=
  match wiring.definitions, wiring.central, wiring.log, wiring.queue with
  | none, _, _, _ => .error .noDefinitionStore
  | _, none, _, _ => .error .noExecutionStore
  | _, _, none, _ => .error .noLogger
  | _, _, _, none => .error .noDispatcher
  | some definitions, some central, some log, some queue =>
    .ok { Site.fresh central with definitions, log, queue }

end Wiring

end Workflow
