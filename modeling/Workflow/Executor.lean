import Workflow.Store.Executions
/-!
Executors. An executor takes one execution through its machine, from one task to the next: it hands
the task off and stops, and goes on once the outcome of the task is there. Between two calls all it
needs is in the site and in the context that it exports.
-/

namespace Workflow

structure Executor where
  execution : Execution
  executorId : String
  /-- The number of the last line in the execution's log. -/
  sequence : UInt64
  deriving DecidableEq

/-- Where a call has left an execution. -/
inductive Outcome where
  | suspended (state resource : String)
  | finished (result : ExecutionResult)
  deriving DecidableEq

structure Stage where
  executor : Executor
  site : Site
  deriving DecidableEq

/-- The cause of a failure that no catcher handles. -/
def noMatchingCatcher : String := "No matching catcher"

namespace Executor

def spaceName : String := "executor"

def executionIdKey : String := "execution_id"

def versionKey : String := "version"

def contextVersion : UInt32 := 1

def executionId (executor : Executor) : String :=
  executor.execution.id

def logger (executor : Executor) : Logger :=
  { executionId := executor.executionId
    executorId := executor.executorId
    sequence := executor.sequence }

def ownSlice (executor : Executor) : Slice :=
  .ofList
    [(executionIdKey, .text executor.executionId),
      (versionKey, .ofUInt32 contextVersion)]

/-- The context that another executor can take over from. -/
def context (executor : Executor) (site : Site) : Except ContextError Context := do
  let context ← Context.empty.merged spaceName executor.ownSlice
  let context ← context.merged site.definitions.spaceName site.definitions.slice
  let context ← context.merged Execution.spaceName executor.execution.slice
  context.merged Logger.spaceName executor.logger.slice

def createAs (executionId executorId : String) (machine : Machine) : Action Site Executor :=
  fun site =>
    match Handle.register machine { execution := .opened site executionId, site } with
    | .ok _ handle => .ok { execution := handle.execution, executorId, sequence := 0 } handle.site
    | .error error handle => .error error handle.site

def create (machine : Machine) : Action Site Executor := do
  let executionId ← Site.freshId
  let executorId ← Site.freshId
  createAs executionId executorId machine

def readOwnSlice (slice : Slice) : Except ContextError String := do
  let version ← slice.require .word32 versionKey
  if version ≠ contextVersion then
    .error (.unsupportedVersion version contextVersion)
  else
    slice.require .text executionIdKey

/-- Points the definition store to where the context says the definitions are. -/
def adoptDefinitions (context : Context) : Action Site Unit := do
  let site ← get
  let definitions ← Action.ofContext
    (site.definitions.adopt (context.slice site.definitions.spaceName))
  set { site with definitions }

def adoptExecution (id : String) (context : Context) : Action Site Execution := fun site =>
  match Handle.adopt (context.slice Execution.spaceName) { execution := .opened site id, site } with
  | .ok _ handle => .ok handle.execution handle.site
  | .error error handle => .error error handle.site

/-- Takes an execution over from its context. The parts are taken over one after the other, and
those in front of one that is wrong stay taken over. -/
def hydrateAs (executorId : String) (context : Context) : Action Site Executor := do
  let executionId ← Action.ofContext (readOwnSlice (context.slice spaceName))
  adoptDefinitions context
  let execution ← adoptExecution executionId context
  let sequence ← Action.ofContext (Logger.sequenceIn (context.slice Logger.spaceName))
  return { execution, executorId, sequence }

def hydrate (context : Context) : Action Site Executor := do
  let executor ← hydrateAs "" context
  let executorId ← Site.freshId
  return { executor with executorId }

end Executor

def Context.isExecution (context : Context) : Bool :=
  match (context.slice Executor.spaceName).get? Executor.executionIdKey with
  | some json => json.isText
  | none => false

namespace Stage

variable {α : Type}

def handle (stage : Stage) : Handle :=
  { execution := stage.executor.execution
    site := stage.site }

def putHandle (stage : Stage) (handle : Handle) : Stage :=
  { stage with executor.execution := handle.execution, site := handle.site }

def onHandle (action : Action Handle α) : Action Stage α :=
  .onPart handle putHandle action

def definition : Action Stage Machine :=
  onHandle Handle.definition

def current : Action Stage (Option ExecutionState × Option ExecutionResult) :=
  onHandle Handle.current

def log (resource state message : String) : Action Stage Unit :=
  modify fun stage =>
    let message := logMessage stage.executor.executorId resource state message
    let (logger, line) := stage.executor.logger.write message
    { stage with
      executor.sequence := logger.sequence
      site.log := stage.site.log ++ [line] }

def finish (resource state : String) (result : ExecutionResult) : Action Stage Outcome := do
  log resource state ("finished " ++ result.status.name)
  onHandle (Handle.setResult result)
  return .finished result

/-- Hands a task off with its input. Turned away, the execution stays at the task. -/
def handOff (name : String) (task : TaskState) (input : Json) : Action Stage Outcome := do
  onHandle (Handle.updateData input)
  log task.resource name "dispatching"
  let stage ← get
  let context ← Action.ofContext (stage.executor.context stage.site)
  match stage.site.handOff { resource := task.resource, input, context } with
  | .ok site =>
    set { stage with site }
    return .suspended name task.resource
  | .error error =>
    log task.resource name ("dispatch failed: " ++ error.message)
    throw (.component error)

/-- Enters the named state with a payload: a task is handed off, the other states end. -/
def enter (machine : Machine) (name : String) (input : Json) : Action Stage Outcome :=
  match machine.state? name with
  | none => throw (.unknownState name)
  | some (.succeed _) => finish "" name (.succeeded none)
  | some (.fail failure) => finish "" name (.failed failure.error failure.cause)
  | some (.task task) => handOff name task input

/-- Takes the execution on from where it is. One that has finished answers its result. -/
def dispatch (input : Json) : Action Stage Outcome := do
  let machine ← definition
  match ← current with
  | (some state, _) => enter machine state.name input
  | (none, some result) => return .finished result
  | (none, none) =>
    onHandle (Handle.changeState machine.startAt none)
    enter machine machine.startAt input

def taskInFlight : Action Stage (String × TaskState) := do
  match ← current with
  | (none, some result) => throw (.alreadyFinished result.status)
  | (none, none) => throw .noTaskInFlight
  | (some state, _) =>
    let machine ← definition
    match machine.state? state.name with
    | some (.task task) => return (state.name, task)
    | some other => throw (.notAtTask state.name other.typeName)
    | none => throw (.unknownState state.name)

def recordSuccess (name : String) (task : TaskState) (output : Json) : Action Stage Outcome := do
  match task.next with
  | none =>
    log task.resource name "succeeded"
    finish task.resource name (.succeeded (some output))
  | some next =>
    log task.resource name ("succeeded, next " ++ next)
    onHandle (Handle.changeState next none)
    dispatch output

/-- Records a failure of the task and goes on where the first catcher leads that handles it. -/
def recordFailure (name : String) (task : TaskState) (code : String) : Action Stage Outcome := do
  match task.catcherFor? code with
  | some catcher =>
    log task.resource name s!"failed with {code}, caught, next {catcher.next}"
    onHandle (Handle.changeState catcher.next (some .emptyObject))
    dispatch .emptyObject
  | none =>
    log task.resource name ("failed with " ++ code)
    finish task.resource name (.failed taskFailed noMatchingCatcher)

def recordReport (name : String) (task : TaskState) : Except String Json → Action Stage Outcome
  | .ok output => recordSuccess name task output
  | .error code => recordFailure name task code

end Stage

end Workflow
