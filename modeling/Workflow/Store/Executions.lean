import Workflow.Execution.Codec
import Workflow.Site
/-!
Handles on executions. A handle either holds the record of its execution, which then travels in the
context, or names a record in the table of its site. All operations go through that one record.
-/

namespace Workflow

structure Execution where
  id : String
  /-- The record, where it is not in the site's table. -/
  held : Option ExecutionRecord
  deriving DecidableEq

structure Handle where
  execution : Execution
  site : Site
  deriving DecidableEq

namespace Execution

def spaceName : String := "execution"

def definitionKey : String := "definition_id"

def stateKey : String := "state"

def resultKey : String := "result"

def opened (site : Site) (id : String) : Execution :=
  { id
    held := if site.central then none else some .blank }

/-- The members of a record that are there. -/
def recordSlice (record : ExecutionRecord) : Slice :=
  .ofList <|
    optionalMember definitionKey record.definitionId .text ++
    optionalMember stateKey record.state (·.toJson) ++
    optionalMember resultKey record.result (·.toJson)

/-- The execution's entries in a context: all that the handle holds. -/
def slice (execution : Execution) : Slice :=
  match execution.held with
  | some record => recordSlice record
  | none => .empty

end Execution

namespace Handle

open Execution (definitionKey stateKey resultKey)

def record (handle : Handle) : Except ComponentError ExecutionRecord :=
  match handle.execution.held with
  | some record => .ok record
  | none =>
    match handle.site.table.get? handle.execution.id with
    | some record => .ok record
    | none => .error (.executionNotFound handle.execution.id)

def setRecord (handle : Handle) (record : ExecutionRecord) : Handle :=
  match handle.execution.held with
  | some _ => { handle with execution.held := some record }
  | none =>
    { handle with site.table := handle.site.table.insert handle.execution.id record }

def getRecord : Action Handle ExecutionRecord := do
  Action.ofComponent (← get).record

def modifyRecord (f : ExecutionRecord → ExecutionRecord) : Action Handle Unit := do
  let record ← getRecord
  modify (·.setRecord (f record))

/-- Stores the definition that the execution follows. In a table the execution starts over. -/
def register (machine : Machine) : Action Handle Unit := do
  let handle ← get
  let (id, library) := handle.site.definitions.put machine handle.site.library
  let record := handle.execution.held.getD .blank
  set ({ handle with site.library := library }.setRecord { record with definitionId := some id })

def definition : Action Handle Machine := do
  let record ← getRecord
  let handle ← get
  match record.definitionId with
  | none => throw (.component (.notInitialized handle.execution.id))
  | some id =>
    let (machine, library) := handle.site.definitions.hydrate id handle.site.library
    set { handle with site.library := library }
    Action.ofComponent machine

def current : Action Handle (Option ExecutionState × Option ExecutionResult) := do
  let record ← getRecord
  return (record.state, record.result)

def changeState (name : String) (data : Option Json) : Action Handle Unit :=
  modifyRecord fun record => { record with state := some { name, data } }

/-- Replaces the payload at the state that the execution is at. -/
def updateData (data : Json) : Action Handle Unit := do
  let record ← getRecord
  let handle ← get
  match record.state with
  | none => throw (.component (.noStateInFlight handle.execution.id))
  | some state => set (handle.setRecord { record with state := some { state with data } })

/-- An execution with a result is at no state. -/
def setResult (result : ExecutionResult) : Action Handle Unit :=
  modifyRecord fun record => { record with state := none, result := some result }

/-- Takes the record over from a slice, member by member. A record in a table stays. -/
def adopt (slice : Slice) : Action Handle Unit := do
  if (← get).execution.held.isSome then
    let id ← Action.ofContext (slice.require .text definitionKey)
    modifyRecord fun record => { record with definitionId := some id }
    let state ← Action.ofContext (slice.getAs? ExecutionState.decode stateKey)
    modifyRecord fun record => { record with state }
    let result ← Action.ofContext (slice.getAs? ExecutionResult.decode resultKey)
    modifyRecord fun record => { record with result }

end Handle

end Workflow
