import Workflow.Decode.Record
import Workflow.Definition.Machine
/-!
Reading machines. A state names its type in one of its members, wherever it stands, or in its first
item; the rest is its content, read as the record of that type.
-/

namespace Workflow

open Json (Node Key readKey)

namespace Catcher

structure Draft where
  codes : Option (List String) := none
  next : Option String := none

def recordForm : Record Draft Catcher :=
  { name := "Catcher"
    blank := {}
    fields :=
      [.required "ErrorEquals" (·.codes) (fun draft codes => { draft with codes }) (.list .text),
        .required "Next" (·.next) (fun draft next => { draft with next }) .text]
    finish := fun draft => do
      let codes ← need "ErrorEquals" draft.codes
      let next ← need "Next" draft.next
      return { codes, next } }

def decode : Decoder Catcher :=
  recordForm.decode

end Catcher

namespace TaskState

/-- A task as it is written, with `Next` and `End` side by side. -/
structure Document where
  resource : String
  next : Option String
  ends : Option Bool
  catchList : Option (List Catcher)
  comment : Option String

structure Draft where
  resource : Option String := none
  next : Option (Option String) := none
  ends : Option (Option Bool) := none
  catchList : Option (Option (List Catcher)) := none
  comment : Option (Option String) := none

def recordForm : Record Draft Document :=
  { name := "TaskDocument"
    blank := {}
    fields :=
      [.required "Resource" (·.resource) (fun draft resource => { draft with resource }) .text,
        .defaulted "Next" (·.next) (fun draft next => { draft with next }) (.optional .text),
        .defaulted "End" (·.ends) (fun draft ends => { draft with ends }) (.optional .bool),
        .defaulted "Catch" (·.catchList) (fun draft catchList => { draft with catchList })
          (.optional (.list Catcher.decode)),
        .defaulted "Comment" (·.comment) (fun draft comment => { draft with comment })
          (.optional .text)]
    finish := fun draft => do
      let resource ← need "Resource" draft.resource
      return {
        resource
        next := draft.next.join
        ends := draft.ends.join
        catchList := draft.catchList.join
        comment := draft.comment.join } }

/-- A task either goes on to a next state or ends, never both. -/
def ofDocument (document : Document) : Except DecodeError TaskState :=
  let task : TaskState :=
    { resource := document.resource
      next := document.next
      catchList := document.catchList
      comment := document.comment }
  match document.next, document.ends with
  | some _, some true => .error (.nextAndEnd document.resource)
  | some _, _ => .ok task
  | none, some true => .ok task
  | none, _ => .error (.neitherNextNorEnd document.resource)

def decode : Decoder TaskState := fun origin node => do
  ofDocument (← recordForm.decode origin node)

end TaskState

namespace FailState

structure Draft where
  error : Option String := none
  cause : Option String := none
  comment : Option (Option String) := none

def recordForm : Record Draft FailState :=
  { name := "FailState"
    blank := {}
    fields :=
      [.required "Error" (·.error) (fun draft error => { draft with error }) .text,
        .required "Cause" (·.cause) (fun draft cause => { draft with cause }) .text,
        .defaulted "Comment" (·.comment) (fun draft comment => { draft with comment })
          (.optional .text)]
    finish := fun draft => do
      let error ← need "Error" draft.error
      let cause ← need "Cause" draft.cause
      return { error, cause, comment := draft.comment.join } }

def decode : Decoder FailState :=
  recordForm.decode

end FailState

namespace State

inductive Kind where
  | task
  | succeed
  | fail
  deriving DecidableEq

def Kind.known : List (String × Kind) :=
  [("Task", .task), ("Succeed", .succeed), ("Success", .succeed), ("Fail", .fail)]

def Kind.decode : Decoder Kind :=
  .variant known (known.map (·.1))

/-- The comment of a state that succeeds, which is all it can hold. -/
def succeedForm : Record (Option (Option String)) (Option String) :=
  { name := "SucceedState"
    blank := none
    fields := [.defaulted "Comment" id (fun _ comment => comment) (.optional .text)]
    finish := fun draft => .ok draft.join }

/-- The name of the member that tells the type of a state. -/
def typeKey : String := "Type"

/-- The type among the members of a state, and the other members. All are read as they come. -/
def splitMembers (origin : Origin) :
    List (Key × Node) → Option Kind → Except DecodeError (Option Kind × List (Key × Node))
  | [], kind => .ok (kind, [])
  | (key, node) :: rest, kind => do
    let name ← readKey key
    if name = typeKey then
      if kind.isSome then
        .error (.duplicateField typeKey)
      else
        let kind ← Kind.decode origin node
        splitMembers origin rest (some kind)
    else
      let _ ← node.toJson origin
      let (kind, others) ← splitMembers origin rest kind
      return (kind, (key, node) :: others)

/-- The type of a state and its content. -/
def split (origin : Origin) : Node → Except DecodeError (Kind × Node)
  | .object members ending => do
    let origin ← origin.enter
    let (kind, others) ← splitMembers origin members none
    Workflow.checked ending.fault?
    let kind ← need typeKey kind
    return (kind, .object others .closed)
  | .array (item :: rest) ending => do
    let origin ← origin.enter
    let kind ← Kind.decode origin item
    let _ ← Json.itemsToJson origin rest
    Workflow.checked ending.fault?
    return (kind, .array rest .closed)
  | .array [] ending => do
    let _ ← origin.enter
    Workflow.checked ending.fault?
    .error (.missingField typeKey)
  | node => .error (node.mismatch .taggedState)

def decodeContent (content : Node) : Kind → Except DecodeError State
  | .task => (TaskState.decode .content content).map .task
  | .succeed => (succeedForm.decode .content content).map .succeed
  | .fail => (FailState.decode .content content).map .fail

def decode : Decoder State := fun origin node => do
  let (kind, content) ← split origin node
  decodeContent content kind

end State

namespace Machine

structure Draft where
  states : Option (Dict State) := none
  startAt : Option String := none
  comment : Option (Option String) := none
  version : Option String := none
  timeoutSeconds : Option (Option UInt64) := none

def recordForm : Record Draft Machine :=
  { name := "StateMachine"
    blank := {}
    fields :=
      [.required "States" (·.states) (fun draft states => { draft with states })
          (.dict State.decode),
        .required "StartAt" (·.startAt) (fun draft startAt => { draft with startAt }) .text,
        .defaulted "Comment" (·.comment) (fun draft comment => { draft with comment })
          (.optional .text),
        .defaulted "Version" (·.version) (fun draft version => { draft with version }) .text,
        .defaulted "TimeoutSeconds" (·.timeoutSeconds)
          (fun draft timeoutSeconds => { draft with timeoutSeconds }) (.optional .word64)]
    finish := fun draft => do
      let states ← need "States" draft.states
      let startAt ← need "StartAt" draft.startAt
      return {
        states
        startAt
        comment := draft.comment.join
        version := draft.version.getD defaultVersion
        timeoutSeconds := draft.timeoutSeconds.join } }

/-- A machine of the right shape, whose references are not checked. -/
def decode : Decoder Machine :=
  recordForm.decode

def ofDecoded : Except DecodeError Machine → Except ParseError Machine
  | .ok machine => machine.checked
  | .error error => .error (.document error)

def ofJson (json : Json) : Except ParseError Machine :=
  ofDecoded (decode.ofJson json)

def ofText (text : String) : Except ParseError Machine :=
  ofDecoded (decode.ofText text)

end Machine

end Workflow
