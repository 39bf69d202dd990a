import Workflow.Decode.Record
import Workflow.Definition.Encode
import Workflow.Execution.Basic
/-!
The stored form of states and results.
-/

namespace Workflow

open Json (Node Key ObjectEnd readKey)

namespace ExecutionState

structure Draft where
  name : Option String := none
  data : Option Json := none

def recordForm : Record Draft ExecutionState :=
  { name := "ExecutionState"
    blank := {}
    fields :=
      [.required "Name" (·.name) (fun draft name => { draft with name }) .text,
        .defaulted "Data" (·.data) (fun draft data => { draft with data }) .json]
    finish := fun draft => do
      let name ← need "Name" draft.name
      return { name, data := draft.data } }

def decode : Decoder ExecutionState :=
  recordForm.decode

def toJson (state : ExecutionState) : Json :=
  .record (("Name", .text state.name) :: optionalMember "Data" state.data id)

end ExecutionState

namespace Status

def known : List (String × Status) :=
  [("SUCCEEDED", .succeeded), ("FAILED", .failed), ("TIMED_OUT", .timedOut), ("ABORTED", .aborted)]

def ofName : Decoder Status :=
  .variant known (known.map (·.1))

/-- What is wrong with a text in which a status in object form is not closed. -/
def closingFault? : ObjectEnd → Option ReadError
  | .closed | .unreached => none
  | .cut => some .endInObject
  | .junk | .noKey | .comma | .commaCut | .commaNoKey => some .expectedValue

/-- What is wrong with an object that holds no name where the status should be. -/
def missingName : ObjectEnd → ReadError
  | .cut => .endInObject
  | .noKey => .keyNotText
  | _ => .expectedValue

/-- A status in object form: its name with null as the value. -/
def decodeMember (origin : Origin) (key : Key) (value : Node) : Except DecodeError Status := do
  let status ← ofName origin (.text key)
  Decoder.unit origin value
  return status

def decode : Decoder Status := fun origin node =>
  match origin with
  | .text _ =>
    match node with
    | .text _ => ofName origin node
    | .object members ending => do
      let origin ← origin.enter
      match members with
      | [] => .error (.unreadable (missingName ending))
      | [(key, value)] =>
        let status ← decodeMember origin key value
        checked (closingFault? ending)
        return status
      | (key, value) :: _ :: _ =>
        let _ ← decodeMember origin key value
        .error (.unreadable .expectedValue)
    | .absent error => .error (.unreadable error)
    | _ => .error (.unreadable .expectedValue)
  | .value | .content =>
    match node with
    | .text _ => ofName origin node
    | .object [(key, value)] _ => decodeMember origin key value
    | .object _ _ => .error (.invalidValue .object .singleMember)
    | node => .error (node.mismatch .textOrDict)

end Status

namespace ExecutionResult

structure Draft where
  status : Option Status := none
  output : Option Json := none

def recordForm : Record Draft ExecutionResult :=
  { name := "ExecutionResult"
    blank := {}
    fields :=
      [.required "Status" (·.status) (fun draft status => { draft with status }) Status.decode,
        .defaulted "Output" (·.output) (fun draft output => { draft with output }) .json]
    finish := fun draft => do
      let status ← need "Status" draft.status
      return { status, output := draft.output } }

def decode : Decoder ExecutionResult :=
  recordForm.decode

def toJson (result : ExecutionResult) : Json :=
  .record (("Status", .text result.status.name) :: optionalMember "Output" result.output id)

end ExecutionResult

end Workflow
