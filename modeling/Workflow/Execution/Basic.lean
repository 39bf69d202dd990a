import Workflow.Json.Basic
/-!
Where an execution is, and how it ended. A payload that is null is told apart from none.
-/

namespace Workflow

/-- The state that an execution is at, and the payload it carries there. -/
structure ExecutionState where
  name : String
  data : Option Json
  deriving DecidableEq

inductive Status where
  | succeeded
  | failed
  | timedOut
  | aborted
  deriving DecidableEq

def Status.name : Status → String
  | .succeeded => "SUCCEEDED"
  | .failed => "FAILED"
  | .timedOut => "TIMED_OUT"
  | .aborted => "ABORTED"

structure ExecutionResult where
  status : Status
  output : Option Json
  deriving DecidableEq

namespace ExecutionResult

def succeeded (output : Option Json) : ExecutionResult :=
  { status := .succeeded
    output }

def failed (error cause : String) : ExecutionResult :=
  { status := .failed
    output := some (.record [("Error", .text error), ("Cause", .text cause)]) }

def isSuccess (result : ExecutionResult) : Bool :=
  result.status == .succeeded

end ExecutionResult

end Workflow
