import Workflow.Worker
/-!
Workers that follow a script: for each resource what to do at the first call, the second and so on.
The last step is repeated. The worker remembers its calls.
-/

namespace Workflow

inductive ScriptStep where
  | fail (error : String)
  | give (output : Json)
  /-- The input inside a note of who had it. -/
  | wrap
  | echo
  deriving DecidableEq

def ScriptStep.perform (resource : String) (input : Json) : ScriptStep → Except String Json
  | .fail error => .error error
  | .give output => .ok output
  | .wrap => .ok (.record [("by", .text resource), ("in", input)])
  | .echo => .ok input

structure Script where
  steps : Dict (List ScriptStep)
  /-- The codes of errors that are not their own code. -/
  codes : Dict String

namespace Script

def stepAt (script : Script) (resource : String) (earlier : Nat) : ScriptStep :=
  let steps := (script.steps.get? resource).getD []
  (steps[earlier]?.or steps.getLast?).getD .echo

def codeOf (script : Script) (error : String) : String :=
  (script.codes.get? error).getD error

/-- A worker that follows the script and remembers its calls, oldest first. -/
def worker (script : Script) : Worker (List Call) String :=
  { run := fun resource input calls =>
      let step := script.stepAt resource (calls.countP (·.1 == resource))
      (step.perform resource input, calls ++ [(resource, input)])
    code := fun error calls => (script.codeOf error, calls) }

end Script

end Workflow
