import Workflow.Decode.Error
import Workflow.Definition.State
import Workflow.Dict
/-!
State machines and the check of their references. `Machine.violations` lists every name that leads
nowhere and every catcher that lists no code; a machine is valid if there is none.
-/

namespace Workflow

/-- What is wrong with a machine of the right shape. -/
inductive Violation where
  | unknownStart (state : String)
  | unknownNext (state next : String)
  | unknownCatchNext (state : String) (index : Nat) (next : String)
  | emptyCatch (state : String) (index : Nat)
  deriving DecidableEq

def Violation.message : Violation → String
  | .unknownStart state => s!"StartAt names unknown state '{state}'"
  | .unknownNext state next => s!"State '{state}' transitions to unknown state '{next}'"
  | .unknownCatchNext state index next =>
    s!"Catcher {index} of state '{state}' transitions to unknown state '{next}'"
  | .emptyCatch state index => s!"Catcher {index} of state '{state}' has an empty ErrorEquals"

inductive ParseError where
  | document (error : DecodeError)
  | invalid (violations : List Violation)
  deriving DecidableEq

def ParseError.message : ParseError → String
  | .document error => "Malformed state machine document: " ++ error.message
  | .invalid violations =>
    "Invalid state machine definition: " ++ "; ".intercalate (violations.map (·.message))

structure Machine where
  states : Dict State
  startAt : String
  comment : Option String
  version : String
  timeoutSeconds : Option UInt64
  deriving DecidableEq

def defaultVersion : String := "1.0"

namespace Machine

def state? (machine : Machine) (name : String) : Option State :=
  machine.states.get? name

def knows (machine : Machine) (name : String) : Bool :=
  machine.states.contains name

def violationUnless (holds : Bool) (violation : Violation) : List Violation :=
  if holds then [] else [violation]

def catcherViolations (machine : Machine) (state : String) (catcher : Catcher) (index : Nat) :
    List Violation :=
  violationUnless (!catcher.codes.isEmpty) (.emptyCatch state index) ++
    violationUnless (machine.knows catcher.next) (.unknownCatchNext state index catcher.next)

def stateViolations (machine : Machine) (name : String) : State → List Violation
  | .task task =>
    (task.next.toList.flatMap fun next =>
      violationUnless (machine.knows next) (.unknownNext name next)) ++
    task.catchers.zipIdx.flatMap fun (catcher, index) =>
      machine.catcherViolations name catcher index
  | .succeed _ | .fail _ => []

/-- All violations: the start, then the states by name, and in a state its next state before its
catchers. -/
def violations (machine : Machine) : List Violation :=
  violationUnless (machine.knows machine.startAt) (.unknownStart machine.startAt) ++
    machine.states.entries.flatMap fun (name, state) => machine.stateViolations name state

def checked (machine : Machine) : Except ParseError Machine :=
  match machine.violations with
  | [] => .ok machine
  | violations => .error (.invalid violations)

/-- A machine of the given states with no more than it needs, unless a reference is wrong. -/
def ofStates (states : Dict State) (startAt : String) : Except ParseError Machine :=
  checked
    { states
      startAt
      comment := none
      version := defaultVersion
      timeoutSeconds := none }

end Machine

end Workflow
