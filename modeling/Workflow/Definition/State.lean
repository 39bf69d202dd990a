import Workflow.Definition.Catcher
/-!
The states of a machine: tasks, which hand work to a resource, and the two ways to end.
-/

namespace Workflow

structure TaskState where
  resource : String
  /-- The state after a success; a task without one ends the machine. -/
  next : Option String
  /-- A list without catchers is told apart from none. -/
  catchList : Option (List Catcher)
  comment : Option String
  deriving DecidableEq

namespace TaskState

def catchers (task : TaskState) : List Catcher :=
  task.catchList.getD []

def catcherFor? (task : TaskState) (code : String) : Option Catcher :=
  Catcher.first? task.catchers code

end TaskState

structure FailState where
  error : String
  cause : String
  comment : Option String
  deriving DecidableEq

inductive State where
  | task (task : TaskState)
  | succeed (comment : Option String)
  | fail (failure : FailState)
  deriving DecidableEq

namespace State

def typeName : State → String
  | .task _ => "Task"
  | .succeed _ => "Succeed"
  | .fail _ => "Fail"

def comment : State → Option String
  | .task work => work.comment
  | .succeed comment => comment
  | .fail failure => failure.comment

def isEnd : State → Bool
  | .task work => work.next.isNone
  | .succeed _ | .fail _ => true

def task? : State → Option TaskState
  | .task work => some work
  | .succeed _ | .fail _ => none

end State

end Workflow
