import Workflow.Definition.Machine
import Workflow.Digest.Sha256
import Workflow.Json.Printer
/-!
Writing machines. Fields that are not set are left out and a task without a next state is marked as
an end, so every machine has one document; the digest of its text identifies the machine.
-/

namespace Workflow

def optionalMember {α : Type} (name : String) (value : Option α) (encode : α → Json) :
    List (String × Json) :=
  value.toList.map fun value => (name, encode value)

def Catcher.toJson (catcher : Catcher) : Json :=
  .record
    [("ErrorEquals", .array (catcher.codes.map .text)),
      ("Next", .text catcher.next)]

namespace State

def taskMembers (task : TaskState) : List (String × Json) :=
  ("Resource", .text task.resource) ::
    (match task.next with
      | some next => [("Next", .text next)]
      | none => [("End", .bool true)]) ++
    optionalMember "Catch" task.catchList (fun catchers => .array (catchers.map (·.toJson))) ++
    optionalMember "Comment" task.comment .text

def members : State → List (String × Json)
  | .task work => taskMembers work
  | .succeed comment => optionalMember "Comment" comment .text
  | .fail failure =>
    [("Error", .text failure.error), ("Cause", .text failure.cause)] ++
      optionalMember "Comment" failure.comment .text

def toJson (state : State) : Json :=
  .record (("Type", .text state.typeName) :: state.members)

end State

namespace Machine

def toJson (machine : Machine) : Json :=
  .record <|
    [("States", .object (machine.states.map (·.toJson))),
      ("StartAt", .text machine.startAt),
      ("Version", .text machine.version)] ++
    optionalMember "Comment" machine.comment .text ++
    optionalMember "TimeoutSeconds" machine.timeoutSeconds .ofUInt64

/-- The text of a machine's document. Machines with one text are equal. -/
def canonicalText (machine : Machine) : String :=
  machine.toJson.print

def contentHash (machine : Machine) : String :=
  Sha256.hexDigest machine.canonicalText

end Machine

end Workflow
