/-!
Catchers: which state a task's failure leads to.
-/

namespace Workflow

/-- The code that stands for every error. -/
def anyError : String := "States.ALL"

/-- The code of a failure of which nothing more is known. -/
def taskFailed : String := "States.TaskFailed"

structure Catcher where
  codes : List String
  next : String
  deriving DecidableEq

namespace Catcher

def ofAnyError (next : String) : Catcher :=
  { codes := [anyError]
    next }

def ofTaskFailed (next : String) : Catcher :=
  { codes := [taskFailed]
    next }

def handles (catcher : Catcher) (code : String) : Bool :=
  catcher.codes.any fun listed => listed == code || listed == anyError

theorem handles_iff (catcher : Catcher) (code : String) :
    catcher.handles code = true ↔ code ∈ catcher.codes ∨ anyError ∈ catcher.codes := by
  simp only [handles, List.any_eq_true, Bool.or_eq_true, beq_iff_eq]
  constructor
  · rintro ⟨listed, hmem, rfl | rfl⟩
    · exact .inl hmem
    · exact .inr hmem
  · rintro (h | h)
    · exact ⟨_, h, .inl rfl⟩
    · exact ⟨_, h, .inr rfl⟩

def first? (catchers : List Catcher) (code : String) : Option Catcher :=
  catchers.find? (·.handles code)

end Catcher

end Workflow
