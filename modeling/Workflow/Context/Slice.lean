import Workflow.Context.Error
import Workflow.Decode.Basic
/-!
The part of a context that one component owns, under that component's own keys.
-/

namespace Workflow

structure Slice where
  entries : Dict Json
  deriving DecidableEq

namespace Slice

def empty : Slice := ⟨.empty⟩

def ofList (entries : List (String × Json)) : Slice := ⟨.ofList entries⟩

def insert (slice : Slice) (key : String) (value : Json) : Slice :=
  { slice with entries := slice.entries.insert key value }

def get? (slice : Slice) (key : String) : Option Json :=
  slice.entries.get? key

/-- The decoded value under a key. Null stands for nothing. -/
def getAs? {α : Type} (decode : Decoder α) (slice : Slice) (key : String) :
    Except ContextError (Option α) :=
  match slice.get? key with
  | none => .ok none
  | some json =>
    if json.isNull then .ok none
    else
      match decode.ofJson json with
      | .ok value => .ok (some value)
      | .error reason => .error (.invalidValue key reason)

/-- The decoded value under a key that must be there. -/
def require {α : Type} (decode : Decoder α) (slice : Slice) (key : String) :
    Except ContextError α := do
  match ← slice.getAs? decode key with
  | some value => .ok value
  | none => .error (.missingKey key)

end Slice

end Workflow
