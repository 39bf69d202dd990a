import Workflow.Json.Node
import Workflow.Json.Printer
import Workflow.Text.Quoted
/-!
Why a JSON value cannot be decoded, and the wording of each cause.
-/

namespace Workflow

open Json (Found)

namespace Json.Found

def describe : Found → String
  | .null => "null"
  | .bool value => s!"boolean `{value}`"
  | .number (.integer n low high) =>
    "integer `" ++ String.ofList (Number.integer n low high).chars ++ "`"
  | .number (.double x) => "floating point `" ++ String.ofList x.chars ++ "`"
  | .text value => "string " ++ Text.quoted value
  | .array => "sequence"
  | .object => "map"

end Json.Found

inductive Expected where
  | bool
  | word32
  | word64
  | text
  | list
  | dict
  | unit
  | variant
  | taggedState
  /-- A status, written as text or as an object. -/
  | textOrDict
  | singleMember
  | record (name : String)
  | recordItems (name : String) (count : Nat)
  | fewerItems
  | items (count : Nat)
  deriving DecidableEq

namespace Expected

def countItems (count : Nat) : String :=
  if count = 1 then "1 element" else s!"{count} elements"

def describe : Expected → String
  | .bool => "a boolean"
  | .word32 => "u32"
  | .word64 => "u64"
  | .text => "a string"
  | .list => "a sequence"
  | .dict => "a map"
  | .unit => "unit"
  | .variant => "variant identifier"
  | .taggedState => "internally tagged enum State"
  | .textOrDict => "string or map"
  | .singleMember => "map with a single key"
  | .record name => s!"struct {name}"
  | .recordItems name count => s!"struct {name} with {countItems count}"
  | .fewerItems => "fewer elements in array"
  | .items count => s!"{countItems count} in sequence"

end Expected

inductive DecodeError where
  | unreadable (error : ReadError)
  | invalidType (found : Found) (expected : Expected)
  | invalidValue (found : Found) (expected : Expected)
  | invalidLength (length : Nat) (expected : Expected)
  | unknownVariant (name : String) (known : List String)
  | missingField (name : String)
  | duplicateField (name : String)
  /-- A task that goes on and ends. -/
  | nextAndEnd (resource : String)
  /-- A task that neither goes on nor ends. -/
  | neitherNextNorEnd (resource : String)
  deriving DecidableEq

namespace DecodeError

def category : DecodeError → ErrorCategory
  | .unreadable error => error.category
  | _ => .shape

def message : DecodeError → String
  | .unreadable error => error.message
  | .invalidType found expected =>
    "invalid type: " ++ found.describe ++ ", expected " ++ expected.describe
  | .invalidValue found expected =>
    "invalid value: " ++ found.describe ++ ", expected " ++ expected.describe
  | .invalidLength length expected => s!"invalid length {length}, expected " ++ expected.describe
  | .unknownVariant name known =>
    s!"unknown variant `{name}`, expected one of " ++
      ", ".intercalate (known.map fun name => s!"`{name}`")
  | .missingField name => s!"missing field `{name}`"
  | .duplicateField name => s!"duplicate field `{name}`"
  | .nextAndEnd resource => s!"Task '{resource}' declares both Next and End"
  | .neitherNextNorEnd resource =>
    s!"Task '{resource}' must declare either Next or \"End\": true"

end DecodeError

end Workflow
