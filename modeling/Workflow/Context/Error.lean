import Workflow.Decode.Error
/-!
What can go wrong when a context is put together, sent or taken apart.
-/

namespace Workflow

inductive ContextError where
  | missingKey (key : String)
  | invalidValue (key : String) (reason : DecodeError)
  | unsupportedVersion (found supported : UInt32)
  | collision (key : String)
  | invalidNamespace (name : String)
  | deserializationFailed (reason : DecodeError)
  deriving DecidableEq

def ContextError.message : ContextError → String
  | .missingKey key => s!"Context key '{key}' is missing"
  | .invalidValue key reason => s!"Context key '{key}' is invalid: " ++ reason.message
  | .unsupportedVersion found supported =>
    s!"Unsupported context version {found}, supported: {supported}"
  | .collision key => s!"Context key '{key}' is already taken"
  | .invalidNamespace name => s!"Invalid context namespace '{name}'"
  | .deserializationFailed reason => "Deserialization failed: " ++ reason.message

end Workflow
