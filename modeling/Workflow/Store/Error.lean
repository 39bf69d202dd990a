/-!
What can go wrong in a store or when a task is handed off.
-/

namespace Workflow

inductive ComponentError where
  | definitionNotFound (id : String)
  | executionNotFound (id : String)
  | notInitialized (executionId : String)
  | noStateInFlight (executionId : String)
  | dispatchFailed (resource reason : String)
  deriving DecidableEq

def ComponentError.message : ComponentError → String
  | .definitionNotFound id => s!"definition '{id}' not found"
  | .executionNotFound id => s!"execution '{id}' not found"
  | .notInitialized executionId => s!"Execution '{executionId}' has not been initialized"
  | .noStateInFlight executionId => s!"Execution '{executionId}' has no state in flight"
  | .dispatchFailed resource reason => s!"Dispatch of '{resource}' failed: {reason}"

end Workflow
