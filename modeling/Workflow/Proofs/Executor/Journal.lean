import Workflow.Proofs.Executor.Arrival

/-!
# What a call writes

The lines of a call are told by who writes them and by what the call comes to. The record, and where
it is kept, has no part in them.
-/

namespace Workflow

/-- The log, and who is writing to it. -/
structure Journal where
  logger : Logger
  lines : List LogLine

namespace Journal

/-- The journal with one more line. -/
def written (journal : Journal) (resource state message : String) : Journal :=
  let (logger, line) :=
    journal.logger.write (logMessage journal.logger.executorId resource state message)
  { logger
    lines := journal.lines ++ [line] }

/-- The journal after an execution has come to `progress`. A result is written down at the given
resource and state. -/
def arrived (journal : Journal) (resource name : String) (progress : Progress)
    (rejection : Option String) : Journal :=
  match progress, rejection with
  | .done result, _ => journal.written resource name ("finished " ++ result.status.name)
  | .pending name resource _, none => journal.written resource name "dispatching"
  | .pending name resource _, some reason =>
    (journal.written resource name "dispatching").written resource name
      ("dispatch failed: " ++ (ComponentError.dispatchFailed resource reason).message)

end Journal

namespace Stage

def journal (stage : Stage) : Journal :=
  { logger := stage.executor.logger
    lines := stage.site.log }

variable (stage : Stage) (record : ExecutionRecord) (resource name message : String)
  (progress : Progress)

@[simp]
theorem journal_logged :
    (stage.logged resource name message).journal = stage.journal.written resource name message :=
  rfl

@[simp]
theorem journal_queued (task : QueuedTask) : (stage.queued task).journal = stage.journal :=
  rfl

@[simp]
theorem journal_withRecord : (stage.withRecord record).journal = stage.journal := by
  obtain ⟨⟨⟨id, held⟩, executorId, sequence⟩, site⟩ := stage
  cases held <;> rfl

theorem journal_arrived :
    (stage.arrived resource name record progress).journal =
      stage.journal.arrived resource name progress stage.site.rejection := by
  unfold arrived Journal.arrived
  cases progress with
  | done result => rw [journal_withRecord, journal_logged]
  | pending state taskResource payload =>
      cases stage.site.rejection with
      | none => rw [journal_queued, journal_logged, journal_withRecord]
      | some reason => rw [journal_logged, journal_logged, journal_withRecord]

end Stage

end Workflow
