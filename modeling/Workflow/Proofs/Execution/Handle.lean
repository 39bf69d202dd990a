import Workflow.Proofs.Action
import Workflow.Store.Executions

/-!
# Handles and their records

What the operations of a handle do to the record that it stands for. Which of the two places the record
is kept in shows in none of them.
-/

namespace Workflow.Handle

theorem record_of_held {handle : Handle} {record : ExecutionRecord}
    (hheld : handle.execution.held = some record) : handle.record = .ok record := by
  rw [Handle.record, hheld]

theorem record_of_tabled {handle : Handle} {record : ExecutionRecord}
    (hheld : handle.execution.held = none)
    (htable : handle.site.table.get? handle.execution.id = some record) :
    handle.record = .ok record := by
  unfold Handle.record
  simp only [hheld, htable]

theorem record_of_untabled {handle : Handle} (hheld : handle.execution.held = none)
    (htable : handle.site.table.get? handle.execution.id = none) :
    handle.record = .error (.executionNotFound handle.execution.id) := by
  unfold Handle.record
  simp only [hheld, htable]

theorem record_congr {handle other : Handle} (hexecution : other.execution = handle.execution)
    (htable : other.site.table.get? handle.execution.id =
      handle.site.table.get? handle.execution.id) : other.record = handle.record := by
  unfold Handle.record
  rw [hexecution, htable]

theorem record_setRecord (handle : Handle) (record : ExecutionRecord) :
    (handle.setRecord record).record = .ok record := by
  obtain ⟨⟨id, held⟩, site⟩ := handle
  cases held with
  | none => exact record_of_tabled rfl (Dict.get?_insert_self site.table id record)
  | some before => exact record_of_held rfl

variable {handle : Handle} {record : ExecutionRecord}

theorem getRecord_of_ok (h : handle.record = .ok record) : getRecord handle = .ok record handle := by
  unfold getRecord
  rw [Action.bind_of_ok (Action.get_apply handle), h]
  rfl

theorem modifyRecord_of_ok (h : handle.record = .ok record) (f : ExecutionRecord → ExecutionRecord) :
    modifyRecord f handle = .ok () (handle.setRecord (f record)) := by
  unfold modifyRecord
  rw [Action.bind_of_ok (getRecord_of_ok h), Action.modify_apply]

theorem updateData_of_ok (h : handle.record = .ok record) {state : ExecutionState}
    (hstate : record.state = some state) (data : Json) :
    updateData data handle =
      .ok () (handle.setRecord { record with state := some { state with data := some data } }) := by
  unfold updateData
  rw [Action.bind_of_ok (getRecord_of_ok h), Action.bind_of_ok (Action.get_apply handle), hstate]
  rfl

theorem updateData_of_stateless (h : handle.record = .ok record) (hstate : record.state = none)
    (data : Json) :
    updateData data handle =
      .error (.component (.noStateInFlight handle.execution.id)) handle := by
  unfold updateData
  rw [Action.bind_of_ok (getRecord_of_ok h), Action.bind_of_ok (Action.get_apply handle), hstate]
  rfl

theorem current_of_ok (h : handle.record = .ok record) :
    current handle = .ok (record.state, record.result) handle := by
  unfold current
  rw [Action.bind_of_ok (getRecord_of_ok h), Action.pure_apply]

end Workflow.Handle
