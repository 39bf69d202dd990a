import Workflow.Interpreter
import Workflow.Proofs.Execution.Handle
import Workflow.Proofs.Executor.Transport
import Workflow.Proofs.Store.Library

/-!
# What the calls of an executor change

A call changes the record of its execution, the log, and the queue, and nothing else. Three changes
of a stage are named here, with what each leaves alone, and the operations on a record are put as
such changes. Which of the two places a record is kept in does not show any more after that.
-/

namespace Workflow

theorem Executor.ext_fields {first second : Executor}
    (hid : first.executionId = second.executionId)
    (hheld : first.execution.held = second.execution.held)
    (hexecutorId : first.executorId = second.executorId)
    (hsequence : first.sequence = second.sequence) : first = second := by
  obtain ⟨⟨id, held⟩, executorId, sequence⟩ := first
  obtain ⟨⟨otherId, otherHeld⟩, otherExecutorId, otherSequence⟩ := second
  obtain rfl : id = otherId := hid
  obtain rfl : held = otherHeld := hheld
  obtain rfl : executorId = otherExecutorId := hexecutorId
  obtain rfl : sequence = otherSequence := hsequence
  rfl

namespace Stage

/-- The stage with another record of the execution, in the place where it is kept. -/
def withRecord (stage : Stage) (record : ExecutionRecord) : Stage :=
  stage.putHandle (stage.handle.setRecord record)

/-- The stage with one more line in the execution's log. -/
def logged (stage : Stage) (resource state message : String) : Stage :=
  let line := stage.executor.logger.write
    (logMessage stage.executor.executorId resource state message)
  { stage with executor.sequence := line.1.sequence, site.log := stage.site.log ++ [line.2] }

/-- The stage with one more task in the queue. -/
def queued (stage : Stage) (task : QueuedTask) : Stage :=
  { stage with site.queue := stage.site.queue.push task }

/-- The stage's execution has the record, and the library has the machine that it follows. -/
structure Stands (stage : Stage) (record : ExecutionRecord) (machine : Machine) : Prop where
  isLocal : stage.site.IsLocal
  recorded : stage.handle.record = .ok record
  follows : ∃ id, record.definitionId = some id ∧
    stage.site.library.find? stage.site.definitions.home id = some machine

variable (stage : Stage) (record second : ExecutionRecord) (resource state message : String)
  (task : QueuedTask)

section WithRecord

@[simp]
theorem executionId_withRecord :
    (stage.withRecord record).executor.executionId = stage.executor.executionId := by
  unfold withRecord Handle.setRecord
  split <;> rfl

@[simp]
theorem executorId_withRecord :
    (stage.withRecord record).executor.executorId = stage.executor.executorId := by
  unfold withRecord Handle.setRecord
  split <;> rfl

@[simp]
theorem sequence_withRecord :
    (stage.withRecord record).executor.sequence = stage.executor.sequence := by
  unfold withRecord Handle.setRecord
  split <;> rfl

theorem held_withRecord :
    (stage.withRecord record).executor.execution.held =
      stage.executor.execution.held.map fun _ => record := by
  unfold withRecord Handle.setRecord
  cases hheld : stage.executor.execution.held with
  | none => simp [handle, putHandle, hheld]
  | some before => simp [handle, putHandle, hheld]

theorem table_withRecord :
    (stage.withRecord record).site.table =
      if stage.executor.execution.held.isSome then stage.site.table
      else stage.site.table.insert stage.executor.executionId record := by
  unfold withRecord Handle.setRecord
  cases hheld : stage.executor.execution.held with
  | none => simp [handle, putHandle, hheld, Executor.executionId]
  | some before => simp [handle, putHandle, hheld]

theorem site_withRecord :
    (stage.withRecord record).site =
      { stage.site with table := (stage.withRecord record).site.table } := by
  unfold withRecord Handle.setRecord
  split <;> rfl

@[simp]
theorem record_withRecord : (stage.withRecord record).handle.record = .ok record :=
  Handle.record_setRecord stage.handle record

@[simp]
theorem withRecord_withRecord :
    (stage.withRecord record).withRecord second = stage.withRecord second := by
  obtain ⟨⟨⟨id, held⟩, executorId, sequence⟩, site⟩ := stage
  cases held with
  | none => simp [withRecord, handle, putHandle, Handle.setRecord]
  | some before => rfl

theorem logged_withRecord :
    (stage.withRecord record).logged resource state message =
      (stage.logged resource state message).withRecord record := by
  obtain ⟨⟨⟨id, held⟩, executorId, sequence⟩, site⟩ := stage
  cases held <;> rfl

end WithRecord

section Operations

variable {stage record} {α : Type}

theorem onHandle_of_ok {action : Action Handle α} {handle : Handle} {value : α}
    (h : action stage.handle = .ok value handle) :
    onHandle action stage = .ok value (stage.putHandle handle) :=
  Action.onPart_of_ok h

theorem getRecord_of_recorded (h : stage.handle.record = .ok record) :
    Handle.getRecord stage.handle = .ok record stage.handle :=
  Handle.getRecord_of_ok h

theorem modifyRecord_of_recorded (h : stage.handle.record = .ok record)
    (f : ExecutionRecord → ExecutionRecord) :
    onHandle (Handle.modifyRecord f) stage = .ok () (stage.withRecord (f record)) :=
  onHandle_of_ok (Handle.modifyRecord_of_ok h f)

theorem changeState_of_recorded (h : stage.handle.record = .ok record) (name : String)
    (data : Option Json) :
    onHandle (Handle.changeState name data) stage =
      .ok () (stage.withRecord { record with state := some { name, data } }) :=
  modifyRecord_of_recorded h _

theorem setResult_of_recorded (h : stage.handle.record = .ok record) (result : ExecutionResult) :
    onHandle (Handle.setResult result) stage =
      .ok () (stage.withRecord { record with state := none, result := some result }) :=
  modifyRecord_of_recorded h _

theorem updateData_of_recorded (h : stage.handle.record = .ok record) {state : ExecutionState}
    (hstate : record.state = some state) (data : Json) :
    onHandle (Handle.updateData data) stage =
      .ok () (stage.withRecord { record with state := some { state with data := some data } }) :=
  onHandle_of_ok (Handle.updateData_of_ok h hstate data)

theorem current_of_recorded (h : stage.handle.record = .ok record) :
    current stage = .ok (record.state, record.result) stage :=
  onHandle_of_ok (Handle.current_of_ok h)

theorem definition_of_stands {machine : Machine} (h : stage.Stands record machine) :
    definition stage = .ok machine stage := by
  obtain ⟨id, hid, hfind⟩ := h.follows
  have hydrated : stage.site.definitions.hydrate id stage.site.library =
      (.ok machine, stage.site.library) :=
    DefinitionStore.hydrate_of_found h.isLocal.front hfind
  have hdefinition : Handle.definition stage.handle = .ok machine stage.handle := by
    unfold Handle.definition
    rw [Action.bind_of_ok (getRecord_of_recorded h.recorded),
      Action.bind_of_ok (Action.get_apply _), hid]
    change ((set { stage.handle with
        site.library := (stage.site.definitions.hydrate id stage.site.library).2 } :
          Action Handle PUnit) >>= fun _ =>
      Action.ofComponent (stage.site.definitions.hydrate id stage.site.library).1) _ = _
    rw [hydrated, Action.bind_of_ok (Action.set_apply _ _)]
    rfl
  exact onHandle_of_ok hdefinition

end Operations

end Stage

end Workflow
