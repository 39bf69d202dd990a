import Workflow.Proofs.Executor.View

/-!
# Calls go by the view

Every call of an executor answers by its view alone and makes changes that its view alone tells. So
two stages of one view can only come apart where a change writes down who makes it.
-/

namespace Workflow.Stage

variable {α β : Type}

/-- Wherever the view is this one, the action has this answer and makes these changes. -/
def Acts (action : Action Stage α) (view : View) (answer : Except ExecutorError α)
    (changes : List Change) : Prop :=
  ∀ stage : Stage, stage.site.definitions.announcement = none → stage.view = view →
    action stage = Action.leave answer (stage.changed changes)

/-- The view decides what the action answers and changes. -/
def IsUniform (action : Action Stage α) : Prop :=
  ∀ view, ∃ answer changes, Acts action view answer changes

section Combining

variable {action : Action Stage α} {next : α → Action Stage β} {view : View} {value : α}
  {changes later : List Change} {answer : Except ExecutorError β}

theorem Acts.bind (h : Acts action view (.ok value) changes)
    (hnext : Acts (next value) (view.changed changes) answer later) :
    Acts (action >>= next) view answer (changes ++ later) := by
  intro stage hannouncement hview
  have hfirst : action stage = .ok value (stage.changed changes) := h stage hannouncement hview
  have hlater : (stage.changed changes).view = view.changed changes := by
    rw [view_changed, hview]
  rw [Action.bind_of_ok hfirst, changed_append]
  apply hnext _ _ hlater
  rw [definitions_changed]
  exact hannouncement

theorem Acts.bind_error {error : ExecutorError} (h : Acts action view (.error error) changes)
    (next : α → Action Stage β) : Acts (action >>= next) view (.error error) changes := by
  intro stage hannouncement hview
  exact Action.bind_of_error (h stage hannouncement hview) next

theorem IsUniform.bind (h : IsUniform action) (hnext : ∀ value, IsUniform (next value)) :
    IsUniform (action >>= next) := by
  intro view
  obtain ⟨answer, changes, hacts⟩ := h view
  cases answer with
  | error error => exact ⟨_, changes, hacts.bind_error next⟩
  | ok value =>
      obtain ⟨last, later, hlater⟩ := hnext value (view.changed changes)
      exact ⟨last, changes ++ later, hacts.bind hlater⟩

theorem acts_pure (value : α) (view : View) : Acts (pure value) view (.ok value) [] := by
  intro stage _ _
  rfl

theorem isUniform_pure (value : α) : IsUniform (pure value) :=
  fun view => ⟨_, _, acts_pure value view⟩

theorem isUniform_throw (error : ExecutorError) : IsUniform (throw error : Action Stage α) :=
  fun _ => ⟨.error error, [], fun _ _ _ => rfl⟩

end Combining

section Operations

variable {stage : Stage} {error : ComponentError}

theorem onHandle_of_error {action : Action Handle α} {error : ExecutorError}
    (h : action stage.handle = .error error stage.handle) :
    onHandle action stage = .error error stage :=
  Action.onPart_of_error h

theorem getRecord_of_error (h : stage.handle.record = .error error) :
    Handle.getRecord stage.handle = .error (.component error) stage.handle := by
  unfold Handle.getRecord
  rw [Action.bind_of_ok (Action.get_apply stage.handle), h]
  rfl

/-- Without a record no operation on it does anything. -/
theorem onHandle_getRecord_bind {next : ExecutionRecord → Action Handle α}
    (h : stage.handle.record = .error error) :
    onHandle (Handle.getRecord >>= next) stage = .error (.component error) stage :=
  onHandle_of_error (Action.bind_of_error (getRecord_of_error h) next)

variable (view : View)

theorem acts_log (resource state message : String) :
    Acts (log resource state message) view (.ok ()) [.written resource state message] := by
  intro stage _ _
  rfl

theorem acts_current :
    Acts current view ((view.record.map fun record => (record.state, record.result)).mapError .component)
      [] := by
  rintro stage _ rfl
  change current stage = Action.leave ((stage.handle.record.map _).mapError _) stage
  cases hrecord : stage.handle.record with
  | error error => exact onHandle_getRecord_bind hrecord
  | ok record => exact current_of_recorded hrecord

theorem acts_modifyRecord (change : Change)
    (h : ∀ stage : Stage, stage.change change = stage.recorded change) :
    Acts (onHandle (Handle.modifyRecord (·.change change))) view
      ((view.record.map fun _ => ()).mapError .component) [change] := by
  rintro stage _ rfl
  change onHandle _ stage = Action.leave ((stage.handle.record.map _).mapError _) (stage.change change)
  rw [h]
  cases hrecord : stage.handle.record with
  | error error =>
      rw [stage.recorded_of_error hrecord]
      exact onHandle_getRecord_bind hrecord
  | ok record =>
      rw [stage.recorded_of_recorded hrecord]
      exact modifyRecord_of_recorded hrecord _

theorem acts_changeState (name : String) (data : Option Json) :
    Acts (onHandle (Handle.changeState name data)) view
      ((view.record.map fun _ => ()).mapError .component) [.entered { name, data }] :=
  acts_modifyRecord view (.entered { name, data }) fun _ => rfl

theorem acts_setResult (result : ExecutionResult) :
    Acts (onHandle (Handle.setResult result)) view
      ((view.record.map fun _ => ()).mapError .component) [.ended result] :=
  acts_modifyRecord view (.ended result) fun _ => rfl

theorem definition_of_undefined {record : ExecutionRecord} (h : stage.handle.record = .ok record)
    (hid : record.definitionId = none) :
    definition stage = .error (.component (.notInitialized stage.executor.executionId)) stage := by
  apply onHandle_of_error
  unfold Handle.definition
  rw [Action.bind_of_ok (getRecord_of_recorded h), Action.bind_of_ok (Action.get_apply _), hid]
  rfl

theorem definition_of_defined {record : ExecutionRecord} (h : stage.handle.record = .ok record)
    {id : String} (hid : record.definitionId = some id) :
    definition stage =
      Action.leave ((stage.site.definitions.hydrate id stage.site.library).1.mapError .component)
        { stage with site.library := (stage.site.definitions.hydrate id stage.site.library).2 } := by
  have hdefinition : Handle.definition stage.handle =
      Action.ofComponent (stage.site.definitions.hydrate id stage.site.library).1
        { stage.handle with
          site.library := (stage.site.definitions.hydrate id stage.site.library).2 } := by
    unfold Handle.definition
    rw [Action.bind_of_ok (getRecord_of_recorded h), Action.bind_of_ok (Action.get_apply _), hid]
    rfl
  cases hfound : (stage.site.definitions.hydrate id stage.site.library).1 with
  | error error =>
      rw [hfound] at hdefinition
      exact Action.onPart_of_error hdefinition
  | ok machine =>
      rw [hfound] at hdefinition
      exact Action.onPart_of_ok hdefinition

/-- The machine is looked up in the definition store, if the record names one. -/
theorem definition_apply (stage : Stage) :
    definition stage =
      Action.leave (stage.lookUp.1.mapError .component) (stage.change .fetched) := by
  change _ = Action.leave _ { stage with site.library := stage.lookUp.2 }
  cases hrecord : stage.handle.record with
  | error error =>
      have hlookUp : stage.lookUp = (.error error, stage.site.library) := by
        unfold lookUp
        rw [hrecord]
      rw [hlookUp]
      exact onHandle_getRecord_bind hrecord
  | ok record =>
      rw [lookUp_of_recorded _ hrecord]
      cases hid : record.definitionId with
      | none => exact definition_of_undefined hrecord hid
      | some id => exact definition_of_defined hrecord hid

theorem record_of_current {state : Option ExecutionState} {result : Option ExecutionResult}
    (h : current stage = .ok (state, result) stage) :
    ∃ record, stage.handle.record = .ok record ∧ record.state = state ∧ record.result = result := by
  cases hrecord : stage.handle.record with
  | error error =>
      have herror : current stage = .error (.component error) stage := onHandle_getRecord_bind hrecord
      cases herror.symm.trans h
  | ok record =>
      cases (current_of_recorded hrecord).symm.trans h
      exact ⟨record, rfl, rfl, rfl⟩

theorem acts_definition : Acts definition view (view.machine.mapError .component) [.fetched] := by
  rintro stage _ rfl
  exact definition_apply stage

theorem isUniform_current : IsUniform current :=
  fun view => ⟨_, _, acts_current view⟩

theorem isUniform_definition : IsUniform definition :=
  fun view => ⟨_, _, acts_definition view⟩

theorem isUniform_log (resource state message : String) : IsUniform (log resource state message) :=
  fun view => ⟨_, _, acts_log view resource state message⟩

theorem isUniform_changeState (name : String) (data : Option Json) :
    IsUniform (onHandle (Handle.changeState name data)) :=
  fun view => ⟨_, _, acts_changeState view name data⟩

theorem isUniform_setResult (result : ExecutionResult) :
    IsUniform (onHandle (Handle.setResult result)) :=
  fun view => ⟨_, _, acts_setResult view result⟩

theorem isUniform_updateData (data : Json) : IsUniform (onHandle (Handle.updateData data)) := by
  intro view
  cases hrecord : view.record with
  | error error =>
      refine ⟨.error (.component error), [], ?_⟩
      rintro stage _ rfl
      exact onHandle_getRecord_bind hrecord
  | ok record =>
      cases hstate : record.state with
      | none =>
          refine ⟨.error (.component (.noStateInFlight view.executor.executionId)), [], ?_⟩
          rintro stage _ rfl
          apply onHandle_of_error
          unfold Handle.updateData
          rw [Action.bind_of_ok (getRecord_of_recorded hrecord),
            Action.bind_of_ok (Action.get_apply stage.handle), hstate]
          rfl
      | some state =>
          refine ⟨.ok (), [.entered { state with data := some data }], ?_⟩
          rintro stage _ rfl
          change _ = Action.leave _ (stage.recorded _)
          rw [stage.recorded_of_recorded hrecord]
          exact updateData_of_recorded hrecord hstate data

end Operations

section Calls

/-- A context can always be exported at a store that announces nothing. -/
theorem export_bind {stage : Stage} (h : stage.site.definitions.announcement = none)
    (next : Stage → Context → Action Stage α) :
    ((get : Action Stage Stage) >>= fun stage =>
        Action.ofContext (stage.executor.context stage.site) >>= next stage) stage =
      next stage (stage.executor.exported stage.site.definitions) stage := by
  rw [Action.bind_of_ok (Action.get_apply stage), stage.executor.context_eq_ok h]
  rfl

theorem isUniform_finish (resource state : String) (result : ExecutionResult) :
    IsUniform (finish resource state result) :=
  (isUniform_log resource state _).bind fun _ =>
    (isUniform_setResult result).bind fun _ => isUniform_pure _

theorem isUniform_handOff (name : String) (task : TaskState) (input : Json) :
    IsUniform (handOff name task input) := by
  refine (isUniform_updateData input).bind fun _ => (isUniform_log task.resource name _).bind fun _ => ?_
  intro view
  cases hrejection : view.rejection with
  | none =>
      refine ⟨.ok (.suspended name task.resource), [.handedOff task.resource input], ?_⟩
      rintro stage hannouncement rfl
      rw [export_bind hannouncement]
      simp only [Site.handOff_of_accepting hrejection]
      rfl
  | some reason =>
      refine ⟨.error (.component (.dispatchFailed task.resource reason)),
        [.written task.resource name
          ("dispatch failed: " ++ (ComponentError.dispatchFailed task.resource reason).message)], ?_⟩
      rintro stage hannouncement rfl
      rw [export_bind hannouncement]
      simp only [Site.handOff_of_rejecting hrejection]
      rfl

theorem isUniform_enter (machine : Machine) (name : String) (input : Json) :
    IsUniform (enter machine name input) := by
  unfold enter
  cases machine.state? name with
  | none => exact isUniform_throw _
  | some state =>
      cases state with
      | succeed comment => exact isUniform_finish _ _ _
      | fail failure => exact isUniform_finish _ _ _
      | task task => exact isUniform_handOff name task input

theorem isUniform_dispatch (input : Json) : IsUniform (dispatch input) := by
  refine isUniform_definition.bind fun machine => isUniform_current.bind ?_
  rintro ⟨state | state, result⟩
  · cases result with
    | some result => exact isUniform_pure _
    | none =>
        exact (isUniform_changeState _ _).bind fun _ => isUniform_enter machine _ input
  · exact isUniform_enter machine state.name input

theorem isUniform_taskInFlight : IsUniform taskInFlight := by
  refine isUniform_current.bind ?_
  rintro ⟨state | state, result⟩
  · cases result with
    | some result => exact isUniform_throw _
    | none => exact isUniform_throw _
  · refine isUniform_definition.bind fun machine => ?_
    cases machine.state? state.name with
    | none => exact isUniform_throw _
    | some found =>
        cases found with
        | task task => exact isUniform_pure _
        | succeed comment => exact isUniform_throw _
        | fail failure => exact isUniform_throw _

theorem isUniform_recordSuccess (name : String) (task : TaskState) (output : Json) :
    IsUniform (recordSuccess name task output) := by
  unfold recordSuccess
  cases task.next with
  | none => exact (isUniform_log _ _ _).bind fun _ => isUniform_finish _ _ _
  | some next =>
      exact (isUniform_log _ _ _).bind fun _ =>
        (isUniform_changeState next none).bind fun _ => isUniform_dispatch output

theorem isUniform_recordFailure (name : String) (task : TaskState) (code : String) :
    IsUniform (recordFailure name task code) := by
  unfold recordFailure
  cases task.catcherFor? code with
  | none => exact (isUniform_log _ _ _).bind fun _ => isUniform_finish _ _ _
  | some catcher =>
      exact (isUniform_log _ _ _).bind fun _ =>
        (isUniform_changeState catcher.next _).bind fun _ => isUniform_dispatch .emptyObject

theorem isUniform_recordReport (name : String) (task : TaskState) (report : Except String Json) :
    IsUniform (recordReport name task report) := by
  cases report with
  | ok output => exact isUniform_recordSuccess name task output
  | error code => exact isUniform_recordFailure name task code

end Calls

end Workflow.Stage
