import Workflow.Proofs.Executor.Conduct

/-!
# What a call hands off

A call hands off one task at the most, as the last thing that it does, and says so in its answer. The
task is then the one of the state that the execution is at.
-/

namespace Workflow

/-- Whether a change leaves the queue alone. -/
def Change.IsQuiet : Change → Prop
  | .handedOff _ _ => False
  | .fetched | .entered _ | .ended _ | .written _ _ _ => True

theorem View.machine_changed (view : View) (changes : List Change) :
    (view.changed changes).machine = view.machine := by
  induction changes generalizing view with
  | nil => rfl
  | cons change rest ih =>
      change ((view.change change).changed rest).machine = view.machine
      rw [ih]
      cases change <;> rfl

theorem View.changed_append (view : View) (changes later : List Change) :
    view.changed (changes ++ later) = (view.changed changes).changed later :=
  List.foldl_append

/-- What a call with an input hands off: nothing, or at last the task of the state that it answers, with
that input. -/
inductive Delivery (view : View) (input : Json) : Except ExecutorError Outcome → List Change → Prop
  | nothing {answer : Except ExecutorError Outcome} {changes : List Change}
      (hquiet : ∀ change ∈ changes, change.IsQuiet)
      (hanswer : ∀ name resource, answer ≠ .ok (.suspended name resource)) :
      Delivery view input answer changes
  | task {earlier : List Change} {record : ExecutionRecord} {machine : Machine} {name : String}
      {task : TaskState} (hquiet : ∀ change ∈ earlier, change.IsQuiet)
      (hrecord : (view.changed earlier).record = .ok record)
      (hstate : record.state = some { name, data := some input })
      (hmachine : view.machine = .ok machine)
      (htask : machine.state? name = some (.task task)) :
      Delivery view input (.ok (.suspended name task.resource))
        (earlier ++ [.handedOff task.resource input])

theorem Delivery.after {view : View} {input : Json} {first later : List Change}
    {answer : Except ExecutorError Outcome} (hquiet : ∀ change ∈ first, change.IsQuiet)
    (h : Delivery (view.changed first) input answer later) :
    Delivery view input answer (first ++ later) := by
  have hboth : ∀ {more : List Change}, (∀ change ∈ more, change.IsQuiet) →
      ∀ change ∈ first ++ more, change.IsQuiet :=
    fun hmore => List.forall_mem_append.mpr ⟨hquiet, hmore⟩
  cases h with
  | nothing hlater hanswer => exact .nothing (hboth hlater) hanswer
  | task hearlier hrecord hstate hmachine htask =>
      rw [← List.append_assoc]
      rw [← View.changed_append] at hrecord
      rw [View.machine_changed] at hmachine
      exact .task (hboth hearlier) hrecord hstate hmachine htask

namespace Stage

variable {α : Type} {view : View} {input : Json}

/-- Wherever the view is this one, the action makes changes that leave the queue alone. -/
def IsQuiet (action : Action Stage α) (view : View) : Prop :=
  ∃ answer changes, Acts action view answer changes ∧ ∀ change ∈ changes, change.IsQuiet

/-- Wherever the view is this one, the action hands off what it answers, with the input. -/
def Delivers (action : Action Stage Outcome) (input : Json) (view : View) : Prop :=
  ∃ answer changes, Acts action view answer changes ∧ Delivery view input answer changes

section Combining

variable {action : Action Stage α} {next : α → Action Stage Outcome} {changes : List Change}

theorem Delivers.of_bind {value : α} (h : Acts action view (.ok value) changes)
    (hquiet : ∀ change ∈ changes, change.IsQuiet)
    (hnext : Delivers (next value) input (view.changed changes)) :
    Delivers (action >>= next) input view := by
  obtain ⟨answer, later, hacts, hdelivery⟩ := hnext
  exact ⟨answer, changes ++ later, h.bind hacts, hdelivery.after hquiet⟩

theorem Delivers.of_error {error : ExecutorError} (h : Acts action view (.error error) changes)
    (hquiet : ∀ change ∈ changes, change.IsQuiet) : Delivers (action >>= next) input view :=
  ⟨.error error, changes, h.bind_error next, .nothing hquiet fun _ _ heq => nomatch heq⟩

theorem IsQuiet.delivers (h : IsQuiet action view)
    (hnext : ∀ value view, Delivers (next value) input view) :
    Delivers (action >>= next) input view := by
  obtain ⟨answer, changes, hacts, hquiet⟩ := h
  cases answer with
  | error error => exact .of_error hacts hquiet
  | ok value => exact .of_bind hacts hquiet (hnext value _)

theorem IsQuiet.bind {β : Type} {later : α → Action Stage β} (h : IsQuiet action view)
    (hnext : ∀ value view, IsQuiet (later value) view) : IsQuiet (action >>= later) view := by
  obtain ⟨answer, changes, hacts, hquiet⟩ := h
  cases answer with
  | error error => exact ⟨_, changes, hacts.bind_error later, hquiet⟩
  | ok value =>
      obtain ⟨last, more, hlast, hmore⟩ := hnext value (view.changed changes)
      exact ⟨last, changes ++ more, hacts.bind hlast, List.forall_mem_append.mpr ⟨hquiet, hmore⟩⟩

theorem isQuiet_pure (value : α) : IsQuiet (pure value) view :=
  ⟨_, [], acts_pure value view, List.forall_mem_nil _⟩

theorem isQuiet_throw (error : ExecutorError) : IsQuiet (throw error : Action Stage α) view :=
  ⟨.error error, [], fun _ _ _ => rfl, List.forall_mem_nil _⟩

theorem delivers_throw (error : ExecutorError) : Delivers (throw error) input view :=
  ⟨.error error, [], fun _ _ _ => rfl, .nothing (List.forall_mem_nil _) fun _ _ heq => nomatch heq⟩

theorem delivers_finished (result : ExecutionResult) : Delivers (pure (.finished result)) input view :=
  ⟨_, [], acts_pure _ view, .nothing (List.forall_mem_nil _) fun _ _ heq => nomatch heq⟩

end Combining

section Calls

theorem isQuiet_log (resource state message : String) : IsQuiet (log resource state message) view :=
  ⟨_, _, acts_log view resource state message, List.forall_mem_singleton.mpr trivial⟩

theorem isQuiet_current : IsQuiet current view :=
  ⟨_, _, acts_current view, List.forall_mem_nil _⟩

theorem isQuiet_definition : IsQuiet definition view :=
  ⟨_, _, acts_definition view, List.forall_mem_singleton.mpr trivial⟩

theorem isQuiet_changeState (name : String) (data : Option Json) :
    IsQuiet (onHandle (Handle.changeState name data)) view :=
  ⟨_, _, acts_changeState view name data, List.forall_mem_singleton.mpr trivial⟩

theorem isQuiet_setResult (result : ExecutionResult) :
    IsQuiet (onHandle (Handle.setResult result)) view :=
  ⟨_, _, acts_setResult view result, List.forall_mem_singleton.mpr trivial⟩

theorem delivers_finish (resource state : String) (result : ExecutionResult) (view : View) :
    Delivers (finish resource state result) input view :=
  (isQuiet_log resource state _).delivers fun _ _ =>
    (isQuiet_setResult result).delivers fun _ _ => delivers_finished result

theorem acts_updateData {record : ExecutionRecord} {state : ExecutionState}
    (hrecord : view.record = .ok record) (hstate : record.state = some state) (data : Json) :
    Acts (onHandle (Handle.updateData data)) view (.ok ())
      [.entered { state with data := some data }] := by
  rintro stage _ rfl
  change _ = Action.leave _ (stage.recorded _)
  rw [stage.recorded_of_recorded hrecord]
  exact updateData_of_recorded hrecord hstate data

/-- The task of the state that the execution is at is handed off, or turned away. -/
theorem delivers_handOff {record : ExecutionRecord} {state : ExecutionState} {machine : Machine}
    {task : TaskState} (hrecord : view.record = .ok record) (hstate : record.state = some state)
    (hmachine : view.machine = .ok machine)
    (htask : machine.state? state.name = some (.task task)) (input : Json) :
    Delivers (handOff state.name task input) input view := by
  refine .of_bind (acts_updateData hrecord hstate input) (List.forall_mem_singleton.mpr trivial) ?_
  refine .of_bind (acts_log _ task.resource state.name _) (List.forall_mem_singleton.mpr trivial) ?_
  cases hrejection : view.rejection with
  | none =>
      refine ⟨.ok (.suspended state.name task.resource), [.handedOff task.resource input], ?_, ?_⟩
      · rintro stage hannouncement hview
        have haccepting : stage.site.rejection = none :=
          (congrArg View.rejection hview).trans hrejection
        rw [export_bind hannouncement]
        simp only [Site.handOff_of_accepting haccepting]
        rfl
      · have hrecorded : ((view.changed [.entered { state with data := some input }]).changed
            [.written task.resource state.name "dispatching"]).record =
              .ok { record with state := some { state with data := some input } } :=
          congrArg (Except.map _) hrecord
        exact @Delivery.task _ _ [] _ _ _ _ (List.forall_mem_nil _) hrecorded rfl hmachine htask
  | some reason =>
      refine ⟨.error (.component (.dispatchFailed task.resource reason)),
        [.written task.resource state.name
          ("dispatch failed: " ++ (ComponentError.dispatchFailed task.resource reason).message)],
        ?_, .nothing (List.forall_mem_singleton.mpr trivial) fun _ _ heq => nomatch heq⟩
      rintro stage hannouncement hview
      have hrejecting : stage.site.rejection = some reason :=
        (congrArg View.rejection hview).trans hrejection
      rw [export_bind hannouncement]
      simp only [Site.handOff_of_rejecting hrejecting]
      rfl

theorem delivers_enter {record : ExecutionRecord} {state : ExecutionState} {machine : Machine}
    (hrecord : view.record = .ok record) (hstate : record.state = some state)
    (hmachine : view.machine = .ok machine) (input : Json) :
    Delivers (enter machine state.name input) input view := by
  unfold enter
  cases hfound : machine.state? state.name with
  | none => exact delivers_throw _
  | some found =>
      cases found with
      | succeed comment => exact delivers_finish _ _ _ view
      | fail failure => exact delivers_finish _ _ _ view
      | task task => exact delivers_handOff hrecord hstate hmachine hfound input

theorem delivers_dispatch (input : Json) (view : View) : Delivers (dispatch input) input view := by
  unfold dispatch
  have hdefinition := acts_definition view
  have hcurrent := acts_current (view.changed [.fetched])
  cases hmachine : view.machine with
  | error error =>
      rw [hmachine] at hdefinition
      exact .of_error hdefinition (List.forall_mem_singleton.mpr trivial)
  | ok machine =>
      rw [hmachine] at hdefinition
      refine .of_bind hdefinition (List.forall_mem_singleton.mpr trivial) ?_
      have hsame : (view.changed [.fetched]).record = view.record := rfl
      cases hrecord : view.record with
      | error error =>
          rw [hsame, hrecord] at hcurrent
          exact .of_error hcurrent (List.forall_mem_nil _)
      | ok record =>
          rw [hsame, hrecord] at hcurrent
          refine .of_bind hcurrent (List.forall_mem_nil _) ?_
          cases hstate : record.state with
          | some state =>
              simp only [hstate]
              exact delivers_enter hrecord hstate hmachine input
          | none =>
              cases hresult : record.result with
              | some result =>
                  simp only [hstate, hresult]
                  exact delivers_finished result
              | none =>
                  simp only [hstate, hresult]
                  -- An execution that was not started is taken to the start first.
                  have hchange := acts_changeState view machine.startAt none
                  rw [hrecord] at hchange
                  refine .of_bind hchange (List.forall_mem_singleton.mpr trivial) ?_
                  have hentered : (view.changed
                      [.entered { name := machine.startAt, data := none }]).record =
                      .ok { record with state := some { name := machine.startAt, data := none } } :=
                    congrArg (Except.map _) hrecord
                  exact delivers_enter hentered rfl hmachine input

theorem delivers_recordSuccess (name : String) (task : TaskState) (output : Json) (view : View) :
    Delivers (recordSuccess name task output) output view := by
  unfold recordSuccess
  cases task.next with
  | none => exact (isQuiet_log _ _ _).delivers fun _ => delivers_finish _ _ _
  | some next =>
      exact (isQuiet_log _ _ _).delivers fun _ _ =>
        (isQuiet_changeState next none).delivers fun _ => delivers_dispatch output

theorem delivers_recordFailure (name : String) (task : TaskState) (code : String) (view : View) :
    Delivers (recordFailure name task code) .emptyObject view := by
  unfold recordFailure
  cases task.catcherFor? code with
  | none => exact (isQuiet_log _ _ _).delivers fun _ => delivers_finish _ _ _
  | some catcher =>
      exact (isQuiet_log _ _ _).delivers fun _ _ =>
        (isQuiet_changeState catcher.next _).delivers fun _ => delivers_dispatch .emptyObject

theorem delivers_recordReport (name : String) (task : TaskState) (report : Except String Json)
    (view : View) : Delivers (recordReport name task report) (payloadAfter report) view := by
  cases report with
  | ok output => exact delivers_recordSuccess name task output view
  | error code => exact delivers_recordFailure name task code view

theorem isQuiet_taskInFlight (view : View) : IsQuiet taskInFlight view := by
  refine isQuiet_current.bind ?_
  rintro ⟨state | state, result⟩ view
  · cases result with
    | some result => exact isQuiet_throw _
    | none => exact isQuiet_throw _
  · refine isQuiet_definition.bind fun machine view => ?_
    cases machine.state? state.name with
    | none => exact isQuiet_throw _
    | some found =>
        cases found with
        | task task => exact isQuiet_pure _
        | succeed comment => exact isQuiet_throw _
        | fail failure => exact isQuiet_throw _

end Calls

section Queue

variable {stage : Stage}

theorem queue_change {change : Change} (hquiet : change.IsQuiet) :
    (stage.change change).site.queue = stage.site.queue := by
  have hrecorded : (stage.recorded change).site.queue = stage.site.queue := by
    rw [site_recorded]
  cases change with
  | handedOff resource input => exact hquiet.elim
  | entered state => exact hrecorded
  | ended result => exact hrecorded
  | fetched => rfl
  | written resource state message => rfl

theorem queue_changed {changes : List Change} (hquiet : ∀ change ∈ changes, change.IsQuiet) :
    (stage.changed changes).site.queue = stage.site.queue := by
  induction changes generalizing stage with
  | nil => rfl
  | cons change rest ih =>
      have hrest : ((stage.change change).changed rest).site.queue = (stage.change change).site.queue :=
        ih fun other hmem => hquiet other (List.mem_cons_of_mem _ hmem)
      exact hrest.trans (queue_change (hquiet change List.mem_cons_self))

/-- What a call has left in the queue: nothing more, or the task of the state that it answers and that
the execution is at, with the context that the executor exports from now on. -/
inductive Leaves (before after : Stage) (input : Json) : Except ExecutorError Outcome → Prop
  | nothing {answer : Except ExecutorError Outcome}
      (hqueue : after.site.queue = before.site.queue)
      (hanswer : ∀ name resource, answer ≠ .ok (.suspended name resource)) :
      Leaves before after input answer
  | task {record : ExecutionRecord} {machine : Machine} {name : String} {task : TaskState}
      (hqueue : after.site.queue = before.site.queue.push
        { resource := task.resource
          input
          context := after.executor.exported before.site.definitions })
      (hrecord : after.handle.record = .ok record)
      (hstate : record.state = some { name, data := some input })
      (hmachine : after.lookUp.1 = .ok machine)
      (htask : machine.state? name = some (.task task)) :
      Leaves before after input (.ok (.suspended name task.resource))

theorem leaves_changed {answer : Except ExecutorError Outcome} {changes : List Change}
    (h : Delivery stage.view input answer changes) :
    stage.Leaves (stage.changed changes) input answer := by
  cases h with
  | nothing hquiet hanswer => exact .nothing (queue_changed hquiet) hanswer
  | @task earlier record machine name task hquiet hrecord hstate hmachine htask =>
      have hview : (stage.changed earlier).view = stage.view.changed earlier :=
        stage.view_changed earlier
      have hsplit : stage.changed (earlier ++ [.handedOff task.resource input]) =
          (stage.changed earlier).queued
            { resource := task.resource
              input
              context := (stage.changed earlier).executor.exported
                (stage.changed earlier).site.definitions } :=
        stage.changed_append earlier _
      have hrecorded : (stage.changed earlier).handle.record = .ok record :=
        (congrArg View.record hview).trans hrecord
      have hlookUp : (stage.changed earlier).lookUp.1 = .ok machine :=
        (congrArg View.machine hview).trans ((stage.view.machine_changed earlier).trans hmachine)
      have hqueue : (stage.changed earlier).site.queue = stage.site.queue := queue_changed hquiet
      rw [hsplit]
      refine .task ?_ hrecorded hstate hlookUp htask
      rw [← stage.definitions_changed earlier, ← hqueue]
      rfl

theorem Delivers.leaves {action : Action Stage Outcome} (h : Delivers action input stage.view)
    (hannouncement : stage.site.definitions.announcement = none) :
    ∃ answer changes, action stage = Action.leave answer (stage.changed changes) ∧
      stage.Leaves (stage.changed changes) input answer := by
  obtain ⟨answer, changes, hacts, hdelivery⟩ := h
  exact ⟨answer, changes, hacts stage hannouncement rfl, leaves_changed hdelivery⟩

end Queue

end Stage

end Workflow
