import Workflow.Proofs.Session.Moves
import Workflow.Proofs.Session.Retry

/-!
# One call, one task

A call that answers that it has suspended has put one task behind all others in the queue, and every
other call has left the queue as it was. That is so of every executor, whatever machine it follows and
whatever context it has taken over from: no reference has to lead anywhere, and no definition or record
has to be there.
-/

namespace Workflow

/-- The payload of the step that a call makes. -/
def Attempt.payload : Attempt → Json
  | .dispatch payload => payload
  | .runTask _ _ report => payloadAfter report

theorem Attempt.delivers (attempt : Attempt) (view : View) :
    Stage.Delivers attempt.action attempt.payload view := by
  cases attempt with
  | dispatch payload => exact Stage.delivers_dispatch payload view
  | runTask resource input report => exact Session.delivers_runTask resource input report view

/-- An executor that was created or has taken over, and that was called since, at sites that keep
executions in one way. -/
inductive Executor.Arises (central : Bool) : Executor → Prop
  | created {site after : Site} {machine : Machine} {executor : Executor} (hlocal : site.IsLocal)
      (hcentral : site.central = central) (h : Executor.create machine site = .ok executor after) :
      Arises central executor
  | hydrated {site after : Site} {context : Context} {executor : Executor} (hlocal : site.IsLocal)
      (hcentral : site.central = central) (h : Executor.hydrate context site = .ok executor after) :
      Arises central executor
  | called {stage : Stage} {attempt : Attempt} (hlocal : stage.site.IsLocal)
      (hcentral : stage.site.central = central) (h : Arises central stage.executor) :
      Arises central (Action.stateAfter (attempt.action stage)).executor

theorem Executor.Arises.isKept {central : Bool} {executor : Executor} (h : executor.Arises central) :
    executor.IsKept central := by
  induction h with
  | @created site after machine executor hlocal hcentral h =>
      rw [Site.create_apply hlocal] at h
      cases h
      exact hcentral ▸ site.isKept_created machine
  | @hydrated site after context executor hlocal hcentral h =>
      rcases Executor.hydrate_cases hlocal.announcement context with
        ⟨error, location, hrefused⟩ | ⟨heir, location, hkept, hadmitted⟩
      · cases hrefused.symm.trans h
      · cases hadmitted.symm.trans h
        exact hcentral ▸ hkept
  | @called stage attempt hlocal hcentral h ih =>
      obtain ⟨answer, changes, haction, -⟩ := (attempt.delivers stage.view).leaves hlocal.announcement
      rw [haction, Action.stateAfter_leave]
      exact ih.of_confined (stage.confined_changed changes)

namespace Stage

/-- A stage at which a call has suspended an execution at a state, and what it has queued to that end. -/
structure Suspended (before after : Stage) (name resource : String) (payload : Json)
    (context : Context) : Prop where
  /-- Behind the tasks that were there comes one more. -/
  queue : after.site.queue = before.site.queue.push { resource, input := payload, context }
  /-- The state is a task of the machine that the execution follows, and has that resource. -/
  task : ∃ machine task, Action.answer (definition after) = .ok machine ∧
    machine.state? name = some (.task task) ∧ task.resource = resource
  /-- Whoever takes over from the context finds the execution at the state, with the payload. -/
  taken : ∃ heir site result, Executor.hydrate context after.site = .ok heir site ∧
    heir.executionId = before.executor.executionId ∧
    Action.answer (current ⟨heir, site⟩) = .ok (some { name, data := some payload }, result)

variable {before after : Stage}

/-- A context that is exported at a stage is taken over from there. -/
theorem taken_exported {record : ExecutionRecord} {state : ExecutionState}
    (hkept : after.executor.IsKept after.site.central)
    (hannouncement : after.site.definitions.announcement = none)
    (hrecord : after.handle.record = .ok record) (hstate : record.state = some state) :
    ∃ heir site result,
      Executor.hydrate (after.executor.exported after.site.definitions) after.site = .ok heir site ∧
        heir.executionId = after.executor.executionId ∧
        Action.answer (current ⟨heir, site⟩) = .ok (some state, result) := by
  have hcurrent : Action.answer (current after) = .ok (some state, record.result) := by
    rw [current_of_recorded hrecord, hstate]
    rfl
  -- Said of any new identifier, so that the one that is given out is not computed.
  have hheir : ∀ executorId issued,
      ({ after.executor with executorId } : Executor).executionId = after.executor.executionId ∧
        Action.answer
          (current ⟨{ after.executor with executorId }, { after.site with issued }⟩) =
            .ok (some state, record.result) := by
    intro executorId issued
    have hsame : Action.answer
          (current ⟨{ after.executor with executorId }, { after.site with issued }⟩) =
        Action.answer (current after) :=
      isUniform_current.answer_congr hannouncement hannouncement (after.view_renamed executorId issued)
    exact ⟨rfl, hsame.trans hcurrent⟩
  exact ⟨_, _, _,
    Executor.hydrate_exported hannouncement hannouncement hkept.kept hkept.defined, hheir _ _⟩

theorem suspended_of_leaves {payload : Json} {name resource : String}
    (hconfined : before.Confined after) (hkept : after.executor.IsKept after.site.central)
    (hannouncement : after.site.definitions.announcement = none)
    (hleaves : before.Leaves after payload (.ok (.suspended name resource))) :
    ∃ context, before.Suspended after name resource payload context := by
  cases hleaves with
  | nothing hqueue hanswer => exact absurd rfl (hanswer name resource)
  | @task record machine _ task hqueue hrecord hstate hmachine htask =>
      have hdefinition : Action.answer (definition after) = .ok machine := by
        rw [answer_definition, hmachine]
        rfl
      rw [← hconfined.definitions] at hqueue
      obtain ⟨heir, site, result, hhydrate, hid, hcurrent⟩ :=
        taken_exported hkept hannouncement hrecord hstate
      exact ⟨_, hqueue, ⟨machine, task, hdefinition, htask, rfl⟩,
        ⟨heir, site, result, hhydrate, hid.trans hconfined.executionId, hcurrent⟩⟩

theorem Leaves.queue_of_not_suspended {payload : Json} {answer : Except ExecutorError Outcome}
    (h : before.Leaves after payload answer)
    (hanswer : ∀ name resource, answer ≠ .ok (.suspended name resource)) :
    after.site.queue = before.site.queue := by
  cases h with
  | nothing hqueue _ => exact hqueue
  | task => exact absurd rfl (hanswer _ _)

/-- A call puts one task at the end of the queue if it answers that it has suspended, and none
otherwise. -/
theorem queues_one_iff_suspended {stage : Stage} (hlocal : stage.site.IsLocal)
    (harises : stage.executor.Arises stage.site.central) (attempt : Attempt) :
    ∃ answer after, attempt.action stage = Action.leave answer after ∧
      ((∀ name resource, answer ≠ .ok (.suspended name resource)) →
        after.site.queue = stage.site.queue) ∧
      ∀ name resource, answer = .ok (.suspended name resource) →
        ∃ context, stage.Suspended after name resource attempt.payload context := by
  obtain ⟨answer, changes, haction, hleaves⟩ :=
    (attempt.delivers stage.view).leaves hlocal.announcement
  have hconfined := stage.confined_changed changes
  refine ⟨answer, stage.changed changes, haction, hleaves.queue_of_not_suspended, ?_⟩
  rintro name resource rfl
  have hkept := harises.isKept.of_confined hconfined
  rw [← hconfined.central] at hkept
  have hannouncement : (stage.changed changes).site.definitions.announcement = none := by
    rw [hconfined.definitions]
    exact hlocal.announcement
  exact suspended_of_leaves hconfined hkept hannouncement hleaves

/-- An errand that has just been created is dispatched, and suspends at its first state. -/
theorem queues_one_iff_suspended_errand :
    ((Site.fresh true).created .errand).site.IsLocal ∧
      ((Site.fresh true).created .errand).executor.Arises true ∧
      ∃ after context,
        (Attempt.dispatch .null).action ((Site.fresh true).created .errand) =
          .ok (.suspended "Carry" "courier") after ∧
        ((Site.fresh true).created .errand).Suspended after "Carry" "courier" .null context := by
  have hfresh : (Site.fresh true).IsLocal := ⟨rfl, rfl⟩
  have hstands := Site.stands_created_fresh true .errand
  have harises : ((Site.fresh true).created .errand).executor.Arises true :=
    .created hfresh rfl (Site.create_apply hfresh .errand)
  have hcentral : ((Site.fresh true).created .errand).site.central = true :=
    Site.central_created _ _
  have haccepting : ((Site.fresh true).created .errand).site.rejection = none :=
    Site.rejection_created _ _
  have hprogress : Machine.errand.enter? "Carry" .null = some (.pending "Carry" "courier" .null) := rfl
  obtain ⟨reached, hdispatch, -⟩ := dispatch_reaches hstands rfl hprogress
  rw [Progress.answer_of_accepting haccepting] at hdispatch
  obtain ⟨answer, after, haction, -, hsuspended⟩ :=
    queues_one_iff_suspended hstands.isLocal (hcentral.symm ▸ harises) (.dispatch .null)
  have hanswer : answer = .ok (.suspended "Carry" "courier") := by
    rw [← Action.answer_leave answer after, ← haction]
    exact congrArg Action.answer hdispatch
  subst hanswer
  obtain ⟨context, hqueued⟩ := hsuspended "Carry" "courier" rfl
  exact ⟨hstands.isLocal, harises, after, context, haction, hqueued⟩

end Stage

end Workflow
