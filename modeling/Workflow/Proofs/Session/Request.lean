import Workflow.Proofs.Executor.Alike
import Workflow.Proofs.Executor.Conduct
import Workflow.Proofs.Session.Basic

/-!
# Requests to an executor

All that an executor can be asked, answered by its view alone: at two stages of one view any requests
are answered the same and add the same.
-/

namespace Workflow

/-- What an executor can be asked. -/
inductive Request where
  | dispatch (input : Json)
  | runTask (resource : String) (input : Json) (report : Except String Json)
  | exportContext
  | current
  | definition

def Stage.exportContext : Action Stage Context := do
  let stage ← get
  Action.ofContext (stage.executor.context stage.site)

def Request.action : Request → Action Stage Reply
  | .dispatch input => do
    return .outcome (← Stage.dispatch input)
  | .runTask resource input report => do
    return .outcome (← Session.runTask resource input report)
  | .exportContext => do
    return .context (← Stage.exportContext)
  | .current => do
    let (state, result) ← Stage.current
    return .current state result
  | .definition => do
    return .definition (← Stage.definition)

namespace Stage

/-- The stage while hand-offs are answered in a certain way. -/
def facing (stage : Stage) (rejection : Option String) : Stage :=
  { stage with site.rejection := rejection }

theorem Stands.facing {stage : Stage} {record : ExecutionRecord} {machine : Machine}
    (h : stage.Stands record machine) (rejection : Option String) :
    (stage.facing rejection).Stands record machine :=
  ⟨⟨h.isLocal.front, h.isLocal.announcement⟩, h.recorded, h.follows⟩

/-- The answer to a request that is made while hand-offs are answered in a certain way, and the stage
after it. -/
def serve (stage : Stage) (rejection : Option String) (request : Request) :
    Except ExecutorError Reply × Stage :=
  match request.action (stage.facing rejection) with
  | .ok reply after => (.ok reply, after)
  | .error error after => (.error error, after)

/-- The answers to a list of requests, each with how hand-offs are answered meanwhile, and the stage
after them. -/
def serveAll (stage : Stage) :
    List (Option String × Request) → List (Except ExecutorError Reply) × Stage
  | [] => ([], stage)
  | (rejection, request) :: rest =>
    let (answer, next) := stage.serve rejection request
    let (answers, last) := next.serveAll rest
    (answer :: answers, last)

end Stage

/-- What a call changes stays with its execution. -/
theorem Stage.IsUniform.leaves {α : Type} {action : Action Stage α} (h : IsUniform action)
    {stage : Stage} (hstage : stage.site.definitions.announcement = none) :
    ∃ answer after, action stage = Action.leave answer after ∧ stage.Confined after := by
  obtain ⟨answer, changes, hacts⟩ := h stage.view
  exact ⟨answer, _, hacts stage hstage rfl, confined_changed stage changes⟩

theorem Session.runTask_eq_bind (resource : String) (input : Json) (report : Except String Json) :
    Session.runTask resource input report =
      Stage.taskInFlight >>= fun found => Stage.recordReport found.1 found.2 report := by
  funext stage
  unfold Session.runTask Action.onPart Worker.runTask
  simp only
  cases htask : Stage.taskInFlight stage with
  | error error after => rw [Action.bind_of_error htask]
  | ok found after =>
      rw [Action.bind_of_ok htask]
      simp only [Worker.perform_reporting]
      cases Stage.recordReport found.1 found.2 report after <;> rfl

theorem Stage.exportContext_apply {stage : Stage}
    (h : stage.site.definitions.announcement = none) :
    exportContext stage = .ok (stage.executor.exported stage.site.definitions) stage := by
  unfold exportContext
  rw [Action.bind_of_ok (Action.get_apply stage), stage.executor.context_eq_ok h]
  rfl

theorem Stage.isUniform_exportContext : IsUniform exportContext := by
  intro view
  refine ⟨.ok view.context, [], ?_⟩
  rintro stage hannouncement rfl
  rw [exportContext_apply hannouncement, stage.context_view hannouncement]
  rfl

theorem Session.isUniform_runTask (resource : String) (input : Json) (report : Except String Json) :
    Stage.IsUniform (runTask resource input report) := by
  rw [runTask_eq_bind]
  exact Stage.isUniform_taskInFlight.bind fun found => Stage.isUniform_recordReport _ _ _

namespace Request

open Stage

theorem isUniform_action (request : Request) : IsUniform request.action := by
  cases request with
  | dispatch input => exact (isUniform_dispatch input).bind fun _ => isUniform_pure _
  | runTask resource input report =>
      exact (Session.isUniform_runTask resource input report).bind fun _ => isUniform_pure _
  | exportContext => exact isUniform_exportContext.bind fun _ => isUniform_pure _
  | current => exact isUniform_current.bind fun _ => isUniform_pure _
  | definition => exact isUniform_definition.bind fun _ => isUniform_pure _

end Request

namespace Stage

theorem serve_apply (view : View) (rejection : Option String) (request : Request) :
    ∃ answer changes, ∀ stage : Stage, stage.site.definitions.announcement = none →
      (stage.facing rejection).view = view →
      stage.serve rejection request = (answer, (stage.facing rejection).changed changes) := by
  obtain ⟨answer, changes, hacts⟩ := request.isUniform_action view
  refine ⟨answer, changes, ?_⟩
  intro stage hannouncement hview
  have hfacing : (stage.facing rejection).site.definitions.announcement = none := hannouncement
  unfold serve
  rw [hacts (stage.facing rejection) hfacing hview]
  cases answer <;> rfl

/-- A request to an executor stays with its execution. -/
theorem confined_serve {stage : Stage} (h : stage.site.definitions.announcement = none)
    (rejection : Option String) (request : Request) :
    (stage.facing rejection).Confined (stage.serve rejection request).2 := by
  have hfacing : (stage.facing rejection).site.definitions.announcement = none := h
  obtain ⟨answer, after, haction, hconfined⟩ := request.isUniform_action.leaves hfacing
  unfold serve
  rw [haction]
  cases answer <;> exact hconfined

theorem serve_of_bind {α : Type} {action : Action Stage α} {reply : α → Reply} {request : Request}
    (h : request.action = action >>= fun value => pure (reply value)) (stage : Stage)
    (rejection : Option String) :
    (∃ value, (stage.serve rejection request).1 = .ok (reply value)) ∨
    ∃ error, (stage.serve rejection request).1 = .error error := by
  unfold serve
  rw [h]
  cases haction : action (stage.facing rejection) with
  | ok value after =>
      rw [Action.bind_of_ok haction]
      exact .inl ⟨value, rfl⟩
  | error error after =>
      rw [Action.bind_of_error haction]
      exact .inr ⟨error, rfl⟩

theorem serve_exportContext {stage : Stage} (h : stage.site.definitions.announcement = none)
    (rejection : Option String) :
    stage.serve rejection .exportContext =
      (.ok (.context (stage.executor.exported stage.site.definitions)), stage.facing rejection) := by
  have hfacing : (stage.facing rejection).site.definitions.announcement = none := h
  unfold serve Request.action
  simp only
  rw [Action.bind_of_ok (exportContext_apply hfacing)]
  rfl

/-- A context is only answered where it was asked for, and then it is the executor's own. -/
theorem context_of_serve {stage : Stage} (h : stage.site.definitions.announcement = none)
    {rejection : Option String} {request : Request} {context : Context}
    (hanswer : (stage.serve rejection request).1 = .ok (.context context)) :
    context = stage.executor.exported stage.site.definitions := by
  have hnever : ∀ {α : Type} {action : Action Stage α} {reply : α → Reply},
      request.action = (action >>= fun value => pure (reply value)) →
      (∀ value, reply value ≠ .context context) → False := by
    intro α action reply haction hreply
    rcases serve_of_bind haction stage rejection with ⟨value, hvalue⟩ | ⟨error, herror⟩
    · exact hreply value (Except.ok.inj (hvalue.symm.trans hanswer))
    · cases herror.symm.trans hanswer
  cases request with
  | dispatch input => exact (hnever rfl fun _ heq => nomatch heq).elim
  | runTask resource input report => exact (hnever rfl fun _ heq => nomatch heq).elim
  | exportContext =>
      rw [serve_exportContext h] at hanswer
      cases hanswer
      rfl
  | current => exact (hnever rfl fun _ heq => nomatch heq).elim
  | definition => exact (hnever rfl fun _ heq => nomatch heq).elim

variable {first second : Stage}

/-- The view of a stage decides how it looks while hand-offs are answered in any other way. -/
theorem view_facing_congr {rejection : Option String}
    (h : (first.facing rejection).view = (second.facing rejection).view) (other : Option String) :
    (first.facing other).view = (second.facing other).view :=
  congrArg (fun view : View => { view with rejection := other }) h

/-- At two stages of one view a request has one answer, adds the same and leaves one view. -/
theorem serve_congr (hfirst : first.site.definitions.announcement = none)
    (hsecond : second.site.definitions.announcement = none) {rejection : Option String}
    (h : (first.facing rejection).view = (second.facing rejection).view) (request : Request) :
    (first.serve rejection request).1 = (second.serve rejection request).1 ∧
      (first.serve rejection request).2.view = (second.serve rejection request).2.view ∧
      Alike (first.facing rejection) (second.facing rejection) (first.serve rejection request).2
        (second.serve rejection request).2 := by
  obtain ⟨answer, changes, hserve⟩ := serve_apply (first.facing rejection).view rejection request
  have hfirst' : (first.facing rejection).site.definitions.announcement = none := hfirst
  have hsecond' : (second.facing rejection).site.definitions.announcement = none := hsecond
  rw [hserve first hfirst rfl, hserve second hsecond h.symm]
  refine ⟨rfl, ?_, alike_changed hfirst' hsecond' h changes⟩
  rw [view_changed, view_changed, h]

/-- Tables that agree on an execution go on agreeing on it after a request. -/
theorem table_serve_eq (hfirst : first.site.definitions.announcement = none)
    (hsecond : second.site.definitions.announcement = none) {rejection : Option String}
    (h : (first.facing rejection).view = (second.facing rejection).view) {id : String}
    (htable : first.site.table.get? id = second.site.table.get? id) (request : Request) :
    (first.serve rejection request).2.site.table.get? id =
      (second.serve rejection request).2.site.table.get? id := by
  obtain ⟨answer, changes, hserve⟩ := serve_apply (first.facing rejection).view rejection request
  rw [hserve first hfirst rfl, hserve second hsecond h.symm]
  exact table_changed_eq h htable changes

/-- At two stages of one view all requests have the same answers and add the same. -/
theorem serveAll_congr (hfirst : first.site.definitions.announcement = none)
    (hsecond : second.site.definitions.announcement = none)
    (h : (first.facing none).view = (second.facing none).view)
    (requests : List (Option String × Request)) :
    (first.serveAll requests).1 = (second.serveAll requests).1 ∧
      Alike first second (first.serveAll requests).2 (second.serveAll requests).2 := by
  induction requests generalizing first second with
  | nil => exact ⟨rfl, .refl first second⟩
  | cons turn rest ih =>
      obtain ⟨rejection, request⟩ := turn
      obtain ⟨hanswer, hview, halike⟩ :=
        serve_congr hfirst hsecond (view_facing_congr h rejection) request
      have hnext := ih
        ((confined_serve hfirst rejection request).definitions ▸ hfirst)
        ((confined_serve hsecond rejection request).definitions ▸ hsecond)
        (congrArg (fun view : View => { view with rejection := none }) hview)
      have hsame : Alike first second _ _ := ⟨halike.queue, halike.log⟩
      exact ⟨congrArg₂ List.cons hanswer hnext.1, hsame.trans hnext.2⟩

end Stage

end Workflow
