import Workflow.Proofs.Executor.Calls
import Workflow.Proofs.Store.Library

/-!
# One turn of a worker

The context of a queued task gives back the executor that handed it off, at the site of the worker
that takes it. A worker that finds no task has nothing to do.
-/

namespace Workflow

theorem Queue.take_of_pending {queue : Queue} {task : QueuedTask} {rest : List QueuedTask}
    (h : queue.pending = task :: rest) : queue.take = (some task, { queue with pending := rest }) := by
  unfold take
  rw [h]

/-- The site of a worker that has taken the oldest task and hydrated its context. -/
def Site.taking (site : Site) (rest : List QueuedTask) : Site :=
  { site with
    queue := { site.queue with pending := rest }
    issued := site.issued + 1 }

/-- The stage at which a worker goes on with the execution of `executor`, after it has taken the oldest
task. -/
structure Stage.Resumes (stage : Stage) (executor : Executor) (site : Site)
    (rest : List QueuedTask) : Prop where
  execution : stage.executor.execution = executor.execution
  executorId : stage.executor.executorId = Identifier.spell site.issued
  sequence : stage.executor.sequence = executor.sequence
  site : stage.site = site.taking rest

theorem Stage.Resumes.executionId {stage : Stage} {executor : Executor} {site : Site}
    {rest : List QueuedTask} (h : stage.Resumes executor site rest) :
    stage.executor.executionId = executor.executionId :=
  congrArg Execution.id h.execution

/-- A record of an execution at a task that was handed off with a payload. -/
def ExecutionRecord.waiting (definitionId name : String) (payload : Json) : ExecutionRecord :=
  { definitionId := some definitionId
    state := some { name, data := some payload }
    result := none }

/-- A queued task whose execution waits for it at the named state. -/
structure QueuedTask.Waits (task : QueuedTask) (site : Site) (executor : Executor)
    (machine : Machine) (name : String) : Prop where
  context : task.context = executor.exported site.definitions
  kept : executor.execution.held.isNone = site.central
  stands : ∃ id, Stage.Stands { executor, site } (.waiting id name task.input) machine
  atTask : ∃ state, machine.state? name = some (.task state) ∧ state.resource = task.resource

theorem Stage.Stands.defined_of_held {executor : Executor} {site : Site} {record : ExecutionRecord}
    {machine : Machine} (h : Stage.Stands { executor, site } record machine) :
    ∀ held, executor.execution.held = some held → held.definitionId ≠ none := by
  intro held hheld
  have hrecord : Handle.record { execution := executor.execution, site } = .ok held :=
    Handle.record_of_held hheld
  obtain rfl : held = record := Except.ok.inj (hrecord.symm.trans h.recorded)
  obtain ⟨id, hid, _⟩ := h.follows
  rw [hid]
  exact Option.some_ne_none id

/-- Where an execution stands has to do with the definitions and with its own record only. -/
theorem Stage.Stands.elsewhere {executor : Executor} {site : Site} {record : ExecutionRecord}
    {machine : Machine} (h : Stage.Stands { executor, site } record machine)
    {executorId : String} {other : Site} (hdefinitions : other.definitions = site.definitions)
    (hlibrary : site.library.Extends other.library)
    (htable : other.table.get? executor.executionId = site.table.get? executor.executionId) :
    Stage.Stands { executor := { executor with executorId }, site := other } record machine := by
  refine ⟨⟨?_, ?_⟩, ?_, ?_⟩
  · exact (congrArg DefinitionStore.front hdefinitions).trans h.isLocal.front
  · exact (congrArg DefinitionStore.announcement hdefinitions).trans h.isLocal.announcement
  · have hsame : Handle.record { execution := executor.execution, site := other } =
        Handle.record { execution := executor.execution, site } :=
      Handle.record_congr rfl htable
    exact hsame.trans h.recorded
  · obtain ⟨id, hid, hfind⟩ := h.follows
    refine ⟨id, hid, ?_⟩
    change other.library.find? other.definitions.home id = some machine
    rw [hdefinitions]
    exact hlibrary _ _ _ hfind

namespace QueuedTask.Waits

variable {task : QueuedTask} {site : Site} {executor : Executor} {machine : Machine} {name : String}

theorem elsewhere (h : task.Waits site executor machine name) {other : Site}
    (hdefinitions : other.definitions = site.definitions) (hcentral : other.central = site.central)
    (hlibrary : site.library.Extends other.library)
    (htable : other.table.get? executor.executionId = site.table.get? executor.executionId) :
    task.Waits other executor machine name := by
  obtain ⟨id, hstands⟩ := h.stands
  refine ⟨?_, h.kept.trans hcentral.symm, ⟨id, hstands.elsewhere hdefinitions hlibrary htable⟩,
    h.atTask⟩
  rw [hdefinitions]
  exact h.context

/-- Hydrating the context of a waiting task gives its execution, under a new executor. -/
theorem hydrate (h : task.Waits site executor machine name) {other : Site}
    (hdefinitions : other.definitions = site.definitions) (hcentral : other.central = site.central) :
    Executor.hydrate task.context other =
      .ok { executor with executorId := Identifier.spell other.issued }
        { other with issued := other.issued + 1 } := by
  obtain ⟨id, hstands⟩ := h.stands
  rw [h.context, Executor.hydrate_exported hstands.isLocal.announcement
    ((congrArg DefinitionStore.announcement hdefinitions).trans hstands.isLocal.announcement)
    (h.kept.trans hcentral.symm) hstands.defined_of_held, ← hdefinitions]

theorem stands_hydrated (h : task.Waits site executor machine name) (executorId : String)
    (issued : Nat) :
    ∃ id, Stage.Stands
      { executor := { executor with executorId }, site := { site with issued } }
      (.waiting id name task.input) machine := by
  obtain ⟨id, hstands⟩ := h.stands
  exact ⟨id, hstands.elsewhere rfl (fun _ _ _ hfind => hfind) rfl⟩

theorem current_hydrated (h : task.Waits site executor machine name) {executorId : String}
    {issued : Nat} :
    Stage.current { executor := { executor with executorId }, site := { site with issued } } =
      .ok (some { name, data := some task.input }, none)
        { executor := { executor with executorId }, site := { site with issued } } := by
  obtain ⟨id, hhydrated⟩ := h.stands_hydrated executorId issued
  exact Stage.current_of_recorded hhydrated.recorded

end QueuedTask.Waits

theorem Stage.Reaches.waits {before after : Stage} {record : ExecutionRecord} {machine : Machine}
    {name resource : String} {payload : Json}
    (h : before.Reaches record (.pending name resource payload) after)
    (hstands : before.Stands record machine) (hresult : record.result = none)
    (hat : (Progress.pending name resource payload).IsAt machine)
    (hkept : before.executor.execution.held.isNone = before.site.central) :
    QueuedTask.Waits
      { resource
        input := payload
        context := after.executor.exported before.site.definitions }
      after.site after.executor machine name := by
  have hdefinitions : after.site.definitions = before.site.definitions := by rw [h.site]
  have hcentral : after.site.central = before.site.central := by rw [h.site]
  obtain ⟨id, hid, _⟩ := hstands.follows
  refine ⟨by rw [hdefinitions], ?_, ⟨id, ?_⟩, hat name resource payload rfl⟩
  · rw [h.held, Option.isNone_map, hkept, hcentral]
  · have harrived := h.stands hstands
    rw [ExecutionRecord.arrived, hid, hresult] at harrived
    exact harrived

namespace Worker

variable {ρ ε : Type} {worker : Worker ρ ε} {site : Site} {memory : ρ}

theorem runNext_of_idle (h : site.queue.pending = []) :
    worker.runNext (site, memory) = .ok none (site, memory) := by
  unfold runNext Queue.take
  simp only [h]

theorem drain_of_idle (h : site.queue.pending = []) (limit : Nat) :
    worker.drain limit (site, memory) = .ok [] (site, memory) := by
  cases limit with
  | zero => rfl
  | succ limit =>
      rw [drain, Action.bind_of_ok (runNext_of_idle h)]
      rfl

end Worker

end Workflow
