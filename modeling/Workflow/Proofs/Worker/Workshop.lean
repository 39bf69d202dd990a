import Workflow.Proofs.Executor.Creation
import Workflow.Proofs.Worker.InHand

/-!
# Workshops

A site at which executions are created and dispatched once, and otherwise left to workers. Whoever
comes to work takes tasks from the queue, with a memory of its own.
-/

namespace Workflow

/-- The execution that the context of a task tells about. -/
def QueuedTask.owner? (task : QueuedTask) : Option String :=
  (Executor.readOwnSlice (task.context.slice Executor.spaceName)).toOption

/-- What can be done at a workshop. Executors that were not dispatched yet are numbered. -/
inductive Duty : Type 1 where
  | create (machine : Machine)
  | dispatch (index : Nat) (input : Json)
  | runNext {ρ ε : Type} (worker : Worker ρ ε) (memory : ρ)
  | runUntilIdle {ρ ε : Type} (worker : Worker ρ ε) (memory : ρ) (limit : Nat)

structure Workshop where
  site : Site
  /-- The executors that were not dispatched yet. -/
  waiting : List Executor
  /-- The executions that were created, each with its machine. -/
  created : List (String × Machine)
  /-- What the calls came to, each with the execution that it took on. -/
  outcomes : List (Option String × Outcome)

namespace Workshop

def start (central : Bool) : Workshop :=
  { site := .fresh central
    waiting := []
    created := []
    outcomes := [] }

variable {ρ ε : Type}

/-- One turn of a worker. -/
def turn (shop : Workshop) (worker : Worker ρ ε) (memory : ρ) : Workshop × ρ :=
  match worker.runNext (shop.site, memory) with
  | .ok none (site, memory) => ({ shop with site }, memory)
  | .ok (some outcome) (site, memory) =>
    let owner := shop.site.queue.pending.head?.bind (·.owner?)
    ({ shop with site, outcomes := shop.outcomes ++ [(owner, outcome)] }, memory)
  | .error _ (site, memory) => ({ shop with site }, memory)

/-- So many turns of a worker. -/
def turns (shop : Workshop) (worker : Worker ρ ε) (memory : ρ) : Nat → Workshop × ρ
  | 0 => (shop, memory)
  | count + 1 =>
    let (shop, memory) := shop.turn worker memory
    turns shop worker memory count

/-- The site that an action leaves, whether it fails or not. -/
def siteAfter {α : Type} : EStateM.Result ExecutorError (Site × ρ) α → Site
  | .ok _ (site, _) => site
  | .error _ (site, _) => site

def step (shop : Workshop) : Duty → Workshop
  | .create machine =>
    match Executor.create machine shop.site with
    | .ok executor site =>
      { shop with
        site
        waiting := shop.waiting ++ [executor]
        created := shop.created ++ [(executor.executionId, machine)] }
    | .error _ site => { shop with site }
  | .dispatch index input =>
    match shop.waiting[index]? with
    | none => shop
    | some executor =>
      let left := shop.waiting.eraseIdx index
      match Stage.dispatch input { executor, site := shop.site } with
      | .ok outcome stage =>
        { shop with
          site := stage.site
          waiting := left
          outcomes := shop.outcomes ++ [(some executor.executionId, outcome)] }
      | .error _ stage => { shop with site := stage.site, waiting := left }
  | .runNext worker memory => (shop.turn worker memory).1
  | .runUntilIdle worker memory limit =>
    { (shop.turns worker memory limit).1 with
      site := siteAfter (worker.runUntilIdle limit (shop.site, memory)) }

def run (shop : Workshop) : List Duty → Workshop
  | [] => shop
  | duty :: rest => (shop.step duty).run rest

/-- Whether a call has brought an execution to an end. Where executions are kept in a table, the
result is there. -/
def HasFinished (shop : Workshop) (id : String) : Prop :=
  ∃ result, (some id, .finished result) ∈ shop.outcomes ∧
    (shop.site.central = true → ∃ record, shop.site.table.get? id = some record ∧
      record.state = none ∧ record.result = some result)

/-- Whether a task belongs to an execution that was created: its context hydrates to that execution,
which is at a task of its machine with the same resource, with the task's input and no result. -/
def Serves (shop : Workshop) (task : QueuedTask) (id : String) : Prop :=
  ∃ machine executor site name state,
    (id, machine) ∈ shop.created ∧
    Executor.hydrate task.context shop.site = .ok executor site ∧
    executor.executionId = id ∧
    Stage.definition { executor, site } = .ok machine { executor, site } ∧
    Stage.current { executor, site } =
      .ok (some { name, data := some task.input }, none) { executor, site } ∧
    machine.state? name = some (.task state) ∧ state.resource = task.resource

/-- The queue and the executions agree. -/
structure InOrder (shop : Workshop) : Prop where
  /-- No execution has two tasks. -/
  distinct : (shop.site.queue.pending.map (·.owner?)).Nodup
  pending : ∀ task ∈ shop.site.queue.pending, ∃ id, task.owner? = some id ∧ shop.Serves task id
  settled : ∀ id machine, (id, machine) ∈ shop.created →
    (∀ executor ∈ shop.waiting, executor.executionId ≠ id) →
    (∃ task ∈ shop.site.queue.pending, task.owner? = some id) ∨ shop.HasFinished id
  /-- No worker meets an error. -/
  served : ∀ {ρ ε : Type} (worker : Worker ρ ε) (memory : ρ),
    ∃ answer after, worker.runNext (shop.site, memory) = .ok answer after

end Workshop

end Workflow
