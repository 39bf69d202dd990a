import Mathlib.Logic.Function.Basic
import Workflow.Proofs.Executor.Admission
import Workflow.Proofs.Executor.Creation
import Workflow.Proofs.Session.Request
import Workflow.Proofs.Worker.Workshop

/-!
# Offices

One site at which several executions are looked after, each at a desk of its own. Whoever comes brings
the identifiers that are given out, and says how hand-offs are answered meanwhile. Calls for one
execution are made on its executors and on contexts that they have exported or queued, old ones
included. An identifier that nobody brings is the next one of the site: see `Site.create_eq_createAs` and
`Executor.hydrate_eq_hydrateAs`.
-/

namespace Workflow

/-- What was given out for an execution. -/
structure Desk where
  executors : List Executor
  /-- The contexts that were exported, oldest first. -/
  exports : List Context

inductive Deed where
  | create (executorId : String) (machine : Machine)
  | hydrate (executorId : String) (source : Source)
  /-- A request to the executor with a number. -/
  | ask (slot : Nat) (request : Request)

/-- A call for an execution, and how hand-offs are answered during it. -/
structure Visit where
  execution : String
  rejection : Option String
  deed : Deed

/-- The machine that a visit brings. -/
def Visit.machine? (visit : Visit) : Option Machine :=
  match visit.deed with
  | .create _ machine => some machine
  | _ => none

structure Office where
  site : Site
  desk : String → Desk

/-- The context that an answer gives out. -/
def exportedBy : Except ExecutorError Reply → List Context
  | .ok (.context context) => [context]
  | _ => []

theorem mem_exportedBy {answer : Except ExecutorError Reply} {context : Context} :
    context ∈ exportedBy answer ↔ answer = .ok (.context context) := by
  unfold exportedBy
  split
  · rw [List.mem_singleton, Except.ok.injEq, Reply.context.injEq, eq_comm]
  · rename_i hother
    exact ⟨fun hmem => absurd hmem List.not_mem_nil, fun hanswer => absurd hanswer (hother context)⟩

namespace Office

def start (central : Bool) : Office :=
  { site := .fresh central
    desk := fun _ => { executors := [], exports := [] } }

/-- The tasks that were ever queued for an execution. -/
def tasksOf (office : Office) (id : String) : List QueuedTask :=
  office.site.queue.pending.filter (·.owner? == some id)

def linesOf (office : Office) (id : String) : List LogLine :=
  linesFor id office.site.log

/-- The context of a source, among those that an execution has come by. -/
def context? (office : Office) (id : String) : Source → Option Context
  | .exported index => (office.desk id).exports[index]?
  | .queued index => (office.tasksOf id)[index]?.map (·.context)

/-- The office with one more executor at a desk, which was given out at the site. -/
def seat (office : Office) (id : String) (executor : Executor) (site : Site) : Office :=
  { site
    desk := Function.update office.desk id
      { office.desk id with executors := (office.desk id).executors ++ [executor] } }

/-- The office after an executor at a desk has answered. -/
def heard (office : Office) (id : String) (slot : Nat) (answer : Except ExecutorError Reply)
    (after : Stage) : Office :=
  { site := after.site
    desk := Function.update office.desk id
      { executors := (office.desk id).executors.set slot after.executor
        exports := (office.desk id).exports ++ exportedBy answer } }

/-- The answer to a call that gives out an executor, and the office after it. -/
def opened (office : Office) (id : String) :
    EStateM.Result ExecutorError Site Executor → Answer × Office
  | .ok executor site =>
    (some (.ok (.opened executor.executionId executor.executorId)), office.seat id executor site)
  | .error error site => (some (.error error), { office with site })

def step (office : Office) (visit : Visit) : Answer × Office :=
  let id := visit.execution
  let site := { office.site with rejection := visit.rejection }
  match visit.deed with
  | .create executorId machine => office.opened id (Executor.createAs id executorId machine site)
  | .hydrate executorId source =>
    match office.context? id source with
    | none => (none, office)
    | some context => office.opened id (Executor.hydrateAs executorId context site)
  | .ask slot request =>
    match (office.desk id).executors[slot]? with
    | none => (none, office)
    | some executor =>
      let (answer, after) := Stage.serve { executor, site := office.site } visit.rejection request
      (some answer, office.heard id slot answer after)

/-- The answers to a list of visits, each with the execution that it was for, and the office after
them. -/
def run (office : Office) : List Visit → List (String × Answer) × Office
  | [] => ([], office)
  | visit :: rest =>
    let (answer, next) := office.step visit
    let (answers, last) := next.run rest
    ((visit.execution, answer) :: answers, last)

theorem run_cons (office : Office) (visit : Visit) (rest : List Visit) :
    office.run (visit :: rest) =
      ((visit.execution, (office.step visit).1) :: ((office.step visit).2.run rest).1,
        ((office.step visit).2.run rest).2) :=
  rfl

section Desks

variable (office : Office) {id other : String} (executor : Executor) (site : Site) (slot : Nat)
  (answer : Except ExecutorError Reply) (after : Stage)

theorem desk_seat_self :
    (office.seat id executor site).desk id =
      { office.desk id with executors := (office.desk id).executors ++ [executor] } :=
  Function.update_self _ _ _

theorem desk_seat_of_ne (hne : other ≠ id) :
    (office.seat id executor site).desk other = office.desk other :=
  Function.update_of_ne hne _ _

theorem desk_heard_self :
    (office.heard id slot answer after).desk id =
      { executors := (office.desk id).executors.set slot after.executor
        exports := (office.desk id).exports ++ exportedBy answer } :=
  Function.update_self _ _ _

theorem desk_heard_of_ne (hne : other ≠ id) :
    (office.heard id slot answer after).desk other = office.desk other :=
  Function.update_of_ne hne _ _

end Desks

end Office

end Workflow
