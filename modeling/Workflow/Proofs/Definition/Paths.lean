import Mathlib.Data.Set.Card
import Mathlib.Logic.Relation
import Workflow.Proofs.Definition.References

/-!
# Paths through a machine

A task leads to the states that its next state and its catchers name, whether or not an error is ever
reported that such a catcher takes. If no state that can be reached leads back to itself, every report
leaves fewer tasks ahead: the one that was reported is not among them any more.
-/

namespace Workflow

namespace Machine

/-- The named task goes on with `next` after a success, or after an error that one of its catchers
takes. -/
def Leads (machine : Machine) (name next : String) : Prop :=
  ∃ task, machine.state? name = some (.task task) ∧
    (task.next = some next ∨ ∃ catcher ∈ task.catchers, catcher.next = next)

/-- The states that can be reached from the start. -/
def Reachable (machine : Machine) (name : String) : Prop :=
  Relation.ReflTransGen machine.Leads machine.startAt name

/-- No state that can be reached leads back to itself. -/
def Acyclic (machine : Machine) : Prop :=
  ∀ name, machine.Reachable name → ¬ Relation.TransGen machine.Leads name name

/-- The tasks that can be reached from a state, which counts itself if it is one. -/
def tasksFrom (machine : Machine) (name : String) : Set String :=
  {other | Relation.ReflTransGen machine.Leads name other ∧
    ∃ task, machine.state? other = some (.task task)}

/-- The tasks that can be reached at all. -/
def reachableTasks (machine : Machine) : Set String :=
  machine.tasksFrom machine.startAt

end Machine

/-- The tasks that an execution may still come to do. -/
def Progress.ahead (progress : Progress) (machine : Machine) : Set String :=
  match progress with
  | .pending name _ _ => machine.tasksFrom name
  | .done _ => ∅

/-- An execution that has ended has succeeded or failed. -/
def Progress.EndsPlainly (progress : Progress) : Prop :=
  ∀ result, progress = .done result → result.status = .succeeded ∨ result.status = .failed

namespace Machine

variable {machine : Machine} {name next : String} {task : TaskState} {progress : Progress}

theorem reachable_of_mem (h : name ∈ machine.reachableTasks) : machine.Reachable name :=
  h.1

theorem finite_tasksFrom (machine : Machine) (name : String) : (machine.tasksFrom name).Finite := by
  apply (List.finite_toSet (machine.states.entries.map (·.1))).subset
  rintro other ⟨_, task, htask⟩
  exact List.mem_map.mpr ⟨(other, .task task), Dict.get?_eq_some_iff.mp htask, rfl⟩

theorem mem_tasksFrom_self (htask : machine.state? name = some (.task task)) :
    name ∈ machine.tasksFrom name :=
  ⟨.refl, task, htask⟩

theorem tasksFrom_subset (h : machine.Leads name next) :
    machine.tasksFrom next ⊆ machine.tasksFrom name := by
  rintro other ⟨hpath, htask⟩
  exact ⟨hpath.head h, htask⟩

theorem Acyclic.notMem_tasksFrom (hacyclic : machine.Acyclic) (hreach : machine.Reachable name)
    (h : machine.Leads name next) : name ∉ machine.tasksFrom next := by
  rintro ⟨hpath, _⟩
  exact hacyclic name hreach (.head' h hpath)

/-- Where a measure falls along every step there is no way back. -/
theorem acyclic_of_decreasing (measure : String → Nat)
    (h : ∀ name next, machine.Leads name next → measure next < measure name) : machine.Acyclic := by
  intro name _ hcycle
  have hfalls : ∀ other, Relation.TransGen machine.Leads name other → measure other < measure name := by
    intro other hpath
    induction hpath with
    | single hstep => exact h _ _ hstep
    | tail _ hstep ih => exact (h _ _ hstep).trans ih
  exact lt_irrefl _ (hfalls name hcycle)

theorem leads_of_successor (htask : machine.state? name = some (.task task))
    {report : Except String Json} (hnext : task.successor? report = some next) :
    machine.Leads name next := by
  refine ⟨task, htask, ?_⟩
  cases report with
  | ok output => exact .inl hnext
  | error code =>
      obtain ⟨catcher, hcatcher, heq⟩ := Option.map_eq_some_iff.mp hnext
      exact .inr ⟨catcher, List.mem_of_find?_eq_some hcatcher, heq⟩

theorem ahead_of_enter? {payload : Json} (h : machine.enter? name payload = some progress) :
    progress.ahead machine ⊆ machine.tasksFrom name := by
  unfold enter? at h
  obtain ⟨state, _, rfl⟩ := Option.map_eq_some_iff.mp h
  cases state with
  | task task => exact subset_rfl
  | succeed comment => exact Set.empty_subset _
  | fail failure => exact Set.empty_subset _

theorem endsPlainly_of_enter? {payload : Json} (h : machine.enter? name payload = some progress) :
    progress.EndsPlainly := by
  rintro result rfl
  unfold enter? at h
  obtain ⟨state, _, heq⟩ := Option.map_eq_some_iff.mp h
  cases state with
  | task task => cases heq
  | succeed comment => cases heq; exact .inl rfl
  | fail failure => cases heq; exact .inr rfl

theorem endsPlainly_of_complete? {report : Except String Json}
    (h : machine.complete? task report = some progress) : progress.EndsPlainly := by
  rcases complete?_cases h with ⟨next, _, henter⟩ | ⟨result, rfl, hstatus⟩
  · exact endsPlainly_of_enter? henter
  · intro other heq
    obtain rfl := Progress.done.inj heq
    exact hstatus

section Ahead

variable {report : Except String Json} (htask : machine.state? name = some (.task task))
  (h : machine.complete? task report = some progress)

include htask h

theorem ahead_of_complete? : progress.ahead machine ⊆ machine.tasksFrom name := by
  rcases complete?_cases h with ⟨next, hnext, henter⟩ | ⟨result, rfl, _⟩
  · exact (ahead_of_enter? henter).trans (tasksFrom_subset (leads_of_successor htask hnext))
  · exact Set.empty_subset _

theorem Acyclic.notMem_ahead (hacyclic : machine.Acyclic) (hreach : machine.Reachable name) :
    name ∉ progress.ahead machine := by
  rcases complete?_cases h with ⟨next, hnext, henter⟩ | ⟨result, rfl, _⟩
  · intro hmem
    exact hacyclic.notMem_tasksFrom hreach (leads_of_successor htask hnext) (ahead_of_enter? henter hmem)
  · exact Set.notMem_empty name

/-- The report of a task leaves fewer tasks ahead. -/
theorem Acyclic.ncard_ahead_lt (hacyclic : machine.Acyclic) (hreach : machine.Reachable name) :
    (progress.ahead machine).ncard < (machine.tasksFrom name).ncard := by
  apply Set.ncard_lt_ncard _ (machine.finite_tasksFrom name)
  rw [Set.ssubset_iff_of_subset (ahead_of_complete? htask h)]
  exact ⟨name, mem_tasksFrom_self htask, hacyclic.notMem_ahead htask h hreach⟩

end Ahead

/-- Work that is mended after an error, and painted in either case. -/
def detour : Machine :=
  { states := .ofList
      [("Saw", .task
          { resource := "saw"
            next := some "Paint"
            catchList := some [.ofAnyError "Mend"]
            comment := none }),
        ("Mend", .task { resource := "glue", next := some "Paint", catchList := none, comment := none }),
        ("Paint", .task { resource := "brush", next := none, catchList := none, comment := none })]
    startAt := "Saw"
    comment := none
    version := defaultVersion
    timeoutSeconds := none }

theorem violations_detour : detour.violations = [] := by
  decide

theorem state?_detour (htask : detour.state? name = some (.task task)) :
    name = "Saw" ∨ name = "Mend" ∨ name = "Paint" := by
  have hentries : detour.states.entries.map (·.1) = ["Mend", "Paint", "Saw"] := by decide
  have hmem : name ∈ detour.states.entries.map (·.1) :=
    List.mem_map.mpr ⟨(name, .task task), Dict.get?_eq_some_iff.mp htask, rfl⟩
  rw [hentries] at hmem
  simpa [or_comm, or_left_comm] using hmem

theorem acyclic_detour : detour.Acyclic := by
  let measure (name : String) : Nat := if name = "Saw" then 2 else if name = "Mend" then 1 else 0
  apply acyclic_of_decreasing measure
  rintro name next ⟨task, htask, hnext⟩
  rcases state?_detour htask with rfl | rfl | rfl <;>
    obtain rfl := State.task.inj (Option.some.inj (Eq.symm htask))
  · have hmend : next = "Paint" ∨ next = "Mend" := by
      simpa [TaskState.catchers, Catcher.ofAnyError, eq_comm] using hnext
    rcases hmend with rfl | rfl <;> decide
  · obtain rfl : "Paint" = next := by simpa [TaskState.catchers] using hnext
    decide
  · simp [TaskState.catchers] at hnext

theorem ncard_reachableTasks_detour_le : detour.reachableTasks.ncard ≤ 3 := by
  have hsubset : detour.reachableTasks ⊆ ({"Saw", "Mend", "Paint"} : Finset String) := by
    rintro name ⟨_, task, htask⟩
    simpa using state?_detour htask
  calc detour.reachableTasks.ncard
    _ ≤ (({"Saw", "Mend", "Paint"} : Finset String) : Set String).ncard :=
      Set.ncard_le_ncard hsubset (Finset.finite_toSet _)
    _ = 3 := by rw [Set.ncard_coe_finset]; decide

end Machine

end Workflow
