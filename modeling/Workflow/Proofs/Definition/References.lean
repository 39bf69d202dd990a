import Workflow.Interpreter
import Workflow.Proofs.Dict

/-!
# References that lead somewhere

In a machine without violations every name that an execution can come to is the name of a state. So
entering a state and completing a task never fail there, and whatever is pending is a task.
-/

namespace Workflow

/-- The state that a task goes on with after its report. -/
def TaskState.successor? (task : TaskState) : Except String Json → Option String
  | .ok _ => task.next
  | .error code => (task.catcherFor? code).map (·.next)

theorem TaskState.catcherFor?_eq (task : TaskState) (code : String) :
    task.catcherFor? code =
      task.catchers.find? fun catcher => code ∈ catcher.codes ∨ anyError ∈ catcher.codes := by
  unfold catcherFor? Catcher.first?
  congr 1
  funext catcher
  rw [Bool.eq_iff_iff, Catcher.handles_iff, decide_eq_true_iff]

/-- The payload for the state after a task. -/
def payloadAfter : Except String Json → Json
  | .ok output => output
  | .error _ => .emptyObject

/-- A machine is at a task of its own, or at an end. -/
def Progress.IsAt (progress : Progress) (machine : Machine) : Prop :=
  ∀ name resource payload, progress = .pending name resource payload →
    ∃ task, machine.state? name = some (.task task) ∧ task.resource = resource

namespace Machine

variable {machine : Machine} {name next : String} {task : TaskState} {progress : Progress}

theorem violationUnless_eq_nil_iff {holds : Bool} {violation : Violation} :
    violationUnless holds violation = [] ↔ holds = true := by
  cases holds <;> simp [violationUnless]

theorem state?_of_task? (h : (machine.state? name).bind (·.task?) = some task) :
    machine.state? name = some (.task task) := by
  obtain ⟨state, hstate, htask⟩ := Option.bind_eq_some_iff.mp h
  cases state with
  | task found =>
      obtain rfl : found = task := Option.some.inj htask
      exact hstate
  | succeed comment => cases htask
  | fail failure => cases htask

theorem knows_startAt (hvalid : machine.violations = []) :
    machine.knows machine.startAt = true := by
  unfold violations at hvalid
  exact violationUnless_eq_nil_iff.mp (List.append_eq_nil_iff.mp hvalid).1

theorem stateViolations_eq_nil (hvalid : machine.violations = []) {state : State}
    (hstate : machine.state? name = some state) : machine.stateViolations name state = [] := by
  unfold violations at hvalid
  have hstates := (List.append_eq_nil_iff.mp hvalid).2
  rw [List.flatMap_eq_nil_iff] at hstates
  exact hstates (name, state) (Dict.get?_eq_some_iff.mp hstate)

theorem knows_next (hvalid : machine.violations = [])
    (htask : machine.state? name = some (.task task)) (hnext : task.next = some next) :
    machine.knows next = true := by
  have hnone := stateViolations_eq_nil hvalid htask
  simp only [stateViolations, List.append_eq_nil_iff, hnext, Option.toList_some,
    List.flatMap_singleton] at hnone
  exact violationUnless_eq_nil_iff.mp hnone.1

theorem catcherViolations_eq_nil (hvalid : machine.violations = [])
    (htask : machine.state? name = some (.task task)) {catcher : Catcher}
    (hcatcher : catcher ∈ task.catchers) :
    ∃ index, machine.catcherViolations name catcher index = [] := by
  have hnone := stateViolations_eq_nil hvalid htask
  simp only [stateViolations, List.append_eq_nil_iff, List.flatMap_eq_nil_iff] at hnone
  obtain ⟨index, hindex, hget⟩ := List.mem_iff_getElem.mp hcatcher
  have hmem : (catcher, index) ∈ task.catchers.zipIdx := by
    rw [List.mem_zipIdx_iff_getElem?, List.getElem?_eq_getElem hindex, hget]
  exact ⟨index, hnone.2 (catcher, index) hmem⟩

theorem knows_catcher (hvalid : machine.violations = [])
    (htask : machine.state? name = some (.task task)) {catcher : Catcher}
    (hcatcher : catcher ∈ task.catchers) : machine.knows catcher.next = true := by
  obtain ⟨index, hnone⟩ := catcherViolations_eq_nil hvalid htask hcatcher
  exact violationUnless_eq_nil_iff.mp (List.append_eq_nil_iff.mp hnone).2

theorem codes_ne_nil (hvalid : machine.violations = [])
    (htask : machine.state? name = some (.task task)) {catcher : Catcher}
    (hcatcher : catcher ∈ task.catchers) : catcher.codes ≠ [] := by
  obtain ⟨index, hnone⟩ := catcherViolations_eq_nil hvalid htask hcatcher
  simpa using violationUnless_eq_nil_iff.mp (List.append_eq_nil_iff.mp hnone).1

/-- Whether every name leads to a state and every catcher lists a code. -/
structure IsClosed (machine : Machine) : Prop where
  startAt : machine.knows machine.startAt = true
  next : ∀ name task, machine.state? name = some (.task task) →
    ∀ next, task.next = some next → machine.knows next = true
  catchers : ∀ name task, machine.state? name = some (.task task) →
    ∀ catcher ∈ task.catchers, catcher.codes ≠ [] ∧ machine.knows catcher.next = true

theorem IsClosed.stateViolations_eq_nil (h : machine.IsClosed) {state : State}
    (hstate : machine.state? name = some state) : machine.stateViolations name state = [] := by
  cases state with
  | task task =>
      refine List.append_eq_nil_iff.mpr ⟨?_, ?_⟩
      · refine List.flatMap_eq_nil_iff.mpr fun next hnext => violationUnless_eq_nil_iff.mpr ?_
        exact h.next name task hstate next (Option.mem_toList.mp hnext)
      · refine List.flatMap_eq_nil_iff.mpr fun ⟨catcher, index⟩ hmem => ?_
        obtain ⟨hcodes, hknows⟩ := h.catchers name task hstate catcher (List.fst_mem_of_mem_zipIdx hmem)
        refine List.append_eq_nil_iff.mpr ⟨?_, violationUnless_eq_nil_iff.mpr hknows⟩
        exact violationUnless_eq_nil_iff.mpr (by simpa using hcodes)
  | succeed comment => rfl
  | fail failure => rfl

theorem violations_eq_nil_iff : machine.violations = [] ↔ machine.IsClosed := by
  constructor
  · intro hvalid
    exact ⟨knows_startAt hvalid, fun name task htask next hnext => knows_next hvalid htask hnext,
      fun name task htask catcher hcatcher =>
        ⟨codes_ne_nil hvalid htask hcatcher, knows_catcher hvalid htask hcatcher⟩⟩
  · intro h
    refine List.append_eq_nil_iff.mpr ⟨violationUnless_eq_nil_iff.mpr h.startAt, ?_⟩
    refine List.flatMap_eq_nil_iff.mpr fun ⟨name, state⟩ hmem => ?_
    exact h.stateViolations_eq_nil (Dict.get?_eq_some_iff.mpr hmem)

theorem checked_of_isClosed (h : machine.IsClosed) : machine.checked = .ok machine := by
  rw [checked, violations_eq_nil_iff.mpr h]

theorem checked_of_not_isClosed (h : ¬ machine.IsClosed) :
    machine.checked = .error (.invalid machine.violations) := by
  unfold checked
  split
  · rename_i hvalid
    exact absurd (violations_eq_nil_iff.mp hvalid) h
  · rfl

theorem knows_successor (hvalid : machine.violations = [])
    (htask : machine.state? name = some (.task task)) {report : Except String Json}
    (hnext : task.successor? report = some next) : machine.knows next = true := by
  cases report with
  | ok output => exact knows_next hvalid htask hnext
  | error code =>
      obtain ⟨catcher, hcatcher, rfl⟩ := Option.map_eq_some_iff.mp hnext
      exact knows_catcher hvalid htask (List.mem_of_find?_eq_some hcatcher)

theorem exists_enter?_of_knows (hknows : machine.knows name = true) (payload : Json) :
    ∃ progress, machine.enter? name payload = some progress := by
  obtain ⟨state, hstate⟩ := Dict.contains_eq_true_iff.mp hknows
  unfold enter? state?
  rw [hstate]
  exact ⟨_, rfl⟩

theorem isAt_of_enter? {payload : Json} (h : machine.enter? name payload = some progress) :
    progress.IsAt machine := by
  rintro state resource input rfl
  unfold enter? at h
  obtain ⟨found, hfound, hprogress⟩ := Option.map_eq_some_iff.mp h
  cases found with
  | task task =>
      simp only [Progress.pending.injEq] at hprogress
      obtain ⟨rfl, rfl, rfl⟩ := hprogress
      exact ⟨task, hfound, rfl⟩
  | succeed comment => cases hprogress
  | fail failure => cases hprogress

theorem complete?_of_successor {report : Except String Json} (h : task.successor? report = some next) :
    machine.complete? task report = machine.enter? next (payloadAfter report) := by
  unfold complete?
  cases report with
  | ok output =>
      have hnext : task.next = some next := h
      simp only [hnext]
      rfl
  | error code =>
      obtain ⟨catcher, hcatcher, rfl⟩ := Option.map_eq_some_iff.mp h
      simp only [← TaskState.catcherFor?_eq, hcatcher]
      rfl

theorem complete?_of_last (machine : Machine) {report : Except String Json} (h : task.successor? report = none) :
    ∃ result, machine.complete? task report = some (.done result) ∧
      (result.status = .succeeded ∨ result.status = .failed) := by
  unfold complete?
  cases report with
  | ok output =>
      have hnext : task.next = none := h
      simp only [hnext]
      exact ⟨_, rfl, .inl rfl⟩
  | error code =>
      have hcatcher : task.catcherFor? code = none := Option.map_eq_none_iff.mp h
      simp only [← TaskState.catcherFor?_eq, hcatcher]
      exact ⟨_, rfl, .inr rfl⟩

theorem exists_complete?_of_valid (hvalid : machine.violations = [])
    (htask : machine.state? name = some (.task task)) (report : Except String Json) :
    ∃ progress, machine.complete? task report = some progress := by
  cases hnext : task.successor? report with
  | some next =>
      rw [complete?_of_successor hnext]
      exact exists_enter?_of_knows (knows_successor hvalid htask hnext) _
  | none =>
      obtain ⟨result, hresult, _⟩ := complete?_of_last machine hnext
      exact ⟨_, hresult⟩

/-- A report either enters the successor of its task or ends the execution. -/
theorem complete?_cases {report : Except String Json}
    (h : machine.complete? task report = some progress) :
    (∃ next, task.successor? report = some next ∧
        machine.enter? next (payloadAfter report) = some progress) ∨
      ∃ result, progress = .done result ∧
        (result.status = .succeeded ∨ result.status = .failed) := by
  cases hnext : task.successor? report with
  | some next => exact .inl ⟨next, rfl, (complete?_of_successor hnext).symm.trans h⟩
  | none =>
      obtain ⟨result, hresult, hstatus⟩ := complete?_of_last machine hnext
      exact .inr ⟨result, Option.some.inj (h.symm.trans hresult), hstatus⟩

theorem isAt_of_complete? {report : Except String Json}
    (h : machine.complete? task report = some progress) : progress.IsAt machine := by
  rcases complete?_cases h with ⟨next, _, henter⟩ | ⟨result, rfl, _⟩
  · exact isAt_of_enter? henter
  · rintro name resource payload heq
    cases heq

/-- A machine of one task, which ends well or is lost. -/
def errand : Machine :=
  { states := .ofList
      [("Carry", .task
          { resource := "courier"
            next := some "Home"
            catchList := some [.ofAnyError "Lost"]
            comment := none }),
        ("Home", .succeed none),
        ("Lost", .fail { error := "Lost", cause := "storm", comment := none })]
    startAt := "Carry"
    comment := none
    version := defaultVersion
    timeoutSeconds := none }

theorem violations_errand : errand.violations = [] := by
  decide

end Machine

end Workflow
