import Workflow.Proofs.Definition.References
import Workflow.Proofs.Execution.Handle

/-!
# A state and a result side by side

A handle takes operations in any order. One that sets a result takes the state away, but one that enters
a state leaves the result. So an execution has both exactly if a state was entered after a result was
set, and no result was set after that.
-/

namespace Workflow

/-- What a handle can be asked to do to the record of its execution. -/
inductive Operation where
  | changeState (name : String) (data : Option Json)
  | updateData (data : Json)
  | setResult (result : ExecutionResult)
  deriving DecidableEq

namespace Operation

def action : Operation → Action Handle Unit
  | .changeState name data => Handle.changeState name data
  | .updateData data => Handle.updateData data
  | .setResult result => Handle.setResult result

/-- The record after the operation. Without a state there is no payload to replace. -/
def revise (record : ExecutionRecord) : Operation → ExecutionRecord
  | .changeState name data => { record with state := some { name, data } }
  | .updateData data =>
    { record with state := record.state.map fun state => { state with data := some data } }
  | .setResult result => { record with state := none, result := some result }

/-- Whether a state is entered after a result was set, and no result is set after that. -/
def Reopens (operations : List Operation) : Prop :=
  ∃ earlier result between name data later,
    operations = earlier ++ .setResult result :: between ++ .changeState name data :: later ∧
      ∀ ended, .setResult ended ∉ later

/-- Whether the last operation that enters a state or sets a result enters a state. -/
def LeavesState (operations : List Operation) : Prop :=
  ∃ earlier name data later, operations = earlier ++ .changeState name data :: later ∧
    ∀ ended, .setResult ended ∉ later

section Revise

variable (record : ExecutionRecord) (operations : List Operation)

theorem isSome_result_foldl :
    (operations.foldl revise record).result.isSome = true ↔
      record.result.isSome = true ∨ ∃ result, .setResult result ∈ operations := by
  induction operations generalizing record with
  | nil => simp
  | cons operation rest ih =>
      rw [List.foldl_cons, ih]
      cases operation <;> simp [revise]

theorem leavesState_cons (operation : Operation) :
    LeavesState (operation :: operations) ↔
      LeavesState operations ∨
        (∃ name data, operation = .changeState name data) ∧
          ∀ ended, .setResult ended ∉ operations := by
  constructor
  · rintro ⟨earlier, name, data, later, heq, hlater⟩
    cases earlier with
    | nil =>
        obtain ⟨rfl, rfl⟩ := List.cons.inj heq
        exact .inr ⟨⟨name, data, rfl⟩, hlater⟩
    | cons first earlier => exact .inl ⟨earlier, name, data, later, (List.cons.inj heq).2, hlater⟩
  · rintro (⟨earlier, name, data, later, rfl, hlater⟩ | ⟨⟨name, data, rfl⟩, hnone⟩)
    · exact ⟨operation :: earlier, name, data, later, rfl, hlater⟩
    · exact ⟨[], name, data, operations, rfl, hnone⟩

/-- The state is one that was entered, or the one from before, and no result was set since. -/
theorem isSome_state_foldl :
    (operations.foldl revise record).state.isSome = true ↔
      LeavesState operations ∨
        record.state.isSome = true ∧ ∀ ended, .setResult ended ∉ operations := by
  induction operations generalizing record with
  | nil => simp [LeavesState]
  | cons operation rest ih =>
      rw [List.foldl_cons, ih, leavesState_cons]
      cases operation with
      | changeState name data => grind [revise]
      | updateData data => grind [revise]
      | setResult result => grind [revise]

end Revise

theorem reopens_iff {operations : List Operation} :
    Reopens operations ↔ LeavesState operations ∧ ∃ result, .setResult result ∈ operations := by
  constructor
  · rintro ⟨earlier, result, between, name, data, later, rfl, hlater⟩
    exact ⟨⟨_, name, data, later, rfl, hlater⟩, result, by simp⟩
  · rintro ⟨⟨earlier, name, data, later, rfl, hlater⟩, result, hmem⟩
    have hearlier : .setResult result ∈ earlier := by
      rcases List.mem_append.mp hmem with hmem | hmem
      · exact hmem
      · rcases List.mem_cons.mp hmem with heq | hmem
        · cases heq
        · exact absurd hmem (hlater result)
    obtain ⟨before, between, rfl⟩ := List.append_of_mem hearlier
    exact ⟨before, result, between, name, data, later, rfl, hlater⟩

end Operation

namespace Handle

/-- The handle after an operation, which may have failed. -/
def operate (handle : Handle) (operation : Operation) : Handle :=
  match operation.action handle with
  | .ok _ after => after
  | .error _ after => after

def operateAll (handle : Handle) (operations : List Operation) : Handle :=
  operations.foldl operate handle

section Recorded

variable {handle : Handle} {record : ExecutionRecord}

theorem record_operate (h : handle.record = .ok record) (operation : Operation) :
    (handle.operate operation).record = .ok (operation.revise record) := by
  unfold operate
  cases operation with
  | changeState name data =>
      simp only [Operation.action, changeState, modifyRecord_of_ok h]
      exact record_setRecord handle _
  | setResult result =>
      simp only [Operation.action, setResult, modifyRecord_of_ok h]
      exact record_setRecord handle _
  | updateData data =>
      cases hstate : record.state with
      | none =>
          simp only [Operation.action, updateData_of_stateless h hstate, Operation.revise, hstate,
            Option.map_none]
          rw [h, ← hstate]
      | some state =>
          simp only [Operation.action, updateData_of_ok h hstate, Operation.revise, hstate,
            Option.map_some]
          exact record_setRecord handle _

theorem record_operateAll (h : handle.record = .ok record) (operations : List Operation) :
    (handle.operateAll operations).record = .ok (operations.foldl Operation.revise record) := by
  induction operations generalizing handle record with
  | nil => exact h
  | cons operation rest ih => exact ih (record_operate h operation)

end Recorded

/-- A new execution has a record with neither a state nor a result, wherever that is kept. -/
theorem exists_register_opened (site : Site) (id : String) (machine : Machine) :
    ∃ handle definitionId,
      register machine { execution := .opened site id, site } = .ok () handle ∧
      handle.record = .ok { ExecutionRecord.blank with definitionId := some definitionId } := by
  have hopened : (Execution.opened site id).held.getD .blank = .blank := by
    unfold Execution.opened
    cases site.central <;> rfl
  let library := (site.definitions.put machine site.library).2
  refine ⟨_, (site.definitions.put machine site.library).1, ?_,
    record_setRecord { execution := .opened site id, site := { site with library } } _⟩
  unfold register
  rw [Action.bind_of_ok (Action.get_apply _)]
  simp only [hopened]
  rfl

/-- After operations on a new execution its handle shows a state and a result together exactly if a state
was entered after a result was set, and no result was set after that. -/
theorem shows_both_iff_reopens (site : Site) (id : String) (machine : Machine) :
    ∃ handle, register machine { execution := .opened site id, site } = .ok () handle ∧
      ∀ operations, ∃ state result,
        current (handle.operateAll operations) =
          .ok (state, result) (handle.operateAll operations) ∧
        ((state.isSome = true ∧ result.isSome = true) ↔ Operation.Reopens operations) := by
  obtain ⟨handle, definitionId, hregister, hrecord⟩ := exists_register_opened site id machine
  refine ⟨handle, hregister, fun operations => ?_⟩
  refine ⟨_, _, current_of_ok (record_operateAll hrecord operations), ?_⟩
  rw [Operation.isSome_state_foldl, Operation.isSome_result_foldl, Operation.reopens_iff]
  simp [ExecutionRecord.blank]

/-- A state is entered after a result was set. -/
def reopening : List Operation :=
  [.setResult (.succeeded none), .changeState "Carry" none]

/-- Neither a record that travels in the context nor one in a table gives its result up. -/
theorem shows_both_errand :
    (∃ handle,
      register .errand { execution := .opened (.fresh false) "e1", site := .fresh false } =
        .ok () handle ∧
      current (handle.operateAll reopening) =
        .ok (some { name := "Carry", data := none }, some (.succeeded none))
          (handle.operateAll reopening)) ∧
    ∃ handle,
      register .errand { execution := .opened (.fresh true) "e1", site := .fresh true } =
        .ok () handle ∧
      current (handle.operateAll reopening) =
        .ok (some { name := "Carry", data := none }, some (.succeeded none))
          (handle.operateAll reopening) := by
  have hboth : ∀ site : Site, ∃ handle,
      register .errand { execution := .opened site "e1", site } = .ok () handle ∧
      current (handle.operateAll reopening) =
        .ok (some { name := "Carry", data := none }, some (.succeeded none))
          (handle.operateAll reopening) := by
    intro site
    obtain ⟨handle, definitionId, hregister, hrecord⟩ := exists_register_opened site "e1" .errand
    exact ⟨handle, hregister, current_of_ok (record_operateAll hrecord reopening)⟩
  exact ⟨hboth _, hboth _⟩

end Handle

end Workflow
