import Workflow.Proofs.Executor.Stage
import Workflow.Proofs.Store.Library

/-!
# A new execution

Creating an execution stores its machine and opens a record that follows it. It cannot fail at a
site whose definition store has no shelf to read first.
-/

namespace Workflow

/-- The record of an execution that nothing has happened to. -/
def ExecutionRecord.following (definitionId : String) : ExecutionRecord :=
  { ExecutionRecord.blank with definitionId := some definitionId }

namespace Site

/-- The site with one more machine on the shelf of its definition store. -/
def shelving (site : Site) (machine : Machine) : Site :=
  { site with
    library :=
      site.library.insertIfAbsent site.definitions.home machine.contentHash machine }

/-- The stage of an execution that was just created under the given identifiers. -/
def opening (site : Site) (executionId executorId : String) (machine : Machine) : Stage :=
  Stage.withRecord
    { executor := { execution := .opened site executionId, executorId, sequence := 0 }
      site := site.shelving machine }
    (.following machine.contentHash)

/-- The stage of an execution that was just created. -/
def created (site : Site) (machine : Machine) : Stage :=
  opening { site with issued := site.issued + 2 } (Identifier.spell site.issued)
    (Identifier.spell (site.issued + 1)) machine

variable {site : Site}

theorem register_apply (h : site.IsLocal) (id : String) (machine : Machine) :
    Handle.register machine { execution := .opened site id, site } =
      .ok () (Handle.setRecord { execution := .opened site id, site := site.shelving machine }
        (.following machine.contentHash)) := by
  have hopened : (Execution.opened site id).held.getD .blank = .blank := by
    unfold Execution.opened
    cases site.central <;> rfl
  unfold Handle.register
  rw [Action.bind_of_ok (Action.get_apply _)]
  simp only [DefinitionStore.put_eq h.front, hopened]
  rfl

theorem createAs_apply (h : site.IsLocal) (executionId executorId : String) (machine : Machine) :
    Executor.createAs executionId executorId machine site =
      .ok (site.opening executionId executorId machine).executor
        (site.opening executionId executorId machine).site := by
  unfold Executor.createAs
  simp only [register_apply h]
  unfold opening Stage.withRecord Handle.setRecord Stage.handle Stage.putHandle
  cases hheld : (Execution.opened site executionId).held <;> simp only

/-- An execution is created under the next two identifiers. -/
theorem create_eq_createAs (machine : Machine) (site : Site) :
    Executor.create machine site =
      Executor.createAs (Identifier.spell site.issued) (Identifier.spell (site.issued + 1)) machine
        { site with issued := site.issued + 2 } := by
  have hnext : ∀ site : Site, freshId site =
      .ok (Identifier.spell site.issued) { site with issued := site.issued + 1 } := fun _ => rfl
  unfold Executor.create
  rw [Action.bind_of_ok (hnext _), Action.bind_of_ok (hnext _)]

theorem create_apply (h : site.IsLocal) (machine : Machine) :
    Executor.create machine site =
      .ok (site.created machine).executor (site.created machine).site := by
  have hlocal : Site.IsLocal { site with issued := site.issued + 2 } := ⟨h.front, h.announcement⟩
  rw [create_eq_createAs]
  exact createAs_apply hlocal _ _ machine

section Opening

variable (site : Site) (executionId executorId : String) (machine : Machine)

theorem executor_opening :
    (site.opening executionId executorId machine).executor =
      { execution :=
          { id := executionId
            held := if site.central then none else some (.following machine.contentHash) }
        executorId
        sequence := 0 } := by
  unfold opening
  apply Executor.ext_fields
  · exact Stage.executionId_withRecord _ _
  · rw [Stage.held_withRecord]
    unfold Execution.opened
    cases site.central <;> rfl
  · exact Stage.executorId_withRecord _ _
  · exact Stage.sequence_withRecord _ _

theorem table_opening :
    (site.opening executionId executorId machine).site.table =
      if site.central then site.table.insert executionId (.following machine.contentHash)
      else site.table := by
  unfold opening
  rw [Stage.table_withRecord]
  unfold Execution.opened
  cases site.central <;> rfl

theorem site_opening :
    (site.opening executionId executorId machine).site =
      { site.shelving machine with
        table := (site.opening executionId executorId machine).site.table } :=
  Stage.site_withRecord _ _

end Opening

section Created

variable (site : Site) (machine : Machine)

theorem executionId_created :
    (site.created machine).executor.executionId = Identifier.spell site.issued :=
  Stage.executionId_withRecord _ _

theorem executorId_created :
    (site.created machine).executor.executorId = Identifier.spell (site.issued + 1) :=
  Stage.executorId_withRecord _ _

theorem sequence_created : (site.created machine).executor.sequence = 0 :=
  Stage.sequence_withRecord _ _

theorem held_created :
    (site.created machine).executor.execution.held =
      if site.central then none else some (.following machine.contentHash) := by
  unfold created
  rw [executor_opening]

theorem site_created :
    (site.created machine).site =
      { site with
        library := (site.shelving machine).library
        table := (site.created machine).site.table
        issued := site.issued + 2 } := by
  unfold created
  rw [site_opening]
  rfl

theorem central_created : (site.created machine).site.central = site.central := by
  rw [site_created]

theorem rejection_created : (site.created machine).site.rejection = site.rejection := by
  rw [site_created]

/-- A new record is held unless executions are kept in a table. -/
theorem isNone_held_created :
    (site.created machine).executor.execution.held.isNone = site.central := by
  rw [held_created]
  cases site.central <;> rfl

theorem table_created :
    (site.created machine).site.table =
      if site.central then
        site.table.insert (Identifier.spell site.issued) (.following machine.contentHash)
      else site.table := by
  unfold created
  rw [table_opening]

theorem handle_record_created :
    (site.created machine).handle.record = .ok (.following machine.contentHash) :=
  Stage.record_withRecord _ _

theorem extends_created : site.library.Extends (site.created machine).site.library := by
  rw [site_created]
  exact Library.extends_insertIfAbsent _ _ _ _

theorem find?_created :
    (site.created machine).site.library.find? site.definitions.home machine.contentHash =
      some ((site.library.find? site.definitions.home machine.contentHash).getD machine) := by
  rw [site_created]
  change (site.shelving machine).library.find? _ _ = _
  rw [shelving, Library.find?_insertIfAbsent, if_pos ⟨rfl, rfl⟩]

end Created

theorem holdsOnly_created {machine : Machine} {known later : Machine → Prop}
    (h : site.library.HoldsOnly site.definitions.home known)
    (hlater : ∀ machine, known machine → later machine) (hnew : later machine) :
    (site.created machine).site.library.HoldsOnly site.definitions.home later := by
  rw [site_created]
  exact h.insertIfAbsent hlater hnew

/-- A new execution follows its machine, unless another one was stored under the same digest. -/
theorem stands_created {machine : Machine} (h : site.IsLocal)
    (hsame : ∀ other,
      site.library.find? site.definitions.home machine.contentHash = some other → other = machine) :
    (site.created machine).Stands (.following machine.contentHash) machine := by
  have hdefinitions : (site.created machine).site.definitions = site.definitions := by
    rw [site_created]
  refine ⟨?_, handle_record_created site machine, machine.contentHash, rfl, ?_⟩
  · rw [site_created]
    exact ⟨h.front, h.announcement⟩
  · rw [hdefinitions, find?_created]
    cases hfind : site.library.find? site.definitions.home machine.contentHash with
    | none => rfl
    | some other => rw [hsame other hfind, Option.getD_some]

/-- At a site that is fresh nothing was stored before. -/
theorem stands_created_fresh (central : Bool) (machine : Machine) :
    ((fresh central).created machine).Stands (.following machine.contentHash) machine := by
  apply stands_created ⟨rfl, rfl⟩
  intro other hother
  cases hother

end Site

end Workflow
