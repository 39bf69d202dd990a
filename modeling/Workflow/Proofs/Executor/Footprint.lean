import Workflow.Proofs.Executor.View

/-!
# What a call leaves alone

Whatever changes an executor makes, they stay with its execution: another execution's record is as it
was, the lines and tasks that are added are the execution's own, and nothing is taken away.
-/

namespace Workflow.Stage

/-- What the changes of an executor leave alone, and whose the things are that they add. -/
structure Confined (before after : Stage) : Prop where
  executionId : after.executor.executionId = before.executor.executionId
  executorId : after.executor.executorId = before.executor.executorId
  defined : after.executor.execution.held.map (·.definitionId) =
    before.executor.execution.held.map (·.definitionId)
  site : after.site =
    { before.site with
      library := after.site.library
      table := after.site.table
      log := after.site.log
      queue := after.site.queue }
  /-- A look-up only moves machines to a shelf that is read first. -/
  library : before.site.definitions.front = none → after.site.library = before.site.library
  others : ∀ id, id ≠ before.executor.executionId →
    after.site.table.get? id = before.site.table.get? id
  tabled : (after.site.table.get? before.executor.executionId).map (·.definitionId) =
    (before.site.table.get? before.executor.executionId).map (·.definitionId)
  log : ∃ lines, after.site.log = before.site.log ++ lines ∧
    ∀ line ∈ lines, line.executionId = before.executor.executionId ∧
      line.executorId = before.executor.executorId
  queue : ∃ tasks, after.site.queue.pending = before.site.queue.pending ++ tasks ∧
    ∀ task ∈ tasks, ∃ executor : Executor,
      executor.executionId = before.executor.executionId ∧
      executor.execution.held.map (·.definitionId) =
        before.executor.execution.held.map (·.definitionId) ∧
      task.context = executor.exported before.site.definitions

variable {before middle after : Stage}

theorem Confined.refl (stage : Stage) : stage.Confined stage :=
  { executionId := rfl
    executorId := rfl
    defined := rfl
    site := rfl
    library := fun _ => rfl
    others := fun _ _ => rfl
    tabled := rfl
    log := ⟨[], (List.append_nil _).symm, List.forall_mem_nil _⟩
    queue := ⟨[], (List.append_nil _).symm, List.forall_mem_nil _⟩ }

theorem Confined.definitions (h : before.Confined after) :
    after.site.definitions = before.site.definitions := by
  rw [h.site]

theorem Confined.central (h : before.Confined after) : after.site.central = before.site.central := by
  rw [h.site]

theorem Confined.kept (h : before.Confined after) :
    after.executor.execution.held.isNone = before.executor.execution.held.isNone := by
  have hdefined := congrArg Option.isNone h.defined
  rwa [Option.isNone_map, Option.isNone_map] at hdefined

/-- A record in the table follows the machine that it followed before. -/
theorem Confined.exists_tabled (h : before.Confined after) {id : String} {record : ExecutionRecord}
    (hrecord : after.site.table.get? id = some record) :
    ∃ earlier, before.site.table.get? id = some earlier ∧
      earlier.definitionId = record.definitionId := by
  by_cases hid : id = before.executor.executionId
  · subst hid
    have hdefined := h.tabled
    rw [hrecord, Option.map_some] at hdefined
    exact Option.map_eq_some_iff.mp hdefined.symm
  · exact ⟨record, (h.others id hid).symm.trans hrecord, rfl⟩

theorem Confined.trans (hfirst : before.Confined middle) (hsecond : middle.Confined after) :
    before.Confined after := by
  have hid := hfirst.executionId
  have hstore := hfirst.definitions
  obtain ⟨lines, hlog, hlines⟩ := hfirst.log
  obtain ⟨later, hlaterLog, hlater⟩ := hsecond.log
  obtain ⟨tasks, hqueue, htasks⟩ := hfirst.queue
  obtain ⟨more, hmoreQueue, hmore⟩ := hsecond.queue
  refine
    { executionId := hsecond.executionId.trans hid
      executorId := hsecond.executorId.trans hfirst.executorId
      defined := hsecond.defined.trans hfirst.defined
      site := ?site
      library := ?library
      others := ?others
      tabled := ?tabled
      log := ⟨lines ++ later, ?lines, ?ownLines⟩
      queue := ⟨tasks ++ more, ?tasks, ?ownTasks⟩ }
  case site =>
    calc after.site
      _ = { middle.site with
            library := after.site.library
            table := after.site.table
            log := after.site.log
            queue := after.site.queue } := hsecond.site
      _ = _ := by rw [hfirst.site]
  case library =>
    intro hfront
    rw [hsecond.library (by rw [hstore, hfront]), hfirst.library hfront]
  case others =>
    intro id hne
    rw [hsecond.others id (by rw [hid]; exact hne), hfirst.others id hne]
  case tabled =>
    rw [← hid, hsecond.tabled, hid, hfirst.tabled]
  case lines => rw [hlaterLog, hlog, List.append_assoc]
  case ownLines =>
    intro line hline
    rcases List.mem_append.mp hline with hline | hline
    · exact hlines line hline
    · rw [← hid, ← hfirst.executorId]
      exact hlater line hline
  case tasks => rw [hmoreQueue, hqueue, List.append_assoc]
  case ownTasks =>
    intro task htask
    rcases List.mem_append.mp htask with htask | htask
    · exact htasks task htask
    · rw [← hid, ← hfirst.defined, ← hstore]
      exact hmore task htask

section Changes

variable (stage : Stage)

/-- A change of the record reaches the table at the execution's own entry, if at all. -/
theorem table_recorded (change : Change) (id : String) :
    (stage.recorded change).site.table.get? id =
      if stage.executor.execution.held = none ∧ id = stage.executor.executionId then
        (stage.site.table.get? id).map (·.change change)
      else stage.site.table.get? id := by
  cases hheld : stage.executor.execution.held with
  | some record =>
      rw [stage.recorded_of_recorded (stage.record_of_held hheld), table_withRecord, hheld,
        Option.isSome_some, if_pos rfl, if_neg fun h => nomatch h.1]
  | none =>
      cases hentry : stage.site.table.get? stage.executor.executionId with
      | none =>
          have hrecord : stage.handle.record =
              .error (.executionNotFound stage.executor.executionId) :=
            Handle.record_of_untabled hheld hentry
          rw [stage.recorded_of_error hrecord]
          by_cases hown : id = stage.executor.executionId
          · rw [if_pos ⟨rfl, hown⟩, hown, hentry, Option.map_none]
          · rw [if_neg fun h => hown h.2]
      | some record =>
          have hrecord : stage.handle.record = .ok record := Handle.record_of_tabled hheld hentry
          rw [stage.recorded_of_recorded hrecord, table_withRecord, hheld, if_neg (by simp),
            Dict.get?_insert]
          by_cases hown : id = stage.executor.executionId
          · rw [if_pos hown, if_pos ⟨rfl, hown⟩, hown, hentry, Option.map_some]
          · rw [if_neg hown, if_neg fun h => hown h.2]

theorem table_change (change : Change) (id : String) :
    (stage.change change).site.table.get? id =
      if stage.executor.execution.held = none ∧ id = stage.executor.executionId then
        (stage.site.table.get? id).map (·.change change)
      else stage.site.table.get? id := by
  have hsame : ((stage.site.table.get? id).map fun record => record) =
      stage.site.table.get? id := Option.map_id'
  cases change with
  | entered state => exact stage.table_recorded _ id
  | ended result => exact stage.table_recorded _ id
  | fetched => exact ((if_congr Iff.rfl hsame rfl).trans (ite_self _)).symm
  | written resource state message => exact ((if_congr Iff.rfl hsame rfl).trans (ite_self _)).symm
  | handedOff resource input => exact ((if_congr Iff.rfl hsame rfl).trans (ite_self _)).symm

theorem defined_recorded (change : Change) :
    (stage.recorded change).executor.execution.held.map (·.definitionId) =
      stage.executor.execution.held.map (·.definitionId) := by
  have hview : (stage.recorded change).executor.execution.held =
      stage.executor.execution.held.map (·.change change) :=
    congrArg (·.executor.execution.held) (stage.view_recorded change)
  rw [hview, Option.map_map]
  congr 1
  funext record
  exact record.definitionId_change change

theorem confined_recorded (change : Change) : stage.Confined (stage.recorded change) := by
  have hsite := stage.site_recorded change
  refine
    { Confined.refl stage with
      executionId := congrArg (·.executor.executionId) (stage.view_recorded change)
      executorId := ?executorId
      defined := stage.defined_recorded change
      site := ?site
      library := fun _ => ?library
      others := ?others
      tabled := ?tabled
      log := ⟨[], ?log, List.forall_mem_nil _⟩
      queue := ⟨[], ?queue, List.forall_mem_nil _⟩ }
  case executorId =>
    cases hrecord : stage.handle.record with
    | error error => rw [stage.recorded_of_error hrecord]
    | ok record => rw [stage.recorded_of_recorded hrecord, executorId_withRecord]
  case site => rw [hsite]
  case library => rw [hsite]
  case others =>
    intro id hne
    rw [table_recorded, if_neg fun h => hne h.2]
  case tabled =>
    rw [table_recorded]
    split
    · rw [Option.map_map]
      congr 1
      funext record
      exact record.definitionId_change change
    · rfl
  case log => rw [hsite, List.append_nil]
  case queue => rw [hsite, List.append_nil]

theorem confined_change (change : Change) : stage.Confined (stage.change change) := by
  cases change with
  | entered state => exact stage.confined_recorded _
  | ended result => exact stage.confined_recorded _
  | fetched =>
      refine { Confined.refl stage with site := rfl, library := ?_ }
      intro hfront
      change stage.lookUp.2 = stage.site.library
      cases hrecord : stage.handle.record with
      | error error => rw [lookUp, hrecord]
      | ok record =>
          rw [stage.lookUp_of_recorded hrecord]
          cases record.definitionId with
          | none => rfl
          | some id => exact DefinitionStore.hydrate_of_plain hfront id _
  | written resource state message =>
      exact
        { Confined.refl stage with
          site := rfl
          log := ⟨[_], rfl, List.forall_mem_singleton.mpr ⟨rfl, rfl⟩⟩ }
  | handedOff resource input =>
      exact
        { Confined.refl stage with
          site := rfl
          queue := ⟨[_], rfl, List.forall_mem_singleton.mpr ⟨stage.executor, rfl, rfl, rfl⟩⟩ }

/-- Whatever changes an executor makes, they stay with its execution. -/
theorem confined_changed (changes : List Change) : stage.Confined (stage.changed changes) := by
  induction changes generalizing stage with
  | nil => exact .refl stage
  | cons change rest ih => exact (stage.confined_change change).trans (ih _)

end Changes

end Workflow.Stage
