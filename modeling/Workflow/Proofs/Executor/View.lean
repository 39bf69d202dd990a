import Workflow.Proofs.Executor.Journal
import Workflow.Proofs.Store.Library

/-!
# What a call sees, and what it can change

A call knows its execution by a view: the executor but for its identifier, the record, the machine,
and whether tasks are turned away. It changes its stage in five ways at the most, and the view before a
change tells the view after it. Nothing here asks for a machine whose references lead somewhere, or
for a definition that is there.
-/

namespace Workflow

/-- All that a call sees of its stage. -/
structure View where
  /-- The executor, with no identifier of its own. -/
  executor : Executor
  location : Option String
  record : Except ComponentError ExecutionRecord
  machine : Except ComponentError Machine
  rejection : Option String

/-- One change that a call makes. -/
inductive Change where
  /-- The machine was looked up, which may put it on a shelf that is read first. -/
  | fetched
  | entered (state : ExecutionState)
  | ended (result : ExecutionResult)
  | written (resource state message : String)
  | handedOff (resource : String) (input : Json)

def ExecutionRecord.change (record : ExecutionRecord) : Change → ExecutionRecord
  | .entered state => { record with state := some state }
  | .ended result => { record with state := none, result := some result }
  | _ => record

@[simp]
theorem ExecutionRecord.definitionId_change (record : ExecutionRecord) (change : Change) :
    (record.change change).definitionId = record.definitionId := by
  cases change <;> rfl

namespace View

/-- The context that the executor exports. -/
def context (view : View) : Context :=
  view.executor.exported { DefinitionStore.plain homeShelf with location := view.location }

def recorded (view : View) (change : Change) : View :=
  { view with
    executor.execution.held := view.executor.execution.held.map (·.change change)
    record := view.record.map (·.change change) }

def change (view : View) : Change → View
  | .fetched | .handedOff _ _ => view
  | .written _ _ _ => { view with executor.sequence := view.executor.sequence + 1 }
  | change => view.recorded change

def changed (view : View) (changes : List Change) : View :=
  changes.foldl change view

theorem recorded_of_error {view : View} {error : ComponentError} (hrecord : view.record = .error error)
    (hheld : view.executor.execution.held = none) (change : Change) : view.recorded change = view := by
  obtain ⟨⟨⟨id, held⟩, executorId, sequence⟩, location, record, machine, rejection⟩ := view
  obtain rfl : record = .error error := hrecord
  obtain rfl : held = none := hheld
  rfl

end View

namespace Stage

/-- The machine that the execution follows, and the library once it was looked up. -/
def lookUp (stage : Stage) : Except ComponentError Machine × Library :=
  match stage.handle.record with
  | .error error => (.error error, stage.site.library)
  | .ok record =>
    match record.definitionId with
    | none => (.error (.notInitialized stage.executor.executionId), stage.site.library)
    | some id => stage.site.definitions.hydrate id stage.site.library

def view (stage : Stage) : View :=
  { executor := { stage.executor with executorId := "" }
    location := stage.site.definitions.location
    record := stage.handle.record
    machine := stage.lookUp.1
    rejection := stage.site.rejection }

/-- The stage with its record changed, if there is one. -/
def recorded (stage : Stage) (change : Change) : Stage :=
  match stage.handle.record with
  | .ok record => stage.withRecord (record.change change)
  | .error _ => stage

def change (stage : Stage) : Change → Stage
  | .fetched => { stage with site.library := stage.lookUp.2 }
  | .written resource state message => stage.logged resource state message
  | .handedOff resource input =>
    stage.queued
      { resource
        input
        context := stage.executor.exported stage.site.definitions }
  | change => stage.recorded change

def changed (stage : Stage) (changes : List Change) : Stage :=
  changes.foldl change stage

end Stage

namespace DefinitionStore

/-- What a look-up answers is what the next one answers. -/
theorem hydrate_hydrate (store : DefinitionStore) (id : String) (library : Library) :
    (store.hydrate id (store.hydrate id library).2).1 = (store.hydrate id library).1 := by
  cases hfront : store.front.bind (library.find? · id) with
  | some machine =>
      have hhit : store.hydrate id library = (.ok machine, library) := by
        unfold hydrate
        rw [hfront]
      rw [hhit, hhit]
  | none =>
      unfold hydrate
      rw [hfront]
      cases hhome : library.find? store.home id with
      | none => simp only [hfront, hhome]
      | some machine =>
          cases hshelf : store.front with
          | none => simp only [hhome, Option.bind_none]
          | some front =>
              have hfilled : (library.insert front id machine).find? front id = some machine := by
                rw [Library.find?_insert, if_pos ⟨rfl, rfl⟩]
              simp only [Option.bind_some, hfilled]

end DefinitionStore

theorem Executor.exported_of_unannounced (executor : Executor) {store : DefinitionStore}
    (h : store.announcement = none) :
    executor.exported store =
      executor.exported { DefinitionStore.plain homeShelf with location := store.location } := by
  have hslice : store.slice =
      { DefinitionStore.plain homeShelf with location := store.location }.slice := by
    rw [DefinitionStore.slice_eq h]
    rfl
  unfold exported
  rw [hslice]

namespace Stage

variable (stage : Stage)

theorem context_view (h : stage.site.definitions.announcement = none) :
    stage.view.context = stage.executor.exported stage.site.definitions := by
  rw [stage.executor.exported_of_unannounced h]
  rfl

theorem record_of_held {record : ExecutionRecord}
    (hheld : stage.executor.execution.held = some record) : stage.handle.record = .ok record :=
  Handle.record_of_held hheld

/-- The machine that is followed is told by the identifier in the record. -/
theorem lookUp_of_recorded {record : ExecutionRecord} (h : stage.handle.record = .ok record) :
    stage.lookUp =
      match record.definitionId with
      | none => (.error (.notInitialized stage.executor.executionId), stage.site.library)
      | some id => stage.site.definitions.hydrate id stage.site.library := by
  unfold lookUp
  rw [h]

/-- A machine that is looked up where no shelf is read first is the one that the record follows. -/
theorem Stands.of_lookUp {stage : Stage} {record : ExecutionRecord} {machine : Machine}
    (hlocal : stage.site.IsLocal) (hrecord : stage.handle.record = .ok record)
    (hmachine : stage.lookUp.1 = .ok machine) : stage.Stands record machine := by
  rw [stage.lookUp_of_recorded hrecord] at hmachine
  cases hid : record.definitionId with
  | none =>
      rw [hid] at hmachine
      cases hmachine
  | some id =>
      rw [hid] at hmachine
      exact ⟨hlocal, hrecord, id, hid, DefinitionStore.find?_of_hydrate hlocal.front hmachine⟩

/-- Stages whose executors have one execution and one position in its log are of one view if they answer
the same where a call looks. -/
theorem view_congr {first second : Stage}
    (hexecution : first.executor.execution = second.executor.execution)
    (hsequence : first.executor.sequence = second.executor.sequence)
    (hrecord : first.handle.record = second.handle.record)
    (hdefinition : ∀ record id, second.handle.record = .ok record → record.definitionId = some id →
      (first.site.definitions.hydrate id first.site.library).1 =
        (second.site.definitions.hydrate id second.site.library).1)
    (hlocation : first.site.definitions.location = second.site.definitions.location)
    (hrejection : first.site.rejection = second.site.rejection) : first.view = second.view := by
  have hmachine : first.lookUp.1 = second.lookUp.1 := by
    cases hsecond : second.handle.record with
    | error error =>
        unfold lookUp
        rw [hrecord, hsecond]
    | ok record =>
        rw [lookUp_of_recorded first (hrecord.trans hsecond), lookUp_of_recorded second hsecond]
        cases hid : record.definitionId with
        | none =>
            unfold Executor.executionId
            rw [hexecution]
        | some id => exact hdefinition record id hsecond hid
  have hexecutor : ({ first.executor with executorId := "" } : Executor) =
      { second.executor with executorId := "" } :=
    Executor.ext_fields (congrArg Execution.id hexecution) (congrArg Execution.held hexecution) rfl
      hsequence
  unfold view
  rw [hexecutor, hlocation, hrecord, hmachine, hrejection]

/-- A call does not see who makes it, nor how many identifiers were given out. -/
theorem view_renamed (executorId : String) (issued : Nat) :
    view
      { executor := { stage.executor with executorId }
        site := { stage.site with issued } } = stage.view :=
  view_congr rfl rfl (Handle.record_congr rfl rfl) (fun _ _ _ _ => rfl) rfl rfl

theorem held_of_error {error : ComponentError} (h : stage.handle.record = .error error) :
    stage.executor.execution.held = none := by
  cases hheld : stage.executor.execution.held with
  | none => rfl
  | some record => cases h.symm.trans (stage.record_of_held hheld)

theorem recorded_of_error {error : ComponentError} (h : stage.handle.record = .error error)
    (change : Change) : stage.recorded change = stage := by
  unfold recorded
  rw [h]

theorem recorded_of_recorded {record : ExecutionRecord} (h : stage.handle.record = .ok record)
    (change : Change) : stage.recorded change = stage.withRecord (record.change change) := by
  unfold recorded
  rw [h]

theorem view_withRecord {record other : ExecutionRecord} (h : stage.handle.record = .ok record)
    (hid : other.definitionId = record.definitionId) :
    (stage.withRecord other).view =
      { stage.view with
        executor.execution.held := stage.executor.execution.held.map fun _ => other
        record := .ok other } := by
  have hmachine : (stage.withRecord other).lookUp.1 = stage.lookUp.1 := by
    rw [lookUp_of_recorded _ (record_withRecord stage _), lookUp_of_recorded _ h, site_withRecord,
      executionId_withRecord, hid]
  have hexecutor : (stage.withRecord other).executor =
      { stage.executor with
        execution.held := stage.executor.execution.held.map fun _ => other } := by
    apply Executor.ext_fields
    · exact executionId_withRecord stage _
    · exact held_withRecord stage _
    · exact executorId_withRecord stage _
    · exact sequence_withRecord stage _
  unfold view
  rw [hmachine, hexecutor, record_withRecord, site_withRecord]

theorem view_recorded (change : Change) :
    (stage.recorded change).view = stage.view.recorded change := by
  cases hrecord : stage.handle.record with
  | error error =>
      rw [stage.recorded_of_error hrecord]
      exact (View.recorded_of_error hrecord (stage.held_of_error hrecord) change).symm
  | ok record =>
      rw [stage.recorded_of_recorded hrecord]
      have hheld : (stage.executor.execution.held.map fun _ => record.change change) =
          stage.executor.execution.held.map (·.change change) := by
        cases hheld : stage.executor.execution.held with
        | none => rfl
        | some held =>
            obtain rfl := Except.ok.inj ((stage.record_of_held hheld).symm.trans hrecord)
            rfl
      have hrecorded : stage.view.record = .ok record := hrecord
      rw [view_withRecord stage hrecord (record.definitionId_change change), hheld, View.recorded,
        hrecorded]
      rfl

theorem lookUp_fetched : (stage.change .fetched).lookUp.1 = stage.lookUp.1 := by
  have hsame : (stage.change .fetched).handle.record = stage.handle.record := rfl
  cases hrecord : stage.handle.record with
  | error error =>
      unfold lookUp
      rw [hsame, hrecord]
  | ok record =>
      rw [lookUp_of_recorded _ (hsame.trans hrecord), lookUp_of_recorded _ hrecord]
      cases hid : record.definitionId with
      | none => rfl
      | some id =>
          have hlibrary : (stage.change .fetched).site.library =
              (stage.site.definitions.hydrate id stage.site.library).2 := by
            change stage.lookUp.2 = _
            rw [lookUp_of_recorded _ hrecord, hid]
          simp only [hlibrary]
          exact stage.site.definitions.hydrate_hydrate id stage.site.library

theorem view_change (change : Change) : (stage.change change).view = stage.view.change change := by
  cases change with
  | written resource state message => rfl
  | handedOff resource input => rfl
  | fetched =>
      change { stage.view with machine := (stage.change .fetched).lookUp.1 } = stage.view
      rw [lookUp_fetched]
      rfl
  | entered state => exact view_recorded stage _
  | ended result => exact view_recorded stage _

theorem view_changed (changes : List Change) :
    (stage.changed changes).view = stage.view.changed changes := by
  induction changes generalizing stage with
  | nil => rfl
  | cons change rest ih =>
      change ((stage.change change).changed rest).view = (stage.view.change change).changed rest
      rw [ih, view_change]

theorem changed_append (changes later : List Change) :
    stage.changed (changes ++ later) = (stage.changed changes).changed later :=
  List.foldl_append

theorem site_recorded (change : Change) :
    (stage.recorded change).site =
      { stage.site with table := (stage.recorded change).site.table } := by
  cases hrecord : stage.handle.record with
  | error error => rw [stage.recorded_of_error hrecord]
  | ok record => rw [stage.recorded_of_recorded hrecord, site_withRecord]

theorem definitions_change (change : Change) :
    (stage.change change).site.definitions = stage.site.definitions := by
  have hrecorded : (stage.recorded change).site.definitions = stage.site.definitions := by
    rw [site_recorded]
  cases change with
  | entered state => exact hrecorded
  | ended result => exact hrecorded
  | _ => rfl

theorem definitions_changed (changes : List Change) :
    (stage.changed changes).site.definitions = stage.site.definitions := by
  induction changes generalizing stage with
  | nil => rfl
  | cons change rest ih => exact (ih (stage.change change)).trans (stage.definitions_change change)

end Stage

end Workflow
