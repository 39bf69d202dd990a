import Workflow.Executor
import Workflow.Proofs.Action
import Workflow.Proofs.Context.Namespace
import Workflow.Proofs.Execution.Codec
import Workflow.Proofs.Execution.Handle

/-!
# Carrying an execution in its context

An executor whose site announces nothing can always be exported, each namespace of its context holds
exactly the slice of the part that owns it, and whoever hydrates the context has the execution and
the position in the log as they were.
-/

namespace Workflow

namespace Slice

variable {α : Type} {decode : Decoder α} {slice : Slice} {key : String}

theorem getAs?_of_absent (decode : Decoder α) (h : slice.get? key = none) :
    slice.getAs? decode key = .ok none := by
  rw [getAs?, h]

theorem getAs?_of_present {json : Json} {value : α} (h : slice.get? key = some json)
    (hnull : json.isNull = false) (hdecode : decode.ofJson json = .ok value) :
    slice.getAs? decode key = .ok (some value) := by
  rw [getAs?, h]
  simp only [hnull, hdecode, Bool.false_eq_true, if_false]

theorem require_of_present {json : Json} {value : α} (h : slice.get? key = some json)
    (hnull : json.isNull = false) (hdecode : decode.ofJson json = .ok value) :
    slice.require decode key = .ok value := by
  rw [require, getAs?_of_present h hnull hdecode]
  rfl

theorem get?_ofList {entries : List (String × Json)} (hnodup : (entries.map (·.1)).Nodup)
    (key : String) : (Slice.ofList entries).get? key = entries.lookup key :=
  Dict.get?_ofList hnodup key

end Slice

namespace Execution

variable (record : ExecutionRecord)

theorem recordSlice_keys_nodup :
    ((optionalMember definitionKey record.definitionId .text ++
      optionalMember stateKey record.state (·.toJson) ++
      optionalMember resultKey record.result (·.toJson)).map (·.1)).Nodup := by
  obtain ⟨definitionId, state, result⟩ := record
  cases definitionId <;> cases state <;> cases result <;>
    simp [optionalMember, definitionKey, stateKey, resultKey]

theorem recordSlice_definition :
    (recordSlice record).get? definitionKey = record.definitionId.map .text := by
  rw [recordSlice, Slice.get?_ofList (recordSlice_keys_nodup record)]
  obtain ⟨definitionId, state, result⟩ := record
  cases definitionId <;> cases state <;> cases result <;> rfl

theorem recordSlice_state : (recordSlice record).get? stateKey = record.state.map (·.toJson) := by
  rw [recordSlice, Slice.get?_ofList (recordSlice_keys_nodup record)]
  obtain ⟨definitionId, state, result⟩ := record
  cases definitionId <;> cases state <;> cases result <;> rfl

theorem recordSlice_result :
    (recordSlice record).get? resultKey = record.result.map (·.toJson) := by
  rw [recordSlice, Slice.get?_ofList (recordSlice_keys_nodup record)]
  obtain ⟨definitionId, state, result⟩ := record
  cases definitionId <;> cases state <;> cases result <;> rfl

theorem require_recordSlice {id : String} (hid : record.definitionId = some id) :
    (recordSlice record).require .text definitionKey = .ok id := by
  have hget := recordSlice_definition record
  rw [hid] at hget
  exact Slice.require_of_present hget rfl (Decoder.text_ofJson id)

theorem getAs?_recordSlice_state :
    (recordSlice record).getAs? ExecutionState.decode stateKey = .ok record.state := by
  have hget := recordSlice_state record
  cases hstate : record.state with
  | none =>
      rw [hstate] at hget
      exact Slice.getAs?_of_absent _ hget
  | some state =>
      rw [hstate] at hget
      exact Slice.getAs?_of_present hget state.isNull_toJson state.decode_toJson

theorem getAs?_recordSlice_result :
    (recordSlice record).getAs? ExecutionResult.decode resultKey = .ok record.result := by
  have hget := recordSlice_result record
  cases hresult : record.result with
  | none =>
      rw [hresult] at hget
      exact Slice.getAs?_of_absent _ hget
  | some result =>
      rw [hresult] at hget
      exact Slice.getAs?_of_present hget result.isNull_toJson result.decode_toJson

end Execution

namespace Handle

open Execution (definitionKey stateKey resultKey)

theorem adopt_of_tabled {handle : Handle} (hheld : handle.execution.held = none) (slice : Slice) :
    adopt slice handle = .ok () handle := by
  unfold adopt
  rw [Action.bind_of_ok (Action.get_apply handle), hheld]
  rfl

theorem modifyRecord_of_held {handle : Handle} {record : ExecutionRecord}
    (hheld : handle.execution.held = some record) (f : ExecutionRecord → ExecutionRecord) :
    modifyRecord f handle = .ok () { handle with execution.held := some (f record) } := by
  rw [modifyRecord_of_ok (record_of_held hheld), setRecord, hheld]

theorem adopt_recordSlice {handle : Handle} (hheld : handle.execution.held.isSome = true)
    {record : ExecutionRecord} {id : String} (hid : record.definitionId = some id) :
    adopt (Execution.recordSlice record) handle =
      .ok () { handle with execution.held := some record } := by
  obtain ⟨before, hbefore⟩ := Option.isSome_iff_exists.mp hheld
  unfold adopt
  rw [Action.bind_of_ok (Action.get_apply handle), if_pos hheld,
    Execution.require_recordSlice record hid, Execution.getAs?_recordSlice_state,
    Execution.getAs?_recordSlice_result]
  change (modifyRecord _ >>= fun _ => modifyRecord _ >>= fun _ => modifyRecord _) handle = _
  rw [Action.bind_of_ok (modifyRecord_of_held hbefore _), Action.bind_of_ok (modifyRecord_of_held rfl _),
    modifyRecord_of_held rfl]
  obtain ⟨definitionId, state, result⟩ := record
  rw [show definitionId = some id from hid]

end Handle

/-- A site whose definition store has no shelf to read first and announces nothing. -/
structure Site.IsLocal (site : Site) : Prop where
  front : site.definitions.front = none
  announcement : site.definitions.announcement = none

namespace DefinitionStore

variable {store : DefinitionStore}

theorem spaceName_eq (h : store.announcement = none) : store.spaceName = "definitions" := by
  rw [spaceName, h]

theorem slice_eq (h : store.announcement = none) :
    store.slice = .ofList (store.location.toList.map fun location => (locationKey, .text location)) := by
  rw [slice, h]

theorem adopt_slice (h : store.announcement = none) (other : DefinitionStore) :
    other.adopt store.slice = .ok { other with location := store.location } := by
  have hlocation : store.slice.getAs? .text locationKey = .ok store.location := by
    rw [slice_eq h]
    cases store.location with
    | none => rfl
    | some location =>
        exact Slice.getAs?_of_present (Slice.get?_ofList (by simp) _) rfl (Decoder.text_ofJson location)
  rw [adopt, hlocation]
  rfl

end DefinitionStore

namespace Executor

/-- The context of an executor that works with a definition store. -/
def exported (executor : Executor) (store : DefinitionStore) : Context :=
  (((Context.empty.joined spaceName executor.ownSlice).joined "definitions" store.slice).joined
    Execution.spaceName executor.execution.slice).joined Logger.spaceName executor.logger.slice

variable (executor : Executor) (store : DefinitionStore)

theorem slice_exported_own : (executor.exported store).slice spaceName = executor.ownSlice := by
  unfold exported
  rw [Context.slice_joined_of_ne rfl rfl (by decide), Context.slice_joined_of_ne rfl rfl (by decide),
    Context.slice_joined_of_ne rfl rfl (by decide), Context.slice_joined_self rfl]

theorem slice_exported_definitions :
    (executor.exported store).slice "definitions" = store.slice := by
  unfold exported
  rw [Context.slice_joined_of_ne rfl rfl (by decide), Context.slice_joined_of_ne rfl rfl (by decide)]
  apply Context.slice_joined_self
  rw [Context.slice_joined_of_ne rfl rfl (by decide)]
  rfl

theorem slice_exported_execution :
    (executor.exported store).slice Execution.spaceName = executor.execution.slice := by
  unfold exported
  rw [Context.slice_joined_of_ne rfl rfl (by decide)]
  apply Context.slice_joined_self
  rw [Context.slice_joined_of_ne rfl rfl (by decide), Context.slice_joined_of_ne rfl rfl (by decide)]
  rfl

theorem slice_exported_logger :
    (executor.exported store).slice Logger.spaceName = executor.logger.slice := by
  unfold exported
  apply Context.slice_joined_self
  rw [Context.slice_joined_of_ne rfl rfl (by decide), Context.slice_joined_of_ne rfl rfl (by decide),
    Context.slice_joined_of_ne rfl rfl (by decide)]
  rfl

/-- Every namespace is free when its owner's slice is merged, so nothing stops an export. -/
theorem context_eq_ok {site : Site} (h : site.definitions.announcement = none) :
    executor.context site = .ok (executor.exported site.definitions) := by
  have hfree : ∀ {context : Context} {name : String} (_ : context.slice name = .empty)
      (_ : isNamespace name = true) (slice : Slice),
      context.merged name slice = .ok (context.joined name slice) := by
    intro context name hempty hname slice
    apply Context.merged_eq_ok hname
    intro key _
    rw [hempty, Slice.get?_empty]
  unfold context exported
  rw [hfree rfl rfl, DefinitionStore.spaceName_eq h]
  change (Context.merged _ _ _ >>= _) = _
  rw [hfree (by rw [Context.slice_joined_of_ne rfl rfl (by decide)]; rfl) rfl]
  change (Context.merged _ _ _ >>= _) = _
  rw [hfree (by rw [Context.slice_joined_of_ne rfl rfl (by decide),
    Context.slice_joined_of_ne rfl rfl (by decide)]; rfl) rfl]
  change Context.merged _ _ _ = _
  rw [hfree (by rw [Context.slice_joined_of_ne rfl rfl (by decide),
    Context.slice_joined_of_ne rfl rfl (by decide),
    Context.slice_joined_of_ne rfl rfl (by decide)]; rfl) rfl]

theorem readOwnSlice_ownSlice : readOwnSlice executor.ownSlice = .ok executor.executionId := by
  have hnodup : ([(executionIdKey, Json.text executor.executionId),
      (versionKey, .ofUInt32 contextVersion)].map (·.1)).Nodup := by
    simp [executionIdKey, versionKey]
  have hversion : executor.ownSlice.require .word32 versionKey = .ok contextVersion :=
    Slice.require_of_present (Slice.get?_ofList hnodup _) rfl (Decoder.word32_ofJson _)
  have hid : executor.ownSlice.require .text executionIdKey = .ok executor.executionId :=
    Slice.require_of_present (Slice.get?_ofList hnodup _) rfl (Decoder.text_ofJson _)
  rw [readOwnSlice, hversion]
  exact hid

theorem sequenceIn_slice (logger : Logger) : Logger.sequenceIn logger.slice = .ok logger.sequence := by
  have hget : logger.slice.getAs? .word64 Logger.sequenceKey = .ok (some logger.sequence) :=
    Slice.getAs?_of_present (Slice.get?_ofList (by simp) _) rfl (Decoder.word64_ofJson _)
  rw [Logger.sequenceIn, hget]
  rfl

variable {executor store} {site : Site}

theorem adoptDefinitions_exported (hstore : store.announcement = none)
    (hsite : site.definitions.announcement = none) :
    adoptDefinitions (executor.exported store) site =
      .ok () { site with definitions.location := store.location } := by
  unfold adoptDefinitions
  rw [Action.bind_of_ok (Action.get_apply site), DefinitionStore.spaceName_eq hsite,
    slice_exported_definitions, DefinitionStore.adopt_slice hstore]
  rfl

theorem adoptExecution_exported (hkept : executor.execution.held.isNone = site.central)
    (hdefined : ∀ record, executor.execution.held = some record → record.definitionId ≠ none) :
    adoptExecution executor.executionId (executor.exported store) site =
      .ok executor.execution site := by
  unfold adoptExecution
  rw [slice_exported_execution]
  obtain ⟨⟨id, held⟩, executorId, sequence⟩ := executor
  cases held with
  | none =>
      have hopened : Execution.opened site id = ⟨id, none⟩ := by
        rw [Execution.opened, ← hkept]
        rfl
      have hadopt : ∀ slice, Handle.adopt slice { execution := ⟨id, none⟩, site } = .ok () _ :=
        Handle.adopt_of_tabled rfl
      simp only [executionId, hopened, hadopt]
  | some record =>
      have hopened : Execution.opened site id = ⟨id, some .blank⟩ := by
        rw [Execution.opened, ← hkept]
        rfl
      obtain ⟨definitionId, hid⟩ := Option.ne_none_iff_exists'.mp (hdefined record rfl)
      have hadopt : Handle.adopt (Execution.recordSlice record)
          { execution := ⟨id, some .blank⟩, site } = .ok () _ :=
        Handle.adopt_recordSlice rfl hid
      simp only [executionId, hopened, Execution.slice, hadopt]

theorem hydrateAs_exported (hstore : store.announcement = none)
    (hsite : site.definitions.announcement = none)
    (hkept : executor.execution.held.isNone = site.central)
    (hdefined : ∀ record, executor.execution.held = some record → record.definitionId ≠ none)
    (executorId : String) :
    hydrateAs executorId (executor.exported store) site =
      .ok { executor with executorId } { site with definitions.location := store.location } := by
  have hadopt : adoptExecution executor.executionId (executor.exported store)
      { site with definitions.location := store.location } = .ok executor.execution _ :=
    adoptExecution_exported hkept hdefined
  unfold hydrateAs
  rw [slice_exported_own, readOwnSlice_ownSlice, slice_exported_logger, sequenceIn_slice]
  change (adoptDefinitions _ >>= fun _ => adoptExecution _ _ >>= fun execution => _) site = _
  rw [Action.bind_of_ok (adoptDefinitions_exported hstore hsite), Action.bind_of_ok hadopt]
  rfl

/-- Whoever hydrates an exported context has the execution and the position in the log as they were. -/
theorem hydrate_exported (hstore : store.announcement = none)
    (hsite : site.definitions.announcement = none)
    (hkept : executor.execution.held.isNone = site.central)
    (hdefined : ∀ record, executor.execution.held = some record → record.definitionId ≠ none) :
    hydrate (executor.exported store) site =
      .ok { executor with executorId := Identifier.spell site.issued }
        { site with definitions.location := store.location, issued := site.issued + 1 } := by
  unfold hydrate
  rw [Action.bind_of_ok (hydrateAs_exported hstore hsite hkept hdefined "")]
  rfl

end Executor

end Workflow
