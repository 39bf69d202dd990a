import Workflow.Proofs.Decode.Grammar
import Workflow.Proofs.Session.Carriage

/-!
# What makes a context good

Seven entries of a context tell whether an execution can be taken over from it, as what, and if not, what
is wrong. They are looked at one after the other, and the first that is wrong is told of. Nothing else in
the context is looked at.
-/

namespace Workflow

/-- What is looked at in a context. -/
inductive Entry where
  | version
  | executionId
  | location
  | definitionId
  | state
  | result
  | sequence
  deriving DecidableEq

namespace Entry

/-- All entries, in the order in which they are looked at. -/
def all : List Entry :=
  [.version, .executionId, .location, .definitionId, .state, .result, .sequence]

def space : Entry → String
  | .version | .executionId => Executor.spaceName
  | .location => "definitions"
  | .definitionId | .state | .result => Execution.spaceName
  | .sequence => Logger.spaceName

def localKey : Entry → String
  | .version => Executor.versionKey
  | .executionId => Executor.executionIdKey
  | .location => DefinitionStore.locationKey
  | .definitionId => Execution.definitionKey
  | .state => Execution.stateKey
  | .result => Execution.resultKey
  | .sequence => Logger.sequenceKey

/-- The key that an entry has in a context. -/
def key (entry : Entry) : String :=
  namespacedKey entry.space entry.localKey

example : all.map key =
    ["x-stately-executor-version", "x-stately-executor-execution_id", "x-stately-definitions-location",
      "x-stately-execution-definition_id", "x-stately-execution-state", "x-stately-execution-result",
      "x-stately-logger-sequence"] := by
  decide

/-- Whether nothing can be taken over without the entry. -/
def isNeeded : Entry → Bool
  | .version | .executionId | .definitionId => true
  | .location | .state | .result | .sequence => false

/-- Whether a value is of the kind that an entry is of. -/
def Fits : Entry → Json → Prop
  | .version, json => ∃ version, json = .ofUInt32 version
  | .executionId, json | .location, json | .definitionId, json => json.IsText
  | .state, json => ∃ state, ExecutionState.decode.ofJson json = .ok state
  | .result, json => ∃ result, ExecutionResult.decode.ofJson json = .ok result
  | .sequence, json => json.IsWord64

/-- Whether a value will do for an entry. -/
def Accepts : Entry → Json → Prop
  | .version, json => json = .ofUInt32 Executor.contextVersion
  | entry, json => entry.Fits json

/-- What reading a value for an entry comes to. -/
def read : Entry → Json → Except DecodeError Unit
  | .version, json => (Decoder.word32.ofJson json).map fun _ => ()
  | .executionId, json | .location, json | .definitionId, json =>
    (Decoder.text.ofJson json).map fun _ => ()
  | .state, json => (ExecutionState.decode.ofJson json).map fun _ => ()
  | .result, json => (ExecutionResult.decode.ofJson json).map fun _ => ()
  | .sequence, json => (Decoder.word64.ofJson json).map fun _ => ()

end Entry

namespace Context

variable (context : Context)

/-- What a context gives for an entry. Null is nothing. -/
def given? (entry : Entry) : Option Json :=
  (context.get? entry.key).filter fun json => !json.isNull

/-- Whether nothing is wrong with an entry. -/
def IsSound (entry : Entry) : Prop :=
  match context.given? entry with
  | none => entry.isNeeded = false
  | some json => entry.Accepts json

/-- What is wrong with an entry. -/
inductive Faults : Entry → ContextError → Prop
  | missing {entry : Entry} (hneeded : entry.isNeeded = true) (h : context.given? entry = none) :
      Faults entry (.missingKey entry.localKey)
  | unfit {entry : Entry} {json : Json} {reason : DecodeError} (h : context.given? entry = some json)
      (hread : entry.read json = .error reason) : Faults entry (.invalidValue entry.localKey reason)
  | unsupported {version : UInt32} (h : context.given? .version = some (.ofUInt32 version))
      (hne : version ≠ Executor.contextVersion) :
      Faults .version (.unsupportedVersion version Executor.contextVersion)

/-- What is wrong with the first of some entries with which anything is. -/
inductive FirstFault : List Entry → ContextError → Prop
  | here {entry : Entry} {later : List Entry} {fault : ContextError}
      (h : context.Faults entry fault) : FirstFault (entry :: later) fault
  | later {entry : Entry} {later : List Entry} {fault : ContextError}
      (hsound : context.IsSound entry) (h : FirstFault later fault) : FirstFault (entry :: later) fault

/-- Whether two contexts give the same for every entry. -/
def SameEntries (other : Context) : Prop :=
  ∀ entry : Entry, other.get? entry.key = context.get? entry.key

/-- Whether an attempt goes well if the entries are sound, and fails for the first that is not. -/
def Judges {α : Type} (entries : List Entry) : Except ContextError α → Prop
  | .ok _ => ∀ entry ∈ entries, context.IsSound entry
  | .error fault => context.FirstFault entries fault

/-- What there is to take over: where the definitions are and the executor but for its identifier. -/
def takenOver (central : Bool) : Except ContextError (Option String × Executor) := do
  let id ← Executor.readOwnSlice (context.slice Executor.spaceName)
  let location ← context.location
  let executor ← context.executor central id ""
  return (location, executor)

end Context

/-- The site once it was pointed to where a context says the definitions are, if it gets so far. -/
def Site.pointed (site : Site) (context : Context) : Site :=
  match Executor.readOwnSlice (context.slice Executor.spaceName), context.location with
  | .ok _, .ok location => { site with definitions.location := location }
  | _, _ => site

namespace Entry

variable {entry : Entry} {json : Json}

theorem read_eq_ok_iff : entry.read json = .ok () ↔ entry.Fits json := by
  have hmap : ∀ {α : Type} {attempt : Except DecodeError α},
      (attempt.map fun _ => ()) = .ok () ↔ ∃ value, attempt = .ok value := by
    rintro α (error | value) <;> simp [Except.map]
  cases entry with
  | version => exact hmap.trans (exists_congr fun _ => Decoder.word32_eq_ok_iff)
  | executionId | location | definitionId =>
      exact hmap.trans (Decoder.text_yieldsIff json).exists_iff
  | state | result => exact hmap
  | sequence => exact hmap.trans (Decoder.word64_yieldsIff json).exists_iff

theorem Accepts.fits (h : entry.Accepts json) : entry.Fits json := by
  cases entry with
  | version => exact ⟨_, h⟩
  | _ => exact h

end Entry

namespace Context

variable {context other : Context} {entry : Entry} {fault : ContextError}

section Faults

theorem Faults.not_isSound (h : context.Faults entry fault) : ¬ context.IsSound entry := by
  unfold IsSound
  cases h with
  | missing hneeded h =>
      rw [h, hneeded]
      exact fun hsound => nomatch hsound
  | unfit h hread =>
      rw [h]
      intro hsound
      cases hread.symm.trans (Entry.read_eq_ok_iff.mpr hsound.fits)
  | unsupported h hne =>
      rw [h]
      exact fun hsound => hne (Json.ofUInt32_injective hsound)

theorem Faults.unique {second : ContextError} (h : context.Faults entry fault)
    (hsecond : context.Faults entry second) : fault = second := by
  have hversion : ∀ {version : UInt32} {reason : DecodeError},
      Entry.read .version (.ofUInt32 version) ≠ .error reason := by
    intro version reason herror
    cases herror.symm.trans (Entry.read_eq_ok_iff.mpr ⟨version, rfl⟩)
  cases h with
  | missing hneeded h =>
      cases hsecond with
      | missing _ _ => rfl
      | unfit hgiven _ => cases h.symm.trans hgiven
      | unsupported hgiven _ => cases h.symm.trans hgiven
  | unfit h hread =>
      cases hsecond with
      | missing _ hnone => cases hnone.symm.trans h
      | unfit hgiven hother =>
          obtain rfl := Option.some.inj (h.symm.trans hgiven)
          rw [Except.error.inj (hread.symm.trans hother)]
      | unsupported hgiven _ =>
          obtain rfl := Option.some.inj (h.symm.trans hgiven)
          exact absurd hread hversion
  | unsupported h hne =>
      cases hsecond with
      | missing _ hnone => cases hnone.symm.trans h
      | unfit hgiven hother =>
          obtain rfl := Option.some.inj (h.symm.trans hgiven)
          exact absurd hother hversion
      | unsupported hgiven _ =>
          rw [Json.ofUInt32_injective (Option.some.inj (h.symm.trans hgiven))]

variable {entries later : List Entry}

theorem FirstFault.exists_not_isSound (h : context.FirstFault entries fault) :
    ∃ entry ∈ entries, ¬ context.IsSound entry := by
  induction h with
  | here h => exact ⟨_, List.mem_cons_self, h.not_isSound⟩
  | later _ _ ih =>
      obtain ⟨entry, hmem, hnot⟩ := ih
      exact ⟨entry, List.mem_cons_of_mem _ hmem, hnot⟩

theorem FirstFault.unique {second : ContextError} (h : context.FirstFault entries fault)
    (hsecond : context.FirstFault entries second) : fault = second := by
  induction h with
  | here h =>
      cases hsecond with
      | here hsecond => exact h.unique hsecond
      | later hsound _ => exact absurd hsound h.not_isSound
  | later hsound _ ih =>
      cases hsecond with
      | here hsecond => exact absurd hsound hsecond.not_isSound
      | later _ hsecond => exact ih hsecond

theorem FirstFault.append_right (h : context.FirstFault entries fault) :
    context.FirstFault (entries ++ later) fault := by
  induction h with
  | here h => exact .here h
  | later hsound _ ih => exact .later hsound ih

theorem FirstFault.append_left (h : context.FirstFault later fault)
    (hsound : ∀ entry ∈ entries, context.IsSound entry) :
    context.FirstFault (entries ++ later) fault := by
  induction entries with
  | nil => exact h
  | cons entry rest ih =>
      obtain ⟨hentry, hrest⟩ := List.forall_mem_cons.mp hsound
      exact .later hentry (ih hrest)

end Faults

section Judges

variable {α β : Type} {entries later : List Entry} {attempt : Except ContextError α}

theorem Judges.bind {next : α → Except ContextError β} (h : context.Judges entries attempt)
    (hnext : ∀ value, context.Judges later (next value)) :
    context.Judges (entries ++ later) (attempt >>= next) := by
  cases attempt with
  | error fault => exact FirstFault.append_right h
  | ok value =>
      change context.Judges (entries ++ later) (next value)
      have hlater := hnext value
      cases hvalue : next value with
      | error fault =>
          rw [hvalue] at hlater
          exact FirstFault.append_left hlater h
      | ok result =>
          rw [hvalue] at hlater
          exact List.forall_mem_append.mpr ⟨h, hlater⟩

theorem judges_pure (value : α) : context.Judges [] (pure value : Except ContextError α) :=
  fun _ hmem => nomatch hmem

theorem Judges.map (h : context.Judges entries attempt) (f : α → β) :
    context.Judges entries (attempt.map f) := by
  cases attempt <;> exact h

theorem Judges.exists_ok_iff (h : context.Judges entries attempt) :
    (∃ value, attempt = .ok value) ↔ ∀ entry ∈ entries, context.IsSound entry := by
  cases attempt with
  | ok value => exact ⟨fun _ => h, fun _ => ⟨value, rfl⟩⟩
  | error fault =>
      obtain ⟨entry, hmem, hnot⟩ := FirstFault.exists_not_isSound h
      exact ⟨fun ⟨_, heq⟩ => (nomatch heq), fun hsound => absurd (hsound entry hmem) hnot⟩

theorem Judges.eq_error_iff (h : context.Judges entries attempt) :
    attempt = .error fault ↔ context.FirstFault entries fault := by
  cases attempt with
  | ok value =>
      refine ⟨fun heq => (nomatch heq), fun hfault => ?_⟩
      obtain ⟨entry, hmem, hnot⟩ := hfault.exists_not_isSound
      exact absurd (h entry hmem) hnot
  | error found =>
      refine ⟨fun heq => ?_, fun hfault => congrArg _ (FirstFault.unique h hfault)⟩
      rwa [← Except.error.inj heq]

end Judges

section Reading

variable {α : Type} {decode : Decoder α}

/-- What a component finds under one of its keys is told by what the context gives for the entry. -/
theorem getAs?_slice (context : Context) (entry : Entry) (decode : Decoder α) :
    (context.slice entry.space).getAs? decode entry.localKey =
      match context.given? entry with
      | none => .ok none
      | some json => ((decode.ofJson json).mapError (.invalidValue entry.localKey)).map some := by
  have hget : (context.slice entry.space).get? entry.localKey = context.get? entry.key :=
    context.get?_slice _ _
  unfold Slice.getAs? given?
  rw [hget]
  cases context.get? entry.key with
  | none => rfl
  | some json =>
      cases hnull : json.isNull with
      | true =>
          have hnone : (some json).filter (fun json => !json.isNull) = none := by
            simp [Option.filter, hnull]
          rw [hnone]
          simp only [hnull, if_true]
      | false =>
          have hsome : (some json).filter (fun json => !json.isNull) = some json := by
            simp [Option.filter, hnull]
          rw [hsome]
          simp only [hnull, Bool.false_eq_true, if_false]
          cases decode.ofJson json <;> rfl

theorem require_slice (context : Context) (entry : Entry) (decode : Decoder α) :
    (context.slice entry.space).require decode entry.localKey =
      match context.given? entry with
      | none => .error (.missingKey entry.localKey)
      | some json => (decode.ofJson json).mapError (.invalidValue entry.localKey) := by
  unfold Slice.require
  rw [getAs?_slice]
  cases context.given? entry with
  | none => rfl
  | some json => cases hdecode : decode.ofJson json <;> simp only [hdecode] <;> rfl

theorem isSound_of_absent (h : context.given? entry = none) (hneeded : entry.isNeeded = false) :
    context.IsSound entry := by
  unfold IsSound
  rw [h]
  exact hneeded

theorem isSound_of_given {json : Json} (h : context.given? entry = some json)
    (haccepts : entry.Accepts json) : context.IsSound entry := by
  unfold IsSound
  rw [h]
  exact haccepts

section Plain

variable (entry : Entry) (haccepts : ∀ json, entry.Fits json → entry.Accepts json)
  (hread : ∀ json, entry.read json = (decode.ofJson json).map fun _ => ())

include haccepts hread

theorem judges_decode {json : Json} (hgiven : context.given? entry = some json) :
    context.Judges [entry] ((decode.ofJson json).mapError (.invalidValue entry.localKey)) := by
  have hjson := hread json
  cases hdecode : decode.ofJson json with
  | error reason =>
      rw [hdecode] at hjson
      exact .here (.unfit hgiven hjson)
  | ok value =>
      rw [hdecode] at hjson
      have hfits := Entry.read_eq_ok_iff.mp hjson
      exact List.forall_mem_singleton.mpr (isSound_of_given hgiven (haccepts json hfits))

theorem judges_getAs? (hneeded : entry.isNeeded = false) :
    context.Judges [entry] ((context.slice entry.space).getAs? decode entry.localKey) := by
  rw [getAs?_slice]
  cases hgiven : context.given? entry with
  | none => exact List.forall_mem_singleton.mpr (isSound_of_absent hgiven hneeded)
  | some json => exact (judges_decode entry haccepts hread hgiven).map some

theorem judges_require (hneeded : entry.isNeeded = true) :
    context.Judges [entry] ((context.slice entry.space).require decode entry.localKey) := by
  rw [require_slice]
  cases hgiven : context.given? entry with
  | none => exact .here (.missing hneeded hgiven)
  | some json => exact judges_decode entry haccepts hread hgiven

end Plain

end Reading

section Parts

variable (context : Context)

/-- The version has to be one that is understood, which makes it the only entry that accepts less than
what fits. -/
theorem judges_version :
    context.Judges [.version] (do
      let version ← (context.slice Executor.spaceName).require .word32 Executor.versionKey
      if version ≠ Executor.contextVersion then
        .error (.unsupportedVersion version Executor.contextVersion)
      else .ok ()) := by
  have hrequire := require_slice context .version .word32
  change (context.slice Executor.spaceName).require .word32 Executor.versionKey = _ at hrequire
  rw [hrequire]
  cases hgiven : context.given? .version with
  | none => exact .here (.missing rfl hgiven)
  | some json =>
      cases hdecode : Decoder.word32.ofJson json with
      | error reason =>
          have hread : Entry.read .version json = .error reason := by
            change (Decoder.word32.ofJson json).map _ = _
            rw [hdecode]
            rfl
          simp only [hdecode]
          exact .here (.unfit hgiven hread)
      | ok version =>
          obtain rfl := Decoder.word32_eq_ok_iff.mp hdecode
          simp only [hdecode]
          change context.Judges _ (if version ≠ Executor.contextVersion then _ else _)
          split
          · rename_i hne
            exact .here (.unsupported hgiven hne)
          · rename_i heq
            refine List.forall_mem_singleton.mpr (isSound_of_given hgiven ?_)
            rw [not_not.mp heq]
            rfl

theorem judges_readOwnSlice :
    context.Judges [.version, .executionId]
      (Executor.readOwnSlice (context.slice Executor.spaceName)) := by
  have hid : context.Judges [.executionId]
      ((context.slice Executor.spaceName).require .text Executor.executionIdKey) :=
    judges_require .executionId (fun _ => id) (fun _ => rfl) rfl
  -- The version is compared once it is read, in front of reading the identifier.
  have hboth := (judges_version context).bind fun _ => hid
  unfold Executor.readOwnSlice
  cases hversion : (context.slice Executor.spaceName).require .word32 Executor.versionKey with
  | error fault =>
      rw [hversion] at hboth
      exact hboth
  | ok version =>
      rw [hversion] at hboth
      change context.Judges _ (if version ≠ Executor.contextVersion then _ else _)
      change context.Judges _ ((if version ≠ Executor.contextVersion then _ else _) >>= _) at hboth
      split <;> rename_i hne
      · rw [if_pos hne] at hboth
        exact hboth
      · rw [if_neg hne] at hboth
        exact hboth

theorem judges_location : context.Judges [.location] context.location :=
  judges_getAs? .location (fun _ => id) (fun _ => rfl) rfl

theorem judges_ofSlice :
    context.Judges [.definitionId, .state, .result]
      (ExecutionRecord.ofSlice (context.slice Execution.spaceName)) := by
  have hid : context.Judges [.definitionId]
      ((context.slice Execution.spaceName).require .text Execution.definitionKey) :=
    judges_require .definitionId (fun _ => id) (fun _ => rfl) rfl
  have hstate : context.Judges [.state]
      ((context.slice Execution.spaceName).getAs? ExecutionState.decode Execution.stateKey) :=
    judges_getAs? .state (fun _ => id) (fun _ => rfl) rfl
  have hresult : context.Judges [.result]
      ((context.slice Execution.spaceName).getAs? ExecutionResult.decode Execution.resultKey) :=
    judges_getAs? .result (fun _ => id) (fun _ => rfl) rfl
  exact hid.bind fun id => hstate.bind fun state => hresult.bind fun result => judges_pure _

theorem judges_executor (executionId : String) :
    context.Judges [.definitionId, .state, .result, .sequence]
      (context.executor false executionId "") := by
  have hexecution : context.Judges [.definitionId, .state, .result]
      (context.execution false executionId) :=
    (judges_ofSlice context).map _
  have hposition : context.Judges [.sequence]
      ((context.slice Logger.spaceName).getAs? .word64 Logger.sequenceKey) :=
    judges_getAs? .sequence (fun _ => id) (fun _ => rfl) rfl
  have hsequence : context.Judges [.sequence] (Logger.sequenceIn (context.slice Logger.spaceName)) :=
    hposition.bind fun position => judges_pure _
  exact hexecution.bind fun execution => hsequence.bind fun sequence => judges_pure _

/-- The entries are looked at in their order by the parts that own them. -/
theorem judges_takenOver : context.Judges Entry.all (context.takenOver false) :=
  (judges_readOwnSlice context).bind fun id => (judges_location context).bind fun _ =>
    (judges_executor context id).bind fun _ => judges_pure _

variable {context}

theorem exists_takenOver_iff :
    (∃ found, context.takenOver false = .ok found) ↔ ∀ entry ∈ Entry.all, context.IsSound entry :=
  context.judges_takenOver.exists_ok_iff

theorem takenOver_eq_error_iff :
    context.takenOver false = .error fault ↔ context.FirstFault Entry.all fault :=
  context.judges_takenOver.eq_error_iff

end Parts

section Same

variable {α : Type} (h : context.SameEntries other)

include h

theorem SameEntries.given? (entry : Entry) : other.given? entry = context.given? entry := by
  unfold Context.given?
  rw [h entry]

theorem SameEntries.getAs? (entry : Entry) (decode : Decoder α) :
    (other.slice entry.space).getAs? decode entry.localKey =
      (context.slice entry.space).getAs? decode entry.localKey := by
  rw [getAs?_slice, getAs?_slice, h.given?]

theorem SameEntries.require (entry : Entry) (decode : Decoder α) :
    (other.slice entry.space).require decode entry.localKey =
      (context.slice entry.space).require decode entry.localKey := by
  rw [require_slice, require_slice, h.given?]

theorem SameEntries.readOwnSlice :
    Executor.readOwnSlice (other.slice Executor.spaceName) =
      Executor.readOwnSlice (context.slice Executor.spaceName) := by
  have hversion : (other.slice Executor.spaceName).require .word32 Executor.versionKey =
      (context.slice Executor.spaceName).require .word32 Executor.versionKey := h.require .version _
  have hid : (other.slice Executor.spaceName).require .text Executor.executionIdKey =
      (context.slice Executor.spaceName).require .text Executor.executionIdKey :=
    h.require .executionId _
  unfold Executor.readOwnSlice
  rw [hversion, hid]

theorem SameEntries.location : other.location = context.location :=
  h.getAs? .location _

theorem SameEntries.takenOver (central : Bool) :
    other.takenOver central = context.takenOver central := by
  have hid : (other.slice Execution.spaceName).require .text Execution.definitionKey =
      (context.slice Execution.spaceName).require .text Execution.definitionKey :=
    h.require .definitionId _
  have hstate : (other.slice Execution.spaceName).getAs? ExecutionState.decode Execution.stateKey =
      (context.slice Execution.spaceName).getAs? ExecutionState.decode Execution.stateKey :=
    h.getAs? .state _
  have hresult : (other.slice Execution.spaceName).getAs? ExecutionResult.decode Execution.resultKey =
      (context.slice Execution.spaceName).getAs? ExecutionResult.decode Execution.resultKey :=
    h.getAs? .result _
  have hsequence : (other.slice Logger.spaceName).getAs? .word64 Logger.sequenceKey =
      (context.slice Logger.spaceName).getAs? .word64 Logger.sequenceKey := h.getAs? .sequence _
  unfold Context.takenOver Context.executor Context.execution ExecutionRecord.ofSlice Logger.sequenceIn
  rw [h.readOwnSlice, h.location, hid, hstate, hresult, hsequence]

theorem SameEntries.pointed (site : Site) : site.pointed other = site.pointed context := by
  unfold Site.pointed
  rw [h.readOwnSlice, h.location]

end Same

/-- A sound identifier is what marks a context as one of an execution. -/
theorem isExecution_of_isSound (h : context.IsSound .executionId) : context.isExecution = true := by
  unfold IsSound at h
  cases hgiven : context.given? .executionId with
  | none =>
      rw [hgiven] at h
      cases h
  | some json =>
      rw [hgiven] at h
      obtain ⟨text, rfl⟩ := h
      have hget : (context.slice Executor.spaceName).get? Executor.executionIdKey =
          some (.text text) := by
        rw [get?_slice]
        exact (Option.filter_eq_some_iff.mp hgiven).1
      unfold isExecution
      rw [hget]
      rfl

end Context

namespace Executor

variable {site : Site}

/-- Taking over is reading what there is to take over; the site is pointed to where the definitions are
as soon as that is read, and kept as it is otherwise. -/
theorem hydrate_eq_takenOver (h : site.definitions.announcement = none) (context : Context) :
    hydrate context site =
      match context.takenOver site.central with
      | .ok (location, executor) =>
        .ok { executor with executorId := Identifier.spell site.issued }
          { site with definitions.location := location, issued := site.issued + 1 }
      | .error error => .error (.context error) (site.pointed context) := by
  have hread := hydrateAs_apply "" context h
  unfold hydrate Context.takenOver Site.pointed
  cases hown : readOwnSlice (context.slice spaceName) with
  | error error =>
      rw [hown] at hread
      rw [Action.bind_of_error hread]
      rfl
  | ok id =>
      rw [hown] at hread
      cases hlocation : context.location with
      | error error =>
          rw [hlocation] at hread
          rw [Action.bind_of_error hread]
          rfl
      | ok location =>
          rw [hlocation] at hread
          cases hexecutor : context.executor site.central id "" with
          | error error =>
              simp only [hexecutor] at hread
              rw [Action.bind_of_error hread]
              simp only [bind, Except.bind, hexecutor]
          | ok executor =>
              simp only [hexecutor] at hread
              rw [Action.bind_of_ok hread]
              simp only [bind, Except.bind, hexecutor]
              rfl

/-- Executors that take over from one context at sites that know its machine answer alike. -/
theorem answers_eq_of_agreesOn {host after hostAfter : Site} {context : Context}
    {executor twin : Executor} (h : site.AgreesOn host context)
    (hfirst : hydrate context site = .ok executor after)
    (hsecond : hydrate context host = .ok twin hostAfter) (requests : List (Option String × Request)) :
    (Stage.serveAll { executor, site := after } requests).1 =
      (Stage.serveAll { executor := twin, site := hostAfter } requests).1 := by
  have hcarried : context.takenOver site.central = context.takenOver false := by rw [h.carried.1]
  have hcarriedThere : context.takenOver host.central = context.takenOver false := by rw [h.carried.2]
  rw [hydrate_eq_takenOver h.unannounced.1, hcarried] at hfirst
  rw [hydrate_eq_takenOver h.unannounced.2, hcarriedThere] at hsecond
  cases htaken : context.takenOver false with
  | error fault =>
      rw [htaken] at hfirst
      cases hfirst
  | ok found =>
      obtain ⟨location, taken⟩ := found
      rw [htaken] at hfirst hsecond
      cases hfirst
      cases hsecond
      obtain ⟨id, _, hrest⟩ := ok_of_bind htaken
      obtain ⟨_, _, hrest⟩ := ok_of_bind hrest
      obtain ⟨read, hexecutor, hrest⟩ := ok_of_bind hrest
      cases hrest
      have hview := view_of_agreesOn h hexecutor location (Identifier.spell site.issued)
        (Identifier.spell host.issued) (site.issued + 1) (host.issued + 1)
      exact (Stage.serveAll_congr h.unannounced.1 h.unannounced.2 hview requests).1

/-- Where executions are carried in contexts, one is taken over from a context just if none of its
entries is wrong; otherwise it is said what is wrong with the first that is. Such a context counts as one
of an execution. Another context with the same entries leads to the same, whatever else it holds; and at
another site that knows the machine, the executor that takes over from it answers all requests alike,
also those for its context. -/
theorem hydrate_by_entries (site : Site) (hcarried : site.central = false)
    (hplain : site.definitions.announcement = none) (context : Context) :
    ((∃ executor after, hydrate context site = .ok executor after) ↔
        ∀ entry ∈ Entry.all, context.IsSound entry) ∧
      (∀ error, (∃ after, hydrate context site = .error error after) ↔
        ∃ fault, error = .context fault ∧ context.FirstFault Entry.all fault) ∧
      ((∃ executor after, hydrate context site = .ok executor after) → context.isExecution = true) ∧
      ∀ other, context.SameEntries other →
        hydrate other site = hydrate context site ∧
          ∀ host, site.AgreesOn host context → ∀ executor after twin hostAfter,
            hydrate context site = .ok executor after → hydrate other host = .ok twin hostAfter →
            ∀ requests, (Stage.serveAll { executor, site := after } requests).1 =
              (Stage.serveAll { executor := twin, site := hostAfter } requests).1 := by
  have heq := hydrate_eq_takenOver hplain context
  rw [hcarried] at heq
  have hsucceeds : (∃ executor after, hydrate context site = .ok executor after) ↔
      ∀ entry ∈ Entry.all, context.IsSound entry := by
    rw [← Context.exists_takenOver_iff, heq]
    cases context.takenOver false with
    | error fault => exact ⟨fun ⟨_, _, hok⟩ => (nomatch hok), fun ⟨_, hok⟩ => (nomatch hok)⟩
    | ok found => exact ⟨fun _ => ⟨found, rfl⟩, fun _ => ⟨_, _, rfl⟩⟩
  have hsame : ∀ {other host}, context.SameEntries other → host.definitions.announcement = none →
      hydrate other host = hydrate context host := by
    intro other host h hhost
    rw [hydrate_eq_takenOver hhost, hydrate_eq_takenOver hhost, h.takenOver, h.pointed]
  refine ⟨hsucceeds, ?fails, ?marked, fun other h => ⟨hsame h hplain, ?elsewhere⟩⟩
  case fails =>
    intro error
    rw [heq]
    cases htaken : context.takenOver false with
    | error fault =>
        have hfault := Context.takenOver_eq_error_iff.mp htaken
        constructor
        · rintro ⟨after, herror⟩
          cases herror
          exact ⟨fault, rfl, hfault⟩
        · rintro ⟨other, rfl, hother⟩
          rw [hother.unique hfault]
          exact ⟨_, rfl⟩
    | ok found =>
        refine ⟨fun ⟨_, herror⟩ => (nomatch herror), fun ⟨fault, _, hfault⟩ => ?_⟩
        cases htaken.symm.trans (Context.takenOver_eq_error_iff.mpr hfault)
  case marked =>
    intro hok
    exact Context.isExecution_of_isSound (hsucceeds.mp hok .executionId (by decide))
  case elsewhere =>
    intro host hagrees executor after twin hostAfter hfirst hsecond requests
    rw [hsame h hagrees.unannounced.2] at hsecond
    exact answers_eq_of_agreesOn hagrees hfirst hsecond requests

/-- The entries of the visitor, and no more. -/
def lightContext : Context :=
  { entries := .ofList
      [("x-stately-executor-execution_id", .text "visitor"),
        ("x-stately-executor-version", .ofUInt32 1),
        ("x-stately-execution-definition_id", .text "elsewhere"),
        ("x-stately-execution-state", .record [("Name", .text "Carry"), ("Data", .null)])] }

/-- The visitor is taken over all the same with what else was in its context left out, here and at a site
that has given identifiers out before. -/
theorem hydrate_by_entries_visitor :
    (∀ entry ∈ Entry.all, Session.visitorContext.IsSound entry) ∧
      Session.visitorContext.isExecution = true ∧
      Session.visitorContext.SameEntries lightContext ∧
      (∃ executor after twin hostAfter,
        hydrate Session.visitorContext (.fresh false) = .ok executor after ∧
          hydrate lightContext { Site.fresh false with issued := 12 } = .ok twin hostAfter ∧
          ∀ requests, (Stage.serveAll { executor, site := after } requests).1 =
            (Stage.serveAll { executor := twin, site := hostAfter } requests).1) ∧
      ∃ after, hydrate .empty (.fresh false) = .error (.context (.missingKey "version")) after := by
  have hsound : ∀ entry ∈ Entry.all, Session.visitorContext.IsSound entry := by
    intro entry _
    cases entry with
    | version => exact Context.isSound_of_given rfl rfl
    | executionId | definitionId | state => exact Context.isSound_of_given rfl ⟨_, rfl⟩
    | location | result | sequence => exact Context.isSound_of_absent rfl rfl
  have hsame : Session.visitorContext.SameEntries lightContext := by
    intro entry
    cases entry <;> rfl
  have hagrees : (Site.fresh false).AgreesOn { Site.fresh false with issued := 12 }
      Session.visitorContext := ⟨⟨rfl, rfl⟩, ⟨rfl, rfl⟩, fun _ _ => rfl⟩
  obtain ⟨hsucceeds, _, hmarked, hother⟩ :=
    hydrate_by_entries (.fresh false) rfl rfl Session.visitorContext
  obtain ⟨hsucceedsThere, _, _, hotherThere⟩ :=
    hydrate_by_entries { Site.fresh false with issued := 12 } rfl rfl Session.visitorContext
  obtain ⟨_, hfails, _⟩ := hydrate_by_entries (.fresh false) rfl rfl .empty
  obtain ⟨executor, after, hfirst⟩ := hsucceeds.mpr hsound
  obtain ⟨twin, hostAfter, hsecond⟩ := hsucceedsThere.mpr hsound
  rw [← (hotherThere lightContext hsame).1] at hsecond
  refine ⟨hsound, hmarked ⟨_, _, hfirst⟩, hsame, ⟨executor, after, twin, hostAfter, hfirst, hsecond, ?_⟩,
    (hfails _).mpr ⟨_, rfl, .here (.missing rfl rfl)⟩⟩
  exact (hother lightContext hsame).2 _ hagrees _ _ _ _ hfirst hsecond

end Executor

end Workflow
