import Workflow.Proofs.Session.Basic

/-!
# What holds in every session

Every record, wherever it is kept, follows a machine that was created and is in one of its phases;
every context that can be hydrated is one that an executor with such a record exports. One call
keeps this, and so does a run.
-/

namespace Workflow.Session

/-- A record of an execution that was created of `source`. The machine that is found under the digest
of `source` decides how the execution goes on. -/
structure Follows (session : Session) (id : String) (record : ExecutionRecord)
    (source machine : Machine) : Prop where
  created : (id, source) ∈ session.created
  defined : record.definitionId = some source.contentHash
  found : session.site.library.find? homeShelf source.contentHash = some machine
  sound : record.IsSound machine

/-- An executor whose execution has a record that follows some machine. -/
structure Carries (session : Session) (executor : Executor) : Prop where
  kept : executor.execution.held.isNone = session.site.central
  held : ∀ record, executor.execution.held = some record →
    ∃ source machine, session.Follows executor.executionId record source machine
  tabled : executor.execution.held = none →
    ∃ record, session.site.table.get? executor.executionId = some record

/-- A context that an executor of the session exports, or could have exported once. -/
def Exports (session : Session) (context : Context) : Prop :=
  ∃ executor, session.Carries executor ∧ context = executor.exported (.plain homeShelf)

structure Sound (session : Session) : Prop where
  definitions : session.site.definitions = .plain homeShelf
  valid : ∀ id machine, (id, machine) ∈ session.created → machine.violations = []
  shelved : session.site.library.HoldsOnly homeShelf fun machine =>
    ∃ id, (id, machine) ∈ session.created
  table : ∀ id record, session.site.table.get? id = some record →
    ∃ source machine, session.Follows id record source machine
  executors : ∀ executor ∈ session.executors, session.Carries executor
  exports : ∀ context ∈ session.exports, session.Exports context
  queue : ∀ task ∈ session.site.queue.pending, session.Exports task.context

/-- What is never taken back in a session. -/
structure Grows (before after : Session) : Prop where
  central : after.site.central = before.site.central
  created : ∀ entry ∈ before.created, entry ∈ after.created
  library : before.site.library.Extends after.site.library
  table : ∀ id record, before.site.table.get? id = some record →
    ∃ later, after.site.table.get? id = some later

section Growth

variable {before after : Session} {id : String} {record : ExecutionRecord}
  {source machine : Machine} {executor : Executor} {context : Context}

theorem Follows.grows (h : before.Follows id record source machine) (hgrows : before.Grows after) :
    after.Follows id record source machine :=
  { created := hgrows.created _ h.created
    defined := h.defined
    found := hgrows.library _ _ _ h.found
    sound := h.sound }

theorem Carries.grows (h : before.Carries executor) (hgrows : before.Grows after) :
    after.Carries executor := by
  refine ⟨h.kept.trans hgrows.central.symm, ?_, ?_⟩
  · intro record hheld
    obtain ⟨source, machine, hfollows⟩ := h.held record hheld
    exact ⟨source, machine, hfollows.grows hgrows⟩
  · intro hheld
    obtain ⟨record, hrecord⟩ := h.tabled hheld
    exact hgrows.table _ record hrecord

theorem Exports.grows (h : before.Exports context) (hgrows : before.Grows after) :
    after.Exports context := by
  obtain ⟨executor, hcarries, hcontext⟩ := h
  exact ⟨executor, hcarries.grows hgrows, hcontext⟩

theorem Carries.renamed (h : before.Carries executor) (executorId : String) :
    before.Carries { executor with executorId } :=
  ⟨h.kept, h.held, h.tabled⟩

end Growth

variable {session : Session} {executor : Executor}

theorem Sound.isLocal (h : session.Sound) : session.site.IsLocal := by
  have hdefinitions := h.definitions
  exact ⟨congrArg DefinitionStore.front hdefinitions,
    congrArg DefinitionStore.announcement hdefinitions⟩

theorem Sound.follows_of_grows {after : Session} (h : session.Sound) (hgrows : session.Grows after)
    {id : String} {record : ExecutionRecord} (hrecord : session.site.table.get? id = some record) :
    ∃ source machine, after.Follows id record source machine := by
  obtain ⟨source, machine, hfollows⟩ := h.table id record hrecord
  exact ⟨source, machine, hfollows.grows hgrows⟩

theorem Carries.stands (h : session.Carries executor) (hsound : session.Sound) :
    ∃ record source machine, session.Follows executor.executionId record source machine ∧
      (session.stage executor).Stands record machine ∧ machine.violations = [] := by
  have hrecord : ∃ record source machine,
      session.Follows executor.executionId record source machine ∧
      (session.stage executor).handle.record = .ok record := by
    cases hheld : executor.execution.held with
    | some record =>
        obtain ⟨source, machine, hfollows⟩ := h.held record hheld
        exact ⟨record, source, machine, hfollows, Handle.record_of_held hheld⟩
    | none =>
        obtain ⟨record, hrecord⟩ := h.tabled hheld
        obtain ⟨source, machine, hfollows⟩ := hsound.table _ record hrecord
        exact ⟨record, source, machine, hfollows, Handle.record_of_tabled hheld hrecord⟩
  obtain ⟨record, source, machine, hfollows, hrecorded⟩ := hrecord
  obtain ⟨_, id, hcreated⟩ := hsound.shelved _ machine hfollows.found
  refine ⟨record, source, machine, hfollows,
    ⟨hsound.isLocal, hrecorded, source.contentHash, hfollows.defined, ?_⟩, hsound.valid id machine hcreated⟩
  change session.site.library.find? session.site.definitions.home _ = _
  rw [hsound.definitions]
  exact hfollows.found

section Steps

variable {after : Stage} {slot : Nat} {record : ExecutionRecord} {source machine : Machine}
  {progress : Progress}

theorem put_stage (hslot : session.executors[slot]? = some executor) :
    session.put slot (session.stage executor) = session := by
  obtain ⟨hlt, hget⟩ := List.getElem?_eq_some_iff.mp hslot
  have hset : session.executors.set slot executor = session.executors := by
    rw [← hget, List.set_getElem_self]
  change { session with executors := session.executors.set slot executor } = session
  rw [hset]

theorem grows_put (hreaches : (session.stage executor).Reaches record progress after) :
    session.Grows (session.put slot after) := by
  have hsite := hreaches.site
  refine ⟨?_, fun _ hentry => hentry, ?_, ?_⟩
  · change after.site.central = session.site.central
    rw [hsite]
    rfl
  · intro name digest machine hfind
    change after.site.library.find? name digest = some machine
    rw [hsite]
    exact hfind
  · intro id before hbefore
    change ∃ later, after.site.table.get? id = some later
    rw [hreaches.table]
    split
    · exact ⟨before, hbefore⟩
    · rw [Dict.get?_insert]
      split
      · exact ⟨_, rfl⟩
      · exact ⟨before, hbefore⟩

theorem Follows.put (h : session.Follows executor.executionId record source machine)
    (hresult : record.result = none) (hat : progress.IsAt machine)
    (hreaches : (session.stage executor).Reaches record progress after) :
    (session.put slot after).Follows executor.executionId (record.arrived progress) source
      machine :=
  { created := h.created
    defined := (record.definitionId_arrived progress).trans h.defined
    found := (@grows_put session executor after slot _ _ hreaches).library _ _ _ h.found
    sound := ExecutionRecord.isSound_arrived hresult hat }

section Put

variable (hfollows : session.Follows executor.executionId record source machine)
  (hresult : record.result = none) (hat : progress.IsAt machine)
  (hreaches : (session.stage executor).Reaches record progress after)

include hfollows hresult hat hreaches

theorem Carries.put (h : session.Carries executor) :
    (session.put slot after).Carries after.executor := by
  have hid := hreaches.executionId
  have hgrows : session.Grows (session.put slot after) := grows_put hreaches
  refine ⟨?_, ?_, ?_⟩
  · rw [hreaches.held, Option.isNone_map, hgrows.central]
    exact h.kept
  · intro held hheld
    rw [hreaches.held] at hheld
    obtain ⟨_, _, rfl⟩ := Option.map_eq_some_iff.mp hheld
    rw [hid]
    exact ⟨source, machine, hfollows.put hresult hat hreaches⟩
  · intro hheld
    rw [hreaches.held, Option.map_eq_none_iff] at hheld
    change ∃ later, after.site.table.get? after.executor.executionId = some later
    rw [hreaches.table, hheld, hid, if_neg (by simp), Dict.get?_insert_self]
    exact ⟨_, rfl⟩

/-- Where a call changes the table, the new record is sound. -/
theorem Sound.follows_put (h : session.Sound) {id : String} {found : ExecutionRecord}
    (hfound : (session.put slot after).site.table.get? id = some found) :
    ∃ source machine, (session.put slot after).Follows id found source machine := by
  have hgrows : session.Grows (session.put slot after) := grows_put hreaches
  change after.site.table.get? id = some found at hfound
  rw [hreaches.table] at hfound
  split at hfound
  · exact h.follows_of_grows hgrows hfound
  · rw [Dict.get?_insert] at hfound
    split at hfound
    · rename_i heq
      obtain rfl := Option.some.inj hfound
      rw [heq]
      exact ⟨source, machine, hfollows.put hresult hat hreaches⟩
    · exact h.follows_of_grows hgrows hfound

theorem Sound.put_of_reaches (h : session.Sound)
    (hslot : session.executors[slot]? = some executor) :
    (session.put slot after).Sound ∧ session.Grows (session.put slot after) := by
  have hsite := hreaches.site
  have hgrows : session.Grows (session.put slot after) := grows_put hreaches
  have hcarries : (session.put slot after).Carries after.executor :=
    Carries.put hfollows hresult hat hreaches (h.executors executor (List.mem_of_getElem? hslot))
  refine ⟨⟨?_, h.valid, ?_, ?_, ?_, ?_, ?_⟩, hgrows⟩
  · change after.site.definitions = _
    rw [hsite]
    exact h.definitions
  · intro digest found hfind
    change after.site.library.find? homeShelf digest = some found at hfind
    rw [hsite] at hfind
    exact h.shelved digest found hfind
  · intro id found hfound
    exact Sound.follows_put hfollows hresult hat hreaches h hfound
  · intro other hother
    rcases List.mem_or_eq_of_mem_set hother with hmem | rfl
    · exact (h.executors other hmem).grows hgrows
    · exact hcarries
  · intro context hcontext
    exact (h.exports context hcontext).grows hgrows
  · intro task htask
    change task ∈ after.site.queue.pending at htask
    rw [hreaches.queue] at htask
    rcases Progress.mem_pending_queued htask with hmem | hcontext
    · exact (h.queue task hmem).grows hgrows
    · refine ⟨after.executor, hcarries, hcontext.trans ?_⟩
      change after.executor.exported session.site.definitions = _
      rw [h.definitions]

end Put

theorem Grows.refl (session : Session) : session.Grows session :=
  { central := rfl
    created := fun _ hentry => hentry
    library := fun _ _ _ hfind => hfind
    table := fun _ record hrecord => ⟨record, hrecord⟩ }

/-- At a plain site, a context that was exported at one is hydrated to the execution as it was. -/
theorem hydrate_plain {site : Site} (hdefinitions : site.definitions = .plain homeShelf)
    (hkept : executor.execution.held.isNone = site.central)
    (hdefined : ∀ record, executor.execution.held = some record → record.definitionId ≠ none) :
    Executor.hydrate (executor.exported (.plain homeShelf)) site =
      .ok { executor with executorId := Identifier.spell site.issued }
        { site with issued := site.issued + 1 } := by
  have hlocation : { site.definitions with
      location := (DefinitionStore.plain homeShelf).location } = site.definitions := by
    rw [hdefinitions]
  have hannouncement : site.definitions.announcement = none := by
    rw [hdefinitions]
    rfl
  rw [Executor.hydrate_exported rfl hannouncement hkept hdefined, hlocation]

theorem Sound.hydrate_apply (h : session.Sound) (hcarries : session.Carries executor) :
    Executor.hydrate (executor.exported (.plain homeShelf)) session.site =
      .ok { executor with executorId := Identifier.spell session.site.issued }
        { session.site with issued := session.site.issued + 1 } := by
  apply hydrate_plain h.definitions hcarries.kept
  intro record hheld
  obtain ⟨source, machine, hfollows⟩ := hcarries.held record hheld
  rw [hfollows.defined]
  exact Option.some_ne_none _

theorem Sound.of_same (h : session.Sound) {after : Session}
    (hcreated : after.created = session.created)
    (hlibrary : after.site.library = session.site.library)
    (hdefinitions : after.site.definitions = session.site.definitions)
    (hcentral : after.site.central = session.site.central)
    (htable : after.site.table = session.site.table)
    (hexecutors : ∀ executor ∈ after.executors, session.Carries executor)
    (hexports : ∀ context ∈ after.exports, session.Exports context)
    (hqueue : ∀ task ∈ after.site.queue.pending, session.Exports task.context) :
    after.Sound ∧ session.Grows after := by
  have hgrows : session.Grows after := by
    refine ⟨hcentral, ?_, ?_, ?_⟩
    · intro entry hentry
      rw [hcreated]
      exact hentry
    · intro name digest machine hfind
      rw [hlibrary]
      exact hfind
    · intro id record hrecord
      rw [htable]
      exact ⟨record, hrecord⟩
  refine ⟨⟨hdefinitions.trans h.definitions, ?_, ?_, ?_, ?_, ?_, ?_⟩, hgrows⟩
  · rw [hcreated]
    exact h.valid
  · rw [hlibrary, hcreated]
    exact h.shelved
  · intro id record hrecord
    rw [htable] at hrecord
    exact h.follows_of_grows hgrows hrecord
  · intro executor hmem
    exact (hexecutors executor hmem).grows hgrows
  · intro context hmem
    exact (hexports context hmem).grows hgrows
  · intro task hmem
    exact (hqueue task hmem).grows hgrows

theorem Sound.given (h : session.Sound) (hcarries : session.Carries executor) (issued : Nat) :
    (session.given executor { session.site with issued }).Sound ∧
      session.Grows (session.given executor { session.site with issued }) := by
  refine h.of_same rfl rfl rfl rfl rfl ?_ h.exports h.queue
  intro other hother
  rcases List.mem_append.mp hother with hmem | hmem
  · exact h.executors other hmem
  · rw [List.mem_singleton.mp hmem]
    exact hcarries

theorem Sound.exporting (h : session.Sound) (hcarries : session.Carries executor) :
    Sound { session with exports := session.exports ++ [executor.exported (.plain homeShelf)] } ∧
      session.Grows
        { session with exports := session.exports ++ [executor.exported (.plain homeShelf)] } := by
  refine h.of_same rfl rfl rfl rfl rfl h.executors ?_ h.queue
  intro context hcontext
  rcases List.mem_append.mp hcontext with hmem | hmem
  · exact h.exports context hmem
  · exact ⟨executor, hcarries, List.mem_singleton.mp hmem⟩

theorem Sound.rejecting (h : session.Sound) (rejection : Option String) :
    Sound { session with site.rejection := rejection } ∧
      session.Grows { session with site.rejection := rejection } :=
  h.of_same rfl rfl rfl rfl rfl h.executors h.exports h.queue

/-- The session after a machine was created. -/
def opened (session : Session) (machine : Machine) : Session :=
  { session.given (session.site.created machine).executor (session.site.created machine).site with
    created := session.created ++
      [((session.site.created machine).executor.executionId, machine)] }

theorem grows_opened (session : Session) (machine : Machine) :
    session.Grows (session.opened machine) := by
  refine ⟨Site.central_created session.site machine, ?_,
    Site.extends_created session.site machine, ?_⟩
  · intro entry hentry
    exact List.mem_append_left _ hentry
  · intro id record hrecord
    change ∃ later, (session.site.created machine).site.table.get? id = some later
    rw [Site.table_created]
    split
    · rw [Dict.get?_insert]
      split
      · exact ⟨_, rfl⟩
      · exact ⟨record, hrecord⟩
    · exact ⟨record, hrecord⟩

theorem Sound.follows_opened (h : session.Sound) (machine : Machine) :
    (session.opened machine).Follows (session.site.created machine).executor.executionId
      (.following machine.contentHash) machine
      ((session.site.library.find? homeShelf machine.contentHash).getD machine) := by
  refine ⟨List.mem_append_right _ (List.mem_singleton.mpr rfl), rfl, ?_,
    ExecutionRecord.isSound_following _ _⟩
  have hfound := Site.find?_created session.site machine
  rw [h.definitions] at hfound
  exact hfound

theorem Sound.carries_opened (h : session.Sound) (machine : Machine) :
    (session.opened machine).Carries (session.site.created machine).executor := by
  have hheld := Site.held_created session.site machine
  refine ⟨?_, ?_, ?_⟩
  · rw [(grows_opened session machine).central, Site.isNone_held_created]
  · intro record hrecord
    rw [hheld] at hrecord
    split at hrecord
    · cases hrecord
    · obtain rfl := Option.some.inj hrecord
      exact ⟨machine, _, h.follows_opened machine⟩
  · intro hnone
    rw [hheld] at hnone
    split at hnone
    · rename_i hcentral
      change ∃ record, (session.site.created machine).site.table.get? _ = some record
      rw [Site.table_created, if_pos hcentral, Site.executionId_created, Dict.get?_insert_self]
      exact ⟨_, rfl⟩
    · cases hnone

theorem Sound.opened (h : session.Sound) (hvalid : machine.violations = []) :
    (session.opened machine).Sound ∧ session.Grows (session.opened machine) := by
  have hgrows := grows_opened session machine
  have hshelved := h.shelved
  rw [← show session.site.definitions.home = homeShelf by rw [h.definitions]; rfl] at hshelved
  refine ⟨⟨?_, ?_, ?_, ?_, ?_, ?_, ?_⟩, hgrows⟩
  · change (session.site.created machine).site.definitions = _
    rw [Site.site_created]
    exact h.definitions
  · intro id other hother
    rcases List.mem_append.mp hother with hmem | hmem
    · exact h.valid id other hmem
    · obtain ⟨_, rfl⟩ := Prod.mk.inj (List.mem_singleton.mp hmem)
      exact hvalid
  · have hnew := @Site.holdsOnly_created session.site machine _
      (fun machine' => ∃ id, (id, machine') ∈ (session.opened machine).created) hshelved ?_ ?_
    · rw [h.definitions] at hnew
      exact hnew
    · rintro found ⟨id, hmem⟩
      exact ⟨id, hgrows.created _ hmem⟩
    · exact ⟨_, (h.follows_opened machine).created⟩
  · intro id record hrecord
    change (session.site.created machine).site.table.get? id = some record at hrecord
    rw [Site.table_created] at hrecord
    split at hrecord
    · rw [Dict.get?_insert] at hrecord
      split at hrecord
      · rename_i heq
        obtain rfl := Option.some.inj hrecord
        rw [heq, ← Site.executionId_created]
        exact ⟨machine, _, h.follows_opened machine⟩
      · exact h.follows_of_grows hgrows hrecord
    · exact h.follows_of_grows hgrows hrecord
  · intro other hother
    rcases List.mem_append.mp hother with hmem | hmem
    · exact (h.executors other hmem).grows hgrows
    · rw [List.mem_singleton.mp hmem]
      exact h.carries_opened machine
  · intro context hcontext
    exact (h.exports context hcontext).grows hgrows
  · intro task htask
    change task ∈ (session.site.created machine).site.queue.pending at htask
    rw [Site.site_created] at htask
    exact (h.queue task htask).grows hgrows

end Steps

end Workflow.Session
