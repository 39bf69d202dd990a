import Workflow.Proofs.Office.Basic

/-!
# What holds at every office

Every executor at a desk is kept as the site keeps executions and follows a machine that the site knows,
and every context that is around is one that such an executor exports. A visit keeps this, and leaves
alone all that belongs to another execution.
-/

namespace Workflow

namespace Site

/-- Whether the site has the machine that a record follows. -/
def Knows (site : Site) (definitionId : Option String) : Prop :=
  ∃ id machine, definitionId = some id ∧ site.library.find? homeShelf id = some machine

/-- An executor of an execution whose machine the site has. -/
structure Employs (site : Site) (id : String) (executor : Executor) : Prop where
  executionId : executor.executionId = id
  kept : executor.execution.held.isNone = site.central
  known : ∀ record, executor.execution.held = some record → site.Knows record.definitionId

/-- A context that an executor of an execution exports, or could have exported once. -/
def Issues (site : Site) (id : String) (context : Context) : Prop :=
  ∃ executor, site.Employs id executor ∧ context = executor.exported (.plain homeShelf)

/-- What a site never takes back. -/
structure Grows (before after : Site) : Prop where
  central : after.central = before.central
  library : before.library.Extends after.library

variable {before after : Site} {id : String} {definitionId : Option String} {executor : Executor}
  {context : Context}

theorem Grows.trans {middle : Site} (hfirst : before.Grows middle) (hsecond : middle.Grows after) :
    before.Grows after :=
  ⟨hsecond.central.trans hfirst.central,
    fun _ _ _ hfind => hsecond.library _ _ _ (hfirst.library _ _ _ hfind)⟩

/-- How hand-offs are answered has no part in what a site keeps. -/
theorem grows_facing (site : Site) (rejection : Option String) :
    site.Grows { site with rejection } :=
  ⟨rfl, fun _ _ _ hfind => hfind⟩

theorem Grows.of_confined {stage later : Stage} (h : stage.Confined later)
    (hfront : stage.site.definitions.front = none) : stage.site.Grows later.site := by
  refine ⟨h.central, ?_⟩
  rw [h.library hfront]
  exact fun _ _ _ hfind => hfind

theorem Knows.ne_none (h : before.Knows definitionId) : definitionId ≠ none := by
  obtain ⟨digest, machine, hdigest, _⟩ := h
  rw [hdigest]
  exact Option.some_ne_none digest

theorem Knows.grows (h : before.Knows definitionId) (hgrows : before.Grows after) :
    after.Knows definitionId := by
  obtain ⟨digest, machine, hdigest, hfind⟩ := h
  exact ⟨digest, machine, hdigest, hgrows.library _ _ _ hfind⟩

theorem Employs.grows (h : before.Employs id executor) (hgrows : before.Grows after) :
    after.Employs id executor :=
  { executionId := h.executionId
    kept := h.kept.trans hgrows.central.symm
    known := fun record hheld => (h.known record hheld).grows hgrows }

/-- Whoever has the execution of an executor and follows its machine is as good as that executor. -/
theorem Employs.of_defined (h : before.Employs id executor) {found : Executor}
    (hid : found.executionId = executor.executionId)
    (hdefined : found.execution.held.map (·.definitionId) =
      executor.execution.held.map (·.definitionId)) : before.Employs id found := by
  refine ⟨hid.trans h.executionId, ?_, ?_⟩
  · have hisNone := congrArg Option.isNone hdefined
    rw [Option.isNone_map, Option.isNone_map] at hisNone
    exact hisNone.trans h.kept
  · intro record hheld
    rw [hheld, Option.map_some] at hdefined
    obtain ⟨earlier, hearlier, hsame⟩ := Option.map_eq_some_iff.mp hdefined.symm
    rw [← hsame]
    exact h.known earlier hearlier

theorem Employs.renamed (h : before.Employs id executor) (executorId : String) :
    before.Employs id { executor with executorId } :=
  ⟨h.executionId, h.kept, h.known⟩

theorem Issues.grows (h : before.Issues id context) (hgrows : before.Grows after) :
    after.Issues id context := by
  obtain ⟨executor, hemploys, hcontext⟩ := h
  exact ⟨executor, hemploys.grows hgrows, hcontext⟩

/-- The context of a task tells which execution it belongs to. -/
theorem owner?_of_exported {task : QueuedTask} {store : DefinitionStore}
    (hcontext : task.context = executor.exported store) :
    task.owner? = some executor.executionId := by
  unfold QueuedTask.owner?
  rw [hcontext, Executor.slice_exported_own, Executor.readOwnSlice_ownSlice]
  rfl

/-- Whoever takes over from an executor of the site is that executor under another identifier. -/
theorem hydrateAs_of_employs (hdefinitions : before.definitions = .plain homeShelf)
    (h : before.Employs id executor) (executorId : String) :
    Executor.hydrateAs executorId (executor.exported (.plain homeShelf)) before =
      .ok { executor with executorId } before := by
  have hlocation : { before.definitions with
      location := (DefinitionStore.plain homeShelf).location } = before.definitions := by
    rw [hdefinitions]
  have hannouncement : before.definitions.announcement = none := by
    rw [hdefinitions]
    rfl
  rw [Executor.hydrateAs_exported rfl hannouncement h.kept
    (fun record hheld => (h.known record hheld).ne_none) executorId, hlocation]

section Opening

variable (site : Site) (id executorId : String) (machine : Machine)

theorem grows_opening : site.Grows (site.opening id executorId machine).site := by
  rw [site_opening]
  exact ⟨rfl, Library.extends_insertIfAbsent _ _ _ _⟩

theorem knows_opening (hdefinitions : site.definitions = .plain homeShelf) :
    (site.opening id executorId machine).site.Knows (some machine.contentHash) := by
  have hfind : (site.shelving machine).library.find? homeShelf machine.contentHash =
      some ((site.library.find? homeShelf machine.contentHash).getD machine) := by
    rw [shelving, hdefinitions]
    exact (Library.find?_insertIfAbsent _ _ _ _ _ _).trans (if_pos ⟨rfl, rfl⟩)
  rw [site_opening]
  exact ⟨machine.contentHash, _, rfl, hfind⟩

theorem get?_table_opening (other : String) :
    (site.opening id executorId machine).site.table.get? other =
      if site.central ∧ other = id then some (.following machine.contentHash)
      else site.table.get? other := by
  rw [table_opening]
  cases site.central with
  | true =>
      rw [if_pos rfl, Dict.get?_insert]
      simp only [true_and]
  | false =>
      rw [if_neg Bool.false_ne_true]
      simp only [Bool.false_eq_true, false_and, if_false]

theorem employs_opening (hdefinitions : site.definitions = .plain homeShelf) :
    (site.opening id executorId machine).site.Employs id
      (site.opening id executorId machine).executor := by
  have hknows := site.knows_opening id executorId machine hdefinitions
  rw [executor_opening]
  refine ⟨rfl, ?_, ?_⟩
  · rw [(site.grows_opening id executorId machine).central]
    cases site.central <;> rfl
  · intro record hheld
    cases hcentral : site.central with
    | true =>
        rw [hcentral] at hheld
        cases hheld
    | false =>
        rw [hcentral] at hheld
        cases hheld
        exact hknows

end Opening

end Site

namespace Office

structure Sound (office : Office) : Prop where
  definitions : office.site.definitions = .plain homeShelf
  table : ∀ id record, office.site.table.get? id = some record →
    office.site.Knows record.definitionId
  executors : ∀ id, ∀ executor ∈ (office.desk id).executors, office.site.Employs id executor
  exports : ∀ id, ∀ context ∈ (office.desk id).exports, office.site.Issues id context
  queue : ∀ task ∈ office.site.queue.pending, ∃ id, office.site.Issues id task.context

/-- All that belongs to an execution is the same. -/
structure SameFor (id : String) (before after : Office) : Prop where
  desk : after.desk id = before.desk id
  record : after.site.table.get? id = before.site.table.get? id
  tasks : after.tasksOf id = before.tasksOf id
  lines : after.linesOf id = before.linesOf id

variable {office : Office} {id other : String}

theorem SameFor.refl (id : String) (office : Office) : SameFor id office office :=
  ⟨rfl, rfl, rfl, rfl⟩

theorem SameFor.trans {before middle after : Office} (hfirst : SameFor id before middle)
    (hsecond : SameFor id middle after) : SameFor id before after :=
  { desk := hsecond.desk.trans hfirst.desk
    record := hsecond.record.trans hfirst.record
    tasks := hsecond.tasks.trans hfirst.tasks
    lines := hsecond.lines.trans hfirst.lines }

theorem SameFor.context?_eq {before after : Office} (h : SameFor id before after) (source : Source) :
    after.context? id source = before.context? id source := by
  cases source with
  | exported index =>
      change (after.desk id).exports[index]? = _
      rw [h.desk]
      rfl
  | queued index =>
      change (after.tasksOf id)[index]?.map _ = _
      rw [h.tasks]
      rfl

theorem sound_start (central : Bool) : (start central).Sound :=
  { definitions := rfl
    table := fun _ _ hrecord => nomatch hrecord
    executors := fun _ => List.forall_mem_nil _
    exports := fun _ => List.forall_mem_nil _
    queue := List.forall_mem_nil _ }

theorem Sound.isLocal (h : office.Sound) : office.site.IsLocal := by
  have hdefinitions := h.definitions
  exact ⟨congrArg DefinitionStore.front hdefinitions,
    congrArg DefinitionStore.announcement hdefinitions⟩

/-- The contexts that an execution can be taken over from are its own. -/
theorem Sound.issues_of_source (h : office.Sound) {source : Source} {context : Context}
    (hcontext : office.context? id source = some context) : office.site.Issues id context := by
  cases source with
  | exported index => exact h.exports id context (List.mem_of_getElem? hcontext)
  | queued index =>
      obtain ⟨task, htask, rfl⟩ := Option.map_eq_some_iff.mp hcontext
      obtain ⟨hmem, howner⟩ := List.mem_filter.mp (List.mem_of_getElem? htask)
      obtain ⟨owner, executor, hemploys, hexported⟩ := h.queue task hmem
      have hid : some executor.executionId = some id := by
        rw [← Site.owner?_of_exported hexported]
        exact beq_iff_eq.mp howner
      obtain rfl : owner = id := hemploys.executionId.symm.trans (Option.some.inj hid)
      exact ⟨executor, hemploys, hexported⟩

/-- The machine that an executor follows is there, wherever its record is kept. -/
theorem Sound.knows_of_record (h : office.Sound) {stage : Stage}
    (hsame : stage.site.table = office.site.table)
    (hemploys : office.site.Employs id stage.executor) {record : ExecutionRecord}
    (hrecord : stage.handle.record = .ok record) : office.site.Knows record.definitionId := by
  cases hheld : stage.executor.execution.held with
  | some held =>
      obtain rfl := Except.ok.inj ((stage.record_of_held hheld).symm.trans hrecord)
      exact hemploys.known held hheld
  | none =>
      cases htable : stage.site.table.get? stage.executor.executionId with
      | none => cases (Handle.record_of_untabled hheld htable).symm.trans hrecord
      | some found =>
          obtain rfl := Except.ok.inj ((Handle.record_of_tabled hheld htable).symm.trans hrecord)
          exact h.table _ found (hsame ▸ htable)

section Seat

variable {executor : Executor} {site : Site}

theorem Sound.seat (h : office.Sound) (hdefinitions : site.definitions = office.site.definitions)
    (hqueue : site.queue = office.site.queue) (hgrows : office.site.Grows site)
    (htable : ∀ id record, site.table.get? id = some record → site.Knows record.definitionId)
    (hemploys : site.Employs id executor) : (office.seat id executor site).Sound := by
  refine
    { definitions := hdefinitions.trans h.definitions
      table := htable
      executors := ?executors
      exports := ?exports
      queue := ?queue }
  case executors =>
    intro other found hfound
    change site.Employs other found
    by_cases hid : other = id
    · subst hid
      rw [desk_seat_self] at hfound
      rcases List.mem_append.mp hfound with hfound | hfound
      · exact (h.executors other found hfound).grows hgrows
      · rw [List.mem_singleton.mp hfound]
        exact hemploys
    · rw [desk_seat_of_ne _ _ _ hid] at hfound
      exact (h.executors other found hfound).grows hgrows
  case exports =>
    intro other context hcontext
    have hsame : ((office.seat id executor site).desk other).exports =
        (office.desk other).exports := by
      by_cases hid : other = id
      · subst hid
        rw [desk_seat_self]
      · rw [desk_seat_of_ne _ _ _ hid]
    rw [hsame] at hcontext
    exact (h.exports other context hcontext).grows hgrows
  case queue =>
    intro task htask
    obtain ⟨owner, hissues⟩ := h.queue task (hqueue ▸ htask)
    exact ⟨owner, hissues.grows hgrows⟩

theorem sameFor_seat (hne : other ≠ id) (hlog : site.log = office.site.log)
    (hqueue : site.queue = office.site.queue)
    (hrecord : site.table.get? other = office.site.table.get? other) :
    SameFor other office (office.seat id executor site) := by
  refine ⟨desk_seat_of_ne _ _ _ hne, hrecord, ?_, ?_⟩
  · change site.queue.pending.filter _ = office.site.queue.pending.filter _
    rw [hqueue]
  · change linesFor other site.log = linesFor other office.site.log
    rw [hlog]

end Seat

section Heard

variable {executor : Executor} {slot : Nat} {rejection : Option String} {after : Stage}
  {answer : Except ExecutorError Reply}

theorem Sound.heard (h : office.Sound) (hslot : (office.desk id).executors[slot]? = some executor)
    (hconfined : (Stage.facing { executor, site := office.site } rejection).Confined after)
    (hexported : ∀ context ∈ exportedBy answer, context = executor.exported (.plain homeShelf)) :
    (office.heard id slot answer after).Sound := by
  have hemployed := h.executors id executor (List.mem_of_getElem? hslot)
  have hdefinitions : after.site.definitions = .plain homeShelf :=
    hconfined.definitions.trans h.definitions
  have hgrows : office.site.Grows after.site :=
    (office.site.grows_facing rejection).trans (.of_confined hconfined h.isLocal.front)
  refine
    { definitions := hdefinitions
      table := ?table
      executors := ?executors
      exports := ?exports
      queue := ?queue }
  case table =>
    intro other record hrecord
    obtain ⟨earlier, hearlier, hid⟩ := hconfined.exists_tabled hrecord
    rw [← hid]
    exact (h.table other earlier hearlier).grows hgrows
  case executors =>
    intro other found hfound
    change after.site.Employs other found
    by_cases hother : other = id
    · subst hother
      rw [desk_heard_self] at hfound
      rcases List.mem_or_eq_of_mem_set hfound with hfound | rfl
      · exact (h.executors other found hfound).grows hgrows
      · exact (hemployed.of_defined hconfined.executionId hconfined.defined).grows hgrows
    · rw [desk_heard_of_ne _ _ _ _ hother] at hfound
      exact (h.executors other found hfound).grows hgrows
  case exports =>
    intro other context hcontext
    change after.site.Issues other context
    by_cases hother : other = id
    · subst hother
      rw [desk_heard_self] at hcontext
      rcases List.mem_append.mp hcontext with hcontext | hcontext
      · exact (h.exports other context hcontext).grows hgrows
      · exact ⟨executor, hemployed.grows hgrows, hexported context hcontext⟩
    · rw [desk_heard_of_ne _ _ _ _ hother] at hcontext
      exact (h.exports other context hcontext).grows hgrows
  case queue =>
    intro task htask
    obtain ⟨tasks, hpending, htasks⟩ := hconfined.queue
    have htask : task ∈ office.site.queue.pending ++ tasks := hpending ▸ htask
    rcases List.mem_append.mp htask with htask | htask
    · obtain ⟨owner, hissues⟩ := h.queue task htask
      exact ⟨owner, hissues.grows hgrows⟩
    · obtain ⟨found, hid, hdefined, hcontext⟩ := htasks task htask
      refine ⟨id, found, (hemployed.of_defined hid hdefined).grows hgrows, ?_⟩
      rw [hcontext]
      exact congrArg found.exported h.definitions

theorem sameFor_heard (hne : other ≠ executor.executionId) (hid : id = executor.executionId)
    (hconfined : (Stage.facing { executor, site := office.site } rejection).Confined after) :
    SameFor other office (office.heard id slot answer after) := by
  obtain ⟨tasks, hpending, htasks⟩ := hconfined.queue
  obtain ⟨lines, hlog, hlines⟩ := hconfined.log
  have hnone : tasks.filter (·.owner? == some other) = [] := by
    rw [List.filter_eq_nil_iff]
    intro task htask howner
    obtain ⟨found, hfound, _, hcontext⟩ := htasks task htask
    rw [Site.owner?_of_exported hcontext, hfound] at howner
    exact hne (Option.some.inj (beq_iff_eq.mp howner)).symm
  have hsilent : linesFor other lines = [] := by
    unfold linesFor
    rw [List.filter_eq_nil_iff]
    intro line hline hown
    exact hne ((beq_iff_eq.mp hown).symm.trans (hlines line hline).1)
  refine ⟨desk_heard_of_ne _ _ _ _ (hid ▸ hne), hconfined.others other hne, ?_, ?_⟩
  · change after.site.queue.pending.filter _ = _
    rw [hpending, List.filter_append, hnone, List.append_nil]
    rfl
  · change linesFor other after.site.log = _
    unfold linesFor at hsilent ⊢
    rw [hlog, List.filter_append, hsilent, List.append_nil]
    rfl

end Heard

section Visits

variable {executor : Executor} {slot : Nat} {rejection : Option String} {executorId : String}

theorem step_create (h : office.Sound) (machine : Machine) :
    office.step ⟨id, rejection, .create executorId machine⟩ =
      (some (.ok (.opened id executorId)),
        office.seat id
          (Site.opening { office.site with rejection } id executorId machine).executor
          (Site.opening { office.site with rejection } id executorId machine).site) := by
  have hlocal : Site.IsLocal { office.site with rejection } := ⟨h.isLocal.front, h.isLocal.announcement⟩
  unfold step
  simp only [Site.createAs_apply hlocal, opened]
  rw [Site.executor_opening]
  rfl

theorem step_hydrate (h : office.Sound) (hemploys : office.site.Employs id executor) {source : Source}
    (hcontext : office.context? id source = some (executor.exported (.plain homeShelf))) :
    office.step ⟨id, rejection, .hydrate executorId source⟩ =
      (some (.ok (.opened id executorId)),
        office.seat id { executor with executorId } { office.site with rejection }) := by
  have hdefinitions : Site.definitions { office.site with rejection } = .plain homeShelf :=
    h.definitions
  have hhydrate := Site.hydrateAs_of_employs hdefinitions
    ⟨hemploys.executionId, hemploys.kept, hemploys.known⟩ executorId
  unfold step
  simp only [hcontext, hhydrate, opened]
  rw [show ({ executor with executorId } : Executor).executionId = id from hemploys.executionId]

theorem step_hydrate_of_absent {source : Source} (hcontext : office.context? id source = none) :
    office.step ⟨id, rejection, .hydrate executorId source⟩ = (none, office) := by
  unfold step
  simp only [hcontext]

theorem step_ask (hslot : (office.desk id).executors[slot]? = some executor) (request : Request) :
    office.step ⟨id, rejection, .ask slot request⟩ =
      (some (Stage.serve { executor, site := office.site } rejection request).1,
        office.heard id slot (Stage.serve { executor, site := office.site } rejection request).1
          (Stage.serve { executor, site := office.site } rejection request).2) := by
  unfold step
  simp only [hslot]

theorem step_ask_of_absent (hslot : (office.desk id).executors[slot]? = none) (request : Request) :
    office.step ⟨id, rejection, .ask slot request⟩ = (none, office) := by
  unfold step
  simp only [hslot]

end Visits

/-- All that a visit to an office can come to. -/
inductive Goes (office : Office) : Visit → Office → Prop where
  | idle {visit : Visit} (hmachine : visit.machine? = none) : Goes office visit office
  | create {id : String} {rejection : Option String} {executorId : String} {machine : Machine} :
    Goes office ⟨id, rejection, .create executorId machine⟩
      (office.seat id (Site.opening { office.site with rejection } id executorId machine).executor
        (Site.opening { office.site with rejection } id executorId machine).site)
  | hydrate {id : String} {rejection : Option String} {executorId : String} {source : Source}
    {executor : Executor} (hemploys : office.site.Employs id executor) :
    Goes office ⟨id, rejection, .hydrate executorId source⟩
      (office.seat id { executor with executorId } { office.site with rejection })
  | ask {id : String} {rejection : Option String} {slot : Nat} {request : Request}
    {executor : Executor} {answer : Except ExecutorError Reply} {after : Stage}
    (hslot : (office.desk id).executors[slot]? = some executor)
    (hemploys : office.site.Employs id executor)
    (hconfined : (Stage.facing { executor, site := office.site } rejection).Confined after)
    (hexported : ∀ context ∈ exportedBy answer, context = executor.exported (.plain homeShelf)) :
    Goes office ⟨id, rejection, .ask slot request⟩ (office.heard id slot answer after)

theorem Sound.goes (h : office.Sound) (visit : Visit) : office.Goes visit (office.step visit).2 := by
  obtain ⟨id, rejection, deed⟩ := visit
  cases deed with
  | create executorId machine =>
      rw [step_create h]
      exact .create
  | hydrate executorId source =>
      cases hcontext : office.context? id source with
      | none =>
          rw [step_hydrate_of_absent hcontext]
          exact .idle rfl
      | some context =>
          obtain ⟨executor, hemploys, rfl⟩ := h.issues_of_source hcontext
          rw [step_hydrate h hemploys hcontext]
          exact .hydrate hemploys
  | ask slot request =>
      cases hslot : (office.desk id).executors[slot]? with
      | none =>
          rw [step_ask_of_absent hslot]
          exact .idle rfl
      | some executor =>
          let stage : Stage := { executor, site := office.site }
          have hannouncement : stage.site.definitions.announcement = none := h.isLocal.announcement
          rw [step_ask hslot]
          refine .ask hslot (h.executors id executor (List.mem_of_getElem? hslot))
            (Stage.confined_serve hannouncement rejection request) ?_
          intro context hcontext
          rw [Stage.context_of_serve hannouncement (mem_exportedBy.mp hcontext)]
          exact congrArg executor.exported h.definitions

section Visits

variable {next : Office} {visit : Visit}

theorem Sound.opened (h : office.Sound) (id : String) (rejection : Option String) (executorId : String)
    (machine : Machine) :
    (office.seat id (Site.opening { office.site with rejection } id executorId machine).executor
      (Site.opening { office.site with rejection } id executorId machine).site).Sound := by
  let site : Site := { office.site with rejection }
  have hdefinitions : site.definitions = .plain homeShelf := h.definitions
  have hgrows : office.site.Grows (site.opening id executorId machine).site :=
    (office.site.grows_facing rejection).trans (site.grows_opening id executorId machine)
  have hsite := site.site_opening id executorId machine
  apply h.seat
  · rw [hsite]
    rfl
  · rw [hsite]
    rfl
  · exact hgrows
  · intro other record hrecord
    rw [site.get?_table_opening] at hrecord
    split at hrecord
    · cases hrecord
      exact site.knows_opening id executorId machine hdefinitions
    · exact (h.table other record hrecord).grows hgrows
  · exact site.employs_opening id executorId machine hdefinitions

theorem Goes.sound (hgoes : office.Goes visit next) (h : office.Sound) : next.Sound := by
  cases hgoes with
  | idle _ => exact h
  | create => exact h.opened _ _ _ _
  | @hydrate id rejection executorId source executor hemploys =>
      have hgrows := office.site.grows_facing rejection
      exact h.seat rfl rfl hgrows h.table ((hemploys.renamed executorId).grows hgrows)
  | ask hslot _ hconfined hexported => exact h.heard hslot hconfined hexported

theorem Sound.step (h : office.Sound) (visit : Visit) : (office.step visit).2.Sound :=
  (h.goes visit).sound h

theorem Sound.run (h : office.Sound) (visits : List Visit) : (office.run visits).2.Sound := by
  induction visits generalizing office with
  | nil => exact h
  | cons visit rest ih => exact ih (h.step visit)

/-- A visit brings a machine to the site, if any, and moves no execution to another place. -/
theorem Goes.library (hgoes : office.Goes visit next) (h : office.Sound) :
    next.site.central = office.site.central ∧
      next.site.library =
        visit.machine?.elim office.site.library fun machine =>
          office.site.library.insertIfAbsent homeShelf machine.contentHash machine := by
  cases hgoes with
  | idle hmachine =>
      rw [hmachine]
      exact ⟨rfl, rfl⟩
  | @create id rejection executorId machine =>
      let site : Site := { office.site with rejection }
      change (site.opening id executorId machine).site.central = _ ∧
        (site.opening id executorId machine).site.library = _
      rw [site.site_opening]
      exact ⟨rfl, congrArg (office.site.library.insertIfAbsent · _ _)
        (congrArg DefinitionStore.home h.definitions)⟩
  | hydrate _ => exact ⟨rfl, rfl⟩
  | ask _ _ hconfined _ => exact ⟨hconfined.central, hconfined.library h.isLocal.front⟩

theorem Sound.library_step (h : office.Sound) (visit : Visit) :
    (office.step visit).2.site.central = office.site.central ∧
      (office.step visit).2.site.library =
        visit.machine?.elim office.site.library fun machine =>
          office.site.library.insertIfAbsent homeShelf machine.contentHash machine :=
  (h.goes visit).library h

theorem Sound.grows_step (h : office.Sound) (visit : Visit) :
    office.site.Grows (office.step visit).2.site := by
  obtain ⟨hcentral, hlibrary⟩ := h.library_step visit
  refine ⟨hcentral, ?_⟩
  rw [hlibrary]
  cases visit.machine? with
  | none => exact fun _ _ _ hfind => hfind
  | some machine => exact Library.extends_insertIfAbsent _ _ _ _

/-- Where executions are kept never changes. -/
theorem Sound.central_run (h : office.Sound) (visits : List Visit) :
    (office.run visits).2.site.central = office.site.central := by
  induction visits generalizing office with
  | nil => rfl
  | cons visit rest ih => exact (ih (h.step visit)).trans (h.grows_step visit).central

theorem Sound.holds_step (h : office.Sound) {known : Machine → Prop}
    (hholds : office.site.library.HoldsOnly homeShelf known) {visit : Visit}
    (hnew : ∀ machine, visit.machine? = some machine → known machine) :
    (office.step visit).2.site.library.HoldsOnly homeShelf known := by
  rw [(h.library_step visit).2]
  cases hmachine : visit.machine? with
  | none => exact hholds
  | some machine => exact hholds.insertIfAbsent (fun _ hknown => hknown) (hnew machine hmachine)

/-- A visit leaves alone what belongs to another execution. -/
theorem Goes.sameFor (hgoes : office.Goes visit next) (hne : id ≠ visit.execution) :
    SameFor id office next := by
  cases hgoes with
  | idle _ => exact .refl id office
  | @create execution rejection executorId machine =>
      let site : Site := { office.site with rejection }
      have hsite := site.site_opening execution executorId machine
      apply sameFor_seat hne
      · rw [hsite]
        rfl
      · rw [hsite]
        rfl
      · rw [site.get?_table_opening, if_neg fun hboth => hne hboth.2]
  | hydrate _ => exact sameFor_seat hne rfl rfl rfl
  | ask _ hemploys hconfined _ =>
      exact sameFor_heard (hemploys.executionId ▸ hne) hemploys.executionId.symm hconfined

theorem Sound.sameFor_step (h : office.Sound) {visit : Visit} (hne : id ≠ visit.execution) :
    SameFor id office (office.step visit).2 :=
  (h.goes visit).sameFor hne

end Visits

end Office

end Workflow
