import Workflow.Proofs.Executor.Journal
import Workflow.Proofs.Session.Linear

/-!
# The two ways to keep executions

The same calls are made at two sites, one of which has the executions carried in their contexts and
the other keeps them in its table. As long as they are handed over linearly, the record that the last
executor of an execution holds on the one side is the record in the table on the other, and nothing
else differs.
-/

namespace Workflow

/-- The executor as it is where executions are kept in a table. -/
def Executor.tabled (executor : Executor) : Executor :=
  { executor with execution.held := none }

/-- Two contexts that differ in the execution's entries at the most, of which the second has none. -/
structure Context.AgreesOutside (held tabled : Context) : Prop where
  outside : ∀ key, localKey? Execution.spaceName key = none → tabled.get? key = held.get? key
  inside : ∀ key, localKey? Execution.spaceName key ≠ none → tabled.get? key = none

/-- Two contexts of an executor, the second from where executions are kept in a table. -/
def Context.Twins (left right : Context) : Prop :=
  ∃ executor : Executor, left = executor.exported (.plain homeShelf) ∧
    right = executor.tabled.exported (.plain homeShelf)

theorem Context.Twins.agreesOutside {left right : Context} (h : left.Twins right) :
    left.AgreesOutside right := by
  obtain ⟨executor, rfl, rfl⟩ := h
  refine ⟨?_, ?_⟩
  · intro key hkey
    unfold Executor.exported
    simp only [get?_joined, hkey, Option.bind_none, Option.none_or]
    rfl
  · intro key hkey
    obtain ⟨own, hown⟩ := Option.ne_none_iff_exists'.mp hkey
    obtain rfl := localKey?_eq_some_iff.mp hown
    have hother : ∀ name, isNamespace name = true → Execution.spaceName ≠ name →
        localKey? name (namespacedKey Execution.spaceName own) = none := by
      intro name hname hne
      exact localKey?_namespacedKey_of_ne rfl hname hne own
    unfold Executor.exported
    simp only [get?_joined, hother Logger.spaceName rfl (by decide),
      hother "definitions" rfl (by decide), hother Executor.spaceName rfl (by decide),
      localKey?_namespacedKey]
    rfl

/-- Two tasks of the same work. -/
structure QueuedTask.Twins (left right : QueuedTask) : Prop where
  resource : right.resource = left.resource
  input : right.input = left.input
  context : left.context.Twins right.context

namespace Session

/-- A source at which both sides have the context of an executor. Its record is in the table of the
side that keeps executions there. -/
structure Offers (left right : Session) (source : Source) (executor : Executor)
    (record : ExecutionRecord) : Prop where
  carries : left.Carries executor
  held : executor.execution.held = some record
  recorded : right.site.table.get? executor.executionId = some record
  known : executor.executionId ∈ left.ids
  left : left.context? source = some (executor.exported (.plain homeShelf))
  right : right.context? source = some (executor.tabled.exported (.plain homeShelf))

structure Twins (recent : Recent) (left right : Session) : Prop where
  sound : left.Sound
  carried : left.site.central = false
  site : right.site =
    { left.site with
      central := true
      table := right.site.table
      queue := right.site.queue }
  executors : right.executors = left.executors.map Executor.tabled
  exports : List.Forall₂ Context.Twins left.exports right.exports
  queue : List.Forall₂ QueuedTask.Twins left.site.queue.pending right.site.queue.pending
  newest : ∀ slot executor record, left.IsNewest slot → left.executors[slot]? = some executor →
    executor.execution.held = some record →
    right.site.table.get? executor.executionId = some record
  recent : ∀ source id, (source, id) ∈ recent →
    ∃ executor record, left.Offers right source executor record ∧ executor.executionId = id

theorem context?_of_prefix {before after : Session} {source : Source} {context : Context}
    (hexports : before.exports <+: after.exports)
    (hqueue : before.site.queue.pending <+: after.site.queue.pending)
    (h : before.context? source = some context) : after.context? source = some context := by
  cases source with
  | exported index =>
      obtain ⟨later, hlater⟩ := hexports
      change after.exports[index]? = some context
      rw [← hlater, List.getElem?_append_left (List.getElem?_eq_some_iff.mp h).1]
      exact h
  | queued index =>
      obtain ⟨task, htask, rfl⟩ := Option.map_eq_some_iff.mp h
      obtain ⟨later, hlater⟩ := hqueue
      change after.site.queue.pending[index]?.map (·.context) = _
      rw [← hlater, List.getElem?_append_left (List.getElem?_eq_some_iff.mp htask).1, htask]
      rfl

theorem Offers.keep {left right left' right' : Session} {source : Source} {executor : Executor}
    {record : ExecutionRecord} (h : left.Offers right source executor record)
    (hgrows : left.Grows left')
    (hrecorded : right'.site.table.get? executor.executionId =
      right.site.table.get? executor.executionId)
    (hids : left.ids ⊆ left'.ids)
    (hexports : left.exports <+: left'.exports ∧ right.exports <+: right'.exports)
    (hqueue : left.site.queue.pending <+: left'.site.queue.pending ∧
      right.site.queue.pending <+: right'.site.queue.pending) :
    left'.Offers right' source executor record :=
  { carries := h.carries.grows hgrows
    held := h.held
    recorded := hrecorded.trans h.recorded
    known := hids h.known
    left := context?_of_prefix hexports.1 hqueue.1 h.left
    right := context?_of_prefix hexports.2 hqueue.2 h.right }

theorem mem_superseded {session : Session} {recent : Recent} {slot : Nat} {answer : Answer}
    {executor : Executor} {source : Source} {id : String}
    (hslot : session.executors[slot]? = some executor)
    (h : (source, id) ∈ session.superseded recent slot answer) :
    ((source, id) ∈ recent ∧ id ≠ executor.executionId) ∨
    ((∃ state resource, answer = some (.ok (.outcome (.suspended state resource)))) ∧
      source = .queued session.site.queue.pending.length ∧ id = executor.executionId) := by
  have hothers : (source, id) ∈ recent.filter (·.2 ≠ executor.executionId) →
      (source, id) ∈ recent ∧ id ≠ executor.executionId := by
    intro hmem
    obtain ⟨hmem, hne⟩ := List.mem_filter.mp hmem
    exact ⟨hmem, of_decide_eq_true hne⟩
  unfold superseded at h
  simp only [getElem?_ids hslot] at h
  split at h
  · rcases List.mem_append.mp h with hmem | hmem
    · exact .inl (hothers hmem)
    · obtain ⟨hsource, hid⟩ := Prod.mk.inj (List.mem_singleton.mp hmem)
      exact .inr ⟨⟨_, _, rfl⟩, hsource, hid⟩
  · exact .inl (hothers h)

section Calls

variable {recent : Recent} {left right : Session} {slot : Nat} {executor : Executor}
  {record : ExecutionRecord} {machine : Machine} {progress : Progress} {after after' : Stage}

theorem Twins.stands (h : Twins recent left right)
    (hrecorded : right.site.table.get? executor.executionId = some record)
    (hstands : (left.stage executor).Stands record machine) :
    (right.stage executor.tabled).Stands record machine := by
  refine ⟨⟨?_, ?_⟩, ?_, ?_⟩
  · change right.site.definitions.front = none
    rw [h.site]
    exact hstands.isLocal.front
  · change right.site.definitions.announcement = none
    rw [h.site]
    exact hstands.isLocal.announcement
  · exact Handle.record_of_tabled rfl hrecorded
  · change ∃ id, _ ∧ right.site.library.find? right.site.definitions.home id = some machine
    rw [h.site]
    exact hstands.follows

/-- What an executor holds on the side that carries executions is its record. -/
theorem Twins.held_of_follows (h : Twins recent left right) {executor : Executor}
    (hcarries : left.Carries executor) (hstands : (left.stage executor).Stands record machine) :
    executor.execution.held = some record := by
  have hkept := hcarries.kept
  rw [h.carried] at hkept
  obtain ⟨held, hheld⟩ := Option.isSome_iff_exists.mp (Option.isNone_eq_false_iff.mp hkept)
  have hrecord : (left.stage executor).handle.record = .ok held := Handle.record_of_held hheld
  rw [hheld, Except.ok.inj (hrecord.symm.trans hstands.recorded)]

theorem tabled_of_reaches (hleft : (left.stage executor).Reaches record progress after)
    (hright : (right.stage executor.tabled).Reaches record progress after')
    (hjournal : after'.journal = after.journal) : after'.executor = after.executor.tabled := by
  apply Executor.ext_fields
  · exact hright.executionId.trans hleft.executionId.symm
  · exact hright.held
  · exact hright.executorId.trans hleft.executorId.symm
  · exact congrArg (fun journal => journal.logger.sequence) hjournal

theorem site_of_reaches (h : Twins recent left right)
    (hleft : (left.stage executor).Reaches record progress after)
    (hright : (right.stage executor.tabled).Reaches record progress after')
    (hjournal : after'.journal = after.journal) :
    after'.site =
      { after.site with
        central := true
        table := after'.site.table
        queue := after'.site.queue } := by
  have hlog : after'.site.log = after.site.log := congrArg Journal.lines hjournal
  have hbefore : (right.stage executor.tabled).site = _ := h.site
  rw [hright.site, hbefore, hleft.site, hlog]
  rfl

theorem queue_of_reaches (h : Twins recent left right)
    (hleft : (left.stage executor).Reaches record progress after)
    (hright : (right.stage executor.tabled).Reaches record progress after')
    (hexecutor : after'.executor = after.executor.tabled) :
    List.Forall₂ QueuedTask.Twins after.site.queue.pending after'.site.queue.pending := by
  have hrejection : right.site.rejection = left.site.rejection := by rw [h.site]
  have hdefinitions : right.site.definitions = .plain homeShelf := by
    rw [h.site]
    exact h.sound.definitions
  have hbefore := h.queue
  rw [hleft.queue, hright.queue]
  change List.Forall₂ QueuedTask.Twins
    (progress.queued left.site.rejection (after.executor.exported left.site.definitions)
      left.site.queue).pending
    (progress.queued right.site.rejection (after'.executor.exported right.site.definitions)
      right.site.queue).pending
  rw [hrejection, hdefinitions, h.sound.definitions, hexecutor]
  cases progress with
  | done result => exact hbefore
  | pending name resource payload =>
      cases left.site.rejection with
      | some reason => exact hbefore
      | none =>
          have htask : List.Forall₂ QueuedTask.Twins
              [{ resource, input := payload, context := after.executor.exported (.plain homeShelf) }]
              [{ resource
                 input := payload
                 context := after.executor.tabled.exported (.plain homeShelf) }] :=
            .cons ⟨rfl, rfl, after.executor, rfl, rfl⟩ .nil
          exact List.rel_append hbefore htask

/-- A call on the last executor of an execution, which takes the execution on at both sides. -/
structure Proceeds (left right : Session) (slot : Nat) (executor : Executor)
    (record : ExecutionRecord) (progress : Progress) (after after' : Stage) : Prop where
  newest : left.IsNewest slot
  slot : left.executors[slot]? = some executor
  held : executor.execution.held = some record
  left : (left.stage executor).Reaches record progress after
  right : (right.stage executor.tabled).Reaches record progress after'
  journal : after'.journal = after.journal

namespace Proceeds

theorem executionId_eq (h : left.Proceeds right slot executor record progress after after') :
    after.executor.executionId = executor.executionId :=
  h.left.executionId

theorem ids_eq (h : left.Proceeds right slot executor record progress after after') :
    (left.put slot after).ids = left.ids :=
  ids_put h.slot h.executionId_eq

theorem held_eq (h : left.Proceeds right slot executor record progress after after') :
    after.executor.execution.held = some (record.arrived progress) := by
  rw [h.left.held]
  change executor.execution.held.map _ = _
  rw [h.held, Option.map_some]

theorem get?_table (h : left.Proceeds right slot executor record progress after after')
    (id : String) :
    after'.site.table.get? id =
      if id = executor.executionId then some (record.arrived progress)
      else right.site.table.get? id := by
  rw [h.right.table, if_neg (by simp [stage, Executor.tabled])]
  exact Dict.get?_insert _ _ _ _

theorem queue_prefix (h : left.Proceeds right slot executor record progress after after') :
    left.site.queue.pending <+: after.site.queue.pending ∧
      right.site.queue.pending <+: after'.site.queue.pending := by
  rw [h.left.queue, h.right.queue]
  exact ⟨Progress.pending_prefix_queued _ _ _ _, Progress.pending_prefix_queued _ _ _ _⟩

end Proceeds

/-- The called executor holds the record that was written, and the last executors of the other
executions hold what they held. -/
theorem Twins.newest_put (h : Twins recent left right)
    (hproceeds : left.Proceeds right slot executor record progress after after') {called : Nat}
    {other : Executor} {found : ExecutionRecord} (hcalled : (left.put slot after).IsNewest called)
    (hother : (left.put slot after).executors[called]? = some other)
    (hfound : other.execution.held = some found) :
    after'.site.table.get? other.executionId = some found := by
  have hbefore : left.IsNewest called := by
    unfold IsNewest at hcalled ⊢
    rw [hproceeds.ids_eq] at hcalled
    exact hcalled
  have hslot := hproceeds.slot
  change (left.executors.set slot after.executor)[called]? = some other at hother
  rw [hproceeds.get?_table]
  by_cases heq : slot = called
  · subst heq
    rw [List.getElem?_set_self (List.getElem?_eq_some_iff.mp hslot).1] at hother
    obtain rfl := Option.some.inj hother
    rw [if_pos hproceeds.executionId_eq]
    exact hproceeds.held_eq.symm.trans hfound
  · rw [List.getElem?_set_ne heq] at hother
    have hne : other.executionId ≠ executor.executionId := by
      intro hsame
      have hotherId := getElem?_ids hother
      rw [hsame] at hotherId
      exact heq (hproceeds.newest.eq_of_getElem? hbefore (getElem?_ids hslot) hotherId)
    rw [if_neg hne]
    exact h.newest called other found hbefore hother hfound

theorem Twins.offers_kept (h : Twins recent left right)
    (hproceeds : left.Proceeds right slot executor record progress after after')
    (hgrows : left.Grows (left.put slot after)) {source : Source} {id : String}
    (hmem : (source, id) ∈ recent) (hne : id ≠ executor.executionId) :
    ∃ other found, (left.put slot after).Offers (right.put slot after') source other found ∧
      other.executionId = id := by
  obtain ⟨other, found, hoffers, hother⟩ := h.recent source id hmem
  obtain ⟨hleft, hright⟩ := hproceeds.queue_prefix
  refine ⟨other, found, hoffers.keep hgrows ?_ ?_ ⟨List.prefix_rfl, List.prefix_rfl⟩
    ⟨hleft, hright⟩, hother⟩
  · change after'.site.table.get? other.executionId = _
    rw [hproceeds.get?_table, if_neg (hother.trans_ne hne)]
  · rw [hproceeds.ids_eq]
    exact List.Subset.refl _

/-- The context of a task that was handed off is the last one in the queue. -/
theorem context?_of_handedOff {session : Session} {stage : Stage} {context : Context}
    {state resource : String} {payload : Json} (hopen : session.site.rejection = none)
    (hqueue : stage.site.queue =
      (Progress.pending state resource payload).queued session.site.rejection context
        session.site.queue) :
    (session.put slot stage).context? (.queued session.site.queue.pending.length) =
      some context := by
  change stage.site.queue.pending[session.site.queue.pending.length]?.map QueuedTask.context = _
  rw [hqueue, hopen]
  change (session.site.queue.pending ++ [_])[session.site.queue.pending.length]?.map _ = _
  rw [List.getElem?_append_right (Nat.le_refl _), Nat.sub_self]
  rfl

theorem Twins.offers_handedOff {state resource : String} {payload : Json}
    (h : Twins recent left right)
    (hproceeds : left.Proceeds right slot executor record (.pending state resource payload) after
      after')
    (hsound : (left.put slot after).Sound) (hopen : left.site.rejection = none) :
    (left.put slot after).Offers (right.put slot after')
      (.queued left.site.queue.pending.length) after.executor
      (record.arrived (.pending state resource payload)) := by
  have hslot := hproceeds.slot
  have hexecutor := tabled_of_reaches hproceeds.left hproceeds.right hproceeds.journal
  have hdefinitions : right.site.definitions = left.site.definitions := by rw [h.site]
  have hother : right.site.rejection = none := by
    rw [h.site]
    exact hopen
  refine ⟨?_, hproceeds.held_eq, ?_, ?_, ?_, ?_⟩
  · exact hsound.executors after.executor
      (List.mem_set (List.getElem?_eq_some_iff.mp hslot).1 after.executor)
  · change after'.site.table.get? after.executor.executionId = _
    rw [hproceeds.get?_table, if_pos hproceeds.executionId_eq]
  · rw [hproceeds.ids_eq, hproceeds.executionId_eq]
    exact List.mem_of_getElem? (getElem?_ids hslot)
  · rw [← h.sound.definitions]
    exact context?_of_handedOff hopen hproceeds.left.queue
  · rw [← h.sound.definitions, ← hdefinitions, ← hexecutor, h.queue.length_eq]
    exact context?_of_handedOff hother hproceeds.right.queue

theorem suspended_of_map {answer : Except ExecutorError Outcome} {state resource : String}
    (h : some (answer.map Reply.outcome) = some (.ok (.outcome (.suspended state resource)))) :
    answer = .ok (.suspended state resource) := by
  cases answer with
  | error error => cases h
  | ok outcome =>
      cases h
      rfl

theorem Twins.put (h : Twins recent left right) {source machine : Machine}
    (hfollows : left.Follows executor.executionId record source machine)
    (hresult : record.result = none) (hat : progress.IsAt machine)
    (hproceeds : left.Proceeds right slot executor record progress after after') :
    Twins
      (left.superseded recent slot (some ((progress.answer left.site.rejection).map .outcome)))
      (left.put slot after) (right.put slot after') := by
  obtain ⟨hsound, hgrows⟩ :=
    Sound.put_of_reaches hfollows hresult hat hproceeds.left h.sound hproceeds.slot
  have hexecutor := tabled_of_reaches hproceeds.left hproceeds.right hproceeds.journal
  refine ⟨hsound, hgrows.central.trans h.carried,
    site_of_reaches h hproceeds.left hproceeds.right hproceeds.journal, ?_, h.exports,
    queue_of_reaches h hproceeds.left hproceeds.right hexecutor, ?_, ?_⟩
  · change right.executors.set slot after'.executor =
      (left.executors.set slot after.executor).map Executor.tabled
    rw [List.map_set, h.executors, hexecutor]
  · intro called other found hcalled hother hfound
    exact h.newest_put hproceeds hcalled hother hfound
  -- A recent context is one of another execution, or the one that this call has queued.
  · intro given id hgiven
    rcases mem_superseded hproceeds.slot hgiven with ⟨hmem, hne⟩ | ⟨hsuspended, rfl, rfl⟩
    · exact h.offers_kept hproceeds hgrows hmem hne
    · obtain ⟨state, resource, hanswer⟩ := hsuspended
      obtain ⟨haccepting, payload, rfl⟩ :=
        Progress.pending_of_suspended (suspended_of_map hanswer)
      exact ⟨after.executor, _, h.offers_handedOff hproceeds hsound haccepting,
        hproceeds.executionId_eq⟩

end Calls

section Openings

variable {recent : Recent} {left right : Session} {executor : Executor} {site : Site}
  {record : ExecutionRecord}

theorem Twins.newest_given (h : Twins recent left right) {table : Dict ExecutionRecord}
    (hrecord : ∀ record, executor.execution.held = some record →
      table.get? executor.executionId = some record)
    (hothers : ∀ id, id ≠ executor.executionId → table.get? id = right.site.table.get? id)
    {slot : Nat} {other : Executor} (hnewest : (left.given executor site).IsNewest slot)
    (hother : (left.given executor site).executors[slot]? = some other)
    (hheld : other.execution.held = some record) :
    table.get? other.executionId = some record := by
  change (left.executors ++ [executor])[slot]? = some other at hother
  by_cases hlt : slot < left.executors.length
  · rw [List.getElem?_append_left hlt] at hother
    obtain ⟨hbefore, hne⟩ := hnewest.of_given (getElem?_ids hother)
    rw [hothers _ hne.symm]
    exact h.newest slot other record hbefore hother hheld
  · rw [List.getElem?_append_right (Nat.le_of_not_lt hlt)] at hother
    obtain rfl := List.mem_singleton.mp (List.mem_of_getElem? hother)
    exact hrecord record hheld

theorem Twins.given (h : Twins recent left right) {source : Source}
    (hoffers : left.Offers right source executor record) (executorId : String) (issued : Nat) :
    Twins recent (left.given { executor with executorId } { left.site with issued })
      (right.given { executor.tabled with executorId } { right.site with issued }) := by
  obtain ⟨hsound, hgrows⟩ := h.sound.given (hoffers.carries.renamed executorId) issued
  refine ⟨hsound, h.carried, ?_, ?_, h.exports, h.queue, ?_, ?_⟩
  · have hsite := h.site
    change { right.site with issued } = _
    rw [hsite]
    rfl
  · change right.executors ++ [_] = (left.executors ++ [_]).map Executor.tabled
    rw [List.map_append, h.executors]
    rfl
  · intro slot other found hnewest hother hheld
    refine h.newest_given ?_ (fun _ _ => rfl) hnewest hother hheld
    intro record' hrecord'
    obtain rfl := Option.some.inj (hoffers.held.symm.trans hrecord')
    exact hoffers.recorded
  · intro given id hgiven
    obtain ⟨other, found, hother, hid⟩ := h.recent given id hgiven
    refine ⟨other, found, hother.keep hgrows rfl ?_ ⟨List.prefix_rfl, List.prefix_rfl⟩
      ⟨List.prefix_rfl, List.prefix_rfl⟩, hid⟩
    rw [ids_given]
    exact List.subset_append_left _ _

section Opened

variable (h : Twins recent left right) (machine : Machine)

theorem queue_opened (session : Session) :
    (session.opened machine).site.queue = session.site.queue := by
  change (session.site.created machine).site.queue = _
  rw [Site.site_created]

include h

theorem Twins.held_created :
    (left.site.created machine).executor.execution.held =
      some (.following machine.contentHash) := by
  rw [Site.held_created, h.carried]
  rfl

theorem Twins.executor_created :
    (right.site.created machine).executor = (left.site.created machine).executor.tabled := by
  have hcentral : right.site.central = true := by rw [h.site]
  have hissued : right.site.issued = left.site.issued := by rw [h.site]
  apply Executor.ext_fields
  · rw [Site.executionId_created, hissued]
    exact (Site.executionId_created left.site machine).symm
  · rw [Site.held_created, hcentral]
    rfl
  · rw [Site.executorId_created, hissued]
    exact (Site.executorId_created left.site machine).symm
  · rw [Site.sequence_created]
    exact (Site.sequence_created left.site machine).symm

theorem Twins.site_created :
    (right.site.created machine).site =
      { (left.site.created machine).site with
        central := true
        table := (right.site.created machine).site.table
        queue := (right.site.created machine).site.queue } := by
  have hsite := h.site
  rw [Site.site_created, Site.site_created left.site]
  unfold Site.shelving
  simp only
  rw [hsite]

theorem Twins.table_created :
    (right.site.created machine).site.table =
      right.site.table.insert (left.site.created machine).executor.executionId
        (.following machine.contentHash) := by
  have hcentral : right.site.central = true := by rw [h.site]
  have hissued : right.site.issued = left.site.issued := by rw [h.site]
  rw [Site.table_created, if_pos hcentral, hissued, Site.executionId_created]

variable {machine}

theorem Twins.opened (hvalid : machine.violations = [])
    (hfresh : Identifier.spell left.site.issued ∉ left.ids) :
    Twins recent (left.opened machine) (right.opened machine) := by
  obtain ⟨hsound, hgrows⟩ := h.sound.opened hvalid
  have hothers : ∀ id, id ≠ (left.site.created machine).executor.executionId →
      (right.site.created machine).site.table.get? id = right.site.table.get? id := by
    intro id hne
    rw [h.table_created, Dict.get?_insert_of_ne hne]
  refine ⟨hsound, hgrows.central.trans h.carried, h.site_created machine, ?_, h.exports, ?_, ?_, ?_⟩
  · change right.executors ++ [_] = (left.executors ++ [_]).map Executor.tabled
    rw [List.map_append, h.executors, h.executor_created]
    rfl
  · rw [queue_opened, queue_opened]
    exact h.queue
  · intro slot other found hnewest hother hfound
    change (left.given (left.site.created machine).executor
      (left.site.created machine).site).IsNewest slot at hnewest
    refine h.newest_given ?_ hothers hnewest hother hfound
    intro record hrecord
    obtain rfl := Option.some.inj ((h.held_created machine).symm.trans hrecord)
    rw [h.table_created, Dict.get?_insert_self]
  · intro given id hgiven
    obtain ⟨other, found, hother, hotherId⟩ := h.recent given id hgiven
    refine ⟨other, found, hother.keep hgrows ?_ ?_ ⟨List.prefix_rfl, List.prefix_rfl⟩ ?_, hotherId⟩
    · apply hothers
      rw [Site.executionId_created]
      intro hsame
      rw [← hsame] at hfresh
      exact hfresh hother.known
    · change left.ids ⊆ (left.given (left.site.created machine).executor
        (left.site.created machine).site).ids
      rw [ids_given]
      exact List.subset_append_left _ _
    · rw [queue_opened, queue_opened]
      exact ⟨List.prefix_rfl, List.prefix_rfl⟩

end Opened

theorem Twins.exporting (h : Twins recent left right) {slot : Nat}
    (hnewest : left.IsNewest slot) (hslot : left.executors[slot]? = some executor)
    (hheld : executor.execution.held = some record) :
    Twins (recent ++ [(.exported left.exports.length, executor.executionId)])
      { left with exports := left.exports ++ [executor.exported (.plain homeShelf)] }
      { right with exports := right.exports ++ [executor.tabled.exported (.plain homeShelf)] } := by
  have hcarries := h.sound.executors executor (List.mem_of_getElem? hslot)
  obtain ⟨hsound, hgrows⟩ := h.sound.exporting hcarries
  have hpair : List.Forall₂ Context.Twins [executor.exported (.plain homeShelf)]
      [executor.tabled.exported (.plain homeShelf)] := .cons ⟨executor, rfl, rfl⟩ .nil
  have hlast : ∀ (contexts : List Context) (context : Context),
      (contexts ++ [context])[contexts.length]? = some context := by
    intro contexts context
    rw [List.getElem?_append_right (Nat.le_refl _), Nat.sub_self]
    rfl
  refine ⟨hsound, h.carried, h.site, h.executors, List.rel_append h.exports hpair, h.queue,
    h.newest, ?_⟩
  intro given id hgiven
  rcases List.mem_append.mp hgiven with hmem | hmem
  · obtain ⟨other, found, hother, hid⟩ := h.recent given id hmem
    exact ⟨other, found, hother.keep hgrows rfl (List.Subset.refl _)
      ⟨List.prefix_append _ _, List.prefix_append _ _⟩ ⟨List.prefix_rfl, List.prefix_rfl⟩, hid⟩
  · obtain ⟨rfl, rfl⟩ := Prod.mk.inj (List.mem_singleton.mp hmem)
    refine ⟨executor, record, ⟨hcarries.grows hgrows, hheld, ?_, ?_, ?_, ?_⟩, rfl⟩
    · exact h.newest slot executor record hnewest hslot hheld
    · exact List.mem_of_getElem? (getElem?_ids hslot)
    · exact hlast left.exports _
    · rw [context?, h.exports.length_eq]
      exact hlast right.exports _

theorem Twins.rejecting (h : Twins recent left right) (rejection : Option String) :
    Twins recent { left with site.rejection := rejection }
      { right with site.rejection := rejection } := by
  obtain ⟨hsound, hgrows⟩ := h.sound.rejecting rejection
  refine ⟨hsound, h.carried, ?_, h.executors, h.exports, h.queue, h.newest, ?_⟩
  · have hsite := h.site
    change { right.site with rejection } = _
    rw [hsite]
  · intro given id hgiven
    obtain ⟨other, found, hother, hid⟩ := h.recent given id hgiven
    exact ⟨other, found, hother.keep hgrows rfl (List.Subset.refl _)
      ⟨List.prefix_rfl, List.prefix_rfl⟩ ⟨List.prefix_rfl, List.prefix_rfl⟩, hid⟩

end Openings

end Session

end Workflow
