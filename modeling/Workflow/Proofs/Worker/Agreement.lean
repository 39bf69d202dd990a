import Workflow.Proofs.Worker.Workshop

/-!
# The queue and the executions agree

What a call changes has to do with one execution only. So the other ones wait as before, and the one
that was called waits for its new task or has finished.
-/

namespace Workflow

/-- A site after a call that took on the execution `id`. -/
structure Site.SameBut (id : String) (before after : Site) : Prop where
  definitions : after.definitions = before.definitions
  central : after.central = before.central
  library : before.library.Extends after.library
  table : ∀ other, other ≠ id → after.table.get? other = before.table.get? other

namespace Workshop

/-- An executor whose execution of a machine was not dispatched yet. -/
structure Starts (shop : Workshop) (executor : Executor) (machine : Machine) : Prop where
  created : (executor.executionId, machine) ∈ shop.created
  kept : executor.execution.held.isNone = shop.site.central
  stands : Stage.Stands { executor, site := shop.site } (.following machine.contentHash) machine

/-- A queued task that an execution waits for. -/
def Queues (shop : Workshop) (task : QueuedTask) : Prop :=
  ∃ executor machine name, (executor.executionId, machine) ∈ shop.created ∧
    task.Waits shop.site executor machine name

/-- The executions that wait, for their dispatch or for a task. -/
def owners (shop : Workshop) : List (Option String) :=
  shop.waiting.map (some ·.executionId) ++ shop.site.queue.pending.map (·.owner?)

structure Sound (shop : Workshop) : Prop where
  accepting : shop.site.rejection = none
  definitions : shop.site.definitions = .plain homeShelf
  valid : ∀ id machine, (id, machine) ∈ shop.created → machine.violations = []
  shelved : shop.site.library.HoldsOnly homeShelf fun machine => ∃ id, (id, machine) ∈ shop.created
  waiting : ∀ executor ∈ shop.waiting, ∃ machine, shop.Starts executor machine
  pending : ∀ task ∈ shop.site.queue.pending, shop.Queues task
  nodup : shop.owners.Nodup
  settled : ∀ id machine, (id, machine) ∈ shop.created →
    some id ∈ shop.owners ∨ shop.HasFinished id

variable {shop after : Workshop} {executor : Executor} {machine : Machine} {task : QueuedTask}
  {id : String}

theorem owner?_of_waits {site : Site} {name : String}
    (h : task.Waits site executor machine name) :
    task.owner? = some executor.executionId := by
  unfold QueuedTask.owner?
  rw [h.context, Executor.slice_exported_own, Executor.readOwnSlice_ownSlice]
  rfl

theorem Starts.of_sameBut (h : shop.Starts executor machine)
    (hcreated : ∀ entry ∈ shop.created, entry ∈ after.created)
    (hsame : Site.SameBut id shop.site after.site) (hne : executor.executionId ≠ id) :
    after.Starts executor machine :=
  { created := hcreated _ h.created
    kept := h.kept.trans hsame.central.symm
    stands := h.stands.elsewhere hsame.definitions hsame.library (hsame.table _ hne) }

theorem Sound.queues_of_sameBut (h : shop.Sound) (htask : task ∈ shop.site.queue.pending)
    (hcreated : ∀ entry ∈ shop.created, entry ∈ after.created)
    (hsame : Site.SameBut id shop.site after.site) (hne : task.owner? ≠ some id) :
    after.Queues task := by
  obtain ⟨executor, machine, name, hmem, hwaits⟩ := h.pending task htask
  rw [owner?_of_waits hwaits] at hne
  have hother : executor.executionId ≠ id := fun heq => hne (congrArg some heq)
  exact ⟨executor, machine, name, hcreated _ hmem,
    hwaits.elsewhere hsame.definitions hsame.central hsame.library (hsame.table _ hother)⟩

theorem HasFinished.of_sameBut {other : String} (h : shop.HasFinished other)
    (houtcomes : ∀ entry ∈ shop.outcomes, entry ∈ after.outcomes)
    (hsame : Site.SameBut id shop.site after.site) (hne : other ≠ id) : after.HasFinished other := by
  obtain ⟨result, hmem, htabled⟩ := h
  refine ⟨result, houtcomes _ hmem, ?_⟩
  intro hcentral
  rw [hsame.table other hne]
  exact htabled (hsame.central.symm.trans hcentral)

end Workshop

theorem Stage.Reaches.sameBut {before after : Stage} {record : ExecutionRecord}
    {progress : Progress} (h : before.Reaches record progress after) :
    Site.SameBut before.executor.executionId before.site after.site := by
  have hsite := h.site
  refine ⟨?_, ?_, ?_, ?_⟩
  · rw [hsite]
  · rw [hsite]
  · intro name digest machine hfind
    rw [hsite]
    exact hfind
  · intro other hne
    rw [h.table]
    split
    · rfl
    · exact Dict.get?_insert_of_ne hne _

theorem Site.sameBut_created {site : Site} (machine : Machine) :
    Site.SameBut (Identifier.spell site.issued) site (site.created machine).site := by
  have hsite := Site.site_created site machine
  refine ⟨?_, ?_, ?_, ?_⟩
  · rw [hsite]
  · rw [hsite]
  · exact Site.extends_created site machine
  · intro other hne
    rw [Site.table_created]
    split
    · exact Dict.get?_insert_of_ne hne _
    · rfl

namespace Workshop

variable {shop : Workshop} {before after : Stage} {record : ExecutionRecord} {machine : Machine}
  {progress : Progress} {left : List Executor}

/-- The shop after a call that brought an execution to `progress`. -/
def arrived (shop : Workshop) (left : List Executor) (after : Stage) (id : String)
    (progress : Progress) : Workshop :=
  { shop with
    site := after.site
    waiting := left
    outcomes := shop.outcomes ++ [(some id, progress.outcome)] }

theorem hasFinished_arrived {result : ExecutionResult}
    (hreaches : before.Reaches record (.done result) after)
    (hkept : before.executor.execution.held.isNone = before.site.central) :
    (shop.arrived left after before.executor.executionId (.done result)).HasFinished
      before.executor.executionId := by
  refine ⟨result, List.mem_append_right _ (List.mem_singleton.mpr rfl), ?_⟩
  intro hcentral
  change after.site.central = true at hcentral
  rw [hreaches.sameBut.central, ← hkept, Option.isNone_iff_eq_none] at hcentral
  change ∃ record, after.site.table.get? before.executor.executionId = some record ∧ _
  rw [hreaches.table, hcentral, if_neg (by simp), Dict.get?_insert_self]
  exact ⟨_, rfl, rfl, rfl⟩

theorem owners_queued (haccepting : before.site.rejection = none)
    (hreaches : before.Reaches record progress after) :
    after.site.queue.pending.map (·.owner?) =
      before.site.queue.pending.map (·.owner?) ++
        match progress with
        | .done _ => []
        | .pending _ _ _ => [some before.executor.executionId] := by
  have howner : ∀ resource input, QueuedTask.owner?
      { resource, input, context := after.executor.exported before.site.definitions } =
        some before.executor.executionId := by
    intro resource input
    unfold QueuedTask.owner?
    rw [Executor.slice_exported_own, Executor.readOwnSlice_ownSlice, hreaches.executionId]
    rfl
  rw [hreaches.queue, haccepting]
  cases progress with
  | done result => rw [List.append_nil]; rfl
  | pending name resource payload =>
      change (before.site.queue.pending ++ [_]).map _ = _
      rw [List.map_append, List.map_singleton, howner]

/-- The stage of a call on one of the executions that wait. The other ones go on waiting, among them
those of the executors `left`. -/
structure Takes (shop : Workshop) (before : Stage) (left : List Executor) : Prop where
  site : before.site =
    { shop.site with
      queue := before.site.queue
      issued := before.site.issued }
  kept : before.executor.execution.held.isNone = before.site.central
  owners : shop.owners.Perm
    (some before.executor.executionId ::
      (left.map (some ·.executionId) ++ before.site.queue.pending.map (·.owner?)))
  waiting : ∀ executor ∈ left, executor ∈ shop.waiting
  pending : ∀ task ∈ before.site.queue.pending, task ∈ shop.site.queue.pending

theorem Takes.sameBut (h : shop.Takes before left)
    (hreaches : before.Reaches record progress after) :
    Site.SameBut before.executor.executionId shop.site after.site := by
  have hsame := hreaches.sameBut
  have hsite := h.site
  refine ⟨?_, ?_, ?_, ?_⟩
  · rw [hsame.definitions, hsite]
  · rw [hsame.central, hsite]
  · intro name digest machine hfind
    apply hsame.library
    rw [hsite]
    exact hfind
  · intro other hne
    rw [hsame.table other hne, hsite]

theorem Takes.mem_owners (h : shop.Takes before left) {id : String} (hid : some id ∈ shop.owners) :
    id = before.executor.executionId ∨
      some id ∈ left.map (some ·.executionId) ++ before.site.queue.pending.map (·.owner?) := by
  rcases List.mem_cons.mp (h.owners.mem_iff.mp hid) with heq | hmem
  · exact .inl (Option.some.inj heq)
  · exact .inr hmem

section Arrived

variable (h : shop.Sound) (htakes : shop.Takes before left)
  (hreaches : before.Reaches record progress after)

include h htakes in
/-- The execution that is called is none of those that go on waiting. -/
theorem Takes.apart :
    some before.executor.executionId ∉
        left.map (some ·.executionId) ++ before.site.queue.pending.map (·.owner?) ∧
      (left.map (some ·.executionId) ++ before.site.queue.pending.map (·.owner?)).Nodup :=
  List.nodup_cons.mp (htakes.owners.nodup_iff.mp h.nodup)

include h htakes in
theorem Takes.accepting : before.site.rejection = none := by
  rw [htakes.site]
  exact h.accepting

include h htakes hreaches

theorem Sound.starts_arrived {executor : Executor} (hmem : executor ∈ left) :
    ∃ machine, (shop.arrived left after before.executor.executionId progress).Starts executor
      machine := by
  obtain ⟨machine, hstarts⟩ := h.waiting executor (htakes.waiting executor hmem)
  refine ⟨machine, hstarts.of_sameBut (fun _ hentry => hentry) (htakes.sameBut hreaches) ?_⟩
  intro heq
  apply (Takes.apart h htakes).1
  rw [← heq]
  exact List.mem_append_left _ (List.mem_map_of_mem hmem)

theorem Sound.queues_kept {task : QueuedTask} (hmem : task ∈ before.site.queue.pending) :
    (shop.arrived left after before.executor.executionId progress).Queues task := by
  refine h.queues_of_sameBut (htakes.pending task hmem) (fun _ hentry => hentry)
    (htakes.sameBut hreaches) ?_
  intro heq
  apply (Takes.apart h htakes).1
  rw [← heq]
  exact List.mem_append_right _ (List.mem_map_of_mem hmem)

theorem Sound.queues_arrived
    (hcreated : (before.executor.executionId, machine) ∈ shop.created)
    (hstands : before.Stands record machine) (hresult : record.result = none)
    (hat : progress.IsAt machine) {task : QueuedTask} (hmem : task ∈ after.site.queue.pending) :
    (shop.arrived left after before.executor.executionId progress).Queues task := by
  rw [hreaches.queue, Takes.accepting h htakes] at hmem
  cases progress with
  | done result => exact h.queues_kept htakes hreaches hmem
  | pending name resource payload =>
      rcases List.mem_append.mp hmem with hbefore | hnew
      · exact h.queues_kept htakes hreaches hbefore
      · rw [List.mem_singleton.mp hnew]
        refine ⟨after.executor, machine, name, ?_, hreaches.waits hstands hresult hat htakes.kept⟩
        rw [hreaches.executionId]
        exact hcreated

theorem Sound.owners_arrived :
    (shop.arrived left after before.executor.executionId progress).owners =
      left.map (some ·.executionId) ++ before.site.queue.pending.map (·.owner?) ++
        match progress with
        | .done _ => []
        | .pending _ _ _ => [some before.executor.executionId] := by
  change left.map _ ++ after.site.queue.pending.map (·.owner?) = _
  rw [owners_queued (Takes.accepting h htakes) hreaches, List.append_assoc]

theorem Sound.nodup_arrived :
    (shop.arrived left after before.executor.executionId progress).owners.Nodup := by
  obtain ⟨hnot, hothers⟩ := Takes.apart h htakes
  rw [h.owners_arrived htakes hreaches]
  cases progress with
  | done result =>
      rw [List.append_nil]
      exact hothers
  | pending name resource payload =>
      exact (List.perm_append_singleton _ _).nodup_iff.mpr (List.nodup_cons.mpr ⟨hnot, hothers⟩)

theorem Sound.settled_arrived {id : String} (hmem : (id, machine) ∈ shop.created) :
    some id ∈ (shop.arrived left after before.executor.executionId progress).owners ∨
      (shop.arrived left after before.executor.executionId progress).HasFinished id := by
  rw [h.owners_arrived htakes hreaches]
  -- The execution that was called has a new task or a result, the other ones what they had.
  by_cases hid : id = before.executor.executionId
  · subst hid
    cases progress with
    | done result => exact .inr (hasFinished_arrived hreaches htakes.kept)
    | pending name resource payload =>
        exact .inl (List.mem_append_right _ (List.mem_singleton.mpr rfl))
  · rcases h.settled id machine hmem with hwaits | hfinished
    · rcases htakes.mem_owners hwaits with hcalled | hstill
      · exact absurd hcalled hid
      · exact .inl (List.mem_append_left _ hstill)
    · exact .inr (hfinished.of_sameBut (fun _ hentry => List.mem_append_left _ hentry)
        (htakes.sameBut hreaches) hid)

/-- A call takes an execution on, and the queue and the executions agree as before. -/
theorem Sound.arrived (hcreated : (before.executor.executionId, machine) ∈ shop.created)
    (hstands : before.Stands record machine) (hresult : record.result = none)
    (hat : progress.IsAt machine) :
    (shop.arrived left after before.executor.executionId progress).Sound := by
  have hsame := htakes.sameBut hreaches
  refine ⟨?_, hsame.definitions.trans h.definitions, h.valid, ?_, ?_, ?_,
    h.nodup_arrived htakes hreaches, ?_⟩
  · change after.site.rejection = none
    rw [hreaches.site]
    exact Takes.accepting h htakes
  · intro digest found hfind
    apply h.shelved digest found
    change after.site.library.find? homeShelf digest = some found at hfind
    rw [hreaches.site] at hfind
    change before.site.library.find? homeShelf digest = some found at hfind
    rw [htakes.site] at hfind
    exact hfind
  · intro executor hmem
    exact h.starts_arrived htakes hreaches hmem
  · intro task hmem
    exact h.queues_arrived htakes hreaches hcreated hstands hresult hat hmem
  · intro id found hmem
    exact h.settled_arrived htakes hreaches hmem

end Arrived

end Workshop

end Workflow
