import Mathlib.Data.List.Perm.Basic
import Workflow.Proofs.Worker.Agreement

/-!
# One duty at a workshop

Each duty keeps the queue and the executions in agreement: a machine that is created, an execution
that is dispatched, and a worker that takes the oldest task.
-/

namespace Workflow.Workshop

/-- The site of a shop has drawn some identifiers, `count` of them at the most. -/
structure Draws (shop after : Workshop) (count : Nat) : Prop where
  below : shop.site.issued ≤ after.site.issued
  above : after.site.issued ≤ shop.site.issued + count

theorem Draws.refl (shop : Workshop) (count : Nat) : shop.Draws shop count :=
  ⟨Nat.le_refl _, Nat.le_add_right _ _⟩

theorem Draws.trans {shop middle after : Workshop} {first second : Nat}
    (h : shop.Draws middle first) (hlater : middle.Draws after second) :
    shop.Draws after (first + second) := by
  refine ⟨Nat.le_trans h.below hlater.below, ?_⟩
  have hmiddle := h.above
  have hafter := hlater.above
  omega

section Machines

variable {shop : Workshop} {machine : Machine}

theorem Sound.home_eq (h : shop.Sound) : shop.site.definitions.home = homeShelf :=
  congrArg DefinitionStore.home h.definitions

theorem Sound.isLocal (h : shop.Sound) : shop.site.IsLocal :=
  ⟨congrArg DefinitionStore.front h.definitions, congrArg DefinitionStore.announcement h.definitions⟩

theorem Sound.created_of_mem_owners (h : shop.Sound) {id : String} (hid : some id ∈ shop.owners) :
    ∃ machine, (id, machine) ∈ shop.created := by
  rcases List.mem_append.mp hid with hwaiting | hqueued
  · obtain ⟨executor, hmem, heq⟩ := List.mem_map.mp hwaiting
    obtain ⟨machine, hstarts⟩ := h.waiting executor hmem
    refine ⟨machine, ?_⟩
    rw [← Option.some.inj heq]
    exact hstarts.created
  · obtain ⟨task, hmem, heq⟩ := List.mem_map.mp hqueued
    obtain ⟨executor, machine, name, hcreated, hwaits⟩ := h.pending task hmem
    rw [owner?_of_waits hwaits] at heq
    refine ⟨machine, ?_⟩
    rw [← Option.some.inj heq]
    exact hcreated

/-- The shop after an execution of a machine was created. -/
def opened (shop : Workshop) (machine : Machine) : Workshop :=
  { shop with
    site := (shop.site.created machine).site
    waiting := shop.waiting ++ [(shop.site.created machine).executor]
    created := shop.created ++ [((shop.site.created machine).executor.executionId, machine)] }

theorem step_create (h : shop.Sound) (machine : Machine) :
    shop.step (.create machine) = shop.opened machine := by
  unfold step
  simp only [Site.create_apply h.isLocal]
  rfl

theorem owners_opened :
    (shop.opened machine).owners.Perm (some (Identifier.spell shop.site.issued) :: shop.owners) := by
  have hqueue : (shop.opened machine).site.queue = shop.site.queue := by
    change (shop.site.created machine).site.queue = _
    rw [Site.site_created]
  unfold owners
  rw [hqueue, ← Site.executionId_created shop.site machine]
  change ((shop.waiting ++ [_]).map _ ++ _).Perm _
  rw [List.map_append, List.append_assoc]
  exact List.perm_middle

section Opened

variable (h : shop.Sound) (hfresh : ∀ other, (Identifier.spell shop.site.issued, other) ∉ shop.created)

theorem sameBut_opened :
    Site.SameBut (Identifier.spell shop.site.issued) shop.site (shop.opened machine).site :=
  Site.sameBut_created machine

theorem mem_created_opened {entry : String × Machine} (hmem : entry ∈ shop.created) :
    entry ∈ (shop.opened machine).created :=
  List.mem_append_left _ hmem

theorem created_opened :
    ((shop.site.created machine).executor.executionId, machine) ∈ (shop.opened machine).created :=
  List.mem_append_right _ (List.mem_singleton.mpr rfl)

include h hfresh in
theorem Sound.ne_of_mem_owners {id : String} (hid : some id ∈ shop.owners) :
    id ≠ Identifier.spell shop.site.issued := by
  rintro rfl
  obtain ⟨other, hmem⟩ := h.created_of_mem_owners hid
  exact hfresh other hmem

include h in
theorem Sound.starts_opened (hdistinct : ∀ id other, (id, other) ∈ shop.created →
      other.contentHash = machine.contentHash → other = machine) :
    (shop.opened machine).Starts (shop.site.created machine).executor machine := by
  refine ⟨created_opened,
    (Site.isNone_held_created _ _).trans (Site.central_created _ _).symm, ?_⟩
  apply Site.stands_created h.isLocal
  intro other hfind
  rw [h.home_eq] at hfind
  obtain ⟨hdigest, id, hmem⟩ := h.shelved _ other hfind
  exact hdistinct id other hmem hdigest

include h hfresh

theorem Sound.queues_opened {task : QueuedTask}
    (hmem : task ∈ (shop.opened machine).site.queue.pending) :
    (shop.opened machine).Queues task := by
  have hsite : (shop.opened machine).site = _ := Site.site_created shop.site machine
  rw [hsite] at hmem
  apply h.queues_of_sameBut hmem (fun _ => mem_created_opened) sameBut_opened
  intro heq
  refine h.ne_of_mem_owners hfresh ?_ rfl
  exact List.mem_append_right _ (List.mem_map.mpr ⟨task, hmem, heq⟩)

theorem Sound.settled_opened {id : String} {found : Machine}
    (hmem : (id, found) ∈ (shop.opened machine).created) :
    some id ∈ (shop.opened machine).owners ∨ (shop.opened machine).HasFinished id := by
  rw [owners_opened.mem_iff, List.mem_cons]
  rcases List.mem_append.mp hmem with hold | hlast
  · rcases h.settled id found hold with hwaits | hfinished
    · exact .inl (.inr hwaits)
    · right
      refine hfinished.of_sameBut (fun _ hentry => hentry) sameBut_opened ?_
      rintro rfl
      exact hfresh found hold
  · obtain ⟨rfl, _⟩ := Prod.mk.inj (List.mem_singleton.mp hlast)
    rw [Site.executionId_created]
    exact .inl (.inl rfl)

/-- A machine may be created of which no twin has its digest, if the identifier is a new one. -/
theorem Sound.opened (hvalid : machine.violations = [])
    (hdistinct : ∀ id other, (id, other) ∈ shop.created →
      other.contentHash = machine.contentHash → other = machine) :
    (shop.opened machine).Sound := by
  have hsite : (shop.opened machine).site = _ := Site.site_created shop.site machine
  refine ⟨?_, sameBut_opened.definitions.trans h.definitions, ?_, ?_, ?_, ?_, ?_, ?_⟩
  · rw [hsite]
    exact h.accepting
  · intro id found hmem
    rcases List.mem_append.mp hmem with hold | hlast
    · exact h.valid id found hold
    · obtain ⟨_, rfl⟩ := Prod.mk.inj (List.mem_singleton.mp hlast)
      exact hvalid
  · have hshelved := h.shelved
    rw [← h.home_eq] at hshelved ⊢
    apply Site.holdsOnly_created hshelved
    · rintro found ⟨id, hmem⟩
      exact ⟨id, mem_created_opened hmem⟩
    · exact ⟨_, created_opened⟩
  · intro executor hmem
    rcases List.mem_append.mp hmem with hold | hlast
    · obtain ⟨found, hstarts⟩ := h.waiting executor hold
      have hne := h.ne_of_mem_owners hfresh (List.mem_append_left _ (List.mem_map_of_mem hold))
      exact ⟨found, hstarts.of_sameBut (fun _ => mem_created_opened) sameBut_opened hne⟩
    · rw [List.mem_singleton.mp hlast]
      exact ⟨machine, h.starts_opened hdistinct⟩
  · intro task hmem
    exact h.queues_opened hfresh hmem
  · rw [owners_opened.nodup_iff, List.nodup_cons]
    exact ⟨fun hmem => h.ne_of_mem_owners hfresh hmem rfl, h.nodup⟩
  · intro id found hmem
    exact h.settled_opened hfresh hmem

end Opened

end Machines

section Calls

variable {ρ ε : Type} {shop : Workshop} {worker : Worker ρ ε} {memory : ρ}

theorem takes_of_waiting {index : Nat} {executor : Executor} {machine : Machine}
    (hat : shop.waiting[index]? = some executor) (hstarts : shop.Starts executor machine) :
    shop.Takes { executor, site := shop.site } (shop.waiting.eraseIdx index) := by
  obtain ⟨hindex, hexecutor⟩ := List.getElem?_eq_some_iff.mp hat
  have hleft : shop.waiting.Perm (executor :: shop.waiting.eraseIdx index) := by
    rw [← hexecutor]
    exact (List.getElem_cons_eraseIdx_perm hindex).symm
  exact
    { site := rfl
      kept := hstarts.kept
      owners := (hleft.map _).append_right _
      waiting := fun _ hmem => List.mem_of_mem_eraseIdx hmem
      pending := fun _ hmem => hmem }

theorem takes_of_resumes {before : Stage} {executor : Executor} {machine : Machine} {name : String}
    {task : QueuedTask} {rest : List QueuedTask} (hpending : shop.site.queue.pending = task :: rest)
    (hwaits : task.Waits shop.site executor machine name)
    (hresumes : before.Resumes executor shop.site rest) : shop.Takes before shop.waiting := by
  have hsite := hresumes.site
  have hleft : before.site.queue.pending = rest := by
    rw [hsite]
    rfl
  refine ⟨?_, ?_, ?_, fun _ hmem => hmem, ?_⟩
  · rw [hsite]
    rfl
  · rw [hresumes.execution, hsite]
    exact hwaits.kept
  · unfold owners
    rw [hleft, hpending, List.map_cons, owner?_of_waits hwaits, hresumes.executionId]
    exact List.perm_middle
  · intro other hmem
    rw [hleft] at hmem
    rw [hpending]
    exact List.mem_cons_of_mem _ hmem

theorem Sound.step_dispatch (h : shop.Sound) (index : Nat) (input : Json) :
    (shop.step (.dispatch index input)).Sound ∧
      shop.Draws (shop.step (.dispatch index input)) 0 := by
  cases hat : shop.waiting[index]? with
  | none =>
      have hstep : shop.step (.dispatch index input) = shop := by
        unfold step
        simp only [hat]
      rw [hstep]
      exact ⟨h, .refl shop 0⟩
  | some executor =>
      obtain ⟨machine, hstarts⟩ := h.waiting executor (List.mem_of_getElem? hat)
      have hvalid := h.valid _ machine hstarts.created
      obtain ⟨progress, hprogress⟩ :=
        Machine.exists_enter?_of_knows (Machine.knows_startAt hvalid) input
      obtain ⟨after, hdispatch, hreaches⟩ := Stage.dispatch_reaches hstarts.stands rfl hprogress
      have hanswer : progress.answer shop.site.rejection = .ok progress.outcome :=
        Progress.answer_of_accepting h.accepting progress
      rw [hanswer] at hdispatch
      have hstep : shop.step (.dispatch index input) =
          shop.arrived (shop.waiting.eraseIdx index) after executor.executionId progress := by
        unfold step
        simp only [hat, hdispatch]
        rfl
      have hissued : after.site.issued = shop.site.issued := by rw [hreaches.site]
      rw [hstep]
      exact ⟨h.arrived (takes_of_waiting hat hstarts) hreaches hstarts.created hstarts.stands rfl
        (Machine.isAt_of_enter? hprogress), Nat.le_of_eq hissued.symm, Nat.le_of_eq hissued⟩

/-- A worker at a shop finds nothing to do, or it takes the execution on that waited longest. -/
theorem Sound.runNext (h : shop.Sound) (worker : Worker ρ ε) (memory : ρ) :
    worker.runNext (shop.site, memory) = .ok none (shop.site, memory) ∨
    ∃ (after : Stage) (rest : ρ) (id : String) (progress : Progress),
      worker.runNext (shop.site, memory) = .ok (some progress.outcome) (after.site, rest) ∧
      shop.site.queue.pending.head?.bind (·.owner?) = some id ∧
      (shop.arrived shop.waiting after id progress).Sound ∧
      after.site.issued = shop.site.issued + 1 := by
  cases hpending : shop.site.queue.pending with
  | nil => exact .inl (Worker.runNext_of_idle hpending)
  | cons task rest =>
      right
      obtain ⟨executor, machine, name, hcreated, hwaits⟩ :=
        h.pending task (hpending ▸ List.mem_cons_self)
      obtain ⟨id, progress, before, after, hrun, hat, hresumes, hstands, hreaches⟩ :=
        worker.runNext_of_waiting (h.valid _ machine hcreated) hpending hwaits h.accepting memory
      have hid := hresumes.executionId
      refine ⟨after, _, before.executor.executionId, progress, hrun, ?_, ?_, ?_⟩
      · change task.owner? = _
        rw [owner?_of_waits hwaits, hid]
      · refine h.arrived (takes_of_resumes hpending hwaits hresumes) hreaches ?_ hstands rfl hat
        rw [hid]
        exact hcreated
      · rw [hreaches.site, hresumes.site]
        rfl

theorem turn_of_ok_none (h : worker.runNext (shop.site, memory) = .ok none (shop.site, memory)) :
    shop.turn worker memory = (shop, memory) := by
  unfold turn
  simp only [h]

theorem turn_of_ok_some {after : Site} {rest : ρ} {outcome : Outcome}
    (h : worker.runNext (shop.site, memory) = .ok (some outcome) (after, rest)) :
    shop.turn worker memory =
      ({ shop with
          site := after
          outcomes := shop.outcomes ++
            [(shop.site.queue.pending.head?.bind (·.owner?), outcome)] }, rest) := by
  unfold turn
  simp only [h]

theorem Sound.turn (h : shop.Sound) (worker : Worker ρ ε) (memory : ρ) :
    (shop.turn worker memory).1.Sound ∧ shop.Draws (shop.turn worker memory).1 1 := by
  rcases h.runNext worker memory with hidle | ⟨after, rest, id, progress, hrun, hid, hsound, hissued⟩
  · rw [turn_of_ok_none hidle]
    exact ⟨h, .refl shop 1⟩
  · rw [turn_of_ok_some hrun, hid]
    refine ⟨hsound, ?_, Nat.le_of_eq hissued⟩
    change shop.site.issued ≤ after.site.issued
    omega

theorem Sound.turns (h : shop.Sound) (worker : Worker ρ ε) (memory : ρ) (count : Nat) :
    (shop.turns worker memory count).1.Sound ∧
      shop.Draws (shop.turns worker memory count).1 count := by
  induction count generalizing shop memory with
  | zero => exact ⟨h, .refl shop 0⟩
  | succ count ih =>
      obtain ⟨hturned, hdraws⟩ := h.turn worker memory
      obtain ⟨hsound, hlater⟩ := ih hturned (shop.turn worker memory).2
      have hboth := hdraws.trans hlater
      rw [Nat.add_comm] at hboth
      exact ⟨hsound, hboth⟩

theorem turns_of_ok_none (h : worker.runNext (shop.site, memory) = .ok none (shop.site, memory))
    (count : Nat) : shop.turns worker memory count = (shop, memory) := by
  induction count with
  | zero => rfl
  | succ count ih =>
      unfold turns
      rw [turn_of_ok_none h]
      exact ih

theorem Sound.drain (h : shop.Sound) (worker : Worker ρ ε) (memory : ρ) (limit : Nat) :
    ∃ outcomes, worker.drain limit (shop.site, memory) =
        .ok outcomes ((shop.turns worker memory limit).1.site, (shop.turns worker memory limit).2) ∧
      (shop.turns worker memory limit).1.outcomes.map (·.2) =
        shop.outcomes.map (·.2) ++ outcomes := by
  -- Once the queue is empty the remaining turns change nothing.
  induction limit generalizing shop memory with
  | zero => exact ⟨[], rfl, (List.append_nil _).symm⟩
  | succ limit ih =>
      rcases h.runNext worker memory with hidle | ⟨after, rest, id, progress, hrun, hid, hsound, hissued⟩
      · refine ⟨[], ?_, ?_⟩
        · rw [Worker.drain, Action.bind_of_ok hidle, turns_of_ok_none hidle]
          rfl
        · rw [turns_of_ok_none hidle, List.append_nil]
      · have hturns : shop.turns worker memory (limit + 1) =
            (shop.arrived shop.waiting after id progress).turns worker rest limit := by
          rw [Workshop.turns, turn_of_ok_some hrun, hid]
          rfl
        obtain ⟨outcomes, hdrain, houtcomes⟩ := ih hsound rest
        change worker.drain limit (after.site, rest) = _ at hdrain
        rw [hturns]
        refine ⟨progress.outcome :: outcomes, ?_, ?_⟩
        · rw [Worker.drain, Action.bind_of_ok hrun]
          change (worker.drain limit >>= fun outcomes => _) _ = _
          rw [Action.bind_of_ok hdrain]
          rfl
        · rw [houtcomes]
          change (shop.outcomes ++ [_]).map _ ++ _ = _
          rw [List.map_append, List.append_assoc]
          rfl

theorem Sound.siteAfter_runUntilIdle (h : shop.Sound) (worker : Worker ρ ε) (memory : ρ)
    (limit : Nat) :
    siteAfter (worker.runUntilIdle limit (shop.site, memory)) =
      (shop.turns worker memory limit).1.site := by
  obtain ⟨outcomes, hdrain, _⟩ := h.drain worker memory limit
  rw [Worker.runUntilIdle, Action.bind_of_ok hdrain, Action.bind_of_ok (Action.get_apply _)]
  cases hpending : (shop.turns worker memory limit).1.site.queue.pending with
  | nil =>
      simp only [hpending]
      rfl
  | cons task rest =>
      simp only [hpending]
      rfl

theorem Sound.step_runUntilIdle (h : shop.Sound) (worker : Worker ρ ε) (memory : ρ) (limit : Nat) :
    (shop.step (.runUntilIdle worker memory limit)).Sound ∧
      shop.Draws (shop.step (.runUntilIdle worker memory limit)) limit := by
  have hstep : shop.step (.runUntilIdle worker memory limit) =
      (shop.turns worker memory limit).1 := by
    unfold step
    simp only [h.siteAfter_runUntilIdle]
  rw [hstep]
  exact h.turns worker memory limit

end Calls

end Workflow.Workshop
