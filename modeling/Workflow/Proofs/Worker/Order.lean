import Workflow.Proofs.Identifier
import Workflow.Proofs.Worker.Duties
import Workflow.Proofs.Worker.Refinement

/-!
# Workshops stay in order

Since each duty keeps the queue and the executions in agreement, they agree after every run.
-/

namespace Workflow.Workshop

section Runs

variable {shop : Workshop} {duties : List Duty}

theorem created_turn {ρ ε : Type} (worker : Worker ρ ε) (memory : ρ) :
    (shop.turn worker memory).1.created = shop.created := by
  unfold turn
  rcases worker.runNext (shop.site, memory) with ⟨_ | outcome, _⟩ | _ <;> rfl

theorem created_turns {ρ ε : Type} (worker : Worker ρ ε) (memory : ρ) (count : Nat) :
    (shop.turns worker memory count).1.created = shop.created := by
  induction count generalizing shop memory with
  | zero => rfl
  | succ count ih => exact (ih _).trans (created_turn worker memory)

theorem created_dispatch (index : Nat) (input : Json) :
    (shop.step (.dispatch index input)).created = shop.created := by
  unfold step
  simp only
  split
  · rfl
  · split <;> rfl

theorem created_prefix_step (shop : Workshop) (duty : Duty) :
    shop.created <+: (shop.step duty).created := by
  cases duty with
  | create machine =>
      unfold step
      simp only
      split
      · exact List.prefix_append _ _
      · exact List.prefix_rfl
  | dispatch index input => exact ⟨[], (List.append_nil _).trans (created_dispatch index input).symm⟩
  | runNext worker memory => exact ⟨[], (List.append_nil _).trans (created_turn worker memory).symm⟩
  | runUntilIdle worker memory limit =>
      exact ⟨[], (List.append_nil _).trans (created_turns worker memory limit).symm⟩

theorem created_prefix_run (shop : Workshop) (duties : List Duty) :
    shop.created <+: (shop.run duties).created := by
  induction duties generalizing shop with
  | nil => exact List.prefix_rfl
  | cons duty rest ih => exact (shop.created_prefix_step duty).trans (ih (shop.step duty))

/-- How many identifiers a duty draws at the most. An execution has one, and so has each executor. -/
def cost : Duty → Nat
  | .create _ => 2
  | .dispatch _ _ => 0
  | .runNext _ _ => 1
  | .runUntilIdle _ _ limit => limit

/-- One duty keeps a shop sound at which all machines are known, if none of them is created under
an identifier that was there. -/
theorem Sound.step {known : Machine → Prop} (h : shop.Sound)
    (hvalid : ∀ machine, known machine → machine.violations = [])
    (hdistinct : ∀ machine other, known machine → known other →
      other.contentHash = machine.contentHash → other = machine)
    (hknown : ∀ id machine, (id, machine) ∈ shop.created → known machine) (duty : Duty)
    (hduty : ∀ machine, duty = .create machine → known machine)
    (hfresh : ((shop.step duty).created.map (·.1)).Nodup) :
    (shop.step duty).Sound ∧ shop.Draws (shop.step duty) (cost duty) ∧
      ∀ id machine, (id, machine) ∈ (shop.step duty).created → known machine := by
  cases duty with
  | create machine =>
      have hnew := hduty machine rfl
      rw [step_create h] at hfresh ⊢
      have hissued : (shop.opened machine).site.issued = shop.site.issued + 2 :=
        congrArg Site.issued (Site.site_created shop.site machine)
      refine ⟨h.opened ?_ (hvalid machine hnew) ?_, ⟨?_, Nat.le_of_eq hissued⟩, ?_⟩
      · intro other hmem
        change ((shop.created ++ [_]).map _).Nodup at hfresh
        rw [List.map_append, List.map_singleton, Site.executionId_created] at hfresh
        exact (List.nodup_append.mp hfresh).2.2 _ (List.mem_map_of_mem hmem) _
          (List.mem_singleton.mpr rfl) rfl
      · intro id other hmem
        exact hdistinct machine other hnew (hknown id other hmem)
      · omega
      · intro id found hmem
        rcases List.mem_append.mp hmem with hold | hlast
        · exact hknown id found hold
        · obtain ⟨_, rfl⟩ := Prod.mk.inj (List.mem_singleton.mp hlast)
          exact hnew
  | dispatch index input =>
      obtain ⟨hsound, hdraws⟩ := h.step_dispatch index input
      rw [created_dispatch]
      exact ⟨hsound, hdraws, hknown⟩
  | runNext worker memory =>
      obtain ⟨hsound, hdraws⟩ := h.turn worker memory
      rw [Workshop.step, created_turn]
      exact ⟨hsound, hdraws, hknown⟩
  | runUntilIdle worker memory limit =>
      obtain ⟨hsound, hdraws⟩ := h.step_runUntilIdle worker memory limit
      refine ⟨hsound, hdraws, ?_⟩
      change ∀ id machine, (id, machine) ∈ (shop.turns worker memory limit).1.created → _
      rw [created_turns]
      exact hknown

theorem Sound.run {known : Machine → Prop} (h : shop.Sound)
    (hvalid : ∀ machine, known machine → machine.violations = [])
    (hdistinct : ∀ machine other, known machine → known other →
      other.contentHash = machine.contentHash → other = machine)
    (hknown : ∀ id machine, (id, machine) ∈ shop.created → known machine)
    (hduties : ∀ machine, .create machine ∈ duties → known machine)
    (hfresh : ((shop.run duties).created.map (·.1)).Nodup) : (shop.run duties).Sound := by
  induction duties generalizing shop with
  | nil => exact h
  | cons duty rest ih =>
      have hprefix := (created_prefix_run (shop.step duty) rest).map (·.1)
      obtain ⟨hsound, _, hlater⟩ := h.step hvalid hdistinct hknown duty
        (fun machine heq => hduties machine (heq ▸ List.mem_cons_self))
        (hfresh.sublist hprefix.sublist)
      exact ih hsound hlater (fun machine hmem => hduties machine (List.mem_cons_of_mem _ hmem))
        hfresh

theorem created_start {central : Bool} {known : Machine → Prop} :
    ∀ id machine, (id, machine) ∈ (start central).created → known machine := by
  intro id machine hmem
  cases hmem

theorem sound_start (central : Bool) : (start central).Sound := by
  refine ⟨rfl, rfl, ?_, ?_, ?_, ?_, List.nodup_nil, ?_⟩
  · intro id machine hmem
    cases hmem
  · intro digest machine hfind
    cases hfind
  · intro executor hmem
    cases hmem
  · intro task hmem
    cases hmem
  · intro id machine hmem
    cases hmem

/-- The executions were created under identifiers that the site has drawn, each under its own. -/
structure Numbered (shop : Workshop) : Prop where
  nodup : (shop.created.map (·.1)).Nodup
  drawn : ∀ id ∈ shop.created.map (·.1), ∃ n < shop.site.issued, id = Identifier.spell n

theorem Numbered.of_created {after : Workshop} {count : Nat} (h : shop.Numbered)
    (hcreated : after.created = shop.created) (hdraws : shop.Draws after count) : after.Numbered := by
  refine ⟨?_, ?_⟩
  · rw [hcreated]
    exact h.nodup
  · intro id hid
    rw [hcreated] at hid
    obtain ⟨n, hn, heq⟩ := h.drawn id hid
    exact ⟨n, Nat.lt_of_lt_of_le hn hdraws.below, heq⟩

theorem Numbered.opened (h : shop.Numbered) (hroom : shop.site.issued < 2 ^ 128) (machine : Machine) :
    (shop.opened machine).Numbered := by
  have hissued : (shop.opened machine).site.issued = shop.site.issued + 2 :=
    congrArg Site.issued (Site.site_created shop.site machine)
  have hcreated : (shop.opened machine).created.map (·.1) =
      shop.created.map (·.1) ++ [Identifier.spell shop.site.issued] := by
    change (shop.created ++ [_]).map _ = _
    rw [List.map_append, List.map_singleton, Site.executionId_created]
  refine ⟨?_, ?_⟩
  · rw [hcreated, (List.perm_append_singleton _ _).nodup_iff, List.nodup_cons]
    refine ⟨?_, h.nodup⟩
    intro hmem
    obtain ⟨n, hn, heq⟩ := h.drawn _ hmem
    have hsame := Identifier.spell_inj hroom (Nat.lt_trans hn hroom) heq
    omega
  · intro id hid
    rw [hcreated] at hid
    rw [hissued]
    rcases List.mem_append.mp hid with hold | hlast
    · obtain ⟨n, hn, heq⟩ := h.drawn id hold
      exact ⟨n, by omega, heq⟩
    · exact ⟨shop.site.issued, by omega, List.mem_singleton.mp hlast⟩

theorem Numbered.step (h : shop.Numbered) (hsound : shop.Sound) {duty : Duty}
    (hroom : shop.site.issued + cost duty ≤ 2 ^ 128) : (shop.step duty).Numbered := by
  cases duty with
  | create machine =>
      rw [step_create hsound]
      change shop.site.issued + 2 ≤ 2 ^ 128 at hroom
      exact h.opened (by omega) machine
  | dispatch index input =>
      exact h.of_created (created_dispatch index input) (hsound.step_dispatch index input).2
  | runNext worker memory =>
      exact h.of_created (created_turn worker memory) (hsound.turn worker memory).2
  | runUntilIdle worker memory limit =>
      exact h.of_created (created_turns worker memory limit)
        (hsound.step_runUntilIdle worker memory limit).2

theorem Numbered.run {known : Machine → Prop} (h : shop.Numbered) (hsound : shop.Sound)
    (hvalid : ∀ machine, known machine → machine.violations = [])
    (hdistinct : ∀ machine other, known machine → known other →
      other.contentHash = machine.contentHash → other = machine)
    (hknown : ∀ id machine, (id, machine) ∈ shop.created → known machine)
    (hduties : ∀ machine, .create machine ∈ duties → known machine)
    (hroom : shop.site.issued + (duties.map cost).sum ≤ 2 ^ 128) : (shop.run duties).Numbered := by
  induction duties generalizing shop with
  | nil => exact h
  | cons duty rest ih =>
      rw [List.map_cons, List.sum_cons] at hroom
      have hstep : (shop.step duty).Numbered := h.step hsound (by omega)
      obtain ⟨hlater, hdraws, hknownLater⟩ := hsound.step hvalid hdistinct hknown duty
        (fun machine heq => hduties machine (heq ▸ List.mem_cons_self)) hstep.nodup
      have habove := hdraws.above
      exact ih hstep hlater hknownLater
        (fun machine hmem => hduties machine (List.mem_cons_of_mem _ hmem)) (by omega)

theorem Sound.inOrder (h : shop.Sound) : shop.InOrder := by
  refine ⟨(List.nodup_append.mp h.nodup).2.1, ?_, ?_, ?_⟩
  · intro task hmem
    obtain ⟨executor, machine, name, hcreated, hwaits⟩ := h.pending task hmem
    obtain ⟨state, hstate, hresource⟩ := hwaits.atTask
    have hdefinition : ∀ executorId issued,
        Stage.definition { executor := { executor with executorId }, site := { shop.site with issued } } =
          .ok machine { executor := { executor with executorId }, site := { shop.site with issued } } := by
      intro executorId issued
      obtain ⟨id, hstands⟩ := hwaits.stands_hydrated executorId issued
      exact Stage.definition_of_stands hstands
    have hrenamed : ∀ executorId : String,
        Executor.executionId { executor with executorId } = executor.executionId := fun _ => rfl
    exact ⟨executor.executionId, owner?_of_waits hwaits, machine, _, _, name, state, hcreated,
      hwaits.hydrate rfl rfl, hrenamed _, hdefinition _ _, hwaits.current_hydrated, hstate, hresource⟩
  · intro id machine hmem hdispatched
    rcases h.settled id machine hmem with howner | hfinished
    · left
      rcases List.mem_append.mp howner with hwaiting | hqueued
      · obtain ⟨executor, hexecutor, heq⟩ := List.mem_map.mp hwaiting
        exact absurd (Option.some.inj heq) (hdispatched executor hexecutor)
      · exact List.mem_map.mp hqueued
    · exact .inr hfinished
  · intro ρ ε worker memory
    rcases h.runNext worker memory with hidle | ⟨after, rest, id, progress, hrun, _⟩
    · exact ⟨_, _, hidle⟩
    · exact ⟨_, _, hrun⟩

/-- Executions have identifiers of their own, as long as there are enough of them. -/
theorem nodup_created_run (central : Bool)
    (hvalid : ∀ machine, .create machine ∈ duties → machine.violations = [])
    (hdistinct : ∀ machine other, .create machine ∈ duties → .create other ∈ duties →
      other.contentHash = machine.contentHash → other = machine)
    (hroom : (duties.map cost).sum ≤ 2 ^ 128) :
    (((start central).run duties).created.map (·.1)).Nodup := by
  have hstart : (start central).Numbered :=
    { nodup := List.nodup_nil
      drawn := fun _ hmem => absurd hmem List.not_mem_nil }
  have hissued : (start central).site.issued = 0 := rfl
  refine (hstart.run (sound_start central) hvalid hdistinct created_start (fun _ hmem => hmem) ?_).nodup
  omega

/-- At a workshop the queue and the executions agree, whoever comes to work there and whatever the
work comes to, if all machines are valid, no two of them have one digest, and no two executions have
one identifier. -/
theorem inOrder_run (central : Bool)
    (hvalid : ∀ machine, .create machine ∈ duties → machine.violations = [])
    (hdistinct : ∀ machine other, .create machine ∈ duties → .create other ∈ duties →
      other.contentHash = machine.contentHash → other = machine)
    (hfresh : (((start central).run duties).created.map (·.1)).Nodup) :
    ((start central).run duties).InOrder := by
  apply Sound.inOrder
  exact (sound_start central).run hvalid hdistinct created_start (fun _ hmem => hmem) hfresh

end Runs

/-- Two errands, of which a worker who fails takes the one that was dispatched first. -/
def errands : List Duty :=
  [.create .errand, .create .errand, .dispatch 1 .null, .dispatch 0 .null,
    .runNext Worker.hopeless (), .runUntilIdle Worker.hopeless () 5]

theorem inOrder_errands : ((start true).run errands).InOrder := by
  have honly : ∀ machine, .create machine ∈ errands → machine = .errand := by
    intro machine hmem
    simpa [errands] using hmem
  have hvalid : ∀ machine, .create machine ∈ errands → machine.violations = [] := by
    intro machine hmem
    rw [honly machine hmem]
    exact Machine.violations_errand
  have hdistinct : ∀ machine other, .create machine ∈ errands → .create other ∈ errands →
      other.contentHash = machine.contentHash → other = machine := by
    intro machine other hmem hother _
    rw [honly machine hmem, honly other hother]
  exact inOrder_run true hvalid hdistinct (nodup_created_run true hvalid hdistinct (by decide))

end Workflow.Workshop
