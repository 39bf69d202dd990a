import Workflow.Proofs.Dict
import Workflow.Store.Definitions

/-!
# What a library holds

A definition that is stored once is found from then on, and storing another one changes no look-up
but its own.
-/

namespace Workflow

namespace Library

variable (library : Library) (name other id found : String) (machine : Machine)

theorem shelf_place (shelf : Shelf) :
    (library.place name shelf).shelf other = if other = name then shelf else library.shelf other := by
  unfold place Library.shelf
  rw [Dict.get?_insert]
  split <;> rfl

theorem find?_insert :
    (library.insert name id machine).find? other found =
      if other = name ∧ found = id then some machine else library.find? other found := by
  unfold find? insert
  rw [shelf_place]
  by_cases hname : other = name
  · subst hname
    rw [if_pos rfl, Dict.get?_insert]
    simp only [true_and]
  · rw [if_neg hname, if_neg fun h => hname h.1]

theorem find?_insertIfAbsent :
    (library.insertIfAbsent name id machine).find? other found =
      if other = name ∧ found = id then some ((library.find? name id).getD machine)
      else library.find? other found := by
  unfold find? insertIfAbsent
  rw [shelf_place]
  by_cases hname : other = name
  · subst hname
    rw [if_pos rfl, Dict.get?_insertIfAbsent]
    simp only [true_and]
  · rw [if_neg hname, if_neg fun h => hname h.1]

theorem find?_clear :
    (library.clear name).find? other found =
      if other = name then none else library.find? other found := by
  unfold find? clear
  rw [shelf_place]
  split <;> rfl

/-- What is found in the one library is found in the other. -/
def Extends (before after : Library) : Prop :=
  ∀ name id machine, before.find? name id = some machine → after.find? name id = some machine

theorem extends_insertIfAbsent : library.Extends (library.insertIfAbsent name id machine) := by
  intro other digest before hbefore
  rw [find?_insertIfAbsent]
  split
  · rename_i heq
    obtain ⟨rfl, rfl⟩ := heq
    rw [hbefore, Option.getD_some]
  · exact hbefore

/-- Whether a shelf holds certain machines only, each under its digest. -/
def HoldsOnly (library : Library) (name : String) (known : Machine → Prop) : Prop :=
  ∀ digest machine, library.find? name digest = some machine →
    machine.contentHash = digest ∧ known machine

variable {library name machine}

theorem HoldsOnly.insertIfAbsent {known later : Machine → Prop} (h : library.HoldsOnly name known)
    (hlater : ∀ machine, known machine → later machine) (hnew : later machine) :
    (library.insertIfAbsent name machine.contentHash machine).HoldsOnly name later := by
  intro digest found hfound
  have hold : library.find? name digest = some found → found.contentHash = digest ∧ later found := by
    intro hbefore
    obtain ⟨hdigest, hknown⟩ := h digest found hbefore
    exact ⟨hdigest, hlater found hknown⟩
  rw [find?_insertIfAbsent] at hfound
  split at hfound
  · rename_i heq
    cases hbefore : library.find? name machine.contentHash with
    | none =>
        rw [hbefore] at hfound
        obtain rfl : machine = found := Option.some.inj hfound
        exact ⟨heq.2.symm, hnew⟩
    | some before =>
        rw [hbefore] at hfound
        obtain rfl : before = found := Option.some.inj hfound
        rw [heq.2] at hold ⊢
        exact hold hbefore
  · exact hold hfound

/-- Storing a machine at both keeps the one library within the other, if no other machine has its
digest. -/
theorem Extends.insertIfAbsent {before after : Library} {known : Machine → Prop}
    (h : before.Extends after) (hholds : after.HoldsOnly name known)
    (hsame : ∀ other, known other → other.contentHash = machine.contentHash → other = machine) :
    (before.insertIfAbsent name machine.contentHash machine).Extends
      (after.insertIfAbsent name machine.contentHash machine) := by
  intro shelf digest found hfound
  rw [find?_insertIfAbsent] at hfound ⊢
  split at hfound
  · rename_i heq
    rw [if_pos heq]
    cases hbefore : before.find? name machine.contentHash with
    | some earlier =>
        rw [hbefore] at hfound
        rw [h _ _ _ hbefore]
        exact hfound
    | none =>
        rw [hbefore] at hfound
        obtain rfl : machine = found := Option.some.inj hfound
        cases hafter : after.find? name machine.contentHash with
        | none => rfl
        | some other =>
            obtain ⟨hdigest, hknown⟩ := hholds _ _ hafter
            rw [hsame other hknown hdigest]
            rfl
  · rename_i hne
    rw [if_neg hne]
    exact h _ _ _ hfound

end Library

namespace DefinitionStore

variable {store : DefinitionStore}

theorem hydrate_of_found (hfront : store.front = none) {id : String} {library : Library}
    {machine : Machine} (hfind : library.find? store.home id = some machine) :
    store.hydrate id library = (.ok machine, library) := by
  unfold hydrate
  rw [hfront, hfind]
  rfl

theorem hydrate_of_missing (hfront : store.front = none) {id : String} {library : Library}
    (hfind : library.find? store.home id = none) :
    store.hydrate id library = (.error (.definitionNotFound id), library) := by
  unfold hydrate
  rw [hfront, hfind]
  rfl

theorem find?_of_hydrate (hfront : store.front = none)
    {id : String} {library : Library} {machine : Machine}
    (h : (store.hydrate id library).1 = .ok machine) :
    library.find? store.home id = some machine := by
  unfold hydrate at h
  rw [hfront] at h
  cases hfind : library.find? store.home id with
  | none =>
      simp only [hfind, Option.bind_none] at h
      cases h
  | some found =>
      simp only [hfind, Option.bind_none] at h
      cases h
      rfl

theorem hydrate_of_plain (hfront : store.front = none) (id : String)
    (library : Library) : (store.hydrate id library).2 = library := by
  unfold hydrate
  rw [hfront]
  cases library.find? store.home id <;> rfl

theorem put_eq (hfront : store.front = none) (machine : Machine) (library : Library) :
    store.put machine library =
      (machine.contentHash, library.insertIfAbsent store.home machine.contentHash machine) := by
  unfold put
  rw [hfront]

/-- A store takes over the location of a slice and nothing else. -/
theorem adopt_eq (store : DefinitionStore) (slice : Slice) :
    store.adopt slice =
      (slice.getAs? .text locationKey).map fun location => { store with location } := by
  unfold adopt
  cases slice.getAs? .text locationKey <;> rfl

end DefinitionStore

end Workflow
