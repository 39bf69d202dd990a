import Workflow.Proofs.Definition.References
import Workflow.Proofs.Store.Library
import Workflow.Store.Layers

/-!
# A shelf that is read first

A store that reads another shelf first answers like the store without that shelf, whatever is asked
of it and whenever the shelf is cleared: what stands on the shelf is what the store would find at home.
-/

namespace Workflow

/-- What can be asked of a definition store. -/
inductive StoreCall where
  | put (machine : Machine)
  | hydrate (id : String)
  | exportSlice
  | importSlice (slice : Slice)

inductive StoreAnswer where
  | stored (id : String)
  | hydrated (machine : Except ComponentError Machine)
  | exported (slice : Slice)
  | imported (outcome : Except ContextError Unit)

/-- A step in the life of a store: a call, or the clearing of the shelf that it reads first. -/
inductive CacheStep where
  | call (call : StoreCall)
  | clear

def CacheStep.isCall : CacheStep → Bool
  | .call _ => true
  | .clear => false

/-- The machine that a step puts into the store. -/
def CacheStep.machine? : CacheStep → Option Machine
  | .call (.put machine) => some machine
  | _ => none

/-- A definition store and the library that its shelves are in. -/
structure Archive where
  store : DefinitionStore
  library : Library

namespace Archive

def serve (archive : Archive) : StoreCall → StoreAnswer × Archive
  | .put machine =>
    let (id, library) := archive.store.put machine archive.library
    (.stored id, { archive with library })
  | .hydrate id =>
    let (machine, library) := archive.store.hydrate id archive.library
    (.hydrated machine, { archive with library })
  | .exportSlice => (.exported archive.store.slice, archive)
  | .importSlice slice =>
    match archive.store.adopt slice with
    | .ok store => (.imported (.ok ()), { archive with store })
    | .error error => (.imported (.error error), archive)

def cleared (archive : Archive) : Archive :=
  match archive.store.front with
  | some front => { archive with library := archive.library.clear front }
  | none => archive

/-- The answers to the calls among some steps, and the archive after them. -/
def run (archive : Archive) : List CacheStep → List StoreAnswer × Archive
  | [] => ([], archive)
  | .clear :: rest => archive.cleared.run rest
  | .call call :: rest =>
    let (answer, archive) := archive.serve call
    let (answers, archive) := archive.run rest
    (answer :: answers, archive)

section Serve

variable (archive : Archive) (machine : Machine) (id : String) (slice : Slice)

theorem serve_put :
    archive.serve (.put machine) =
      (.stored (archive.store.put machine archive.library).1,
        { archive with library := (archive.store.put machine archive.library).2 }) :=
  rfl

theorem serve_hydrate :
    archive.serve (.hydrate id) =
      (.hydrated (archive.store.hydrate id archive.library).1,
        { archive with library := (archive.store.hydrate id archive.library).2 }) :=
  rfl

theorem serve_exportSlice :
    archive.serve .exportSlice = (.exported archive.store.slice, archive) :=
  rfl

theorem serve_importSlice :
    archive.serve (.importSlice slice) =
      match slice.getAs? .text DefinitionStore.locationKey with
      | .ok location => (.imported (.ok ()), { archive with store.location := location })
      | .error error => (.imported (.error error), archive) := by
  change (match archive.store.adopt slice with
    | .ok store => (StoreAnswer.imported (.ok ()), { archive with store })
    | .error error => (StoreAnswer.imported (.error error), archive)) = _
  rw [DefinitionStore.adopt_eq]
  cases slice.getAs? .text DefinitionStore.locationKey <;> rfl

end Serve

/-- Whether an archive is another one but for a shelf that it reads first, on which stands only what is at
home. -/
structure Fronts (cached plain : Archive) (front : String) : Prop where
  store : cached.store = { plain.store with front := some front }
  unfronted : plain.store.front = none
  apart : front ≠ plain.store.home
  home : ∀ id, cached.library.find? plain.store.home id = plain.library.find? plain.store.home id
  coherent : ∀ id machine, cached.library.find? front id = some machine →
    plain.library.find? plain.store.home id = some machine

namespace Fronts

variable {cached plain : Archive} {front : String}

theorem cleared (h : cached.Fronts plain front) : cached.cleared.Fronts plain front := by
  have hcleared : cached.cleared = { cached with library := cached.library.clear front } := by
    unfold Archive.cleared
    rw [h.store]
  rw [hcleared]
  refine { h with home := fun id => ?_, coherent := fun id machine hfind => ?_ }
  · change (cached.library.clear front).find? _ id = _
    rw [Library.find?_clear, if_neg h.apart.symm, h.home]
  · change (cached.library.clear front).find? _ id = _ at hfind
    rw [Library.find?_clear, if_pos rfl] at hfind
    cases hfind

/-- Storing a machine is answered alike and keeps both shelves in agreement, unless another machine is
stored under its digest. -/
theorem put (h : cached.Fronts plain front) {machine : Machine}
    (hsole : ∀ found, plain.library.find? plain.store.home machine.contentHash = some found →
      found = machine) :
    (cached.serve (.put machine)).1 = (plain.serve (.put machine)).1 ∧
      (cached.serve (.put machine)).2.Fronts (plain.serve (.put machine)).2 front := by
  have hplain := DefinitionStore.put_eq h.unfronted machine
  have hcached : cached.store.put machine =
      Library.putThrough front machine (plain.store.put machine) := by
    rw [h.store, DefinitionStore.put_eq_putThrough rfl, ← h.unfronted]
  rw [serve_put, serve_put, hcached]
  unfold Library.putThrough
  rw [hplain, hplain]
  refine ⟨rfl, { h with home := fun id => ?_, coherent := fun id found hfind => ?_ }⟩
  · simp only [Library.find?_insertIfAbsent, h.apart.symm, h.home, false_and, if_false]
  · simp only [Library.find?_insertIfAbsent, h.apart, false_and, if_false, true_and] at hfind ⊢
    split at hfind
    · rename_i heq
      rw [if_pos heq]
      cases hfront : cached.library.find? front machine.contentHash with
      | some earlier =>
          rw [hfront] at hfind
          rw [h.coherent _ _ hfront]
          exact hfind
      | none =>
          rw [hfront] at hfind
          cases hhome : plain.library.find? plain.store.home machine.contentHash with
          | none => exact hfind
          | some stored =>
              rw [hsole stored hhome]
              exact hfind
    · rename_i hne
      rw [if_neg hne]
      exact h.coherent id found hfind

/-- A look-up is answered alike, from the shelf or from home. -/
theorem hydrate (h : cached.Fronts plain front) (id : String) :
    (cached.serve (.hydrate id)).1 = (plain.serve (.hydrate id)).1 ∧
      (cached.serve (.hydrate id)).2.Fronts (plain.serve (.hydrate id)).2 front := by
  have hcached : cached.store.hydrate id =
      Library.readThrough front id (plain.store.hydrate id) := by
    rw [h.store, DefinitionStore.hydrate_eq_readThrough rfl, ← h.unfronted]
  rw [serve_hydrate, serve_hydrate, hcached]
  unfold Library.readThrough
  cases hfront : cached.library.find? front id with
  | some machine =>
      rw [DefinitionStore.hydrate_of_found h.unfronted (h.coherent id machine hfront)]
      exact ⟨rfl, h⟩
  | none =>
      cases hhome : plain.library.find? plain.store.home id with
      | none =>
          rw [DefinitionStore.hydrate_of_missing h.unfronted hhome,
            DefinitionStore.hydrate_of_missing h.unfronted ((h.home id).trans hhome)]
          exact ⟨rfl, h⟩
      | some machine =>
          rw [DefinitionStore.hydrate_of_found h.unfronted hhome,
            DefinitionStore.hydrate_of_found h.unfronted ((h.home id).trans hhome)]
          refine ⟨rfl, { h with home := fun other => ?_, coherent := fun other found hfind => ?_ }⟩
          · rw [Library.find?_insert, if_neg fun hname => h.apart hname.1.symm, h.home]
          · rw [Library.find?_insert] at hfind
            split at hfind
            · rename_i heq
              rw [heq.2, hhome]
              exact hfind
            · exact h.coherent other found hfind

theorem exportSlice (h : cached.Fronts plain front) :
    (cached.serve .exportSlice).1 = (plain.serve .exportSlice).1 ∧
      (cached.serve .exportSlice).2.Fronts (plain.serve .exportSlice).2 front := by
  rw [serve_exportSlice, serve_exportSlice]
  refine ⟨?_, h⟩
  rw [h.store]
  rfl

theorem importSlice (h : cached.Fronts plain front) (slice : Slice) :
    (cached.serve (.importSlice slice)).1 = (plain.serve (.importSlice slice)).1 ∧
      (cached.serve (.importSlice slice)).2.Fronts (plain.serve (.importSlice slice)).2 front := by
  rw [serve_importSlice, serve_importSlice]
  cases slice.getAs? .text DefinitionStore.locationKey with
  | error error => exact ⟨rfl, h⟩
  | ok location =>
      refine ⟨rfl, { h with store := ?_ }⟩
      rw [h.store]

/-- Every call is answered alike and keeps the shelf in agreement with home. -/
theorem serve (h : cached.Fronts plain front) (call : StoreCall)
    (hsole : ∀ machine, call = .put machine → ∀ found,
      plain.library.find? plain.store.home machine.contentHash = some found → found = machine) :
    (cached.serve call).1 = (plain.serve call).1 ∧
      (cached.serve call).2.Fronts (plain.serve call).2 front := by
  cases call with
  | put machine => exact h.put (hsole machine rfl)
  | hydrate id => exact h.hydrate id
  | exportSlice => exact h.exportSlice
  | importSlice slice => exact h.importSlice slice

end Fronts

theorem home_serve (archive : Archive) (call : StoreCall) :
    (archive.serve call).2.store.home = archive.store.home := by
  cases call with
  | importSlice slice =>
      rw [serve_importSlice]
      cases slice.getAs? .text DefinitionStore.locationKey <;> rfl
  | _ => rfl

theorem home_run (archive : Archive) (steps : List CacheStep) :
    (archive.run steps).2.store.home = archive.store.home := by
  induction steps generalizing archive with
  | nil => rfl
  | cons step rest ih =>
      cases step with
      | call call => exact (ih _).trans (archive.home_serve call)
      | clear =>
          refine (ih _).trans ?_
          unfold cleared
          split <;> rfl

/-- What a plain store holds after a call was there before or was put in by the call. -/
theorem holdsOnly_serve {plain : Archive} (hplain : plain.store.front = none)
    {known : Machine → Prop} (hholds : plain.library.HoldsOnly plain.store.home known)
    (call : StoreCall) (hput : ∀ machine, call = .put machine → known machine) :
    (plain.serve call).2.library.HoldsOnly plain.store.home known := by
  cases call with
  | put machine =>
      rw [serve_put, DefinitionStore.put_eq hplain]
      exact hholds.insertIfAbsent (fun _ hknown => hknown) (hput machine rfl)
  | hydrate id =>
      rw [serve_hydrate, DefinitionStore.hydrate_of_plain hplain]
      exact hholds
  | exportSlice => exact hholds
  | importSlice slice =>
      rw [serve_importSlice]
      cases slice.getAs? .text DefinitionStore.locationKey <;> exact hholds

/-- A whole run is answered alike, whenever the shelf is cleared, if no two machines that the run meets
have one digest. -/
theorem Fronts.run {cached plain : Archive} {front : String} (h : cached.Fronts plain front)
    {known : Machine → Prop} (hholds : plain.library.HoldsOnly plain.store.home known)
    (hdistinct : ∀ first, known first → ∀ second, known second →
      first.contentHash = second.contentHash → first = second)
    {steps : List CacheStep} (hput : ∀ machine ∈ steps.filterMap (·.machine?), known machine) :
    (cached.run steps).1 = (plain.run (steps.filter (·.isCall))).1 ∧
      (cached.run steps).2.Fronts (plain.run (steps.filter (·.isCall))).2 front := by
  induction steps generalizing cached plain with
  | nil => exact ⟨rfl, h⟩
  | cons step rest ih =>
      cases step with
      | clear => exact ih h.cleared hholds hput
      | call call =>
          have hlater : ∀ machine ∈ rest.filterMap (·.machine?), known machine := by
            intro machine hmachine
            obtain ⟨step, hstep, hfound⟩ := List.mem_filterMap.mp hmachine
            exact hput machine
              (List.mem_filterMap.mpr ⟨step, List.mem_cons_of_mem _ hstep, hfound⟩)
          have hcall : ∀ machine, call = .put machine → known machine := by
            rintro machine rfl
            exact hput machine (List.mem_filterMap.mpr ⟨_, List.mem_cons_self, rfl⟩)
          have hsole : ∀ machine, call = .put machine → ∀ found,
              plain.library.find? plain.store.home machine.contentHash = some found →
                found = machine := by
            intro machine hmachine found hfind
            obtain ⟨hdigest, hknown⟩ := hholds _ found hfind
            exact hdistinct found hknown machine (hcall machine hmachine) hdigest
          obtain ⟨hanswer, hserved⟩ := h.serve call hsole
          have hkept := holdsOnly_serve h.unfronted hholds call hcall
          rw [← plain.home_serve call] at hkept
          obtain ⟨hanswers, hrun⟩ := ih hserved hkept hlater
          exact ⟨congrArg₂ List.cons hanswer hanswers, hrun⟩

/-- Behind a shelf that is read first, which was empty and is cleared now and then, a store answers every
call as it does without, and comes to hold the same definitions at the same location. No two machines of
those stored before and those put in have one digest. -/
theorem run_fronted_agrees_run_plain {store : DefinitionStore} (hplain : store.front = none)
    {front : String} (hapart : front ≠ store.home) {library : Library}
    (hempty : library.shelf front = .empty) {stored : List Machine}
    (hholds : library.HoldsOnly store.home (· ∈ stored)) {steps : List CacheStep}
    (hdistinct : ∀ first ∈ stored ++ steps.filterMap (·.machine?),
      ∀ second ∈ stored ++ steps.filterMap (·.machine?),
        first.contentHash = second.contentHash → first = second) :
    let fronted := run { store := { store with front := some front }, library } steps
    let plain := run { store, library } (steps.filter (·.isCall))
    fronted.1 = plain.1 ∧
      fronted.2.library.shelf store.home = plain.2.library.shelf store.home ∧
      fronted.2.store.location = plain.2.store.location := by
  intro fronted plain
  have hstart : Fronts { store := { store with front := some front }, library }
      { store, library } front := by
    refine ⟨rfl, hplain, hapart, fun _ => rfl, fun id machine hfind => ?_⟩
    change (library.shelf front).get? id = some machine at hfind
    rw [hempty] at hfind
    cases hfind
  have hknown : library.HoldsOnly store.home (· ∈ stored ++ steps.filterMap (·.machine?)) := by
    intro digest machine hfind
    obtain ⟨hdigest, hstored⟩ := hholds digest machine hfind
    exact ⟨hdigest, List.mem_append_left _ hstored⟩
  have hput : ∀ machine ∈ steps.filterMap (·.machine?),
      machine ∈ stored ++ steps.filterMap (·.machine?) :=
    fun _ hmachine => List.mem_append_right _ hmachine
  obtain ⟨hanswers, hfronts⟩ := hstart.run hknown hdistinct hput
  refine ⟨hanswers, Dict.ext_get? fun id => ?_, ?_⟩
  · have hhome : plain.2.store.home = store.home := home_run { store, library } _
    have hfind := hfronts.home id
    rw [hhome] at hfind
    exact hfind
  · rw [hfronts.store]

/-- A machine that was stored before is put in again, and the shelf is cleared before it is looked up. -/
def borrowing : List CacheStep :=
  [.call (.put .errand), .clear, .call (.hydrate Machine.errand.contentHash),
    .call (.importSlice (.ofList [("location", .text "bucket")])),
    .call (.importSlice (.ofList [("location", .emptyObject)])), .call (.hydrate "unknown"), .clear,
    .call .exportSlice]

/-- A library with one machine on one shelf. -/
def lending : Library :=
  Library.empty.insertIfAbsent homeShelf Machine.errand.contentHash .errand

theorem run_fronted_agrees_run_plain_errand :
    lending.shelf "cache" = .empty ∧ lending.HoldsOnly homeShelf (· ∈ [Machine.errand]) ∧
      (∀ first ∈ [Machine.errand] ++ borrowing.filterMap (·.machine?),
        ∀ second ∈ [Machine.errand] ++ borrowing.filterMap (·.machine?),
          first.contentHash = second.contentHash → first = second) ∧
      (run { store := { DefinitionStore.plain homeShelf with front := some "cache" },
              library := lending } borrowing).1 =
        (run { store := .plain homeShelf, library := lending }
          (borrowing.filter (·.isCall))).1 := by
  have hapart : "cache" ≠ (DefinitionStore.plain homeShelf).home := by decide
  have hempty : lending.shelf "cache" = .empty := by
    unfold lending Library.insertIfAbsent
    rw [Library.shelf_place, if_neg (by decide)]
    rfl
  have hnothing : Library.empty.HoldsOnly homeShelf fun _ => False :=
    fun _ _ hfind => nomatch hfind
  have hholds : lending.HoldsOnly homeShelf (· ∈ [Machine.errand]) :=
    hnothing.insertIfAbsent (fun _ hknown => hknown.elim) List.mem_cons_self
  have honly : ∀ machine ∈ [Machine.errand] ++ borrowing.filterMap (·.machine?),
      machine = .errand := by
    intro machine hmachine
    have hboth : machine ∈ [Machine.errand, .errand] := hmachine
    simpa using hboth
  have hdistinct : ∀ first ∈ [Machine.errand] ++ borrowing.filterMap (·.machine?),
      ∀ second ∈ [Machine.errand] ++ borrowing.filterMap (·.machine?),
        first.contentHash = second.contentHash → first = second := by
    intro first hfirst second hsecond _
    rw [honly first hfirst, honly second hsecond]
  exact ⟨hempty, hholds, hdistinct,
    (run_fronted_agrees_run_plain rfl hapart hempty hholds hdistinct).1⟩

end Archive

end Workflow
