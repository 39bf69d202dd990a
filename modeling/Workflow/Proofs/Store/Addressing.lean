import Mathlib.Data.List.Basic
import Workflow.Proofs.Definition.References
import Workflow.Proofs.Store.Library
import Workflow.Store.Layers

/-!
# Definitions under their digests

Stores can share shelves in any way, as the shelf that one of them holds its definitions on and as one
that another reads first. Whatever is asked of them, every definition stands under its own digest, and
what was put into a store is found there until its shelf is cleared.
-/

namespace Workflow

namespace Library

section LookUps

variable {lookUp : Library → Except ComponentError Machine × Library} {id home : String}

/-- Whether a look-up answers what stands on some shelf under an identifier, in any case if that is so at
home, and puts nothing but its answer on any shelf. -/
structure IsLookUp (lookUp : Library → Except ComponentError Machine × Library) (id home : String) :
    Prop where
  stands : ∀ library machine, (lookUp library).1 = .ok machine →
    ∃ shelf, library.find? shelf id = some machine
  answers : ∀ library, library.find? home id ≠ none → ∃ machine, (lookUp library).1 = .ok machine
  grows : ∀ library : Library, library.Extends (lookUp library).2
  adds : ∀ library shelf digest machine, (lookUp library).2.find? shelf digest = some machine →
    library.find? shelf digest = some machine ∨ digest = id ∧ (lookUp library).1 = .ok machine

/-- Behind a shelf a look-up stays one. -/
theorem IsLookUp.readThrough (h : IsLookUp lookUp id home) (shelf : String) :
    IsLookUp (readThrough shelf id lookUp) id home := by
  refine ⟨?stands, ?answers, ?grows, ?adds⟩
  case stands =>
    intro library machine hanswer
    rcases readThrough_cases shelf id lookUp library with
      ⟨found, hshelf, hread⟩ | ⟨-, ⟨found, hfound, hread⟩ | ⟨error, -, hread⟩⟩
    · rw [hread] at hanswer
      cases hanswer
      exact ⟨shelf, hshelf⟩
    · rw [hread] at hanswer
      cases hanswer
      exact h.stands library machine hfound
    · rw [hread] at hanswer
      cases hanswer
  case answers =>
    intro library hhome
    rcases readThrough_cases shelf id lookUp library with
      ⟨found, -, hread⟩ | ⟨-, ⟨found, -, hread⟩ | ⟨error, hmissing, -⟩⟩
    · exact ⟨found, by rw [hread]⟩
    · exact ⟨found, by rw [hread]⟩
    · obtain ⟨machine, hanswer⟩ := h.answers library hhome
      cases hanswer.symm.trans hmissing
  case grows =>
    intro library other digest machine hbefore
    rcases readThrough_cases shelf id lookUp library with
      ⟨found, -, hread⟩ | ⟨hshelf, ⟨found, -, hread⟩ | ⟨error, -, hread⟩⟩
    · rwa [hread]
    · -- Nothing stood where the answer is put.
      have helsewhere : ¬(other = shelf ∧ digest = id) := by
        rintro ⟨rfl, rfl⟩
        cases hbefore.symm.trans hshelf
      rw [hread, find?_insert, if_neg helsewhere]
      exact h.grows library other digest machine hbefore
    · rw [hread]
      exact h.grows library other digest machine hbefore
  case adds =>
    intro library other digest machine hafter
    rcases readThrough_cases shelf id lookUp library with
      ⟨found, -, hread⟩ | ⟨-, ⟨found, hfound, hread⟩ | ⟨error, hmissing, hread⟩⟩
    · rw [hread] at hafter
      exact .inl hafter
    · rw [hread] at hafter ⊢
      have hbehind := h.adds library other digest machine
      rw [hfound] at hbehind
      rw [find?_insert] at hafter
      split at hafter
      · rename_i heq
        cases hafter
        exact .inr ⟨heq.2, rfl⟩
      · exact hbehind hafter
    · rw [hread] at hafter ⊢
      have hbehind := h.adds library other digest machine hafter
      rwa [hmissing] at hbehind

end LookUps

section Puts

variable {put : Library → String × Library} {machine : Machine} {home : String}

/-- Whether a way to store a machine answers its digest, puts it at home unless something stands there, and
puts nothing but the machine on any shelf. -/
structure IsPut (put : Library → String × Library) (machine : Machine) (home : String) : Prop where
  answers : ∀ library, (put library).1 = machine.contentHash
  shelves : ∀ library, (put library).2.find? home machine.contentHash ≠ none
  grows : ∀ library : Library, library.Extends (put library).2
  adds : ∀ library shelf digest found, (put library).2.find? shelf digest = some found →
    library.find? shelf digest = some found ∨ digest = machine.contentHash ∧ found = machine

theorem Extends.trans {first second third : Library} (h : first.Extends second)
    (hnext : second.Extends third) : first.Extends third :=
  fun name id machine hfind => hnext name id machine (h name id machine hfind)

/-- On a shelf comes at the most the machine that is stored there. -/
theorem of_find?_insertIfAbsent {library : Library} {shelf other id digest : String}
    {machine found : Machine}
    (h : (library.insertIfAbsent shelf id machine).find? other digest = some found) :
    library.find? other digest = some found ∨ digest = id ∧ found = machine := by
  rw [find?_insertIfAbsent] at h
  split at h
  · rename_i heq
    obtain ⟨rfl, rfl⟩ := heq
    cases hbefore : library.find? other digest with
    | none =>
        rw [hbefore] at h
        exact .inr ⟨rfl, (Option.some.inj h).symm⟩
    | some before =>
        rw [hbefore] at h
        exact .inl h
  · exact .inl h

/-- Behind a shelf a way to store a machine stays one. -/
theorem IsPut.putThrough (h : IsPut put machine home) (shelf : String) :
    IsPut (putThrough shelf machine put) machine home := by
  have hthrough : ∀ library : Library, Library.putThrough shelf machine put library =
      (machine.contentHash,
        (put library).2.insertIfAbsent shelf machine.contentHash machine) := by
    intro library
    rw [← h.answers library]
    rfl
  refine ⟨?answers, ?shelves, ?grows, ?adds⟩
  case answers =>
    intro library
    rw [hthrough]
  case shelves =>
    intro library
    rw [hthrough]
    obtain ⟨found, hfound⟩ := Option.ne_none_iff_exists'.mp (h.shelves library)
    rw [extends_insertIfAbsent _ shelf machine.contentHash machine home _ found hfound]
    exact Option.some_ne_none found
  case grows =>
    intro library
    rw [hthrough]
    exact (h.grows library).trans (extends_insertIfAbsent _ _ _ _)
  case adds =>
    intro library other digest found hafter
    rw [hthrough] at hafter
    rcases of_find?_insertIfAbsent hafter with hbefore | hnew
    · exact h.adds library other digest found hbefore
    · exact .inr hnew

end Puts

end Library

namespace DefinitionStore

variable (store : DefinitionStore)

theorem isLookUp_of_plain {store : DefinitionStore} (hplain : store.front = none) (id : String) :
    Library.IsLookUp (store.hydrate id) id store.home := by
  refine ⟨fun library machine hanswer => ?_, fun library hhome => ?_, fun library => ?_,
    fun library shelf digest machine hafter => ?_⟩
  · exact ⟨store.home, find?_of_hydrate hplain hanswer⟩
  · obtain ⟨machine, hfind⟩ := Option.ne_none_iff_exists'.mp hhome
    exact ⟨machine, by rw [hydrate_of_found hplain hfind]⟩
  · rw [hydrate_of_plain hplain]
    exact fun _ _ _ hbefore => hbefore
  · rw [hydrate_of_plain hplain] at hafter
    exact .inl hafter

theorem isPut_of_plain {store : DefinitionStore} (hplain : store.front = none)
    (machine : Machine) : Library.IsPut (store.put machine) machine store.home := by
  refine ⟨fun library => ?_, fun library => ?_, fun library => ?_,
    fun library shelf digest found hafter => ?_⟩
  · rw [put_eq hplain]
  · rw [put_eq hplain, Library.find?_insertIfAbsent, if_pos ⟨rfl, rfl⟩]
    exact Option.some_ne_none _
  · rw [put_eq hplain]
    exact Library.extends_insertIfAbsent _ _ _ _
  · rw [put_eq hplain] at hafter
    exact Library.of_find?_insertIfAbsent hafter

theorem isLookUp_hydrate (id : String) :
    Library.IsLookUp (store.hydrate id) id store.home := by
  cases hfront : store.front with
  | none => exact isLookUp_of_plain hfront id
  | some front =>
      rw [hydrate_eq_readThrough hfront]
      have hbehind : Library.IsLookUp ({ store with front := none }.hydrate id) id store.home :=
        isLookUp_of_plain rfl id
      exact hbehind.readThrough front

theorem isPut_put (machine : Machine) : Library.IsPut (store.put machine) machine store.home := by
  cases hfront : store.front with
  | none => exact isPut_of_plain hfront machine
  | some front =>
      rw [put_eq_putThrough hfront]
      have hbehind : Library.IsPut ({ store with front := none }.put machine) machine store.home :=
        isPut_of_plain rfl machine
      exact hbehind.putThrough front

end DefinitionStore

namespace LayeredStore

variable (store : LayeredStore)

theorem isLookUp_hydrate (id : String) : Library.IsLookUp (store.hydrate id) id store.home := by
  obtain ⟨inner, outer⟩ := store
  induction outer with
  | nil => exact inner.isLookUp_hydrate id
  | cons shelf rest ih => exact ih.readThrough shelf

theorem isPut_put (machine : Machine) : Library.IsPut (store.put machine) machine store.home := by
  obtain ⟨inner, outer⟩ := store
  induction outer with
  | nil => exact inner.isPut_put machine
  | cons shelf rest ih => exact ih.putThrough shelf

/-- The store once it was pointed to the location of a slice, which fails if that is no location. -/
def pointed (slice : Slice) : LayeredStore :=
  match store.adopt slice with
  | .ok store => store
  | .error _ => store

@[simp]
theorem home_pointed (slice : Slice) : (store.pointed slice).home = store.home := by
  unfold pointed adopt
  rw [DefinitionStore.adopt_eq]
  cases slice.getAs? .text DefinitionStore.locationKey <;> rfl

end LayeredStore

/-- Definition stores that share the shelves of one library. -/
structure Consortium where
  library : Library
  stores : List LayeredStore

/-- What can be asked of a store, by its number, or done to a shelf. -/
inductive Transaction where
  | put (index : Nat) (machine : Machine)
  | hydrate (index : Nat) (id : String)
  | adopt (index : Nat) (slice : Slice)
  | clear (shelf : String)

/-- The machine that is put into a store. -/
def Transaction.machine? : Transaction → Option Machine
  | .put _ machine => some machine
  | _ => none

namespace Consortium

def founded (stores : List LayeredStore) : Consortium :=
  { library := .empty
    stores }

/-- The identifier that a store answers for a machine that is put in. -/
def stored? (shared : Consortium) (index : Nat) (machine : Machine) : Option String :=
  shared.stores[index]?.map fun store => (store.put machine shared.library).1

/-- What a store answers for an identifier. -/
def found? (shared : Consortium) (index : Nat) (id : String) :
    Option (Except ComponentError Machine) :=
  shared.stores[index]?.map fun store => (store.hydrate id shared.library).1

def step (shared : Consortium) : Transaction → Consortium
  | .put index machine =>
    match shared.stores[index]? with
    | some store => { shared with library := (store.put machine shared.library).2 }
    | none => shared
  | .hydrate index id =>
    match shared.stores[index]? with
    | some store => { shared with library := (store.hydrate id shared.library).2 }
    | none => shared
  | .adopt index slice =>
    { shared with stores := shared.stores.modify index (·.pointed slice) }
  | .clear shelf => { shared with library := shared.library.clear shelf }

def run (shared : Consortium) (transactions : List Transaction) : Consortium :=
  transactions.foldl step shared

/-- Whether all shelves hold certain machines only, each under its digest. -/
def IsFiled (shared : Consortium) (known : Machine → Prop) : Prop :=
  ∀ shelf, shared.library.HoldsOnly shelf known

section Step

variable {shared : Consortium} {known : Machine → Prop}

/-- What a transaction can do to the library. -/
theorem library_step_cases (shared : Consortium) (transaction : Transaction) :
    (shared.step transaction).library = shared.library ∨
    (∃ shelf, transaction = .clear shelf ∧
      (shared.step transaction).library = shared.library.clear shelf) ∨
    (∃ (store : LayeredStore) (machine : Machine), transaction.machine? = some machine ∧
      (shared.step transaction).library = (store.put machine shared.library).2) ∨
    ∃ (store : LayeredStore) (id : String),
      (shared.step transaction).library = (store.hydrate id shared.library).2 := by
  cases transaction with
  | adopt index slice => exact .inl rfl
  | clear shelf => exact .inr (.inl ⟨shelf, rfl, rfl⟩)
  | put index machine =>
      unfold step
      cases hstore : shared.stores[index]? with
      | none => exact .inl (by simp only [hstore])
      | some store => exact .inr (.inr (.inl ⟨store, machine, rfl, by simp only [hstore]⟩))
  | hydrate index id =>
      unfold step
      cases hstore : shared.stores[index]? with
      | none => exact .inl (by simp only [hstore])
      | some store => exact .inr (.inr (.inr ⟨store, id, by simp only [hstore]⟩))

theorem isFiled_step (h : shared.IsFiled known) (transaction : Transaction)
    (hput : ∀ machine, transaction.machine? = some machine → known machine) :
    (shared.step transaction).IsFiled known := by
  intro shelf digest machine hfind
  rcases shared.library_step_cases transaction with
    hsame | ⟨cleared, -, hcleared⟩ | ⟨store, stored, hstored, hlibrary⟩ | ⟨store, id, hlibrary⟩
  · rw [hsame] at hfind
    exact h shelf digest machine hfind
  · rw [hcleared, Library.find?_clear] at hfind
    split at hfind
    · cases hfind
    · exact h shelf digest machine hfind
  · rw [hlibrary] at hfind
    rcases (store.isPut_put stored).adds _ _ _ _ hfind with hbefore | ⟨rfl, rfl⟩
    · exact h shelf digest machine hbefore
    · exact ⟨rfl, hput machine hstored⟩
  · rw [hlibrary] at hfind
    have hlookUp := store.isLookUp_hydrate id
    rcases hlookUp.adds _ _ _ _ hfind with hbefore | ⟨rfl, hanswer⟩
    · exact h shelf digest machine hbefore
    · obtain ⟨other, hstands⟩ := hlookUp.stands _ machine hanswer
      exact h other digest machine hstands

/-- What stands on a shelf stays there until the shelf is cleared. -/
theorem find?_step {shelf id : String} {machine : Machine}
    (h : shared.library.find? shelf id = some machine) {transaction : Transaction}
    (hkept : transaction ≠ .clear shelf) :
    (shared.step transaction).library.find? shelf id = some machine := by
  rcases shared.library_step_cases transaction with
    hsame | ⟨cleared, rfl, hcleared⟩ | ⟨store, stored, -, hlibrary⟩ | ⟨store, digest, hlibrary⟩
  · rwa [hsame]
  · have hne : shelf ≠ cleared := fun heq => hkept (congrArg _ heq.symm)
    rwa [hcleared, Library.find?_clear, if_neg hne]
  · rw [hlibrary]
    exact (store.isPut_put stored).grows _ _ _ _ h
  · rw [hlibrary]
    exact (store.isLookUp_hydrate digest).grows _ _ _ _ h

/-- A store keeps its home. -/
theorem homes_step (shared : Consortium) (transaction : Transaction) :
    (shared.step transaction).stores.map (·.home) = shared.stores.map (·.home) := by
  cases transaction with
  | clear shelf => rfl
  | put index machine =>
      unfold step
      cases hstore : shared.stores[index]? <;> simp only [hstore]
  | hydrate index id =>
      unfold step
      cases hstore : shared.stores[index]? <;> simp only [hstore]
  | adopt index slice =>
      change (shared.stores.modify index (·.pointed slice)).map (·.home) = _
      induction shared.stores generalizing index with
      | nil => cases index <;> rfl
      | cons store rest ih => cases index <;> simp [ih]

end Step

section Run

variable {shared : Consortium} {known : Machine → Prop} {transactions : List Transaction}

theorem isFiled_run (h : shared.IsFiled known)
    (hput : ∀ machine ∈ transactions.filterMap (·.machine?), known machine) :
    (shared.run transactions).IsFiled known := by
  induction transactions generalizing shared with
  | nil => exact h
  | cons transaction rest ih =>
      apply ih
      · apply isFiled_step h
        intro machine hmachine
        exact hput machine (List.mem_filterMap.mpr ⟨transaction, List.mem_cons_self, hmachine⟩)
      · intro machine hmachine
        obtain ⟨later, hlater, hfound⟩ := List.mem_filterMap.mp hmachine
        exact hput machine (List.mem_filterMap.mpr ⟨later, List.mem_cons_of_mem _ hlater, hfound⟩)

theorem find?_run {shelf id : String} {machine : Machine}
    (h : shared.library.find? shelf id = some machine) (hkept : .clear shelf ∉ transactions) :
    (shared.run transactions).library.find? shelf id = some machine := by
  induction transactions generalizing shared with
  | nil => exact h
  | cons transaction rest ih =>
      rw [List.mem_cons, not_or] at hkept
      exact ih (find?_step h fun heq => hkept.1 heq.symm) hkept.2

theorem homes_run (shared : Consortium) (transactions : List Transaction) :
    (shared.run transactions).stores.map (·.home) = shared.stores.map (·.home) := by
  induction transactions generalizing shared with
  | nil => rfl
  | cons transaction rest ih => exact (ih (shared.step transaction)).trans (shared.homes_step _)

theorem home_run {stores : List LayeredStore} {index : Nat} {store : LayeredStore}
    (hstore : stores[index]? = some store) (transactions : List Transaction) :
    (((founded stores).run transactions).stores[index]?).map (·.home) = some store.home := by
  rw [← List.getElem?_map, homes_run]
  exact List.getElem?_map.trans (congrArg (Option.map _) hstore)

theorem run_append (shared : Consortium) (earlier later : List Transaction) :
    shared.run (earlier ++ later) = (shared.run earlier).run later :=
  List.foldl_append

/-- What a store answers stands under the identifier on some shelf. -/
theorem exists_find?_of_found? {index : Nat} {id : String} {machine : Machine}
    (h : shared.found? index id = some (.ok machine)) :
    ∃ shelf, shared.library.find? shelf id = some machine := by
  obtain ⟨store, _, hanswer⟩ := Option.map_eq_some_iff.mp h
  exact (store.isLookUp_hydrate id).stands _ machine hanswer

/-- A store answers something for an identifier that stands on its own shelf. -/
theorem exists_found?_of_home {index : Nat} {id home : String}
    (hstore : shared.stores[index]?.map (·.home) = some home)
    (hhome : shared.library.find? home id ≠ none) :
    ∃ machine, shared.found? index id = some (.ok machine) := by
  obtain ⟨store, hfound, rfl⟩ := Option.map_eq_some_iff.mp hstore
  obtain ⟨machine, hanswer⟩ := (store.isLookUp_hydrate id).answers _ hhome
  refine ⟨machine, ?_⟩
  rw [found?, hfound, Option.map_some, hanswer]

/-- A machine that is put in has its digest for an identifier, under which something stands at home from
then on. -/
theorem find?_home_step_put {index : Nat} {machine : Machine} {id home : String}
    (hhome : shared.stores[index]?.map (·.home) = some home)
    (hid : shared.stored? index machine = some id) :
    id = machine.contentHash ∧
      ∃ found, (shared.step (.put index machine)).library.find? home id = some found := by
  obtain ⟨store, hstore, rfl⟩ := Option.map_eq_some_iff.mp hhome
  have hput := store.isPut_put machine
  rw [stored?, hstore, Option.map_some, hput.answers] at hid
  obtain rfl := Option.some.inj hid
  refine ⟨rfl, ?_⟩
  unfold step
  simp only [hstore]
  exact Option.ne_none_iff_exists'.mp (hput.shelves shared.library)

end Run

/-- Stores that share shelves in any way file every definition under its digest. What stands on a shelf
stays there until the shelf is cleared, and what a store has taken in is found there until its own shelf
is cleared, if no two machines that were put in have one digest. -/
theorem run_files_under_digest (stores : List LayeredStore) (transactions : List Transaction) :
    let shared := (founded stores).run transactions
    (∀ shelf id machine, shared.library.find? shelf id = some machine → machine.contentHash = id) ∧
    (∀ index id machine, shared.found? index id = some (.ok machine) → machine.contentHash = id) ∧
    (∀ shelf id machine later, shared.library.find? shelf id = some machine →
      .clear shelf ∉ later → (shared.run later).library.find? shelf id = some machine) ∧
    ((∀ first ∈ transactions.filterMap (·.machine?),
        ∀ second ∈ transactions.filterMap (·.machine?),
          first.contentHash = second.contentHash → first = second) →
      ∀ earlier index machine later store id,
        transactions = earlier ++ .put index machine :: later → stores[index]? = some store →
          ((founded stores).run earlier).stored? index machine = some id →
            .clear store.home ∉ later → shared.found? index id = some (.ok machine)) := by
  intro shared
  have hfiled : shared.IsFiled (· ∈ transactions.filterMap (·.machine?)) :=
    isFiled_run (fun _ _ _ hfind => nomatch hfind) fun _ hmachine => hmachine
  have hdigest : ∀ index id machine, shared.found? index id = some (.ok machine) →
      machine.contentHash = id ∧ machine ∈ transactions.filterMap (·.machine?) := by
    intro index id machine hfound
    obtain ⟨shelf, hstands⟩ := exists_find?_of_found? hfound
    exact hfiled shelf id machine hstands
  refine ⟨fun shelf id machine hfind => (hfiled shelf id machine hfind).1,
    fun index id machine hfound => (hdigest index id machine hfound).1,
    fun shelf id machine later hfind hkept => find?_run hfind hkept, ?_⟩
  intro hdistinct earlier index machine later store id hsplit hstore hid hkept
  obtain ⟨rfl, found, hfound⟩ := find?_home_step_put (home_run hstore earlier) hid
  have hlast : shared = (((founded stores).run earlier).step (.put index machine)).run later := by
    change (founded stores).run transactions = _
    rw [hsplit, run_append]
    rfl
  have hstays : shared.library.find? store.home machine.contentHash ≠ none := by
    rw [hlast, find?_run hfound hkept]
    exact Option.some_ne_none found
  obtain ⟨answer, hanswer⟩ := exists_found?_of_home (home_run hstore transactions) hstays
  obtain ⟨hsame, hknown⟩ := hdigest index machine.contentHash answer hanswer
  have hput : machine ∈ transactions.filterMap (·.machine?) :=
    List.mem_filterMap.mpr ⟨.put index machine, by rw [hsplit]; simp, rfl⟩
  rw [hdistinct answer hknown machine hput hsame] at hanswer
  exact hanswer

/-- Two stores, each of which reads first what the other one holds its definitions on. -/
def crossed : List LayeredStore :=
  [{ inner := { DefinitionStore.plain "east" with front := some "west" }
     outer := ["hall"] },
    { inner := { DefinitionStore.plain "west" with front := some "east" }
      outer := [] }]

/-- A machine is put into the first store and looked up in the second one, and all shelves but the first
store's own are cleared. -/
def passing : List Transaction :=
  [.put 0 .errand, .clear "west", .hydrate 1 Machine.errand.contentHash, .clear "hall",
    .adopt 0 (.ofList [("location", .text "bucket")]), .clear "west"]

theorem run_files_under_digest_errand :
    (∀ first ∈ passing.filterMap (·.machine?), ∀ second ∈ passing.filterMap (·.machine?),
      first.contentHash = second.contentHash → first = second) ∧
      ((founded crossed).run []).stored? 0 .errand = some Machine.errand.contentHash ∧
      Transaction.clear "east" ∉ passing.tail ∧
      ((founded crossed).run passing).found? 0 Machine.errand.contentHash =
        some (.ok .errand) := by
  have honly : ∀ machine ∈ passing.filterMap (·.machine?), machine = .errand := by
    intro machine hmachine
    have hsole : machine ∈ [Machine.errand] := hmachine
    exact List.mem_singleton.mp hsole
  have hdistinct : ∀ first ∈ passing.filterMap (·.machine?),
      ∀ second ∈ passing.filterMap (·.machine?),
        first.contentHash = second.contentHash → first = second := by
    intro first hfirst second hsecond _
    rw [honly first hfirst, honly second hsecond]
  have hid : ((founded crossed).run []).stored? 0 .errand = some Machine.errand.contentHash := rfl
  have hkept : Transaction.clear "east" ∉ passing.tail := by simp [passing]
  exact ⟨hdistinct, hid, hkept,
    (run_files_under_digest crossed passing).2.2.2 hdistinct [] 0 .errand _ _ _ rfl rfl hid hkept⟩

end Consortium

end Workflow
