import Workflow.Store.Definitions
/-!
Stores behind shelves, and those behind further shelves. What is asked for is looked up on the
outermost shelf first, and is put on every shelf that it was missing from on the way back.
-/

namespace Workflow

namespace Library

/-- Looks a definition up on a shelf, and in another way if it is not there. Found that way it is put on
the shelf. -/
def readThrough (shelf id : String) (lookUp : Library → Except ComponentError Machine × Library)
    (library : Library) : Except ComponentError Machine × Library :=
  match library.find? shelf id with
  | some machine => (.ok machine, library)
  | none =>
    match lookUp library with
    | (.ok machine, library) => (.ok machine, library.insert shelf id machine)
    | (.error error, library) => (.error error, library)

/-- A definition is on the shelf, or it is found behind it and put there, or it is found nowhere. -/
theorem readThrough_cases (shelf id : String)
    (lookUp : Library → Except ComponentError Machine × Library) (library : Library) :
    (∃ machine, library.find? shelf id = some machine ∧
      readThrough shelf id lookUp library = (.ok machine, library)) ∨
    library.find? shelf id = none ∧
      ((∃ machine, (lookUp library).1 = .ok machine ∧
        readThrough shelf id lookUp library =
          (.ok machine, (lookUp library).2.insert shelf id machine)) ∨
      ∃ error, (lookUp library).1 = .error error ∧
        readThrough shelf id lookUp library = (.error error, (lookUp library).2)) := by
  unfold readThrough
  cases library.find? shelf id with
  | some machine => exact .inl ⟨machine, rfl, rfl⟩
  | none =>
      refine .inr ⟨rfl, ?_⟩
      obtain ⟨answer, after⟩ := lookUp library
      cases answer with
      | ok machine => exact .inl ⟨machine, rfl, rfl⟩
      | error error => exact .inr ⟨error, rfl, rfl⟩

/-- Stores a definition in some way, and on a shelf unless its identifier stands there. -/
def putThrough (shelf : String) (machine : Machine) (put : Library → String × Library)
    (library : Library) : String × Library :=
  let (id, library) := put library
  (id, library.insertIfAbsent shelf id machine)

end Library

structure LayeredStore where
  /-- The store behind all the shelves. -/
  inner : DefinitionStore
  /-- The shelves that are read before it, outermost first. -/
  outer : List String

namespace LayeredStore

/-- The shelf that holds the definitions. -/
def home (store : LayeredStore) : String :=
  store.inner.home

def put (store : LayeredStore) (machine : Machine) : Library → String × Library :=
  store.outer.foldr (fun shelf => Library.putThrough shelf machine) (store.inner.put machine)

def hydrate (store : LayeredStore) (id : String) :
    Library → Except ComponentError Machine × Library :=
  store.outer.foldr (fun shelf => Library.readThrough shelf id) (store.inner.hydrate id)

def adopt (store : LayeredStore) (slice : Slice) : Except ContextError LayeredStore := do
  return { store with inner := ← store.inner.adopt slice }

end LayeredStore

namespace DefinitionStore

/-- A store that reads a shelf first is the store without that shelf, behind it. -/
theorem hydrate_eq_readThrough {store : DefinitionStore} {front : String}
    (hfront : store.front = some front) (id : String) :
    store.hydrate id = Library.readThrough front id ({ store with front := none }.hydrate id) := by
  funext library
  unfold hydrate Library.readThrough
  rw [hfront]
  cases hshelf : library.find? front id with
  | some machine => simp only [Option.bind_some, hshelf]
  | none =>
      simp only [Option.bind_some, Option.bind_none, hshelf]
      cases library.find? store.home id <;> rfl

theorem put_eq_putThrough {store : DefinitionStore} {front : String}
    (hfront : store.front = some front) (machine : Machine) :
    store.put machine =
      Library.putThrough front machine ({ store with front := none }.put machine) := by
  funext library
  unfold put Library.putThrough
  rw [hfront]

end DefinitionStore

end Workflow
