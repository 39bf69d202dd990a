import Workflow.Context.Slice
import Workflow.Definition.Encode
import Workflow.Store.Error
/-!
Stores of definitions. A definition is stored under the digest of its text, on a named shelf of a
library that several stores can share. A store may have a second shelf that it reads first.
-/

namespace Workflow

abbrev Shelf := Dict Machine

/-- Shelves by name. A shelf that was never named is empty. -/
structure Library where
  shelves : Dict Shelf
  deriving DecidableEq

namespace Library

def empty : Library := ⟨.empty⟩

def shelf (library : Library) (name : String) : Shelf :=
  (library.shelves.get? name).getD .empty

def place (library : Library) (name : String) (shelf : Shelf) : Library :=
  { library with shelves := library.shelves.insert name shelf }

def find? (library : Library) (name id : String) : Option Machine :=
  (library.shelf name).get? id

def insert (library : Library) (name id : String) (machine : Machine) : Library :=
  library.place name ((library.shelf name).insert id machine)

def insertIfAbsent (library : Library) (name id : String) (machine : Machine) : Library :=
  library.place name ((library.shelf name).insertIfAbsent id machine)

def clear (library : Library) (name : String) : Library :=
  library.place name .empty

end Library

/-- What a store tells about itself in place of its own namespace and slice. -/
structure Announcement where
  name : String
  slice : Slice
  deriving DecidableEq

structure DefinitionStore where
  /-- The shelf that holds the definitions. -/
  home : String
  /-- The shelf that is read first and filled on the way. -/
  front : Option String
  /-- Where the definitions live, as told to whoever takes over. -/
  location : Option String
  announcement : Option Announcement
  deriving DecidableEq

namespace DefinitionStore

def plain (home : String) : DefinitionStore :=
  { home
    front := none
    location := none
    announcement := none }

def locationKey : String := "location"

def spaceName (store : DefinitionStore) : String :=
  match store.announcement with
  | some announcement => announcement.name
  | none => "definitions"

def slice (store : DefinitionStore) : Slice :=
  match store.announcement with
  | some announcement => announcement.slice
  | none => .ofList (store.location.toList.map fun location => (locationKey, .text location))

/-- The store with the location of a slice, also when that names none. -/
def adopt (store : DefinitionStore) (slice : Slice) : Except ContextError DefinitionStore := do
  let location ← slice.getAs? .text locationKey
  return { store with location }

/-- Stores a definition and gives its identifier. One that is stored already stays. -/
def put (store : DefinitionStore) (machine : Machine) (library : Library) : String × Library :=
  let id := machine.contentHash
  let library := library.insertIfAbsent store.home id machine
  match store.front with
  | some front => (id, library.insertIfAbsent front id machine)
  | none => (id, library)

/-- The definition with an identifier. One found at home is put on the shelf that is read first. -/
def hydrate (store : DefinitionStore) (id : String) (library : Library) :
    Except ComponentError Machine × Library :=
  match store.front.bind (library.find? · id) with
  | some machine => (.ok machine, library)
  | none =>
    match library.find? store.home id with
    | none => (.error (.definitionNotFound id), library)
    | some machine =>
      match store.front with
      | some front => (.ok machine, library.insert front id machine)
      | none => (.ok machine, library)

end DefinitionStore

end Workflow
