import Workflow.Context.Slice
import Workflow.Json.Printer
/-!
The context that carries an execution from one worker to the next: a flat dictionary in which every
component has its entries under its namespace.
-/

namespace Workflow

/-- What all keys start with that components write. -/
def keyLead : String := "x-stately-"

/-- The full key of a component's own key. -/
def namespacedKey (name key : String) : String :=
  keyLead ++ name ++ "-" ++ key

/-- Namespaces are made of ASCII letters, digits and underscores. -/
def isNamespace (name : String) : Bool :=
  !name.isEmpty && name.toList.all fun c => c.isAlphanum || c == '_'

/-- What follows `lead` in a list. -/
def afterLead? : (lead chars : List Char) → Option (List Char)
  | [], rest => some rest
  | _ :: _, [] => none
  | l :: lead, c :: rest => if l = c then afterLead? lead rest else none

/-- A component's own key, if the full key lies in its namespace. -/
def localKey? (name key : String) : Option String :=
  (afterLead? (namespacedKey name "").toList key.toList).map String.ofList

structure Context where
  entries : Dict Json
  deriving DecidableEq

namespace Context

def empty : Context := ⟨.empty⟩

def get? (context : Context) (key : String) : Option Json :=
  context.entries.get? key

def slice (context : Context) (name : String) : Slice :=
  .ofList <| context.entries.entries.filterMap fun (key, value) =>
    (localKey? name key).map fun key => (key, value)

/-- Adds entries in their order up to the first whose full key is taken. -/
def mergeEntries (name : String) :
    List (String × Json) → Context → Context × Except ContextError Unit
  | [], context => (context, .ok ())
  | (key, value) :: rest, context =>
    let full := namespacedKey name key
    if context.entries.contains full then (context, .error (.collision full))
    else mergeEntries name rest ⟨context.entries.insert full value⟩

/-- Adds a component's slice under its namespace. The context is what it is after a failure, too. -/
def merge (context : Context) (name : String) (slice : Slice) :
    Context × Except ContextError Unit :=
  if isNamespace name then mergeEntries name slice.entries.entries context
  else (context, .error (.invalidNamespace name))

def merged (context : Context) (name : String) (slice : Slice) : Except ContextError Context :=
  match context.merge name slice with
  | (context, .ok ()) => .ok context
  | (_, .error error) => .error error

/-- The context without some keys and with other entries. -/
def edit (context : Context) (removed : List String) (added : Dict Json) : Context :=
  let kept := removed.foldl Dict.erase context.entries
  ⟨added.entries.foldl (fun entries entry => entries.insert entry.1 entry.2) kept⟩

def toJson (context : Context) : Json :=
  .object context.entries

def toText (context : Context) : String :=
  context.toJson.print

def decode : Decoder Context := fun origin node =>
  (Decoder.dict .json origin node).map Context.mk

def ofText (text : String) : Except ContextError Context :=
  match decode.ofText text with
  | .ok context => .ok context
  | .error reason => .error (.deserializationFailed reason)

/-- Equality of the entries' values, under which the two zero doubles are equal. -/
def sameValue (a b : Context) : Bool :=
  a.toJson.sameValue b.toJson

end Context

end Workflow
