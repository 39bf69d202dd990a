import Workflow.Decode.Error
import Workflow.Json.Document
/-!
Decoders. A decoder reads a node and knows where the node comes from, since a text is checked for
its end and its depth while a value is well formed to begin with.
-/

namespace Workflow

open Json (Node Key ArrayEnd ObjectEnd)

/-- Where a node comes from. -/
inductive Origin where
  /-- A text, in which `room` more arrays and objects may be entered. -/
  | text (room : Nat)
  | value
  /-- The content of a tagged record, which has been read as a whole. -/
  | content
  deriving DecidableEq

abbrev Decoder (α : Type) := Origin → Node → Except DecodeError α

/-- How many arrays and objects of a text may be open at a time. -/
def depthLimit : Nat := 127

namespace Origin

/-- The origin of the parts of an array or object. -/
def enter : Origin → Except DecodeError Origin
  | .text 0 => .error (.unreadable .nestedTooDeep)
  | .text (room + 1) => .ok (.text room)
  | origin => .ok origin

end Origin

def checked (fault : Option ReadError) : Except DecodeError Unit :=
  match fault with
  | some error => .error (.unreadable error)
  | none => .ok ()

namespace Json

/-- The error of a decoder that looked for something else than the node. -/
def Node.mismatch (node : Node) (expected : Expected) : DecodeError :=
  match node.found with
  | .ok found => .invalidType found expected
  | .error error => .unreadable error

/-- Passes over a node that no one asked for. -/
def Node.skip (node : Node) : Except DecodeError Unit :=
  checked node.skipFault?

def readKey : Key → Except DecodeError String
  | .ok key => .ok key
  | .error fault => .error (.unreadable fault.read)

end Json

namespace Decoder

open Json (readKey)

def text : Decoder String := fun _ node =>
  match node with
  | .text (.ok value) => .ok value
  | node => .error (node.mismatch .text)

def bool : Decoder Bool := fun _ node =>
  match node with
  | .bool value => .ok value
  | node => .error (node.mismatch .bool)

def natural (size : Nat) (expected : Expected) : Decoder Nat := fun _ node =>
  match node with
  | .number (.ok (.integer n low high)) =>
    if 0 ≤ n ∧ n < size then .ok n.toNat
    else .error (.invalidValue (.number (.integer n low high)) expected)
  | node => .error (node.mismatch expected)

def word32 : Decoder UInt32 := fun origin node =>
  (natural UInt32.size .word32 origin node).map (·.toUInt32)

def word64 : Decoder UInt64 := fun origin node =>
  (natural UInt64.size .word64 origin node).map (·.toUInt64)

/-- Null stands for nothing. -/
def optional {α : Type} (decode : Decoder α) : Decoder (Option α) := fun origin node =>
  match node with
  | .null => .ok none
  | node => (decode origin node).map some

def list {α : Type} (decode : Decoder α) : Decoder (List α) := fun origin node =>
  match node with
  | .array items ending => do
    let origin ← origin.enter
    let values ← items.mapM (decode origin)
    checked ending.fault?
    return values
  | node => .error (node.mismatch .list)

/-- The entries of an object. Of two with one name the later stays. -/
def entries {α : Type} (decode : Decoder α) (origin : Origin) :
    List (Key × Node) → Dict α → Except DecodeError (Dict α)
  | [], dict => .ok dict
  | (key, node) :: rest, dict => do
    let key ← readKey key
    let value ← decode origin node
    entries decode origin rest (dict.insert key value)

def dict {α : Type} (decode : Decoder α) : Decoder (Dict α) := fun origin node =>
  match node with
  | .object members ending => do
    let origin ← origin.enter
    let values ← entries decode origin members .empty
    checked ending.fault?
    return values
  | node => .error (node.mismatch .dict)

def unit : Decoder Unit := fun _ node =>
  match node with
  | .null => .ok ()
  | node => .error (node.mismatch .unit)

def variant {α : Type} (known : List (String × α)) (listed : List String) : Decoder α :=
  fun _ node =>
    match node with
    | .text (.ok name) =>
      match known.lookup name with
      | some value => .ok value
      | none => .error (.unknownVariant name listed)
    | node => .error (node.mismatch .variant)

end Decoder

namespace Json

mutual

/-- Any value whatever. -/
def Node.toJson (origin : Origin) : Node → Except DecodeError Json
  | .null => .ok .null
  | .bool value => .ok (.bool value)
  | .number (.ok value) => .ok (.number value)
  | .number (.error fault) => .error (.unreadable fault.read)
  | .text (.ok value) => .ok (.text value)
  | .text (.error fault) => .error (.unreadable fault.read)
  | .array items ending =>
    match origin.enter with
    | .error error => .error error
    | .ok origin => do
      let items ← itemsToJson origin items
      checked ending.fault?
      return .array items
  | .object members ending =>
    match origin.enter with
    | .error error => .error error
    | .ok origin => do
      let members ← membersToJson origin members .empty
      checked ending.fault?
      return .object members
  | .misspelled error => .error (.unreadable error)
  | .absent error => .error (.unreadable error)

def itemsToJson (origin : Origin) : List Node → Except DecodeError (List Json)
  | [] => .ok []
  | item :: rest => do
    let item ← item.toJson origin
    let rest ← itemsToJson origin rest
    return item :: rest

def membersToJson (origin : Origin) :
    List (Key × Node) → Dict Json → Except DecodeError (Dict Json)
  | [], members => .ok members
  | (key, value) :: rest, members => do
    let key ← readKey key
    let value ← value.toJson origin
    membersToJson origin rest (members.insert key value)

end

end Json

namespace Decoder

def json : Decoder Json := fun origin node =>
  node.toJson origin

variable {α : Type}

def ofJson (decode : Decoder α) (json : Json) : Except DecodeError α :=
  decode .value json.node

def entry (decode : Decoder α) (dict : Dict Json) (key : String) : Except DecodeError α :=
  match dict.get? key with
  | some json => decode.ofJson json
  | none => .error (.missingField key)

/-- Decodes an entry that may be missing or null. -/
def entry? (decode : Decoder α) (dict : Dict Json) (key : String) :
    Except DecodeError (Option α) :=
  match dict.get? key with
  | some json => decode.optional.ofJson json
  | none => .ok none

/-- Decodes a text that holds one value and blanks around it. -/
def ofText (decode : Decoder α) (text : String) : Except DecodeError α := do
  let document := Json.Document.ofText text
  let value ← decode (.text depthLimit) document.node
  if document.trailing then .error (.unreadable .trailingCharacters) else return value

end Decoder

end Workflow
