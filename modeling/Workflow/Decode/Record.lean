import Workflow.Decode.Basic
/-!
Records, written as an object of their fields or as an array of them in declared order. The fields
enter a draft one by one; a draft that has all it needs becomes the record.
-/

namespace Workflow

open Json (Node Key ArrayEnd readKey)

/-- A field and how its value enters a draft. -/
structure Field (δ : Type) where
  name : String
  /-- Whether an array may stop short of the field. -/
  optional : Bool
  filled : δ → Bool
  fill : δ → Decoder δ

def Field.required {δ α : Type} (name : String) (get : δ → Option α) (set : δ → Option α → δ)
    (decode : Decoder α) : Field δ :=
  { name
    optional := false
    filled := fun draft => (get draft).isSome
    fill := fun draft origin node => (decode origin node).map fun value => set draft (some value) }

def Field.defaulted {δ α : Type} (name : String) (get : δ → Option α) (set : δ → Option α → δ)
    (decode : Decoder α) : Field δ :=
  { Field.required name get set decode with optional := true }

structure Record (δ α : Type) where
  name : String
  blank : δ
  fields : List (Field δ)
  finish : δ → Except DecodeError α

def need {α : Type} (name : String) : Option α → Except DecodeError α
  | some value => .ok value
  | none => .error (.missingField name)

namespace Record

variable {δ α : Type}

/-- Fills the draft from members. Unknown ones are passed over, a field is given once at most. -/
def fillMembers (fields : List (Field δ)) (origin : Origin) :
    List (Key × Node) → δ → Except DecodeError δ
  | [], draft => .ok draft
  | (key, node) :: rest, draft => do
    let key ← readKey key
    match fields.find? fun field => field.name == key with
    | some field =>
      if field.filled draft then
        .error (.duplicateField key)
      else
        let draft ← field.fill draft origin node
        fillMembers fields origin rest draft
    | none =>
      node.skip
      fillMembers fields origin rest draft

/-- Fills the draft from items in the order of the fields, and gives the items that are left.
`position` counts the items taken before. -/
def fillItems (record : Record δ α) (origin : Origin) (ending : ArrayEnd) (position : Nat) :
    List (Field δ) → List Node → δ → Except DecodeError (δ × List Node)
  | [], rest, draft => .ok (draft, rest)
  | field :: fields, item :: rest, draft => do
    let draft ← field.fill draft origin item
    fillItems record origin ending (position + 1) fields rest draft
  | field :: fields, [], draft => do
    checked ending.fault?
    if field.optional then
      fillItems record origin ending (position + 1) fields [] draft
    else
      .error (.invalidLength position (.recordItems record.name record.fields.length))

/-- After the last field the array must end. -/
def checkEnd (count : Nat) (origin : Origin) (ending : ArrayEnd) (rest : List Node) :
    Except DecodeError Unit :=
  match origin with
  | .text _ => if rest.isEmpty then checked ending.closingFault? else checked (some .trailingCharacters)
  | .value =>
    if rest.isEmpty then .ok () else .error (.invalidLength (count + rest.length) .fewerItems)
  | .content =>
    if rest.isEmpty then .ok () else .error (.invalidLength (count + rest.length) (.items count))

def decode (record : Record δ α) : Decoder α := fun origin node =>
  match node with
  | .object members ending => do
    let origin ← origin.enter
    let draft ← fillMembers record.fields origin members record.blank
    checked ending.fault?
    record.finish draft
  | .array items ending => do
    let origin ← origin.enter
    let (draft, rest) ← record.fillItems origin ending 0 record.fields items record.blank
    checkEnd record.fields.length origin ending rest
    record.finish draft
  | node => .error (node.mismatch (.record record.name))

end Record

end Workflow
