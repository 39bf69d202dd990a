import Workflow.Json.Basic
import Workflow.Json.ReadError
/-!
JSON values as they stand in their source, with whatever is wrong left in its place. A text becomes
a node whose faults come to light only when a reader gets to them; a value becomes a node without
faults. So one set of decoders serves both, and finds of two faults the one that it meets first.
-/

namespace Workflow.Json

/-- What stands where a decoder looked for something else. -/
inductive Found where
  | null
  | bool (value : Bool)
  | number (value : Number)
  | text (value : String)
  | array
  | object
  deriving DecidableEq

/-- How the items of an array end; `unreached` where an item cannot be read. -/
inductive ArrayEnd where
  | closed
  | cut
  | junk
  | comma
  | commaCut
  | unreached
  deriving DecidableEq

/-- How the members of an object end; `unreached` where a member cannot be read. -/
inductive ObjectEnd where
  | closed
  | cut
  | junk
  /-- Something other than a name at the place of the first one. -/
  | noKey
  | comma
  | commaCut
  | commaNoKey
  | unreached
  deriving DecidableEq

/-- What a reader of every item reports. -/
def ArrayEnd.fault? : ArrayEnd → Option ReadError
  | .closed | .unreached => none
  | .cut => some .endInArray
  | .junk => some .expectedCommaOrArrayEnd
  | .comma => some .trailingComma
  | .commaCut => some .endInValue

/-- What a reader that passes over the array reports. -/
def ArrayEnd.skipFault? : ArrayEnd → Option ReadError
  | .comma => some .expectedValue
  | ending => ending.fault?

/-- What a reader reports that has all it wants and only looks for the end. -/
def ArrayEnd.closingFault? : ArrayEnd → Option ReadError
  | .junk | .commaCut => some .trailingCharacters
  | ending => ending.fault?

/-- What a reader of every member reports. -/
def ObjectEnd.fault? : ObjectEnd → Option ReadError
  | .closed | .unreached => none
  | .cut => some .endInObject
  | .junk => some .expectedCommaOrObjectEnd
  | .noKey | .commaNoKey => some .keyNotText
  | .comma => some .trailingComma
  | .commaCut => some .endInValue

/-- What a reader that passes over the object reports. -/
def ObjectEnd.skipFault? : ObjectEnd → Option ReadError
  | .comma => some .keyNotText
  | .commaCut => some .endInObject
  | ending => ending.fault?

abbrev Key := Except Fault String

inductive Node where
  | null
  | bool (value : Bool)
  | number (value : Except Fault Number)
  | text (value : Except Fault String)
  | array (items : List Node) (ending : ArrayEnd)
  | object (members : List (Key × Node)) (ending : ObjectEnd)
  /-- A word that starts like `null`, `true` or `false` and goes on otherwise. -/
  | misspelled (error : ReadError)
  /-- Nothing that a value could start with. -/
  | absent (error : ReadError)

namespace Node

/-- What a look at the node shows. Arrays and objects are not entered. -/
def found : Node → Except ReadError Found
  | .null => .ok .null
  | .bool value => .ok (.bool value)
  | .number (.ok value) => .ok (.number value)
  | .number (.error fault) => .error fault.read
  | .text (.ok value) => .ok (.text value)
  | .text (.error fault) => .error fault.read
  | .array _ _ => .ok .array
  | .object _ _ => .ok .object
  | .misspelled error => .error error
  | .absent error => .error error

mutual

/-- What a reader that passes over the node reports. -/
def skipFault? : Node → Option ReadError
  | .null | .bool _ | .number (.ok _) | .text (.ok _) => none
  | .number (.error fault) => fault.skipped
  | .text (.error fault) => fault.skipped
  | .array items ending => (skipItems? items).or ending.skipFault?
  | .object members ending => (skipMembers? members).or ending.skipFault?
  | .misspelled error => some error
  | .absent error => some error

def skipItems? : List Node → Option ReadError
  | [] => none
  | item :: rest => item.skipFault?.or (skipItems? rest)

def skipMembers? : List (Key × Node) → Option ReadError
  | [] => none
  | (.ok _, value) :: rest => value.skipFault?.or (skipMembers? rest)
  | (.error fault, value) :: rest =>
    fault.skipped.or (value.skipFault?.or (skipMembers? rest))

end

end Node

namespace Tree

mutual

def node : Tree → Node
  | .null => .null
  | .bool value => .bool value
  | .number value => .number (.ok value)
  | .text value => .text (.ok value)
  | .array items => .array (nodes items) .closed
  | .object members => .object (memberNodes members) .closed

def nodes : List Tree → List Node
  | [] => []
  | item :: rest => item.node :: nodes rest

def memberNodes : List (String × Tree) → List (Key × Node)
  | [] => []
  | (key, value) :: rest => (.ok key, value.node) :: memberNodes rest

end

end Tree

def node (json : Json) : Node :=
  json.tree.node

end Workflow.Json
