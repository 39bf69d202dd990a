import Workflow.Json.Token
/-!
From tokens to the node of a text. One token is taken at a time; the arrays and objects that are
still open wait on a stack. Where the text cannot be read on, all of them end unreached.
-/

namespace Workflow.Json

/-- An open array or object that waits for a value. Earlier parts come last. -/
inductive Frame where
  | item (items : List Node)
  | member (members : List (Key × Node)) (key : Key)

/-- The array or object around a value. -/
def Frame.hold (frame : Frame) (value : Node) (arrayEnd : ArrayEnd) (objectEnd : ObjectEnd) : Node :=
  match frame with
  | .item items => .array (value :: items).reverse arrayEnd
  | .member members name => .object ((name, value) :: members).reverse objectEnd

/-- What a text is expected to go on with. -/
inductive Expectation where
  | value
  /-- The first item of an array, or its end. -/
  | firstItem
  /-- An item after a comma. -/
  | item (items : List Node)
  /-- The first name of an object, or its end. -/
  | firstKey
  /-- A name after a comma. -/
  | key (members : List (Key × Node))
  | colon (members : List (Key × Node)) (key : Key)
  /-- What comes after a value. -/
  | after (value : Node)

/-- The node of a text that cannot be read past `value`. -/
def unwind (value : Node) : List Frame → Node
  | [] => value
  | frame :: frames => unwind (frame.hold value .unreached .unreached) frames

inductive Step where
  | more (expectation : Expectation) (frames : List Frame)
  | stop (node : Node)

namespace Step

/-- A value that is complete, or that cannot be passed over. -/
def scalar (value : Node) (fault : Option Fault) (frames : List Frame) : Step :=
  if (fault.bind (·.skipped)).isSome then .stop (unwind value frames)
  else .more (.after value) frames

def faultOf {α : Type} : Except Fault α → Option Fault
  | .ok _ => none
  | .error fault => some fault

/-- A token where a value should start. -/
def value (token : Token) (frames : List Frame) : Step :=
  match token with
  | .null => .more (.after .null) frames
  | .bool b => .more (.after (.bool b)) frames
  | .number content => scalar (.number content) (faultOf content) frames
  | .text content => scalar (.text content) (faultOf content) frames
  | .openArray => .more .firstItem frames
  | .openObject => .more .firstKey frames
  | .misspelled error => .stop (unwind (.misspelled error) frames)
  | .closeArray | .closeObject | .comma | .colon | .stray =>
    .stop (unwind (.absent .expectedValue) frames)

/-- A name in an object. After one that cannot be passed over nothing is read. -/
def key (content : Key) (members : List (Key × Node)) (frames : List Frame) : Step :=
  if ((faultOf content).bind (·.skipped)).isSome then
    .stop (unwind (.absent .endInObject) (.member members content :: frames))
  else .more (.colon members content) frames

/-- A token after a value in an array or object. -/
def afterValue (token : Token) (value : Node) (frame : Frame) (frames : List Frame) : Step :=
  match frame, token with
  | .item items, .comma => .more (.item (value :: items)) frames
  | .item _, .closeArray => .more (.after (frame.hold value .closed .closed)) frames
  | .member members name, .comma => .more (.key ((name, value) :: members)) frames
  | .member _ _, .closeObject => .more (.after (frame.hold value .closed .closed)) frames
  | _, _ => .stop (unwind (frame.hold value .junk .junk) frames)

end Step

namespace Expectation

def step (token : Token) : Expectation → List Frame → Step
  | .value, frames => .value token frames
  | .firstItem, frames =>
    match token with
    | .closeArray => .more (.after (.array [] .closed)) frames
    | _ => .value token (.item [] :: frames)
  | .item items, frames =>
    match token with
    | .closeArray => .stop (unwind (.array items.reverse .comma) frames)
    | _ => .value token (.item items :: frames)
  | .firstKey, frames =>
    match token with
    | .closeObject => .more (.after (.object [] .closed)) frames
    | .text content => .key content [] frames
    | _ => .stop (unwind (.object [] .noKey) frames)
  | .key members, frames =>
    match token with
    | .closeObject => .stop (unwind (.object members.reverse .comma) frames)
    | .text content => .key content members frames
    | _ => .stop (unwind (.object members.reverse .commaNoKey) frames)
  | .colon members name, frames =>
    match token with
    | .colon => .more .value (.member members name :: frames)
    | _ => .stop (unwind (.absent .expectedColon) (.member members name :: frames))
  | .after node, frame :: frames => .afterValue token node frame frames
  | .after node, [] => .stop node

/-- The node of a text that stops where something is still expected. -/
def cut : Expectation → List Frame → Node
  | .value, frames => unwind (.absent .endInValue) frames
  | .firstItem, frames => unwind (.array [] .cut) frames
  | .item items, frames => unwind (.array items.reverse .commaCut) frames
  | .firstKey, frames => unwind (.object [] .cut) frames
  | .key members, frames => unwind (.object members.reverse .commaCut) frames
  | .colon members name, frames => unwind (.absent .endInObject) (.member members name :: frames)
  | .after node, frame :: frames => unwind (frame.hold node .cut .cut) frames
  | .after node, [] => node

end Expectation

/-- A text as one node, and whether more follows it than blanks. -/
structure Document where
  node : Node
  trailing : Bool

namespace Document

def read : List Token → Expectation → List Frame → Document
  | rest, .after value, [] => { node := value, trailing := !rest.isEmpty }
  | [], expectation, frames => { node := expectation.cut frames, trailing := false }
  | token :: rest, expectation, frames =>
    match expectation.step token frames with
    | .more expectation frames => read rest expectation frames
    | .stop node => { node, trailing := false }

def ofTokens (tokens : List Token) : Document :=
  read tokens .value []

def ofText (text : String) : Document :=
  ofTokens (tokens text.toList)

end Document

end Workflow.Json
