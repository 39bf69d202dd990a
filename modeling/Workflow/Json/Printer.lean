import Workflow.Json.Basic
import Workflow.Text.Hex
/-!
The text of a JSON value: members in the order of their names, no blanks, and no escapes but for
quotes, backslashes and control characters. Equal values have equal texts.
-/

namespace Workflow

namespace Json

def escapedChar (c : Char) : List Char :=
  if c = '"' ∨ c = '\\' then ['\\', c]
  else if c = '\x08' then ['\\', 'b']
  else if c = '\x0c' then ['\\', 'f']
  else if c = '\n' then ['\\', 'n']
  else if c = '\r' then ['\\', 'r']
  else if c = '\t' then ['\\', 't']
  else if c.toNat < 0x20 then '\\' :: 'u' :: Text.hexDigits 4 c.toNat
  else [c]

def literalChars (text : String) : List Char :=
  '"' :: text.toList.flatMap escapedChar ++ ['"']

def integerChars (n : Int) : List Char :=
  if n < 0 then '-' :: Nat.toDigits 10 n.natAbs else Nat.toDigits 10 n.natAbs

end Json

def Number.chars : Number → List Char
  | .integer n _ _ => Json.integerChars n
  | .double x => x.chars

namespace Json.Tree

mutual

def chars : Tree → List Char
  | .null => ['n', 'u', 'l', 'l']
  | .bool true => ['t', 'r', 'u', 'e']
  | .bool false => ['f', 'a', 'l', 's', 'e']
  | .number n => n.chars
  | .text s => literalChars s
  | .array [] => ['[', ']']
  | .array (item :: rest) => '[' :: item.chars ++ itemsChars rest
  | .object [] => ['\x7b', '\x7d']
  | .object ((key, value) :: rest) =>
    '\x7b' :: literalChars key ++ ':' :: value.chars ++ membersChars rest

/-- The items after the first one, and the end of the array. -/
def itemsChars : List Tree → List Char
  | [] => [']']
  | item :: rest => ',' :: item.chars ++ itemsChars rest

/-- The members after the first one, and the end of the object. -/
def membersChars : List (String × Tree) → List Char
  | [] => ['\x7d']
  | (key, value) :: rest => ',' :: literalChars key ++ ':' :: value.chars ++ membersChars rest

end

end Json.Tree

def Json.print (json : Json) : String :=
  String.ofList json.tree.chars

end Workflow
