import Workflow.Json.Literal
import Workflow.Json.Node
import Workflow.Json.Numeral
/-!
The tokens of a JSON text. Blanks between tokens are dropped; the list stops at a token after which
nothing can be read.
-/

namespace Workflow.Json

inductive Token where
  | openArray
  | closeArray
  | openObject
  | closeObject
  | comma
  | colon
  | null
  | bool (value : Bool)
  | number (value : Except Fault Number)
  | text (value : Except Fault String)
  | misspelled (error : ReadError)
  | stray

def isBlank (c : Char) : Bool :=
  c = ' ' || c = '\t' || c = '\n' || c = '\r'

def afterWord : (word chars : List Char) → Except ReadError (List Char)
  | [], rest => .ok rest
  | _ :: _, [] => .error .endInValue
  | w :: word, c :: rest => if w = c then afterWord word rest else .error .misspelledWord

theorem length_afterWord_le {word chars rest : List Char} (h : afterWord word chars = .ok rest) :
    rest.length ≤ chars.length := by
  induction word generalizing chars with
  | nil =>
    cases h
    exact Nat.le_refl _
  | cons w word ih =>
    cases chars with
    | nil => contradiction
    | cons c chars =>
      simp only [afterWord] at h
      split at h
      · have := ih h
        simp only [List.length_cons]
        omega
      · contradiction

namespace Token

def ofMark? : Char → Option Token
  | '[' => some .openArray
  | ']' => some .closeArray
  | '\x7b' => some .openObject
  | '\x7d' => some .closeObject
  | ',' => some .comma
  | ':' => some .colon
  | _ => none

/-- The token of a word and the letters that must follow the first one. -/
def ofInitial? : Char → Option (Token × List Char)
  | 'n' => some (.null, ['u', 'l', 'l'])
  | 't' => some (.bool true, ['r', 'u', 'e'])
  | 'f' => some (.bool false, ['a', 'l', 's', 'e'])
  | _ => none

/-- A numeral out of range is a fault only for a reader of its value. -/
def ofNumeral (numeral : Numeral) : Token :=
  .number (numeral.value.mapError fun read => { read, skipped := none })

/-- The token at the front of a text that starts with `c`, and what follows it if the text can be
read on. -/
def first (c : Char) (rest : List Char) : Token × Option (List Char) :=
  match ofMark? c, ofInitial? c with
  | some token, _ => (token, some rest)
  | none, some (token, word) =>
    match afterWord word rest with
    | .ok rest => (token, some rest)
    | .error error => (.misspelled error, none)
  | none, none =>
    if c = '"' then
      let (pieces, ending) := Literal.split rest
      let token := Token.text (Literal.content pieces ending)
      match ending with
      | .closed rest => (token, some rest)
      | _ => (token, none)
    else if c = '-' ∨ c.isDigit then
      match Numeral.split (c :: rest) with
      | .ok (numeral, rest) => (ofNumeral numeral, some rest)
      | .error fault => (.number (.error fault), none)
    else (.stray, none)

theorem length_first_le {c : Char} {rest after : List Char} (h : (first c rest).2 = some after) :
    after.length ≤ rest.length := by
  unfold first at h
  split at h
  · cases h
    exact Nat.le_refl _
  · split at h
    · rename_i heq
      cases h
      exact length_afterWord_le heq
    · contradiction
  · split at h
    · simp only at h
      split at h
      · rename_i heq
        cases h
        exact Nat.le_of_lt (Literal.length_closed_lt heq)
      · contradiction
    · split at h
      · split at h
        · rename_i heq
          cases h
          have := Numeral.length_split_lt heq
          simp only [List.length_cons] at this
          omega
        · contradiction
      · contradiction

end Token

def tokens : List Char → List Token
  | [] => []
  | c :: rest =>
    if isBlank c then tokens rest
    else
      match h : Token.first c rest with
      | (token, none) => [token]
      | (token, some after) =>
        have : after.length ≤ rest.length := Token.length_first_le (by rw [h])
        token :: tokens after
termination_by chars => chars.length

end Workflow.Json
