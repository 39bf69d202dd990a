/-!
What can be wrong with a JSON text. A fault keeps apart what a reader of the value reports and what
a reader that passes over the value reports, since the latter does not look at ranges and surrogates.
-/

namespace Workflow

/-- The kinds of failure to read a value: the text breaks the grammar, it stops too early, or it is
well formed and not of the wanted shape. -/
inductive ErrorCategory where
  | grammar
  | cutOff
  | shape
  deriving DecidableEq

def ErrorCategory.name : ErrorCategory → String
  | .grammar => "syntax"
  | .cutOff => "eof"
  | .shape => "data"

inductive ReadError where
  | endInArray
  | endInObject
  | endInString
  | endInValue
  | expectedColon
  | expectedCommaOrArrayEnd
  | expectedCommaOrObjectEnd
  | misspelledWord
  | expectedValue
  | invalidEscape
  | invalidNumber
  | numberOutOfRange
  | unpairedLead
  | unpairedSurrogate
  | keyNotText
  | trailingComma
  | trailingCharacters
  | controlCharacter
  | nestedTooDeep
  deriving DecidableEq

namespace ReadError

def category : ReadError → ErrorCategory
  | .endInArray | .endInObject | .endInString | .endInValue => .cutOff
  | _ => .grammar

def message : ReadError → String
  | .endInArray => "EOF while parsing a list"
  | .endInObject => "EOF while parsing an object"
  | .endInString => "EOF while parsing a string"
  | .endInValue => "EOF while parsing a value"
  | .expectedColon => "expected `:`"
  | .expectedCommaOrArrayEnd => "expected `,` or `]`"
  | .expectedCommaOrObjectEnd => "expected `,` or `\x7d`"
  | .misspelledWord => "expected ident"
  | .expectedValue => "expected value"
  | .invalidEscape => "invalid escape"
  | .invalidNumber => "invalid number"
  | .numberOutOfRange => "number out of range"
  | .unpairedLead => "unexpected end of hex escape"
  | .unpairedSurrogate => "lone leading surrogate in hex escape"
  | .keyNotText => "key must be a string"
  | .trailingComma => "trailing comma"
  | .trailingCharacters => "trailing characters"
  | .controlCharacter => "control character (\\u0000-\\u001F) found while parsing a string"
  | .nestedTooDeep => "recursion limit exceeded"

end ReadError

/-- What is wrong with a number or string. Where `skipped` is empty the value can be passed over. -/
structure Fault where
  read : ReadError
  skipped : Option ReadError
  deriving DecidableEq

end Workflow
