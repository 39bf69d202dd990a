import Workflow.Json.ReadError
/-!
String literals in a JSON text. `Literal.split` takes a literal apart into characters and the code
units of hexadecimal escapes; `Literal.join` pairs surrogates and puts the string together.
-/

namespace Workflow.Literal

/-- A character that stands for itself or a short escape, or a UTF-16 code unit given in hexadecimal. -/
inductive Piece where
  | char (c : Char)
  | unit (code : Nat)
  deriving DecidableEq

/-- How a literal ends: with its closing quote and what follows, or where it cannot be read on. -/
inductive Ending where
  | closed (rest : List Char)
  | cut
  | control
  | badEscape
  | badHex
  deriving DecidableEq

def hexDigit? (c : Char) : Option Nat :=
  if c.isDigit then some (c.toNat - '0'.toNat)
  else if 'a' ≤ c ∧ c ≤ 'f' then some (c.toNat - 'a'.toNat + 10)
  else if 'A' ≤ c ∧ c ≤ 'F' then some (c.toNat - 'A'.toNat + 10)
  else none

def hexUnit? (a b c d : Char) : Option Nat := do
  let a ← hexDigit? a
  let b ← hexDigit? b
  let c ← hexDigit? c
  let d ← hexDigit? d
  return ((a * 16 + b) * 16 + c) * 16 + d

/-- What a backslash and a letter other than `u` stand for. -/
def shortEscape? (c : Char) : Option Char :=
  if c = '"' ∨ c = '\\' ∨ c = '/' then some c
  else if c = 'b' then some '\x08'
  else if c = 'f' then some '\x0c'
  else if c = 'n' then some '\n'
  else if c = 'r' then some '\r'
  else if c = 't' then some '\t'
  else none

/-- An escape that lacks its four digits: the text stops, or goes on with something else. -/
def shortHex (rest : List Char) : Ending :=
  if (String.ofList rest).utf8ByteSize < 4 then .cut else .badHex

/-- The pieces of a literal after its opening quote, and how it ends. -/
def split : List Char → List Piece × Ending
  | [] => ([], .cut)
  | '"' :: rest => ([], .closed rest)
  | ['\\'] => ([], .cut)
  | '\\' :: 'u' :: a :: b :: c :: d :: rest =>
    match hexUnit? a b c d with
    | some code =>
      let (pieces, ending) := split rest
      (.unit code :: pieces, ending)
    | none => ([], .badHex)
  | '\\' :: 'u' :: rest => ([], shortHex rest)
  | '\\' :: c :: rest =>
    match shortEscape? c with
    | some c =>
      let (pieces, ending) := split rest
      (.char c :: pieces, ending)
    | none => ([], .badEscape)
  | c :: rest =>
    if c.toNat < 0x20 then ([], .control)
    else
      let (pieces, ending) := split rest
      (.char c :: pieces, ending)

/-- The fault that keeps a literal from being passed over, if any. -/
def Ending.fault? : Ending → Option ReadError
  | .closed _ => none
  | .cut => some .endInString
  | .control => some .controlCharacter
  | .badEscape | .badHex => some .invalidEscape

/-- What is wrong with a literal that ends right after a leading surrogate. -/
def Ending.faultAfterLead : Ending → ReadError
  | .cut => .endInString
  | .badHex => .invalidEscape
  | .closed _ | .control | .badEscape => .unpairedLead

def isLead (code : Nat) : Bool :=
  0xd800 ≤ code && code < 0xdc00

def isTrail (code : Nat) : Bool :=
  0xdc00 ≤ code && code < 0xe000

def pairValue (lead trail : Nat) : Char :=
  Char.ofNat ((lead - 0xd800) * 0x400 + (trail - 0xdc00) + 0x10000)

/-- The characters of a literal. A leading surrogate must be followed by a trailing one. -/
def join (ending : Ending) : List Piece → Except ReadError (List Char)
  | [] =>
    match ending.fault? with
    | some error => .error error
    | none => .ok []
  | .char c :: pieces => (c :: ·) <$> join ending pieces
  | [.unit code] =>
    if isLead code then .error ending.faultAfterLead
    else if isTrail code then .error .unpairedSurrogate
    else (Char.ofNat code :: ·) <$> join ending []
  | .unit code :: .char c :: pieces =>
    if isLead code then .error .unpairedLead
    else if isTrail code then .error .unpairedSurrogate
    else (Char.ofNat code :: ·) <$> join ending (.char c :: pieces)
  | .unit code :: .unit next :: pieces =>
    if isLead code then
      if isTrail next then (pairValue code next :: ·) <$> join ending pieces
      else .error .unpairedSurrogate
    else if isTrail code then .error .unpairedSurrogate
    else (Char.ofNat code :: ·) <$> join ending (.unit next :: pieces)

/-- The text of a literal, given its pieces and its end. -/
def content (pieces : List Piece) (ending : Ending) : Except Fault String :=
  match join ending pieces with
  | .ok chars => .ok (String.ofList chars)
  | .error read => .error { read, skipped := ending.fault? }

theorem shortHex_ne_closed (chars rest : List Char) : shortHex chars ≠ .closed rest := by
  unfold shortHex
  split <;> simp

theorem length_closed_lt {chars rest : List Char} (h : (split chars).2 = .closed rest) :
    rest.length < chars.length := by
  fun_induction split chars with
  | case1 | case3 | case5 | case8 | case9 => simp at h
  | case2 after =>
    cases h
    exact Nat.lt_succ_self _
  | case4 a b c d after code heq pieces ending hsplit ih =>
    have := ih (by rw [hsplit]; exact h)
    simp only [List.length_cons]
    omega
  | case6 after hshort => exact absurd h (shortHex_ne_closed after rest)
  | case7 c after _ _ c' heq pieces ending hsplit ih =>
    have := ih (by rw [hsplit]; exact h)
    simp only [List.length_cons]
    omega
  | case10 c after _ _ _ _ _ _ pieces ending hsplit ih =>
    have := ih (by rw [hsplit]; exact h)
    simp only [List.length_cons]
    omega

end Workflow.Literal
