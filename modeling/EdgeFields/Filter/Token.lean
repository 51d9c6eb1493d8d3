/-
  EdgeFields/Filter/Token.lean
  ============================
  **Tokens of filter expressions.**

  An expression is cut into parentheses, exclamation marks, words and quoted
  strings, each with the byte offset at which it starts. A word runs to the next
  blank or parenthesis. A string stands in double or single quotes; inside, `\'` is
  an apostrophe, a double quote may stand bare between single quotes, and all other
  escapes are those of JSON.

  The scanner is a machine with one state per kind of unfinished token, so it takes
  one step per character.
-/
import EdgeFields.Filter.Basic
import EdgeFields.Json.Reader
import EdgeFields.Text.Quoted

namespace EdgeFields

namespace Filter

inductive Token where
  | leftParen
  | rightParen
  | bang
  | word (text : String)
  | quoted (text : String)
deriving DecidableEq, Repr

/-- A token and the byte offset of its first character. -/
structure Located where
  offset : Nat
  token : Token
deriving DecidableEq, Repr

/-! ### Errors -/

/-- What is wrong with an expression. -/
inductive Fault where
  | empty
  | unterminatedString
  | invalidString
  | unexpectedToken (token : Token)
  | unexpectedEnd
  | unclosedGroup
  | trailingInput
  | unknownOperator (word : String)
  | missingOperator
  | invalidValue (word : String)
  | missingValue
deriving DecidableEq, Repr

/-- A fault and the byte offset to which it is attributed. -/
structure ReadError where
  position : Nat
  fault : Fault
deriving DecidableEq, Repr

def Token.describe : Token → String
  | leftParen => "LeftParen"
  | rightParen => "RightParen"
  | bang => "Bang"
  | word w => s!"Word({Text.quoted w})"
  | quoted s => s!"Quoted({Text.quoted s})"

def Fault.message : Fault → String
  | empty => "empty filter expression"
  | unterminatedString => "unterminated string literal"
  | invalidString => "invalid string: control character or malformed escape"
  | unexpectedToken t => s!"unexpected token {t.describe}"
  | unexpectedEnd => "unexpected end of expression"
  | unclosedGroup => "expected ')'"
  | trailingInput => "unexpected trailing input"
  | unknownOperator w => s!"unknown operator '{w}'"
  | missingOperator => "expected operator"
  | invalidValue w => s!"invalid value '{w}'"
  | missingValue => "expected value"

def ReadError.message (e : ReadError) : String :=
  s!"Invalid filter expression at offset {e.position}: {e.fault.message}"

/-! ### Scanning -/

/-- The unfinished token, if there is one, with the offset of its start. -/
inductive Pending where
  | nothing
  | word (start : Nat) (text : List Char)
  /-- A string with its quote mark and its body so far, respelled for double quotes. -/
  | quoted (start : Nat) (mark : Char) (body : List Char)

/-- A backslash and the character behind it, respelled for double quotes. -/
def respellEscape (c : Char) : List Char := if c = '\'' then ['\''] else ['\\', c]

/-- A character of a string's body, respelled for double quotes. -/
def respellChar (c : Char) : List Char := if c = '"' then ['\\', '"'] else [c]

/-- The string that a respelled body denotes. -/
def decodeBody (body : List Char) : Option String :=
  match Json.scanString (body ++ ['"']) with
  | some (s, []) => some (String.ofList s)
  | _ => none

/-- A finished token in front of the tokens behind it. -/
def emit (offset : Nat) (token : Token) (rest : Except ReadError (List Located)) :
    Except ReadError (List Located) :=
  rest.map (⟨offset, token⟩ :: ·)

/-- The tokens of the characters from a byte offset on. -/
def scan : Pending → Nat → List Char → Except ReadError (List Located)
  | .nothing, _, [] => .ok []
  | .word start w, _, [] => .ok [⟨start, .word (String.ofList w)⟩]
  | .quoted start _ _, _, [] => .error ⟨start, .unterminatedString⟩
  | .nothing, pos, c :: cs =>
    let next := pos + c.utf8Size
    if Text.isBlank c then scan .nothing next cs
    else if c = '(' then emit pos .leftParen (scan .nothing next cs)
    else if c = ')' then emit pos .rightParen (scan .nothing next cs)
    else if c = '!' then emit pos .bang (scan .nothing next cs)
    else if c = '"' ∨ c = '\'' then scan (.quoted pos c []) next cs
    else scan (.word pos [c]) next cs
  | .word start w, pos, c :: cs =>
    let next := pos + c.utf8Size
    let done := emit start (.word (String.ofList w))
    if Text.isBlank c then done (scan .nothing next cs)
    else if c = '(' then done (emit pos .leftParen (scan .nothing next cs))
    else if c = ')' then done (emit pos .rightParen (scan .nothing next cs))
    else scan (.word start (w ++ [c])) next cs
  | .quoted start mark body, pos, '\\' :: c :: cs =>
    scan (.quoted start mark (body ++ respellEscape c)) (pos + 1 + c.utf8Size) cs
  | .quoted start mark body, pos, c :: cs =>
    let next := pos + c.utf8Size
    if c = mark then
      match decodeBody body with
      | some s => emit start (.quoted s) (scan .nothing next cs)
      | none => .error ⟨start, .invalidString⟩
    else scan (.quoted start mark (body ++ respellChar c)) next cs

/-- The tokens of an expression. -/
def tokens (expression : String) : Except ReadError (List Located) :=
  scan .nothing 0 expression.toList

end Filter

end EdgeFields
