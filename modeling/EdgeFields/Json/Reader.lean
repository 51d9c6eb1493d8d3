/-
  EdgeFields/Json/Reader.lean
  ===========================
  **Reading JSON text.**

  `Json.parse?` reads a whole document, with blanks between its tokens. A string
  holds no bare control character, and its `\u` escapes name characters: a
  surrogate stands only as half of a pair. Objects come out canonical.
-/
import EdgeFields.Json.Printer

namespace EdgeFields

namespace Json

/-! ### Strings -/

/-- The value of a hexadecimal digit. -/
def hexValue? (c : Char) : Option Nat :=
  if '0' ≤ c ∧ c ≤ '9' then some (c.toNat - '0'.toNat)
  else if 'a' ≤ c ∧ c ≤ 'f' then some (c.toNat - 'a'.toNat + 10)
  else if 'A' ≤ c ∧ c ≤ 'F' then some (c.toNat - 'A'.toNat + 10)
  else none

/-- The value of four hexadecimal digits. -/
def hex4? (a b c d : Char) : Option Nat := do
  let a ← hexValue? a
  let b ← hexValue? b
  let c ← hexValue? c
  let d ← hexValue? d
  pure (((a * 16 + b) * 16 + c) * 16 + d)

/-- The character that a letter after a backslash stands for. -/
def unescape? : Char → Option Char
  | '"' => some '"'
  | '\\' => some '\\'
  | '/' => some '/'
  | 'b' => some '\x08'
  | 'f' => some '\x0c'
  | 'n' => some '\n'
  | 'r' => some '\r'
  | 't' => some '\t'
  | _ => none

/-- Reads the body of a string up to its closing quote. -/
def scanString : List Char → Option (List Char × List Char)
  | [] => none
  | '"' :: rest => some ([], rest)
  | '\\' :: 'u' :: a :: b :: c :: d :: rest =>
    match hex4? a b c d with
    | none => none
    | some hi =>
      if 0xD800 ≤ hi ∧ hi < 0xDC00 then
        match rest with
        | '\\' :: 'u' :: a' :: b' :: c' :: d' :: rest =>
          match hex4? a' b' c' d' with
          | none => none
          | some lo =>
            if 0xDC00 ≤ lo ∧ lo < 0xE000 then
              (scanString rest).map fun (s, r) =>
                (Char.ofNat (0x10000 + (hi - 0xD800) * 0x400 + (lo - 0xDC00)) :: s, r)
            else none
        | _ => none
      else if 0xDC00 ≤ hi ∧ hi < 0xE000 then none
      else (scanString rest).map fun (s, r) => (Char.ofNat hi :: s, r)
  | '\\' :: c :: rest =>
    match unescape? c with
    | none => none
    | some c => (scanString rest).map fun (s, r) => (c :: s, r)
  | c :: rest =>
    if c = '\\' then none
    else if c.toNat < 0x20 then none
    else (scanString rest).map fun (s, r) => (c :: s, r)

/-! ### Documents -/

/-- The blanks between tokens. -/
def isSpace (c : Char) : Bool := c == ' ' || c == '\n' || c == '\r' || c == '\t'

def skipSpace (cs : List Char) : List Char := cs.dropWhile isSpace

/-- What follows a given text. -/
def expect? : List Char → List Char → Option (List Char)
  | [], cs => some cs
  | e :: es, c :: cs => if e = c then expect? es cs else none
  | _ :: _, [] => none

mutual

/-- Reads a document; `depth` bounds the steps that may still be taken. -/
def scanValue : Nat → List Char → Option (Json × List Char)
  | 0, _ => none
  | depth + 1, cs =>
    match skipSpace cs with
    | '"' :: rest => (scanString rest).map fun (s, r) => (str (String.ofList s), r)
    | '[' :: rest =>
      match skipSpace rest with
      | ']' :: rest => some (arr [], rest)
      | rest => (scanItems depth rest).map fun (xs, r) => (arr xs, r)
    | '\x7b' :: rest =>
      match skipSpace rest with
      | '\x7d' :: rest => some (obj [], rest)
      | rest => (scanMembers depth rest).map fun (ms, r) => (object ms, r)
    | 'n' :: rest => (expect? ['u', 'l', 'l'] rest).map fun r => (null, r)
    | 't' :: rest => (expect? ['r', 'u', 'e'] rest).map fun r => (bool true, r)
    | 'f' :: rest => (expect? ['a', 'l', 's', 'e'] rest).map fun r => (bool false, r)
    | cs => (Number.scan? cs).map fun (n, r) => (num n, r)

/-- Reads one or more items and the closing bracket. -/
def scanItems : Nat → List Char → Option (List Json × List Char)
  | 0, _ => none
  | depth + 1, cs =>
    match scanValue depth cs with
    | none => none
    | some (x, rest) =>
      match skipSpace rest with
      | ']' :: rest => some ([x], rest)
      | ',' :: rest => (scanItems depth rest).map fun (xs, r) => (x :: xs, r)
      | _ => none

/-- Reads one or more members and the closing brace. -/
def scanMembers : Nat → List Char → Option (List (String × Json) × List Char)
  | 0, _ => none
  | depth + 1, cs =>
    match skipSpace cs with
    | '"' :: rest =>
      match scanString rest with
      | none => none
      | some (k, rest) =>
        match skipSpace rest with
        | ':' :: rest =>
          match scanValue depth rest with
          | none => none
          | some (x, rest) =>
            match skipSpace rest with
            | '\x7d' :: rest => some ([(String.ofList k, x)], rest)
            | ',' :: rest =>
              (scanMembers depth rest).map fun (ms, r) => ((String.ofList k, x) :: ms, r)
            | _ => none
        | _ => none
    | _ => none

end

/-- The document that a whole text denotes. Each step of the reader takes a
    character or goes one level down, so the length of the text bounds them. -/
def parse? (s : String) : Option Json :=
  let cs := s.toList
  match scanValue (2 * cs.length + 1) cs with
  | some (j, rest) => if (skipSpace rest).isEmpty then some j else none
  | none => none

end Json

end EdgeFields
