/-
  EdgeFields/Settings/Literal.lean
  ================================
  **Literals of settings.**

  What the notations for settings share: integers in a radix, decimal numbers, and strings
  in double quotes with the escapes of TOML.

  Settings take integers of 64 bits and no other number. So of all other numbers it is only
  known that they are numbers (`Literal.otherNumber`).
-/
import EdgeFields.Json.Reader

namespace EdgeFields.Literal

/-- A space or a tab. -/
def isGap (c : Char) : Bool := c == ' ' || c == '\t'

def skipGaps (cs : List Char) : List Char := cs.dropWhile isGap

/-! ### Numbers -/

/-- A number that is no integer of 64 bits. -/
def otherNumber : Json := .num (.float (Double.zero false))

def ofInt (i : Int) : Json := if Number.InRange i then .num (.int i) else otherNumber

/-- A text without a leading sign, and whether that is a minus sign. -/
def splitSign : List Char → Bool × List Char
  | '-' :: cs => (true, cs)
  | '+' :: cs => (false, cs)
  | cs => (false, cs)

def isDigitOf (radix : Nat) (c : Char) : Bool := (Json.hexValue? c).any (· < radix)

/-- The number that digits denote. -/
def natural? (radix : Nat) (ds : List Char) : Option Nat :=
  if ds.isEmpty then none
  else ds.foldlM (fun n c => ((Json.hexValue? c).filter (· < radix)).map (n * radix + ·)) 0

/-- A decimal number `± digits * 10 ^ exponent`. -/
structure DecimalText where
  negative : Bool
  digits : Nat
  exponent : Int

/-- The decimal number that a text denotes. It has a digit before or behind the point. -/
def decimal? (cs : List Char) : Option DecimalText := do
  let (negative, cs) := splitSign cs
  let (whole, cs) := Number.spanDigits cs
  let (fraction, cs) := match cs with
    | '.' :: rest => Number.spanDigits rest
    | rest => ([], rest)
  guard (!(whole.isEmpty && fraction.isEmpty))
  let (exponent, cs) ← Number.scanExponent cs
  guard cs.isEmpty
  pure ⟨negative, Number.digitsValue (whole ++ fraction), exponent.getD 0 - fraction.length⟩

/-- Whether a number is not too large for a double. -/
def DecimalText.isFinite (d : DecimalText) : Bool :=
  (Double.ofDecimal d.negative d.digits d.exponent).isSome

/-! ### Strings -/

/-- The characters of a line: no control character but the tab. -/
def isText (c : Char) : Bool := c == '\t' || ('\x20' ≤ c && c != '\x7f')

/-- The character with a code point. -/
def charOf? (n : Nat) : Option Char := if n.isValidChar then some (Char.ofNat n) else none

/-- The character that an escape denotes, from behind its backslash, and what follows. -/
def scanEscape : List Char → Option (Char × List Char)
  | [] => none
  | c :: cs =>
    match c with
    | '"' => some ('"', cs)
    | '\\' => some ('\\', cs)
    | 'b' => some ('\x08', cs)
    | 'f' => some ('\x0c', cs)
    | 'n' => some ('\n', cs)
    | 'r' => some ('\r', cs)
    | 't' => some ('\t', cs)
    | 'u' => coded 4 cs
    | 'U' => coded 8 cs
    | _ => none
where
  /-- A character written with that many hexadecimal digits. -/
  coded (count : Nat) (cs : List Char) : Option (Char × List Char) :=
    if cs.length < count then none
    else ((natural? 16 (cs.take count)).bind charOf?).map (·, cs.drop count)

/-- Reads a string from behind its opening double quote. Each step takes a character, so
    the length of the text bounds them. -/
def scanQuoted (cs : List Char) : Option (List Char × List Char) := go (cs.length + 1) cs
where
  go : Nat → List Char → Option (List Char × List Char)
    | 0, _ => none
    | _, [] => none
    | _, '"' :: rest => some ([], rest)
    | steps + 1, '\\' :: rest => do
      let (c, rest) ← scanEscape rest
      let (s, rest) ← go steps rest
      pure (c :: s, rest)
    | steps + 1, c :: rest =>
      if isText c then (go steps rest).map fun (s, r) => (c :: s, r) else none

end EdgeFields.Literal
