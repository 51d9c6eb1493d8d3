/-
  EdgeFields/Toml/Value.lean
  ==========================
  **Keys and values of TOML.**

  A value is a truth value, a number, a date or time, a string in one of four kinds of
  quotes, a list, or a table in braces. A list may run over several lines, with comments;
  a table in braces stays on one. Lists and tables are nested less than `depthLimit` deep,
  and a dotted key has fewer parts than that.

  Dates and times are well formed, but no setting takes one: a date is read as a table with
  a single member.
-/
import EdgeFields.Settings.Literal
import EdgeFields.Toml.Table

namespace EdgeFields.Toml

open Literal (isGap skipGaps isText)

/-- The number of levels that is too deep. -/
def depthLimit : Nat := 80

/-! ### Lines -/

/-- What follows the end of a line. -/
def newline? : List Char → Option (List Char)
  | '\n' :: rest => some rest
  | '\r' :: '\n' :: rest => some rest
  | _ => none

/-- What follows a comment, if there is one. -/
def skipComment (cs : List Char) : List Char :=
  match cs with
  | '#' :: rest => rest.dropWhile isText
  | cs => cs

/-- What follows the line, on which there is nothing left but a comment. -/
def endLine? (cs : List Char) : Option (List Char) :=
  match skipComment (skipGaps cs) with
  | [] => some []
  | rest => newline? rest

/-- What follows blanks, line ends and comments. Each step takes a line. -/
def skipLines : Nat → List Char → Option (List Char)
  | 0, _ => none
  | steps + 1, cs =>
    match skipGaps cs with
    | '#' :: rest => (newline? (rest.dropWhile isText)).bind (skipLines steps)
    | rest =>
      match newline? rest with
      | some rest => skipLines steps rest
      | none => some rest

/-! ### Strings -/

/-- Reads a string in single quotes from behind the first one. -/
def scanLiteral (cs : List Char) : Option (List Char × List Char) :=
  match cs.span fun c => isText c && c != '\'' with
  | (s, '\'' :: rest) => some (s, rest)
  | _ => none

/-- What follows blanks and line ends. -/
def skipBlankLines : List Char → List Char
  | '\r' :: '\n' :: cs => skipBlankLines cs
  | c :: cs => if isGap c || c == '\n' then skipBlankLines cs else c :: cs
  | [] => []

/-- Reads a string over several lines up to three quotes in a row; one or two more may stand
    right before them. Line ends are written as a line feed. Under double quotes there are
    escapes, and a backslash at the end of a line hides the blanks up to the next text. -/
def scanLong (quote : Char) : Nat → List Char → Option (List Char × List Char)
  | 0, _ => none
  | _, [] => none
  | steps + 1, c :: rest =>
    if c = quote then
      let run := (c :: rest).takeWhile (· == quote)
      let behind := (c :: rest).dropWhile (· == quote)
      if run.length < 3 then (scanLong quote steps behind).map fun (s, r) => (run ++ s, r)
      else
        let inside := min (run.length - 3) 2
        some (List.replicate inside quote, (c :: rest).drop (inside + 3))
    else if c = '\\' ∧ quote = '"' then
      match newline? (skipGaps rest) with
      | some rest => scanLong quote steps (skipBlankLines rest)
      | none => do
        let (e, rest) ← Literal.scanEscape rest
        let (s, rest) ← scanLong quote steps rest
        pure (e :: s, rest)
    else match newline? (c :: rest) with
      | some rest => (scanLong quote steps rest).map fun (s, r) => ('\n' :: s, r)
      | none =>
        if isText c then (scanLong quote steps rest).map fun (s, r) => (c :: s, r) else none

/-- Reads a string over several lines from behind its opening quotes. A line end right there
    does not count. -/
def scanBlock (quote : Char) (cs : List Char) : Option (List Char × List Char) :=
  scanLong quote (cs.length + 1) ((newline? cs).getD cs)

/-! ### Keys -/

/-- The characters of a bare key. -/
def isKeyChar (c : Char) : Bool := c.isAlphanum || c == '_' || c == '-'

/-- Reads one part of a key. -/
def scanPart : List Char → Option (String × List Char)
  | '"' :: rest => (Literal.scanQuoted rest).map fun (k, r) => (String.ofList k, r)
  | '\'' :: rest => (scanLiteral rest).map fun (k, r) => (String.ofList k, r)
  | cs =>
    match cs.span isKeyChar with
    | ([], _) => none
    | (k, rest) => some (String.ofList k, rest)

/-- Reads the parts of a key, with the blanks around them. -/
def scanParts : Nat → List Char → Option (List String × List Char)
  | 0, _ => none
  | steps + 1, cs => do
    let (k, rest) ← scanPart (skipGaps cs)
    match skipGaps rest with
    | '.' :: rest => (scanParts steps rest).map fun (ks, r) => (k :: ks, r)
    | rest => some ([k], rest)

/-- Reads a dotted key. -/
def scanKey : List Char → Option (List String × List Char) := scanParts (depthLimit - 1)

/-! ### Numbers -/

/-- Reads digits, with single underscores between them. -/
def scanDigits (isDigit : Char → Bool) : List Char → Option (List Char × List Char)
  | [] => none
  | c :: cs =>
    if !isDigit c then none
    else match cs with
      | '_' :: rest => (scanDigits isDigit rest).map fun (ds, r) => (c :: ds, r)
      | rest => match scanDigits isDigit rest with
        | some (ds, r) => some (c :: ds, r)
        | none => if rest.head?.any isDigit then none else some ([c], rest)

/-- Reads a decimal integer without a sign: zero, or digits of which the first is not zero. -/
def scanWhole : List Char → Option (List Char × List Char)
  | '0' :: rest => some (['0'], rest)
  | cs => scanDigits Char.isDigit cs

/-- An integer of 64 bits. -/
def integer? (i : Int) : Option Json :=
  if -0x8000000000000000 ≤ i ∧ i < 0x8000000000000000 then some (Literal.ofInt i) else none

/-- Reads an integer in a radix from behind its mark. -/
def scanRadix (radix : Nat) (cs : List Char) : Option (Json × List Char) := do
  let (ds, rest) ← scanDigits (Literal.isDigitOf radix) cs
  let n ← Literal.natural? radix ds
  (integer? n).map (·, rest)

/-- Reads a fraction from its point on, if there is one. -/
def scanFraction : List Char → Option (List Char × List Char)
  | '.' :: rest => scanDigits Char.isDigit rest
  | rest => some ([], rest)

/-- Reads an exponent from its mark on, if there is one. -/
def scanExponent : List Char → Option (Option Int × List Char)
  | c :: rest =>
    if c = 'e' ∨ c = 'E' then do
      let (negative, rest) := Literal.splitSign rest
      let (ds, rest) ← scanDigits Char.isDigit rest
      let e : Int := Number.digitsValue ds
      pure (some (if negative then -e else e), rest)
    else some (none, c :: rest)
  | [] => some (none, [])

/-- Reads a decimal number without its sign. An integer fits 64 bits, and a number that is
    too large for a double is below zero. -/
def scanDecimal (negative : Bool) (cs : List Char) : Option (Json × List Char) := do
  let (whole, rest) ← scanWhole cs
  let (fraction, rest) ← scanFraction rest
  let (exponent, rest) ← scanExponent rest
  if fraction.isEmpty ∧ exponent.isNone then
    let n : Int := Number.digitsValue whole
    (integer? (if negative then -n else n)).map (·, rest)
  else
    let d : Literal.DecimalText :=
      ⟨negative, Number.digitsValue (whole ++ fraction), exponent.getD 0 - fraction.length⟩
    if negative || d.isFinite then some (Literal.otherNumber, rest) else none

/-- Reads a number. -/
def scanNumber (cs : List Char) : Option (Json × List Char) :=
  match cs with
  | '0' :: 'x' :: rest => scanRadix 16 rest
  | '0' :: 'o' :: rest => scanRadix 8 rest
  | '0' :: 'b' :: rest => scanRadix 2 rest
  | cs =>
    match Literal.splitSign cs with
    | (_, 'i' :: 'n' :: 'f' :: rest) => some (Literal.otherNumber, rest)
    | (_, 'n' :: 'a' :: 'n' :: rest) => some (Literal.otherNumber, rest)
    | (negative, cs) => scanDecimal negative cs

/-! ### Dates and times -/

/-- Reads a number of exactly so many digits. -/
def scanField (count : Nat) (cs : List Char) : Option (Nat × List Char) :=
  let ds := cs.take count
  if ds.length = count ∧ ds.all Char.isDigit then some (Number.digitsValue ds, cs.drop count)
  else none

/-- Reads a number of two digits within bounds from behind a mark. -/
def scanPair (mark : Char) (low high : Nat) (cs : List Char) : Option (Nat × List Char) := do
  let rest ← Json.expect? [mark] cs
  let (n, rest) ← scanField 2 rest
  if low ≤ n ∧ n ≤ high then some (n, rest) else none

def daysOf (year month : Nat) : Nat :=
  if month = 2 then
    if year % 4 = 0 ∧ (year % 100 ≠ 0 ∨ year % 400 = 0) then 29 else 28
  else if month = 4 ∨ month = 6 ∨ month = 9 ∨ month = 11 then 30
  else 31

/-- What follows a date. -/
def skipDate (cs : List Char) : Option (List Char) := do
  let (year, rest) ← scanField 4 cs
  let (month, rest) ← scanPair '-' 1 12 rest
  let (_, rest) ← scanPair '-' 1 (daysOf year month) rest
  pure rest

/-- What follows a time of day. A minute may have a leap second. -/
def skipTime (cs : List Char) : Option (List Char) := do
  let (hour, rest) ← scanField 2 cs
  guard (hour ≤ 23)
  let (_, rest) ← scanPair ':' 0 59 rest
  let (_, rest) ← scanPair ':' 0 60 rest
  match rest with
  | '.' :: c :: more => if c.isDigit then some (more.dropWhile Char.isDigit) else some rest
  | rest => some rest

/-- What follows an offset from universal time, if there is one. -/
def skipOffset (cs : List Char) : Option (List Char) :=
  match cs with
  | 'Z' :: rest => some rest
  | 'z' :: rest => some rest
  | c :: rest =>
    if c = '+' ∨ c = '-' then do
      let (hour, rest) ← scanField 2 rest
      guard (hour ≤ 23)
      (scanPair ':' 0 59 rest).map (·.2)
    else some cs
  | [] => some []

/-- What follows a time of day and an offset behind a date, if they are there. -/
def skipClock (cs : List Char) : Option (List Char) :=
  match cs with
  | c :: rest =>
    if c = 'T' ∨ c = 't' ∨ (c = ' ' ∧ (scanField 2 rest).isSome) then
      (skipTime rest).bind skipOffset
    else some cs
  | [] => some []

/-- Whether a text starts like a date or a time and not like a number. -/
def startsMoment (cs : List Char) : Bool :=
  (cs.take 4).all Char.isDigit && cs[4]? == some '-' ||
    (cs.take 2).all Char.isDigit && cs[2]? == some ':'

/-- Reads a date, a time, or both. -/
def scanMoment (cs : List Char) : Option (Json × List Char) := do
  let rest ← if cs[2]? = some ':' then skipTime cs else (skipDate cs).bind skipClock
  pure (.obj [("date", .str (String.ofList (cs.take (cs.length - rest.length))))], rest)

/-! ### Values -/

mutual

/-- Reads a value; `depth` counts the levels of lists and tables that may still be opened.
    Each step takes a character or goes one level down. -/
def scanValue : Nat → Nat → List Char → Option (Json × List Char)
  | 0, _, _ => none
  | steps + 1, depth, cs =>
    match cs with
    | '"' :: '"' :: '"' :: rest => (scanBlock '"' rest).map fun (s, r) => (.str (String.ofList s), r)
    | '"' :: rest => (Literal.scanQuoted rest).map fun (s, r) => (.str (String.ofList s), r)
    | '\'' :: '\'' :: '\'' :: rest =>
      (scanBlock '\'' rest).map fun (s, r) => (.str (String.ofList s), r)
    | '\'' :: rest => (scanLiteral rest).map fun (s, r) => (.str (String.ofList s), r)
    | 't' :: 'r' :: 'u' :: 'e' :: rest => some (.bool true, rest)
    | 'f' :: 'a' :: 'l' :: 's' :: 'e' :: rest => some (.bool false, rest)
    | '[' :: rest =>
      match depth with
      | 0 => none
      | depth + 1 => (scanItems steps depth rest).map fun (vs, r) => (.arr vs, r)
    | '\x7b' :: rest =>
      match depth with
      | 0 => none
      | depth + 1 =>
        match skipGaps rest with
        | '\x7d' :: rest => some (.obj [], rest)
        | rest => (scanMembers steps depth [] rest).map fun (t, r) => (.obj t.toMembers, r)
    | cs => if startsMoment cs then scanMoment cs else scanNumber cs

/-- Reads the items of a list up to its closing bracket; a comma may stand before that. -/
def scanItems : Nat → Nat → List Char → Option (List Json × List Char)
  | 0, _, _ => none
  | steps + 1, depth, cs => do
    match ← skipLines (cs.length + 1) cs with
    | ']' :: rest => pure ([], rest)
    | cs =>
      let (v, rest) ← scanValue steps depth cs
      match ← skipLines (rest.length + 1) rest with
      | ',' :: rest => (scanItems steps depth rest).map fun (vs, r) => (v :: vs, r)
      | ']' :: rest => pure ([v], rest)
      | _ => none

/-- Reads one or more members into a table, up to its closing brace. -/
def scanMembers : Nat → Nat → Table → List Char → Option (Table × List Char)
  | 0, _, _, _ => none
  | steps + 1, depth, t, cs => do
    let (path, rest) ← scanKey cs
    let rest ← Json.expect? ['='] rest
    let (v, rest) ← scanValue steps depth (skipGaps rest)
    let t ← t.put path v
    match skipGaps rest with
    | ',' :: rest => scanMembers steps depth t rest
    | '\x7d' :: rest => pure (t, rest)
    | _ => none

end

end EdgeFields.Toml
