/-
  EdgeFields/Yaml/Scalar.lean
  ===========================
  **Reading scalars.**

  A scalar is a plain text, a text in single or double quotes, or a block. The first three
  may run over several lines; then a single line end among the blanks becomes a space, and of
  more line ends the first one is dropped (`Gap.text`). A block keeps its line ends, or folds
  them between lines that do not start with blanks.
-/
import EdgeFields.Yaml.Cursor

namespace EdgeFields.Yaml

/-! ### Gaps between words -/

/-- Blanks and line ends between two words of a scalar. -/
structure Gap where
  /-- The blanks on the line of the first word. -/
  blanks : List Char := []
  /-- Whether there is a line end. -/
  broken : Bool := false
  /-- The first line end, unless it is escaped. -/
  first : List Char := []
  /-- All other line ends. -/
  others : List Char := []

namespace Gap

/-- What a gap stands for between two words. -/
def text (g : Gap) : List Char :=
  if !g.broken then g.blanks
  else if g.first = ['\n'] then (if g.others.isEmpty then [' '] else g.others)
  else g.first ++ g.others

def addBlank (g : Gap) (c : Char) : Gap :=
  if g.broken then g else { g with blanks := g.blanks ++ [c] }

def addBreak (g : Gap) (c : Char) : Gap :=
  if g.broken then { g with others := g.others ++ [c] }
  else { blanks := [], broken := true, first := [c], others := [] }

/-- Reads a gap. No tab may stand on a later line in front of a given column. -/
def scan (column : Nat) (g : Gap) (m : Mark) : List Char → Option (Gap × Cursor)
  | [] => some (g, ⟨m, []⟩)
  | '\r' :: '\n' :: rest => scan column (g.addBreak '\n') (m.nextLine 2) rest
  | c :: rest =>
    if isBreak c then scan column (g.addBreak (breakText c)) (m.nextLine 1) rest
    else if isBlank c then
      if g.broken && c = '\t' && m.column < column then none
      else scan column (g.addBlank c) (m.ahead 1) rest
    else some (g, ⟨m, c :: rest⟩)

end Gap

/-! ### Plain scalars -/

/-- The characters that set off the items of collections in brackets and braces. -/
def isFlowMark (c : Char) : Bool := ",[]\x7b\x7d".toList.contains c

/-- Reads a word of a plain scalar. It ends before a blank, before a colon that ends a word,
    and inside of brackets before their marks; there, no mark may follow a colon. -/
def scanWord (inFlow : Bool) : List Char → Option (List Char × List Char)
  | [] => some ([], [])
  | c :: rest =>
    if isBlank c || isBreak c then some ([], c :: rest)
    else if inFlow && c = ':' && rest.head?.any (fun d => isFlowMark d || d == '?') then none
    else if c = ':' && endsWord rest.head? then some ([], c :: rest)
    else if inFlow && isFlowMark c then some ([], c :: rest)
    else (scanWord inFlow rest).map fun (w, r) => (c :: w, r)

/-- A scalar that has been read. -/
structure Scanned where
  text : List Char
  /-- Whether the scalar ends with a line end that it does not contain. -/
  endsLine : Bool
  cursor : Cursor

/-- Reads the words of a plain scalar behind a gap. Outside of brackets, later lines are
    indented at least to a given column. Each step takes a character. -/
def scanWords (inFlow : Bool) (column : Nat) : Nat → List Char → Gap → Cursor → Option Scanned
  | 0, _, _, _ => none
  | steps + 1, text, gap, c =>
    if c.atDocumentMark || c.rest.head? = some '#' then some ⟨text, gap.broken, c⟩
    else
      match scanWord inFlow c.rest with
      | none => none
      | some ([], _) => some ⟨text, gap.broken, c⟩
      | some (w, rest) =>
        let text := text ++ gap.text ++ w
        let c := c.moveTo rest
        if rest.head?.all fun d => !(isBlank d || isBreak d) then some ⟨text, false, c⟩
        else
          match Gap.scan column {} c.mark rest with
          | none => none
          | some (gap, c) =>
            if !inFlow && c.column < column then some ⟨text, gap.broken, c⟩
            else scanWords inFlow column steps text gap c

def scanPlain (inFlow : Bool) (column : Nat) (c : Cursor) : Option Scanned :=
  scanWords inFlow column (c.rest.length + 1) [] {} c

/-! ### Quoted scalars -/

/-- The character that a letter behind a backslash stands for. -/
def unescape? : Char → Option Char
  | '0' => some '\x00'
  | 'a' => some '\x07'
  | 'b' => some '\x08'
  | 't' => some '\t'
  | '\t' => some '\t'
  | 'n' => some '\n'
  | 'v' => some '\x0b'
  | 'f' => some '\x0c'
  | 'r' => some '\r'
  | 'e' => some '\x1b'
  | ' ' => some ' '
  | '"' => some '"'
  | '/' => some '/'
  | '\\' => some '\\'
  | 'N' => some '\x85'
  | '_' => some '\xa0'
  | 'L' => some '\u2028'
  | 'P' => some '\u2029'
  | _ => none

/-- The number of hexadecimal digits behind a letter that announces a code point. -/
def codeLength? : Char → Option Nat
  | 'x' => some 2
  | 'u' => some 4
  | 'U' => some 8
  | _ => none

/-- The character that an escape denotes, from behind its backslash, and what follows. -/
def scanEscape : List Char → Option (Char × List Char)
  | [] => none
  | c :: rest =>
    match codeLength? c with
    | some count =>
      if rest.length < count then none
      else ((Literal.natural? 16 (rest.take count)).bind Literal.charOf?).map (·, rest.drop count)
    | none => (unescape? c).map (·, rest)

/-- How a piece of a quoted scalar ends. -/
inductive PieceEnd where
  | quote
  | gap
  /-- A backslash at the end of the line. -/
  | escapedBreak

/-- Reads a quoted scalar up to the next blank, line end or closing quote. Each step takes a
    character. -/
def scanPiece (quote : Char) : Nat → List Char → Option (List Char × PieceEnd × List Char)
  | 0, _ => none
  | _, [] => some ([], .gap, [])
  | steps + 1, c :: rest =>
    if isBlank c || isBreak c then some ([], .gap, c :: rest)
    else if c = quote then
      match rest with
      | d :: more =>
        if quote = '\'' ∧ d = quote then
          (scanPiece quote steps more).map fun (s, e, r) => (c :: s, e, r)
        else some ([], .quote, rest)
      | [] => some ([], .quote, [])
    else if c = '\\' ∧ quote = '"' then
      if rest.head?.any isBreak then some ([], .escapedBreak, rest)
      else do
        let (d, rest) ← scanEscape rest
        (scanPiece quote steps rest).map fun (s, e, r) => (d :: s, e, r)
    else (scanPiece quote steps rest).map fun (s, e, r) => (c :: s, e, r)

/-- Reads the pieces of a quoted scalar. Each step takes a character. -/
def scanPieces (quote : Char) : Nat → List Char → Cursor → Option (List Char × Cursor)
  | 0, _, _ => none
  | steps + 1, text, c =>
    if c.atDocumentMark || c.rest.isEmpty then none
    else do
      let (s, e, rest) ← scanPiece quote (c.rest.length + 1) c.rest
      let text := text ++ s
      let c := c.moveTo rest
      match e with
      | .quote => pure (text, c)
      | .gap =>
        let (gap, c) ← Gap.scan 0 {} c.mark c.rest
        scanPieces quote steps (text ++ gap.text) c
      | .escapedBreak =>
        let c := c.readBreak.2
        let (gap, c) ← Gap.scan 0 { broken := true } c.mark c.rest
        scanPieces quote steps (text ++ gap.text) c

/-- Reads a quoted scalar from its opening quote on. -/
def scanQuoted (quote : Char) (c : Cursor) : Option (List Char × Cursor) :=
  scanPieces quote (c.rest.length + 1) [] (c.skip 1)

/-! ### Blocks -/

/-- What becomes of the line ends at the end of a block. -/
inductive Chomping where
  /-- All are dropped. -/
  | strip
  /-- One is kept. -/
  | clip
  /-- All are kept. -/
  | keep
deriving DecidableEq, Repr

/-- Reads the sign for the chomping, if there is one. -/
def scanChomping (c : Cursor) : Option Chomping × Cursor :=
  match c.rest with
  | '+' :: _ => (some .keep, c.skip 1)
  | '-' :: _ => (some .strip, c.skip 1)
  | _ => (none, c)

/-- Reads the digit for the indentation, if there is one; it is not zero. -/
def scanIncrement (c : Cursor) : Option (Option Nat × Cursor) :=
  match c.rest with
  | d :: _ =>
    if d = '0' then none
    else if d.isDigit then some (some (d.toNat - '0'.toNat), c.skip 1)
    else some (none, c)
  | [] => some (none, c)

/-- Reads the two indicators of a block, in any order. -/
def scanIndicators (c : Cursor) : Option (Chomping × Option Nat × Cursor) := do
  let (before, c) := scanChomping c
  let (increment, c) ← scanIncrement c
  let (behind, c) := if before.isNone ∧ increment.isSome then scanChomping c else (none, c)
  pure ((before.or behind).getD .clip, increment, c)

/-- Reads indentation and empty lines in front of a column, if it is known. Returns the line
    ends and the largest column that was reached. No tab may stand in front of the column. -/
def scanIndentation (column : Option Nat) (breaks : List Char) (widest : Nat) (m : Mark) :
    List Char → Option (List Char × Nat × Cursor)
  | [] => some (breaks, max widest m.column, ⟨m, []⟩)
  | '\r' :: '\n' :: rest =>
    scanIndentation column (breaks ++ ['\n']) (max widest m.column) (m.nextLine 2) rest
  | c :: rest =>
    let before := column.all (m.column < ·)
    if c = ' ' && before then scanIndentation column breaks widest (m.ahead 1) rest
    else if c = '\t' && before then none
    else if isBreak c then
      scanIndentation column (breaks ++ [breakText c]) (max widest m.column) (m.nextLine 1) rest
    else some (breaks, max widest m.column, ⟨m, c :: rest⟩)

/-- A block of which some lines have been read. -/
structure Block where
  text : List Char := []
  /-- The end of the last line. -/
  lineEnd : List Char := []
  /-- The empty lines behind it. -/
  breaks : List Char
  /-- Whether the last line starts with a blank. -/
  blankStart : Bool := false

/-- Reads the lines of a block at a column. Each step takes a line. -/
def scanBlockLines (folded : Bool) (column : Nat) : Nat → Block → Cursor → Option (Block × Cursor)
  | 0, _, _ => none
  | steps + 1, b, c =>
    if c.column ≠ column ∨ c.rest.isEmpty then some (b, c)
    else do
      let blank := c.rest.head?.any isBlank
      let lineEnd :=
        if folded && b.lineEnd = ['\n'] && !b.blankStart && !blank then
          (if b.breaks.isEmpty then [' '] else [])
        else b.lineEnd
      let line := c.rest.takeWhile fun d => !isBreak d
      let (next, c) := (c.skip line.length).readBreak
      let (breaks, _, c) ← scanIndentation (some column) [] 0 c.mark c.rest
      scanBlockLines folded column steps
        ⟨b.text ++ lineEnd ++ b.breaks ++ line, next, breaks, blank⟩ c

/-- Reads a block from its sign on; `least` is the least column of its lines. -/
def scanBlock (folded : Bool) (least : Nat) (c : Cursor) : Option (List Char × Cursor) := do
  let (chomping, increment, c) ← scanIndicators (c.skip 1)
  let c ← c.endLine?
  let given := increment.map (least - 1 + ·)
  let (breaks, widest, c) ← scanIndentation given [] 0 c.mark c.rest
  let column := given.getD (max widest (max least 1))
  let (b, c) ← scanBlockLines folded column (c.rest.length + 1) { breaks } c
  let tail := match chomping with
    | .strip => []
    | .clip => b.lineEnd
    | .keep => b.lineEnd ++ b.breaks
  pure (b.text ++ tail, c)

end EdgeFields.Yaml
