/-
  EdgeFields/Yaml/Cursor.lean
  ===========================
  **Positions in a YAML text.**

  In YAML the column of a token says how it nests, and a key has to stay on its line. So a
  reader carries a cursor: the text ahead and the place that it has come to, counted in
  characters. A carriage return and a line feed make one line end.
-/
import EdgeFields.Settings.Literal

namespace EdgeFields.Yaml

/-- The characters that a text may contain. -/
def isAllowed (c : Char) : Bool :=
  c == '\t' || c == '\n' || c == '\r' || c == '\x85' || ('\x20' ≤ c && c ≤ '\x7e') ||
    ('\xa0' ≤ c && c ≤ '\ufffd') || 0x10000 ≤ c.toNat

/-- A space or a tab. -/
def isBlank (c : Char) : Bool := Literal.isGap c

/-- A character that ends a line. -/
def isBreak (c : Char) : Bool :=
  c == '\n' || c == '\r' || c == '\x85' || c == '\u2028' || c == '\u2029'

/-- Whether a word ends before a character, or at the end of the text. -/
def endsWord (c : Option Char) : Bool := c.all fun c => isBlank c || isBreak c

/-- The characters of names: of anchors, directives and tag handles. -/
def isNameChar (c : Char) : Bool := c.isAlphanum || c == '_' || c == '-'

/-- A line end as it is read: all are line feeds but the two separators of Unicode. -/
def breakText (c : Char) : Char := if c = '\r' ∨ c = '\x85' then '\n' else c

/-- A place in a text. -/
structure Mark where
  index : Nat
  line : Nat
  column : Nat
deriving DecidableEq, Repr

namespace Mark

def start : Mark := ⟨0, 0, 0⟩

/-- The place some characters further on the line. -/
def ahead (m : Mark) (count : Nat) : Mark := ⟨m.index + count, m.line, m.column + count⟩

/-- The start of the next line, behind a line end of some characters. -/
def nextLine (m : Mark) (count : Nat) : Mark := ⟨m.index + count, m.line + 1, 0⟩

end Mark

/-- A place and the text from there on. -/
structure Cursor where
  mark : Mark
  rest : List Char

namespace Cursor

def column (c : Cursor) : Nat := c.mark.column

/-- The cursor some characters further on its line. -/
def skip (c : Cursor) (count : Nat) : Cursor := ⟨c.mark.ahead count, c.rest.drop count⟩

/-- The cursor where the text on its line goes on with `rest`. -/
def moveTo (c : Cursor) (rest : List Char) : Cursor :=
  ⟨c.mark.ahead (c.rest.length - rest.length), rest⟩

/-- The cursor behind the characters of its line that satisfy `p`. -/
def skipWhile (c : Cursor) (p : Char → Bool) : Cursor := c.moveTo (c.rest.dropWhile p)

/-- The line end at the cursor as it is read, and the cursor behind it; nothing if there is
    none. -/
def readBreak (c : Cursor) : List Char × Cursor :=
  match c.rest with
  | '\r' :: '\n' :: rest => (['\n'], ⟨c.mark.nextLine 2, rest⟩)
  | b :: rest => if isBreak b then ([breakText b], ⟨c.mark.nextLine 1, rest⟩) else ([], c)
  | [] => ([], c)

/-- The cursor behind a comment, if there is one. -/
def skipComment (c : Cursor) : Cursor :=
  if c.rest.head? = some '#' then c.skipWhile fun d => !isBreak d else c

/-- The cursor behind the line, on which there is nothing left but a comment. -/
def endLine? (c : Cursor) : Option Cursor :=
  let c := (c.skipWhile isBlank).skipComment
  if c.rest.head?.all isBreak then some c.readBreak.2 else none

/-- Whether a line starts here with three dots or three hyphens. -/
def atDocumentMark (c : Cursor) : Bool :=
  c.column == 0 && (c.rest.take 3 == "---".toList || c.rest.take 3 == "...".toList) &&
    endsWord c.rest[3]?

end Cursor

end EdgeFields.Yaml
