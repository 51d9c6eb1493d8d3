/-
  EdgeFields/Yaml/Token.lean
  ==========================
  **Tokens of YAML.**

  The scanner cuts a text into tokens and makes the nesting by indentation explicit: a block
  collection opens where a line is indented more than the collection around it, and closes
  where a later line is indented less.

  Whether a scalar is a key shows only at the colon behind it. So the scanner remembers where
  a key may have started (`Candidate`), and the colon puts the token of the key in front of
  it. A candidate lapses at the end of its line and 1024 characters on; it must become a key
  if the line is indented just as the collection that it is in.
-/
import EdgeFields.Yaml.Scalar

namespace EdgeFields.Yaml

inductive Token where
  | version (major minor : Nat)
  | tagDirective (handle front : String)
  /-- Three hyphens. -/
  | documentStart
  /-- Three dots. -/
  | documentEnd
  | blockSequenceStart
  | blockMappingStart
  | blockEnd
  | flowSequenceStart
  | flowSequenceEnd
  | flowMappingStart
  | flowMappingEnd
  /-- A hyphen in front of an item. -/
  | blockEntry
  /-- A comma. -/
  | flowEntry
  | key
  | value
  /-- An asterisk and the name of an anchor. -/
  | ref (name : String)
  | anchor (name : String)
  | tag (handle suffix : String)
  | scalar (plain : Bool) (text : String)
deriving DecidableEq, Repr

/-! ### Tags and directives -/

/-- The characters of tags, besides those of names. -/
def isTagMark (c : Char) : Bool := ";/?:@&=+$.%!~*'()".toList.contains c

/-- The number of octets of a character that starts with an octet. -/
def octetCount? (octet : Nat) : Option Nat :=
  if octet < 0x80 then some 1
  else if 0xC0 ≤ octet ∧ octet < 0xE0 then some 2
  else if 0xE0 ≤ octet ∧ octet < 0xF0 then some 3
  else if 0xF0 ≤ octet ∧ octet < 0xF8 then some 4
  else none

/-- Reads an octet written with a percent sign and two digits. -/
def scanOctet : List Char → Option (Nat × List Char)
  | '%' :: a :: b :: rest => (Literal.natural? 16 [a, b]).map (·, rest)
  | _ => none

/-- Reads the trailing octets of a character. -/
def scanTrailing : Nat → Nat → List Char → Option (Nat × List Char)
  | 0, n, rest => some (n, rest)
  | count + 1, n, rest => do
    let (octet, rest) ← scanOctet rest
    if 0x80 ≤ octet ∧ octet < 0xC0 then scanTrailing count (n * 64 + (octet - 0x80)) rest else none

/-- Reads a character written as octets. -/
def scanOctets (cs : List Char) : Option (Char × List Char) := do
  let (octet, rest) ← scanOctet cs
  let count ← octetCount? octet
  let first := if count = 1 then octet else octet % Nat.pow 2 (7 - count)
  let (n, rest) ← scanTrailing (count - 1) first rest
  pure (Char.ofNat n, rest)

/-- Reads the characters of a tag; a verbatim tag may contain some more. Each step takes a
    character. -/
def scanTagText (verbatim : Bool) : Nat → List Char → Option (List Char × List Char)
  | 0, _ => none
  | _, [] => some ([], [])
  | steps + 1, c :: rest =>
    if c = '%' then do
      let (d, rest) ← scanOctets (c :: rest)
      (scanTagText verbatim steps rest).map fun (s, r) => (d :: s, r)
    else if isNameChar c || isTagMark c || (verbatim && ",[]".toList.contains c) then
      (scanTagText verbatim steps rest).map fun (s, r) => (c :: s, r)
    else some ([], c :: rest)

/-- Reads an exclamation mark, a name, and another exclamation mark if there is one. -/
def scanHandle : List Char → Option (List Char × List Char)
  | '!' :: rest =>
    match rest.span isNameChar with
    | (name, '!' :: rest) => some ('!' :: (name ++ ['!']), rest)
    | (name, rest) => some ('!' :: name, rest)
  | _ => none

/-- Reads a tag: verbatim in angle brackets, a suffix behind a handle, or a suffix behind an
    exclamation mark. An exclamation mark alone is a tag by itself. -/
def scanTag (cs : List Char) : Option (Token × List Char) :=
  match cs with
  | '!' :: '<' :: rest => do
    let (suffix, rest) ← scanTagText true (rest.length + 1) rest
    match suffix, rest with
    | _ :: _, '>' :: rest => pure (.tag "" (String.ofList suffix), rest)
    | _, _ => none
  | cs => do
    let (handle, rest) ← scanHandle cs
    let (suffix, rest) ← scanTagText false (rest.length + 1) rest
    if 1 < handle.length ∧ handle.getLast? = some '!' then
      if suffix.isEmpty then none
      else pure (.tag (String.ofList handle) (String.ofList suffix), rest)
    else match handle.tail ++ suffix with
      | [] => pure (.tag "" "!", rest)
      | suffix => pure (.tag "!" (String.ofList suffix), rest)

/-- Reads a number of at most nine digits. -/
def scanVersionPart (cs : List Char) : Option (Nat × List Char) :=
  match Number.spanDigits cs with
  | ([], _) => none
  | (ds, rest) => if ds.length ≤ 9 then some (Number.digitsValue ds, rest) else none

/-- Reads a directive from behind its percent sign. -/
def scanDirective (cs : List Char) : Option (Token × List Char) := do
  let (name, rest) := cs.span isNameChar
  guard (endsWord rest.head?)
  let rest := rest.dropWhile isBlank
  if name = "YAML".toList then
    let (major, rest) ← scanVersionPart rest
    let rest ← Json.expect? ['.'] rest
    let (minor, rest) ← scanVersionPart rest
    pure (.version major minor, rest)
  else if name = "TAG".toList then
    let (handle, rest) ← scanHandle rest
    guard (handle.length = 1 ∨ handle.getLast? = some '!')
    guard (rest.head?.any isBlank)
    let rest := rest.dropWhile isBlank
    let (front, rest) ← scanTagText true (rest.length + 1) rest
    guard (!front.isEmpty && endsWord rest.head?)
    pure (.tagDirective (String.ofList handle) (String.ofList front), rest)
  else none

/-! ### The scanner -/

/-- A place where a key may have started. -/
structure Candidate where
  /-- The number of tokens in front of it. -/
  position : Nat
  mark : Mark
  /-- Whether it has to become a key. -/
  required : Bool

structure Scanner where
  cursor : Cursor
  tokens : Array Token := #[]
  /-- The columns of the open block collections, the innermost first. -/
  columns : List Nat := []
  /-- The candidate on the level of the innermost brackets. -/
  candidate : Option Candidate := none
  /-- The candidates on the levels around it. -/
  outer : List (Option Candidate) := []
  /-- Whether a key may start here. -/
  keyAllowed : Bool := true

namespace Scanner

/-- Whether the cursor is inside of brackets or braces. -/
def inFlow (s : Scanner) : Bool := !s.outer.isEmpty

/-- The least column of what is nested in the innermost block collection. -/
def least (s : Scanner) : Nat :=
  match s.columns with
  | [] => 0
  | column :: _ => column + 1

def push (s : Scanner) (t : Token) : Scanner := { s with tokens := s.tokens.push t }

/-- Takes so many characters for a token. -/
def take (s : Scanner) (count : Nat) (t : Token) : Scanner :=
  { s.push t with cursor := s.cursor.skip count }

/-! #### Blanks and comments -/

/-- The scanner in front of the next token. A tab does not count as a blank where a key may
    start. Each step takes a line. -/
def skipToToken : Nat → Scanner → Scanner
  | 0, s => s
  | steps + 1, s =>
    let c := if s.cursor.column = 0 ∧ s.cursor.rest.head? = some '\ufeff' then s.cursor.skip 1
      else s.cursor
    let c := c.skipWhile fun d => d == ' ' || (d == '\t' && (s.inFlow || !s.keyAllowed))
    let c := c.skipComment
    if c.rest.head?.any isBreak then
      skipToToken steps { s with cursor := c.readBreak.2, keyAllowed := s.keyAllowed || !s.inFlow }
    else { s with cursor := c }

/-! #### Block collections -/

/-- Opens a block collection at a column that is further right than those around it; its
    token goes behind `position` others. -/
def indent (s : Scanner) (column position : Nat) (t : Token) : Scanner :=
  if s.inFlow || column < s.least then s
  else { s with columns := column :: s.columns, tokens := s.tokens.insertIdxIfInBounds position t }

/-- The columns that are not right of a column, and a token for the end of each other one. -/
def closed (column : Int) : List Nat → List Nat × List Token
  | [] => ([], [])
  | c :: cs =>
    if column < c then
      let (kept, ends) := closed column cs
      (kept, .blockEnd :: ends)
    else (c :: cs, [])

/-- Closes the block collections that are right of a column. -/
def unindent (s : Scanner) (column : Int) : Scanner :=
  if s.inFlow then s
  else
    let (columns, ends) := closed column s.columns
    { s with columns, tokens := s.tokens ++ ends }

/-! #### Keys -/

/-- Drops the candidate, unless it has to become a key. -/
def dropCandidate? (s : Scanner) : Option Scanner :=
  if s.candidate.any (·.required) then none else some { s with candidate := none }

/-- Makes the place of the cursor the candidate, if a key may start here. -/
def addCandidate? (s : Scanner) : Option Scanner := do
  if s.keyAllowed then
    let required := !s.inFlow && s.columns.head? = some s.cursor.column
    let s ← s.dropCandidate?
    pure { s with candidate := some ⟨s.tokens.size, s.cursor.mark, required⟩ }
  else pure s

/-- Whether a candidate can no longer become a key. -/
def lapsed (m : Mark) (k : Candidate) : Bool :=
  k.mark.line < m.line || k.mark.index + 1024 < m.index

/-- A candidate on some level, unless it has lapsed. -/
def refresh? (m : Mark) (k : Option Candidate) : Option (Option Candidate) :=
  if k.any (lapsed m) then (if k.any (·.required) then none else some none) else some k

/-- Drops the candidates that have lapsed, unless one of them has to become a key. -/
def refreshCandidates? (s : Scanner) : Option Scanner := do
  let candidate ← refresh? s.cursor.mark s.candidate
  let outer ← s.outer.mapM (refresh? s.cursor.mark)
  pure { s with candidate, outer }

/-! #### Single tokens -/

def fetchDirective (s : Scanner) : Option Scanner := do
  let s ← (s.unindent (-1)).dropCandidate?
  let (t, rest) ← scanDirective (s.cursor.rest.drop 1)
  let cursor ← (s.cursor.moveTo rest).endLine?
  pure { s.push t with cursor, keyAllowed := false }

def fetchDocumentMark (s : Scanner) (t : Token) : Option Scanner := do
  let s ← (s.unindent (-1)).dropCandidate?
  pure { s.take 3 t with keyAllowed := false }

def fetchFlowStart (s : Scanner) (t : Token) : Option Scanner := do
  let s ← s.addCandidate?
  pure { s.take 1 t with candidate := none, outer := s.candidate :: s.outer, keyAllowed := true }

def fetchFlowEnd (s : Scanner) (t : Token) : Option Scanner := do
  let s ← s.dropCandidate?
  let (candidate, outer) := match s.outer with
    | [] => (none, [])
    | k :: ks => (k, ks)
  pure { s.take 1 t with candidate, outer, keyAllowed := false }

def fetchFlowEntry (s : Scanner) : Option Scanner := do
  let s ← s.dropCandidate?
  pure { s.take 1 .flowEntry with keyAllowed := true }

/-- A hyphen, or a question mark, in front of an item or a key of a block collection. -/
def fetchBlockMark (s : Scanner) (start t : Token) : Option Scanner := do
  guard (s.inFlow || s.keyAllowed)
  let s ← (s.indent s.cursor.column s.tokens.size start).dropCandidate?
  pure { s.take 1 t with keyAllowed := t = .blockEntry || !s.inFlow }

/-- A colon. The candidate becomes a key; without one, the key is empty or has a question
    mark of its own. -/
def fetchValue (s : Scanner) : Option Scanner :=
  match s.candidate with
  | some k =>
    let s := { s with tokens := s.tokens.insertIdxIfInBounds k.position .key }
    let s := s.indent k.mark.column k.position .blockMappingStart
    some { s.take 1 .value with candidate := none, keyAllowed := false }
  | none => do
    guard (s.inFlow || s.keyAllowed)
    let s := s.indent s.cursor.column s.tokens.size .blockMappingStart
    pure { s.take 1 .value with keyAllowed := !s.inFlow }

/-- An anchor or an alias, from its mark on. -/
def fetchAnchor (s : Scanner) (t : String → Token) : Option Scanner := do
  let s ← s.addCandidate?
  let (name, rest) := (s.cursor.rest.drop 1).span isNameChar
  guard (!name.isEmpty && (endsWord rest.head? || rest.head?.any fun c => "?:,]\x7d%@\x60".toList.contains c))
  pure { s.push (t (String.ofList name)) with cursor := s.cursor.moveTo rest, keyAllowed := false }

def fetchTag (s : Scanner) : Option Scanner := do
  let s ← s.addCandidate?
  let (t, rest) ← scanTag s.cursor.rest
  guard (endsWord rest.head? || (s.inFlow && rest.head? = some ','))
  pure { s.push t with cursor := s.cursor.moveTo rest, keyAllowed := false }

def fetchBlock (s : Scanner) (folded : Bool) : Option Scanner := do
  let s ← s.dropCandidate?
  let (text, cursor) ← scanBlock folded s.least s.cursor
  pure { s.push (.scalar false (String.ofList text)) with cursor, keyAllowed := true }

def fetchQuoted (s : Scanner) (quote : Char) : Option Scanner := do
  let s ← s.addCandidate?
  let (text, cursor) ← scanQuoted quote s.cursor
  pure { s.push (.scalar false (String.ofList text)) with cursor, keyAllowed := false }

def fetchPlain (s : Scanner) : Option Scanner := do
  let s ← s.addCandidate?
  let r ← scanPlain s.inFlow s.least s.cursor
  pure { s.push (.scalar true (String.ofList r.text)) with
    cursor := r.cursor, keyAllowed := r.endsLine }

/-! #### The whole text -/

/-- The characters that start no plain scalar by themselves. -/
def isIndicator (c : Char) : Bool := "-?:,[]\x7b\x7d#&*!|>'\"%@\x60".toList.contains c

/-- Reads the token at the cursor, which starts with a character. -/
def fetch (s : Scanner) (c : Char) (next : Option Char) : Option Scanner :=
  if s.cursor.column = 0 ∧ c = '%' then s.fetchDirective
  else if s.cursor.atDocumentMark then
    s.fetchDocumentMark (if c = '-' then .documentStart else .documentEnd)
  else match c with
    | '[' => s.fetchFlowStart .flowSequenceStart
    | '\x7b' => s.fetchFlowStart .flowMappingStart
    | ']' => s.fetchFlowEnd .flowSequenceEnd
    | '\x7d' => s.fetchFlowEnd .flowMappingEnd
    | ',' => s.fetchFlowEntry
    | '*' => s.fetchAnchor .ref
    | '&' => s.fetchAnchor .anchor
    | '!' => s.fetchTag
    | '\'' => s.fetchQuoted '\''
    | '"' => s.fetchQuoted '"'
    | c =>
      if c = '-' ∧ endsWord next then s.fetchBlockMark .blockSequenceStart .blockEntry
      else if c = '?' ∧ (s.inFlow ∨ endsWord next) then s.fetchBlockMark .blockMappingStart .key
      else if c = ':' ∧ (s.inFlow ∨ endsWord next) then s.fetchValue
      else if c = '|' ∧ !s.inFlow then s.fetchBlock false
      else if c = '>' ∧ !s.inFlow then s.fetchBlock true
      else if !(isBlank c || isIndicator c) || c = '-' || (!s.inFlow && (c = '?' ∨ c = ':')) then
        s.fetchPlain
      else none

/-- Reads all tokens from the cursor on. Each step takes a token. -/
def run : Nat → Scanner → Option (List Token)
  | 0, _ => none
  | steps + 1, s => do
    let s ← (s.skipToToken (s.cursor.rest.length + 1)).refreshCandidates?
    match s.cursor.rest with
    | [] =>
      let s ← (s.unindent (-1)).dropCandidate?
      pure s.tokens.toList
    | c :: rest =>
      let s ← (s.unindent s.cursor.column).fetch c rest.head?
      run steps s

end Scanner

/-- The tokens of a text. -/
def tokens? (text : String) : Option (List Token) :=
  let cs := text.toList
  if cs.all isAllowed then Scanner.run (cs.length + 1) { cursor := ⟨.start, cs⟩ } else none

end EdgeFields.Yaml
