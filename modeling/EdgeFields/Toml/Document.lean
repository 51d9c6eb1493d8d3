/-
  EdgeFields/Toml/Document.lean
  =============================
  **TOML documents.**

  A document is a sequence of lines: headers that open a table, entries that go to the table
  opened last, and blank lines. Both may end with a comment. Main definition:
  `Toml.read?`, which gives the members of the whole document.
-/
import EdgeFields.Toml.Value

namespace EdgeFields.Toml

/-- What has been read of a document. -/
structure Progress where
  root : Table
  /-- The header of the table that entries go to. -/
  header : List String

/-- Reads a header in single or double brackets, from behind the first one. -/
def scanHeader (cs : List Char) (p : Progress) : Option (Progress × List Char) :=
  match cs with
  | '[' :: cs => do
    let (path, rest) ← scanKey cs
    let rest ← Json.expect? [']', ']'] rest
    let root ← p.root.declareNext path
    pure (⟨root, path⟩, rest)
  | cs => do
    let (path, rest) ← scanKey cs
    let rest ← Json.expect? [']'] rest
    let root ← p.root.declare path
    pure (⟨root, path⟩, rest)

/-- Reads a key and its value. -/
def scanEntry (cs : List Char) (p : Progress) : Option (Progress × List Char) := do
  let (path, rest) ← scanKey cs
  let rest ← Json.expect? ['='] rest
  let (v, rest) ← scanValue (2 * rest.length + 2) (depthLimit - 1) (Literal.skipGaps rest)
  let root ← Table.alter false (fun _ t => t.put path v) p.header .declared p.root
  pure ({ p with root }, rest)

/-- Reads the lines of a document. Each step takes at least one of them. -/
def readLines : Nat → Progress → List Char → Option Progress
  | 0, _, _ => none
  | steps + 1, p, cs =>
    match Literal.skipGaps cs with
    | [] => some p
    | '#' :: rest => (endLine? ('#' :: rest)).bind (readLines steps p)
    | '[' :: rest => do
      let (p, rest) ← scanHeader rest p
      readLines steps p (← endLine? rest)
    | rest =>
      match newline? rest with
      | some rest => readLines steps p rest
      | none => do
        let (p, rest) ← scanEntry rest p
        readLines steps p (← endLine? rest)

/-- The members of a document. A byte order mark in front of it does not count. -/
def read? (text : String) : Option Members :=
  let cs := match text.toList with
    | '\ufeff' :: cs => cs
    | cs => cs
  (readLines (cs.length + 1) ⟨[], []⟩ cs).map fun p => p.root.toMembers

end EdgeFields.Toml
