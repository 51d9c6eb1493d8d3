/-
  EdgeFields/Yaml/Value.lean
  ==========================
  **Values of YAML documents.**

  A plain scalar without a tag is null, a truth value, a number or a text, by its spelling;
  all other scalars are texts, unless a tag asks for a kind. A tag of the application stands
  for nothing here, so a value that carries one has no meaning. Keys are texts, however they
  are spelled, and of equal keys the last one counts.

  Main definition: `Yaml.read?`, which gives the members of the mapping that a text denotes.
-/
import EdgeFields.Yaml.Node

namespace EdgeFields.Yaml

/-! ### Plain scalars -/

def isNull (s : String) : Bool := ["null", "Null", "NULL", "~"].contains s

def bool? (s : String) : Option Bool :=
  if ["true", "True", "TRUE"].contains s then some true
  else if ["false", "False", "FALSE"].contains s then some false
  else none

/-- Digits with a zero in front: they are a text. -/
def isPadded (cs : List Char) : Bool :=
  match (Literal.splitSign cs).2 with
  | '0' :: d :: ds => (d :: ds).all Char.isDigit
  | _ => false

/-- An integer without a sign, which may be marked with its radix. -/
def natural? (cs : List Char) : Option Nat :=
  match cs with
  | '0' :: 'x' :: ds => Literal.natural? 16 ds
  | '0' :: 'o' :: ds => Literal.natural? 8 ds
  | '0' :: 'b' :: ds => Literal.natural? 2 ds
  | ds => Literal.natural? 10 ds

/-- The integers that are no decimal numbers: 128 bits, signed below zero and unsigned above. -/
def isInteger (i : Int) : Bool := -Nat.pow 2 127 ≤ i && i < Nat.pow 2 128

def integer? (cs : List Char) : Option Int :=
  if isPadded cs then none
  else
    let (negative, ds) := Literal.splitSign cs
    ((natural? ds).map fun n => if negative then -(n : Int) else (n : Int)).filter isInteger

/-- Whether a text is a decimal number that is not too large for a double, or the name of an
    infinity or of no number. -/
def isDecimal (cs : List Char) : Bool :=
  [".nan", ".NaN", ".NAN"].contains (String.ofList cs) ||
    [".inf", ".Inf", ".INF"].contains (String.ofList (Literal.splitSign cs).2) ||
      (Literal.decimal? cs).any (·.isFinite)

/-- The value of a plain scalar without a tag. -/
def plainValue (s : String) : Json :=
  let cs := s.toList
  if s.isEmpty || isNull s then .null
  else match bool? s, integer? cs with
    | some b, _ => .bool b
    | none, some i => Literal.ofInt i
    | none, none => if !isPadded cs && isDecimal cs then Literal.otherNumber else .str s

/-- The front of the tags of the standard kinds. -/
def standardTag (kind : String) : String := "tag:yaml.org,2002:" ++ kind

/-- The value of a scalar, if it is of the kind that its tag asks for. -/
def scalarValue? (tag : Option String) (plain : Bool) (s : String) : Option Json :=
  match tag with
  | none => some (if plain then plainValue s else .str s)
  | some tag =>
    if tag.startsWith "!" then none
    else if tag = standardTag "bool" then (bool? s).map .bool
    else if tag = standardTag "int" then (integer? s.toList).map Literal.ofInt
    else if tag = standardTag "float" then
      if isDecimal s.toList then some Literal.otherNumber else none
    else if tag = standardTag "null" then if isNull s then some .null else none
    else some (.str s)

/-! ### Collections -/

/-- The number of levels that collections may be nested. -/
def depthLimit : Nat := 128

/-- Reads values and counts the aliases on the way. -/
abbrev Decoder := StateT Nat Option

namespace Document

/-- The node that a node stands for. Aliases are followed at most a hundred times as often as
    the document has parts. -/
def resolve (d : Document) (n : Node) : Decoder Node :=
  match n with
  | .ref number => do
    let count ← get
    guard (count < d.size * 100)
    set (count + 1)
    let some n := d.nodes.lookup number | failure
    return n
  | n => return n

/-- The text of a key. -/
def keyText (d : Document) (n : Node) : Decoder String := do
  match ← d.resolve n with
  | .scalar _ _ s => return s
  | _ => failure

/-- Whether a collection means something: it has no tag of the application. -/
def isStandard (tag : Option String) : Bool := !tag.any (·.startsWith "!")

/-- The value of a node of which the collections are nested at most that deep. -/
def value (d : Document) : Nat → Node → Decoder Json
  | 0, n => do
    match ← d.resolve n with
    | .scalar tag plain s => StateT.lift (scalarValue? tag plain s)
    | _ => failure
  | depth + 1, n => do
    match ← d.resolve n with
    | .scalar tag plain s => StateT.lift (scalarValue? tag plain s)
    | .sequence tag items =>
      guard (isStandard tag)
      return .arr (← items.mapM (d.value depth))
    | .mapping tag ms =>
      guard (isStandard tag)
      return .object (← ms.mapM fun m => do return (← d.keyText m.1, ← d.value depth m.2))
    | .ref _ => failure

/-- The members of a document. An empty one has none; the outermost mapping may have any tag. -/
def members? (d : Document) : Option Members :=
  match d.root with
  | none => some []
  | some (.scalar _ plain s) => if plain && s.isEmpty then some [] else none
  | some (.mapping _ ms) => (((d.value depthLimit (.mapping none ms)).run 0).map (·.1)).bind Json.asObj?
  | some _ => none

end Document

/-- The members of the mapping that a text denotes. -/
def read? (text : String) : Option Members :=
  ((tokens? text).bind Document.ofTokens?).bind Document.members?

end EdgeFields.Yaml
