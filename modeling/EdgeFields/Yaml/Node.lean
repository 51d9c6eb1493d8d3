/-
  EdgeFields/Yaml/Node.lean
  =========================
  **Nodes of a YAML document.**

  A document is a tree of scalars, sequences and mappings. A node may carry a tag and an
  anchor; an alias stands for the node with that anchor which comes last before it. As the
  alias may stand inside of that very node, it holds a number, and a document lists the nodes
  by their numbers.

  Main definition: `Document.ofTokens?`, which reads a stream of at most one document.
-/
import EdgeFields.Yaml.Token

namespace EdgeFields.Yaml

inductive Node where
  | scalar (tag : Option String) (plain : Bool) (text : String)
  | sequence (tag : Option String) (items : List Node)
  | mapping (tag : Option String) (members : List (Node × Node))
  /-- An alias of the node with a number. -/
  | ref (number : Nat)

namespace Node

/-- What stands where a node is left out. -/
def empty : Node := scalar none true ""

/-- A scalar that is written out. In front of it, an exclamation mark alone is no tag. -/
def ofScalar (tag : Option String) (plain : Bool) (text : String) : Node :=
  scalar (tag.filter (· != "!")) plain text

end Node

/-! ### The reader -/

/-- A stream of which some tokens have been read. -/
structure Reading where
  tokens : List Token
  /-- The fronts that tag handles stand for. -/
  handles : List (String × String) := []
  /-- The anchors with the numbers of their nodes, the last one first. -/
  anchors : List (String × Nat) := []
  /-- The nodes that have an anchor, by their numbers. -/
  nodes : List (Nat × Node) := []
  /-- The number of nodes, and of ends of collections, that have been read. -/
  size : Nat := 0

abbrev Reader := StateT Reading Option

namespace Reader

/-- The token ahead. -/
def peek : Reader (Option Token) := return (← get).tokens.head?

/-- Whether the token ahead is one of several. -/
def ahead (ts : List Token) : Reader Bool := return (← peek).any ts.contains

def skip : Reader Unit := modify fun r => { r with tokens := r.tokens.tail }

/-- Takes the token ahead if it is a given one. -/
def accept (t : Token) : Reader Bool := do
  let found ← ahead [t]
  if found then skip
  return found

def expect (t : Token) : Reader Unit := do
  guard (← accept t)

def count (n : Nat) : Reader Unit := modify fun r => { r with size := r.size + n }

/-! #### Properties -/

def tag? : Reader (Option String) := do
  match ← peek with
  | some (.tag handle suffix) =>
    skip
    if handle.isEmpty then return some suffix
    let some front := (← get).handles.lookup handle | failure
    return some (front ++ suffix)
  | _ => return none

def anchor? : Reader (Option String) := do
  match ← peek with
  | some (.anchor name) =>
    skip
    return some name
  | _ => return none

/-- Reads an anchor and a tag, in any order. -/
def properties : Reader (Option String × Option String) := do
  match ← anchor? with
  | some name => return (some name, ← tag?)
  | none =>
    let tag ← tag?
    return (← anchor?, tag)

/-- Numbers the node that an anchor announces. -/
def announce (name : String) : Reader Nat := do
  let number := (← get).anchors.length
  modify fun r => { r with anchors := (name, number) :: r.anchors }
  return number

/-- The number of the node that an alias stands for. -/
def numberOf (name : String) : Reader Nat := do
  let some number := (← get).anchors.lookup name | failure
  return number

/-- A node that is left out. -/
def omitted : Reader Node := do
  count 1
  return .empty

/-! #### Nodes -/

mutual

/-- Reads a node. Block collections may stand outside of brackets only, and a sequence that
    is not indented only where `unindented` says so. Each step takes a token or goes one
    level down. -/
def node : Nat → (inBlock unindented : Bool) → Reader Node
  | 0, _, _ => failure
  | steps + 1, inBlock, unindented => do
    if let some (.ref name) := ← peek then
      skip
      count 1
      return .ref (← numberOf name)
    let (anchor, tag) ← properties
    match anchor with
    | none => content steps inBlock unindented false tag
    | some name =>
      let number ← announce name
      let n ← content steps inBlock unindented true tag
      modify fun r => { r with nodes := (number, n) :: r.nodes }
      return n

/-- Reads a node from behind its properties. With an anchor or a tag, it may be left out. -/
def content : Nat → (inBlock unindented anchored : Bool) → Option String → Reader Node
  | 0, _, _, _, _ => failure
  | steps + 1, inBlock, unindented, anchored, tag => do
    match ← peek with
    | some (.scalar plain text) =>
      skip
      count 1
      return .ofScalar tag plain text
    | some .flowSequenceStart =>
      skip
      count 2
      return .sequence tag (← flowItems steps true)
    | some .flowMappingStart =>
      skip
      count 2
      return .mapping tag (← flowMembers steps true)
    | t =>
      if t = some .blockEntry ∧ unindented then
        count 2
        return .sequence tag (← unindentedItems steps)
      else if t = some .blockSequenceStart ∧ inBlock then
        skip
        count 2
        return .sequence tag (← blockItems steps)
      else if t = some .blockMappingStart ∧ inBlock then
        skip
        count 2
        return .mapping tag (← blockMembers steps)
      else if anchored ∨ tag.isSome then
        count 1
        return .scalar tag true ""
      else failure

/-- Reads a node, unless one of some tokens follows. -/
def nodeUnless : Nat → (inBlock unindented : Bool) → List Token → Reader Node
  | 0, _, _, _ => failure
  | steps + 1, inBlock, unindented, ends => do
    if ← ahead ends then omitted else node steps inBlock unindented

/-- Reads the items of a block sequence and its end. -/
def blockItems : Nat → Reader (List Node)
  | 0 => failure
  | steps + 1 => do
    if ← accept .blockEnd then return []
    expect .blockEntry
    let n ← nodeUnless steps true false [.blockEntry, .blockEnd]
    return n :: (← blockItems steps)

/-- Reads the items of a sequence that is indented as its key. -/
def unindentedItems : Nat → Reader (List Node)
  | 0 => failure
  | steps + 1 => do
    if ← accept .blockEntry then
      let n ← nodeUnless steps true false [.blockEntry, .key, .value, .blockEnd]
      return n :: (← unindentedItems steps)
    else return []

/-- Reads the members of a block mapping and its end. -/
def blockMembers : Nat → Reader (List (Node × Node))
  | 0 => failure
  | steps + 1 => do
    if ← accept .blockEnd then return []
    expect .key
    let k ← nodeUnless steps true true [.key, .value, .blockEnd]
    let v ← if ← accept .value then nodeUnless steps true true [.key, .value, .blockEnd] else omitted
    return (k, v) :: (← blockMembers steps)

/-- Reads the items in square brackets and the closing one. An item with a key is a mapping
    of one member. -/
def flowItems : Nat → (first : Bool) → Reader (List Node)
  | 0, _ => failure
  | steps + 1, first => do
    if ← accept .flowSequenceEnd then return []
    if !first then expect .flowEntry
    if ← accept .flowSequenceEnd then return []
    if ← accept .key then
      let m ← flowPair steps
      return m :: (← flowItems steps false)
    else
      let n ← node steps false false
      return n :: (← flowItems steps false)

/-- Reads the only member of a mapping in square brackets, from behind the mark of its key.
    Where the key is left out, the token in its place is passed over. -/
def flowPair : Nat → Reader Node
  | 0 => failure
  | steps + 1 => do
    count 2
    let k ← if ← ahead [.value, .flowEntry, .flowSequenceEnd] then
        skip
        omitted
      else node steps false false
    let v ← if ← accept .value then nodeUnless steps false false [.flowEntry, .flowSequenceEnd]
      else omitted
    return .mapping none [(k, v)]

/-- Reads the members in braces and the closing one. A node without the mark of a key is a key
    without a value. -/
def flowMembers : Nat → (first : Bool) → Reader (List (Node × Node))
  | 0, _ => failure
  | steps + 1, first => do
    if ← accept .flowMappingEnd then return []
    if !first then expect .flowEntry
    if ← accept .flowMappingEnd then return []
    if ← accept .key then
      let k ← nodeUnless steps false false [.value, .flowEntry, .flowMappingEnd]
      let v ← if ← accept .value then nodeUnless steps false false [.flowEntry, .flowMappingEnd]
        else omitted
      return (k, v) :: (← flowMembers steps false)
    else
      let k ← node steps false false
      return (k, ← omitted) :: (← flowMembers steps false)

end

/-! #### Documents -/

/-- Reads the directives of a document: at most one version, which is 1.1 or 1.2, and each
    tag handle once. -/
def directives : Nat → (versioned : Bool) → Reader Unit
  | 0, _ => failure
  | steps + 1, versioned => do
    match ← peek with
    | some (.version major minor) =>
      guard (!versioned && major = 1 && (minor = 1 || minor = 2))
      skip
      directives steps true
    | some (.tagDirective handle front) =>
      guard (!((← get).handles.any (·.1 = handle)))
      skip
      modify fun r => { r with handles := (handle, front) :: r.handles }
      directives steps versioned
    | _ => return

/-- The handles that need no directive. -/
def standardHandles : List (String × String) := [("!", "!"), ("!!", "tag:yaml.org,2002:")]

/-- Reads the first document of a stream, if there is one. -/
def first? : Reader (Option Node) := do
  let steps := 8 * (← get).tokens.length + 8
  let some t := ← peek | return none
  let (explicit, declared) := match t with
    | .version _ _ => (true, true)
    | .tagDirective _ _ => (true, true)
    | .documentStart => (true, false)
    | _ => (false, false)
  if declared then directives steps false
  if explicit then expect .documentStart
  modify fun r => { r with handles := r.handles ++ standardHandles }
  if !explicit then return some (← node steps true false)
  match ← peek with
  | none => return some (← omitted)
  | some (.version _ _) => return some (← omitted)
  | some (.tagDirective _ _) => return some (← omitted)
  | some .documentStart => return some (← omitted)
  | some .documentEnd => return some (← omitted)
  | some _ => return some (← node steps true false)

end Reader

/-! ### Documents -/

/-- A document, as far as its values depend on it. -/
structure Document where
  /-- The outermost node; nothing if the stream is empty. -/
  root : Option Node
  /-- The nodes that aliases stand for. -/
  nodes : List (Nat × Node)
  /-- The number of nodes, and of ends of collections. -/
  size : Nat

/-- Reads a stream. It holds at most one document, behind which there may be ends of
    documents. -/
def Document.ofTokens? (ts : List Token) : Option Document := do
  let (root, r) ← Reader.first?.run { tokens := ts }
  guard (r.tokens.all (· = .documentEnd))
  pure ⟨root, r.nodes, r.size⟩

end EdgeFields.Yaml
