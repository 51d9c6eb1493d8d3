/-
  EdgeFields/Pointer.lean
  =======================
  **Pointers into JSON documents.**

  A pointer is a list of segments. In text every segment follows a slash, with
  `~` written as `~0` and `/` as `~1`; the empty pointer is written `/`. Reading
  takes more than that: the leading slash may be missing and empty segments are
  skipped.
-/
import EdgeFields.Json.Basic
import EdgeFields.Text.Index
import EdgeFields.Text.Pieces

namespace EdgeFields

structure Pointer where
  segments : List String
deriving DecidableEq, Repr

namespace Pointer

instance : Inhabited Pointer := ⟨⟨[]⟩⟩

/-- The pointer to the whole document. -/
def root : Pointer := ⟨[]⟩

/-- The pointer to a member of the document. -/
def field (name : String) : Pointer := ⟨[name]⟩

/-! ### Text -/

/-- The segment that a written segment denotes. -/
def unescape (cs : List Char) : List Char :=
  Text.replacePair '~' '0' '~' (Text.replacePair '~' '1' '/' cs)

/-- The written form of one character of a segment. -/
def escapeChar (c : Char) : List Char :=
  if c = '~' then ['~', '0'] else if c = '/' then ['~', '1'] else [c]

/-- The pointer that a text denotes. -/
def ofText (s : String) : Pointer :=
  ⟨((Text.pieces '/' s.toList).filter fun p => !p.isEmpty).map fun p => String.ofList (unescape p)⟩

/-- The characters of the canonical text. -/
def render (p : Pointer) : List Char :=
  match p.segments with
  | [] => ['/']
  | ss => ss.flatMap fun s => '/' :: s.toList.flatMap escapeChar

/-- The canonical text. -/
def text (p : Pointer) : String := String.ofList p.render

/-! ### Segments -/

def length (p : Pointer) : Nat := p.segments.length

def first? (p : Pointer) : Option String := p.segments.head?

def leaf? (p : Pointer) : Option String := p.segments.getLast?

/-- The pointer with one more segment at its end. -/
def child (p : Pointer) (segment : String) : Pointer := ⟨p.segments ++ [segment]⟩

/-- The pointer without its first `count` segments. -/
def relative (p : Pointer) (count : Nat) : Pointer := ⟨p.segments.drop count⟩

def startsWith (p q : Pointer) : Bool := q.segments.isPrefixOf p.segments

/-- The order of the segment lists, each segment by code points. -/
def compareSegments : List String → List String → Ordering
  | [], [] => .eq
  | [], _ :: _ => .lt
  | _ :: _, [] => .gt
  | s :: ss, t :: ts => (compare s t).then (compareSegments ss ts)

instance : Ord Pointer := ⟨fun p q => compareSegments p.segments q.segments⟩

/-! ### Documents -/

/-- One step into a document: a member by its name, an element by its index. -/
def step (j : Json) (segment : String) : Option Json :=
  match j with
  | .obj ms => Dict.get? ms segment
  | .arr xs => (Text.index? segment).bind (xs[·]?)
  | _ => none

/-- The value that a pointer addresses in a document. -/
def resolve (p : Pointer) (document : Json) : Option Json := p.segments.foldlM step document

end Pointer

end EdgeFields
