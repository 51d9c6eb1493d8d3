/-
  EdgeFields/Filter/Basic.lean
  ============================
  **Filters over JSON documents.**

  A filter is a tree of conjunctions, disjunctions and negations over leaves that
  test one field. `Filter.accepts` evaluates it against a document,
  `Filter.mapFields` renames the fields of its leaves, and `Filter.text` is its
  expression.

  Values of one kind are ordered (`Json.compare?`): numbers as doubles, strings by
  code points, `false` before `true`. Values of different kinds are incomparable, and
  arrays and objects compare only when they are equal.
-/
import EdgeFields.Json.Printer
import EdgeFields.Pointer

namespace EdgeFields

/-- How a leaf compares a field with its value. -/
inductive Operator where
  | equals
  | contains
  | startsWith
  | greaterThan
  | greaterThanOrEqual
  | lessThan
  | lessThanOrEqual
deriving DecidableEq, Repr

namespace Operator

def all : List Operator :=
  [equals, contains, startsWith, greaterThan, greaterThanOrEqual, lessThan, lessThanOrEqual]

/-- The keyword of an operator in expressions. -/
def keyword : Operator → String
  | equals => "eq"
  | contains => "co"
  | startsWith => "sw"
  | greaterThan => "gt"
  | greaterThanOrEqual => "ge"
  | lessThan => "lt"
  | lessThanOrEqual => "le"

/-- The operator of a keyword, in any ASCII case. -/
def ofKeyword? (word : String) : Option Operator := all.find? fun o => o.keyword == word.toLower

end Operator

inductive Filter where
  | const (value : Bool)
  /-- All of the filters match. -/
  | all (filters : List Filter)
  /-- At least one of the filters matches. -/
  | any (filters : List Filter)
  | not (filter : Filter)
  | compare (field : Pointer) (operator : Operator) (value : Json)
  /-- The field is there and is not null. -/
  | present (field : Pointer)

/-! ### Comparing values -/

namespace Json

/-- The order of two values of one kind. -/
def compare? : Json → Json → Option Ordering
  | num x, num y => some (Ord.compare x.toDouble y.toDouble)
  | str x, str y => some (Ord.compare x y)
  | bool x, bool y => some (Ord.compare x y)
  | null, null => some .eq
  | x, y => if x == y then some .eq else none

/-- Whether a text occurs in another. -/
def occursIn (part : List Char) : List Char → Bool
  | [] => part.isEmpty
  | c :: cs => part.isPrefixOf (c :: cs) || occursIn part cs

/-- Whether one value satisfies a comparison. A string contains its substrings, an
    array its elements. -/
def satisfies (actual : Json) (o : Operator) (expected : Json) : Bool :=
  match o with
  | .equals => compare? actual expected == some .eq
  | .contains =>
    match actual, expected with
    | str a, str e => occursIn e.toList a.toList
    | arr xs, e => xs.any (· == e)
    | _, _ => false
  | .startsWith =>
    match actual, expected with
    | str a, str e => e.toList.isPrefixOf a.toList
    | _, _ => false
  | .greaterThan => compare? actual expected == some .gt
  | .greaterThanOrEqual => (compare? actual expected).any (· != .lt)
  | .lessThan => compare? actual expected == some .lt
  | .lessThanOrEqual => (compare? actual expected).any (· != .gt)

end Json

namespace Filter

def equalTo (field : Pointer) (value : Json) : Filter := compare field .equals value

/-! ### Evaluation -/

/-- Whether the value of a field satisfies a comparison. Under every operator but
    `contains`, an array satisfies it also when one of its elements does. -/
def valueMatches (o : Operator) (expected actual : Json) : Bool :=
  match actual, o with
  | actual, .contains => actual.satisfies .contains expected
  | .arr xs, o => (Json.arr xs).satisfies o expected || xs.any (·.satisfies o expected)
  | actual, o => actual.satisfies o expected

mutual

/-- Whether a document satisfies a filter. A comparison on an absent field fails. -/
def accepts : Filter → Json → Bool
  | const b, _ => b
  | all fs, d => acceptsAll fs d
  | any fs, d => acceptsAny fs d
  | not f, d => !accepts f d
  | compare p o v, d => (p.resolve d).any (valueMatches o v)
  | present p, d => (p.resolve d).any fun v => !v.isNull

def acceptsAll : List Filter → Json → Bool
  | [], _ => true
  | f :: fs, d => accepts f d && acceptsAll fs d

def acceptsAny : List Filter → Json → Bool
  | [], _ => false
  | f :: fs, d => accepts f d || acceptsAny fs d

end

/-! ### Fields -/

mutual

/-- The filter with every leaf's field renamed; its shape stays. -/
def mapFields (rename : Pointer → Pointer) : Filter → Filter
  | const b => const b
  | all fs => all (mapFieldsList rename fs)
  | any fs => any (mapFieldsList rename fs)
  | not f => not (mapFields rename f)
  | compare p o v => compare (rename p) o v
  | present p => present (rename p)

def mapFieldsList (rename : Pointer → Pointer) : List Filter → List Filter
  | [] => []
  | f :: fs => mapFields rename f :: mapFieldsList rename fs

end

mutual

/-- The fields of the leaves, from left to right. -/
def fields : Filter → List Pointer
  | const _ => []
  | all fs => fieldsList fs
  | any fs => fieldsList fs
  | not f => fields f
  | compare p _ _ => [p]
  | present p => [p]

def fieldsList : List Filter → List Pointer
  | [] => []
  | f :: fs => fields f ++ fieldsList fs

end

/-! ### Equality -/

mutual

/-- Equality of filters, with values compared as documents. -/
def same : Filter → Filter → Bool
  | const a, const b => a == b
  | all fs, all gs => sameList fs gs
  | any fs, any gs => sameList fs gs
  | not f, not g => same f g
  | compare p o v, compare q r w => p == q && o == r && v == w
  | present p, present q => p == q
  | _, _ => false

def sameList : List Filter → List Filter → Bool
  | [], [] => true
  | f :: fs, g :: gs => same f g && sameList fs gs
  | _, _ => false

end

instance : BEq Filter := ⟨same⟩

/-! ### Text -/

mutual

/-- The characters of a filter's expression. An empty conjunction is true and an
    empty disjunction false. -/
def render : Filter → List Char
  | const true => ['t', 'r', 'u', 'e']
  | const false => ['f', 'a', 'l', 's', 'e']
  | all [] => ['t', 'r', 'u', 'e']
  | all (f :: fs) => '(' :: (render f ++ renderTail [' ', 'a', 'n', 'd', ' '] fs)
  | any [] => ['f', 'a', 'l', 's', 'e']
  | any (f :: fs) => '(' :: (render f ++ renderTail [' ', 'o', 'r', ' '] fs)
  | not f => '!' :: '(' :: (render f ++ [')'])
  | compare p o v => p.render ++ ' ' :: (o.keyword.toList ++ ' ' :: v.render)
  | present p => p.render ++ [' ', 'p', 'r']

/-- The filters behind the first one of a group, each after the joining word, and
    the closing parenthesis. -/
def renderTail (word : List Char) : List Filter → List Char
  | [] => [')']
  | f :: fs => word ++ (render f ++ renderTail word fs)

end

/-- The expression of a filter. -/
def text (f : Filter) : String := String.ofList f.render

end Filter

end EdgeFields
