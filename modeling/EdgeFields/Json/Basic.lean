/-
  EdgeFields/Json/Basic.lean
  ==========================
  **JSON documents.**

  The members of an object are a dictionary. `Json.Canonical` says that they are so
  throughout a document, and that its integers fit 64 bits.
-/
import EdgeFields.Dict
import EdgeFields.Json.Number

namespace EdgeFields

/-- A JSON document. -/
inductive Json where
  | null
  | bool (value : Bool)
  | num (value : Number)
  | str (value : String)
  | arr (items : List Json)
  | obj (members : List (String × Json))

/-- The members of an object. -/
abbrev Members := Dict Json

instance : Inhabited Json := ⟨.null⟩

/-! ### Equality and form -/

namespace Json

mutual

/-- Equality of documents: structural, but numbers agree as `Number.same` says. -/
def same : Json → Json → Bool
  | null, null => true
  | bool a, bool b => a == b
  | num a, num b => a.same b
  | str a, str b => a == b
  | arr xs, arr ys => sameItems xs ys
  | obj xs, obj ys => sameMembers xs ys
  | _, _ => false

def sameItems : List Json → List Json → Bool
  | [], [] => true
  | x :: xs, y :: ys => same x y && sameItems xs ys
  | _, _ => false

def sameMembers : Members → Members → Bool
  | [], [] => true
  | (k, x) :: xs, (l, y) :: ys => k == l && same x y && sameMembers xs ys
  | _, _ => false

end

instance : BEq Json := ⟨same⟩

mutual

/-- Integers fit 64 bits and the keys of every object ascend. -/
def Canonical : Json → Prop
  | num (.int i) => Number.InRange i
  | arr xs => CanonicalItems xs
  | obj ms => Dict.Sorted ms ∧ CanonicalMembers ms
  | _ => True

def CanonicalItems : List Json → Prop
  | [] => True
  | x :: xs => Canonical x ∧ CanonicalItems xs

def CanonicalMembers : Members → Prop
  | [] => True
  | (_, x) :: ms => Canonical x ∧ CanonicalMembers ms

end

end Json

/-! ### Depth -/

namespace Json

mutual

/-- How deep arrays and objects are nested. -/
def depth : Json → Nat
  | arr xs => depthItems xs + 1
  | obj ms => depthMembers ms + 1
  | _ => 0

def depthItems : List Json → Nat
  | [] => 0
  | x :: xs => max (depth x) (depthItems xs)

def depthMembers : Members → Nat
  | [] => 0
  | (_, x) :: ms => max (depth x) (depthMembers ms)

end

end Json

/-! ### Access -/

namespace Json

/-- An object from members in any order. -/
def object (ms : List (String × Json)) : Json := obj (Dict.ofList ms)

def ofNat (n : Nat) : Json := num (.int n)

def isNull : Json → Bool
  | null => true
  | _ => false

def asStr? : Json → Option String
  | str s => some s
  | _ => none

def asBool? : Json → Option Bool
  | bool b => some b
  | _ => none

def asArr? : Json → Option (List Json)
  | arr xs => some xs
  | _ => none

def asObj? : Json → Option Members
  | obj ms => some ms
  | _ => none

/-- A natural number below `2 ^ 64`, written as an integer. -/
def asNat? : Json → Option Nat
  | num (.int i) => if 0 ≤ i then some i.toNat else none
  | _ => none

/-- The member of an object. -/
def member? (j : Json) (key : String) : Option Json := j.asObj?.bind (·.get? key)

/-- The text of a member that is a string. -/
def strMember? (j : Json) (key : String) : Option String := (j.member? key).bind asStr?

end Json

end EdgeFields
