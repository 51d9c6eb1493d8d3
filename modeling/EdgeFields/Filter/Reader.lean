/-
  EdgeFields/Filter/Reader.lean
  =============================
  **Reading filter expressions.**

  An expression is a disjunction of conjunctions of operands; an operand is `true`,
  `false`, a leaf, a group in parentheses, or a negated operand. A leaf is a field
  with `pr`, or a field, an operator and a value. Keywords ignore ASCII case; the
  values `true`, `false` and `null` do not.

  The reader is a pushdown machine over tokens. It keeps the group it is in, the
  unfinished groups around it, and what it expects next.
-/
import EdgeFields.Filter.Token

namespace EdgeFields

namespace Filter

/-- Whether a word is a keyword, in any ASCII case. -/
def isKeyword (word keyword : String) : Bool := word.toLower == keyword

/-- The value that a bare word denotes. -/
def literal? (word : String) : Option Json :=
  if word = "true" then some (.bool true)
  else if word = "false" then some (.bool false)
  else if word = "null" then some .null
  else (Number.ofText? word.toList).map .num

/-! ### Groups -/

/-- An unfinished group: its finished conjunctions, the operands of the one under way,
    and the exclamation marks in front of the next operand. -/
structure Group where
  alternatives : List Filter
  conjuncts : List Filter
  negations : Nat

/-- A lone filter stands for itself. -/
def collapse (combine : List Filter → Filter) : List Filter → Filter
  | [f] => f
  | fs => combine fs

def negate : Nat → Filter → Filter
  | 0, f => f
  | n + 1, f => not (negate n f)

namespace Group

def start : Group := ⟨[], [], 0⟩

/-- The group with one more operand. -/
def add (g : Group) (f : Filter) : Group :=
  { g with conjuncts := g.conjuncts ++ [negate g.negations f], negations := 0 }

/-- The group with its conjunction under way finished. -/
def split (g : Group) : Group :=
  { g with alternatives := g.alternatives ++ [collapse .all g.conjuncts], conjuncts := [] }

/-- The filter of a finished group. -/
def close (g : Group) : Filter :=
  collapse .any (g.alternatives ++ [collapse .all g.conjuncts])

end Group

/-! ### The machine -/

/-- What may come next. -/
inductive Expecting where
  | operand
  | operator (field : Pointer)
  | value (field : Pointer) (operator : Operator)
  /-- An operand is complete. -/
  | connective

/-- The offset of the next token, or the length of the expression. -/
def offsetOf (length : Nat) : List Located → Nat
  | [] => length
  | t :: _ => t.offset

/-- Reads the rest of an expression of the given byte length. `g` is the group under
    way and `outer` holds the groups around it, the innermost first. A group that is
    not closed is reported behind the token found in place of its parenthesis. -/
def read (length : Nat) : Expecting → Group → List Group → List Located → Except ReadError Filter
  | .operand, _, _, [] => .error ⟨length, .unexpectedEnd⟩
  | .operand, g, outer, ⟨pos, t⟩ :: ts =>
    match t with
    | .bang => read length .operand { g with negations := g.negations + 1 } outer ts
    | .leftParen => read length .operand .start (g :: outer) ts
    | .word w =>
      if isKeyword w "true" then read length .connective (g.add (const true)) outer ts
      else if isKeyword w "false" then read length .connective (g.add (const false)) outer ts
      else read length (.operator (Pointer.ofText w)) g outer ts
    | t => .error ⟨pos, .unexpectedToken t⟩
  | .operator _, _, _, [] => .error ⟨length, .missingOperator⟩
  | .operator field, g, outer, ⟨pos, t⟩ :: ts =>
    match t with
    | .word w =>
      if isKeyword w "pr" then read length .connective (g.add (present field)) outer ts
      else match Operator.ofKeyword? w with
        | some o => read length (.value field o) g outer ts
        | none => .error ⟨pos, .unknownOperator w⟩
    | _ => .error ⟨pos, .missingOperator⟩
  | .value _ _, _, _, [] => .error ⟨length, .missingValue⟩
  | .value field o, g, outer, ⟨pos, t⟩ :: ts =>
    match t with
    | .quoted s => read length .connective (g.add (compare field o (.str s))) outer ts
    | .word w =>
      match literal? w with
      | some v => read length .connective (g.add (compare field o v)) outer ts
      | none => .error ⟨pos, .invalidValue w⟩
    | _ => .error ⟨pos, .missingValue⟩
  | .connective, g, [], [] => .ok g.close
  | .connective, _, _ :: _, [] => .error ⟨length, .unclosedGroup⟩
  | .connective, g, outer, ⟨pos, t⟩ :: ts =>
    match t, outer with
    | .rightParen, around :: outer => read length .connective (around.add g.close) outer ts
    | .word w, outer =>
      if isKeyword w "and" then read length .operand g outer ts
      else if isKeyword w "or" then read length .operand g.split outer ts
      else .error (if outer.isEmpty then ⟨pos, .trailingInput⟩
        else ⟨offsetOf length ts, .unclosedGroup⟩)
    | _, [] => .error ⟨pos, .trailingInput⟩
    | _, _ :: _ => .error ⟨offsetOf length ts, .unclosedGroup⟩

/-- The filter that an expression denotes. -/
def parse (expression : String) : Except ReadError Filter := do
  match ← tokens expression with
  | [] => .error ⟨0, .empty⟩
  | ts => read expression.utf8ByteSize .operand .start [] ts

end Filter

end EdgeFields
