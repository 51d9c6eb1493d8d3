/-
  EdgeFields/Filter/Codec.lean
  ============================
  **Filters as JSON documents.**

  A filter is an object with one member, named for its kind. Pointers are written in
  their canonical text.
-/
import EdgeFields.Filter.Basic
import EdgeFields.Json.Decode

namespace EdgeFields

def Pointer.toJson (p : Pointer) : Json := .str p.text

def Pointer.ofJson? (j : Json) : Option Pointer := j.asStr?.map .ofText

/-- The name of an operator in documents. -/
def Operator.name : Operator → String
  | equals => "equals"
  | contains => "contains"
  | startsWith => "startswith"
  | greaterThan => "greaterthan"
  | greaterThanOrEqual => "greaterthanorequal"
  | lessThan => "lessthan"
  | lessThanOrEqual => "lessthanorequal"

namespace Filter

mutual

def toJson : Filter → Json
  | const b => .obj [("boolean", .bool b)]
  | all fs => .obj [("and", .arr (toJsonList fs))]
  | any fs => .obj [("or", .arr (toJsonList fs))]
  | not f => .obj [("not", toJson f)]
  | compare p o v =>
    .obj [("comparison", .obj [("field", p.toJson), ("operator", .str o.name), ("value", v)])]
  | present p => .obj [("present", .obj [("field", p.toJson)])]

def toJsonList : List Filter → List Json
  | [] => []
  | f :: fs => toJson f :: toJsonList fs

end

/-- Decodes the members of a comparison. -/
def compareOfMembers? (ms : Members) : Option Filter := do
  let p ← Json.required Pointer.ofJson? ms "field"
  let o ← Json.required (Json.enum? Operator.name Operator.all) ms "operator"
  let v ← Dict.get? ms "value"
  pure (compare p o v)

mutual

def ofJson? : Json → Option Filter
  | .obj [(kind, body)] =>
    if kind = "boolean" then body.asBool?.map const
    else if kind = "and" then
      match body with
      | .arr xs => (ofJsonList? xs).map all
      | _ => none
    else if kind = "or" then
      match body with
      | .arr xs => (ofJsonList? xs).map any
      | _ => none
    else if kind = "not" then (ofJson? body).map not
    else if kind = "comparison" then body.asObj?.bind compareOfMembers?
    else if kind = "present" then
      body.asObj?.bind fun ms => (Json.required Pointer.ofJson? ms "field").map present
    else none
  | _ => none

def ofJsonList? : List Json → Option (List Filter)
  | [] => some []
  | x :: xs => do
    let f ← ofJson? x
    let fs ← ofJsonList? xs
    pure (f :: fs)

end

end Filter

end EdgeFields
