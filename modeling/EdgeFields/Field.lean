/-
  EdgeFields/Field.lean
  =====================
  **Descriptors of relationship fields.**

  A descriptor names a field, says whether it holds one reference or many and on which
  side of its edges it usually stands, and restricts the references that it takes.
-/
import EdgeFields.Json.Decode
import EdgeFields.Schema
import EdgeFields.Text.Blank

namespace EdgeFields

/-- How many references a field holds. -/
inductive Cardinality where
  | single
  | collection
deriving DecidableEq, Repr

def Cardinality.name : Cardinality → String
  | single => "single"
  | collection => "collection"

/-- The descriptor of a relationship field. -/
structure Field where
  name : String
  /-- The field stands at the second endpoint of edges created from the other side. -/
  isReverse : Bool := false
  cardinality : Cardinality := .single
  /-- The matching field on the referenced resources, if the relationship has one. -/
  reverseName : Option String := none
  /-- The containers that may be referenced; none listed allows all. -/
  collections : List String := []
  /-- The schema of the edge properties. -/
  schema : Option Json := none
  /-- Whether referenced resources must exist, where it is said. -/
  validation : Option Bool := none

namespace Field

def isCollection (f : Field) : Bool := f.cardinality == .collection

/-- Whether referenced resources must exist; they must unless it is said otherwise. -/
def validatesReferents (f : Field) : Bool := f.validation.getD true

/-- What follows a text at the front of another. -/
def afterText? (front : String) (s : String) : Option (List Char) :=
  if front.toList.isPrefixOf s.toList then some (s.toList.drop front.length) else none

/-- Whether a target lies directly in a container. -/
def lieIn (container target : String) : Bool :=
  match afterText? (Text.trimEnd (· == '/') container) target with
  | some ('/' :: id) => !id.isEmpty && !id.contains '/'
  | _ => false

/-- Whether a target lies directly in one of the allowed containers. -/
def accepts (f : Field) (target : String) : Bool :=
  f.collections.isEmpty || f.collections.any fun c => lieIn c target

/-- Checks the descriptor: the name is not empty and holds no slash, and the schema is
    well formed. -/
def check (f : Field) : Except PropertyError Unit :=
  if f.name.isEmpty || f.name.toList.contains '/' then
    .error (.invalidSchema (.fieldName f.name))
  else match f.schema with
    | some schema => Schema.check schema
    | none => .ok ()

/-! ### Documents -/

def toJson (f : Field) : Json :=
  .obj <| Dict.insert "name" (.str f.name)
    <| Dict.insert "isReverseRelationship" (.bool f.isReverse)
    <| Dict.insert "cardinality" (.str f.cardinality.name)
    <| Dict.insert? "reversePropertyName" (f.reverseName.map .str)
    <| Dict.insert? "resourceCollections"
      (if f.collections.isEmpty then none else some (.arr (f.collections.map .str)))
    <| Dict.insert? "properties" f.schema
    <| Dict.insert? "validation" (f.validation.map fun b => .obj [("validate", .bool b)]) []

def validationOfJson? (j : Json) : Option Bool := do
  let ms ← j.asObj?
  Json.defaulted true Json.asBool? ms "validate"

def ofJson? (j : Json) : Option Field := do
  let ms ← j.asObj?
  let name ← Json.required Json.asStr? ms "name"
  let isReverse ← Json.defaulted false Json.asBool? ms "isReverseRelationship"
  let cardinality ← Json.defaulted .single
    (Json.enum? Cardinality.name [.single, .collection]) ms "cardinality"
  let reverseName ← Json.optional Json.asStr? ms "reversePropertyName"
  let collections ← Json.defaulted [] (Json.items? Json.asStr?) ms "resourceCollections"
  let schema ← Json.optional some ms "properties"
  let validation ← Json.optional validationOfJson? ms "validation"
  pure ⟨name, isReverse, cardinality, reverseName, collections, schema, validation⟩

end Field

end EdgeFields
