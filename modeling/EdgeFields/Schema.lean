/-
  EdgeFields/Schema.lean
  ======================
  **Schemas of edge properties.**

  A schema is a JSON object whose keywords restrict a document: `type`, `required`,
  `properties`, `additionalProperties`, `items`, `enum`, `minimum`, `maximum`,
  `minLength` and `maxLength`. A keyword whose value has the wrong shape imposes
  nothing, `type` excepted.

  `Schema.check` accepts the schemas with known types and `Schema.validate` tests
  properties against one. Both report the first failure in the order of the keywords
  above, nested documents in the order of their keys. Numbers are compared as
  doubles, and text is measured in characters.
-/
import EdgeFields.Json.Printer

namespace EdgeFields

/-- Why a value is outside what a schema allows. -/
inductive ConstraintFault where
  | notListed (value : Json) (allowed : List Json)
  | belowMinimum (value minimum : Double)
  | aboveMaximum (value maximum : Double)
  | tooShort (length minimum : Nat)
  | tooLong (length maximum : Nat)

/-- What is wrong with a schema. -/
inductive SchemaFault where
  | unknownType (type : Json)
  | notObjectOrNull
  | notObject (path : String)
  | typeNotText
  | fieldName (name : String)

/-- Why properties, or a schema, are refused. -/
inductive PropertyError where
  | invalidSchema (fault : SchemaFault)
  | missingRequired (path : String)
  | unexpected (path : String)
  | typeMismatch (path expected actual : String)
  | constraint (path : String) (fault : ConstraintFault)

def ConstraintFault.message : ConstraintFault → String
  | notListed v allowed => s!"{v.text} is not one of {(Json.arr allowed).text}"
  | belowMinimum x m => s!"{x.plainText} is less than minimum {m.plainText}"
  | aboveMaximum x m => s!"{x.plainText} is greater than maximum {m.plainText}"
  | tooShort n m => s!"length {n} is less than minimum {m}"
  | tooLong n m => s!"length {n} exceeds maximum {m}"

def SchemaFault.message : SchemaFault → String
  | unknownType t => s!"Invalid type: {t.text}"
  | notObjectOrNull => "Schema must be an object or null"
  | notObject path => s!"Schema for '{path}' must be an object"
  | typeNotText => "Type must be a string"
  | fieldName name => s!"Invalid relationship field name '{name}'"

def PropertyError.message : PropertyError → String
  | invalidSchema fault => s!"Invalid properties schema: {fault.message}"
  | missingRequired path => s!"Missing required property '{path}'"
  | unexpected path => s!"Unexpected property '{path}'"
  | typeMismatch path expected actual =>
    s!"Type mismatch for '{path}': expected {expected}, got {actual}"
  | constraint path fault => s!"Invalid value for '{path}': {fault.message}"

namespace Schema

/-- A location in a document: the names and indices on the way, each after a slash. -/
abbrev Location := String

/-- The location of a member or an element. -/
def join (path : Location) (name : String) : Location := path ++ "/" ++ name

/-- The location in messages; the document itself is a slash. -/
def display (path : Location) : Location := if path.isEmpty then "/" else path

/-! ### Types -/

/-- The names of types. -/
def typeNames : List String :=
  ["null", "boolean", "object", "array", "number", "string", "integer"]

/-- The type of a value. -/
def typeOf : Json → String
  | .null => "null"
  | .bool _ => "boolean"
  | .num _ => "number"
  | .str _ => "string"
  | .arr _ => "array"
  | .obj _ => "object"

/-- The value of a number as a double. -/
def asDouble? : Json → Option Double
  | .num n => some n.toDouble
  | _ => none

/-- Whether a value is a number without a fractional part. -/
def isIntegral (j : Json) : Bool := (asDouble? j).any Double.isIntegral

/-- Whether a value is of a named type. -/
def hasType (name : String) (j : Json) : Bool :=
  name == typeOf j || (name == "integer" && isIntegral j)

/-! ### Checking a schema -/

/-- Checks the type that a schema names, if it names one. -/
def checkType (keywords : Members) : Except PropertyError Unit :=
  match Dict.get? keywords "type" with
  | none => .ok ()
  | some (.str s) =>
    if typeNames.contains s then .ok () else .error (.invalidSchema (.unknownType (.str s)))
  | some t => .error (.invalidSchema (.unknownType t))

mutual

/-- Accepts null and the objects whose types are known, nested schemas included. -/
def check : Json → Except PropertyError Unit
  | .null => .ok ()
  | .obj keywords => do
    checkType keywords
    checkProperties keywords
    checkItems keywords
  | _ => .error (.invalidSchema .notObjectOrNull)

/-- Checks the schemas under the keyword `properties`. -/
def checkProperties : List (String × Json) → Except PropertyError Unit
  | [] => .ok ()
  | (k, v) :: rest =>
    if k = "properties" then
      match v with
      | .obj nested => checkEach nested
      | _ => .ok ()
    else checkProperties rest

/-- Checks the schema under the keyword `items`. -/
def checkItems : List (String × Json) → Except PropertyError Unit
  | [] => .ok ()
  | (k, v) :: rest => if k = "items" then check v else checkItems rest

def checkEach : List (String × Json) → Except PropertyError Unit
  | [] => .ok ()
  | (_, v) :: rest => do
    check v
    checkEach rest

end

/-! ### Validating a document -/

/-- Tests the keyword `type`. -/
def validateType (keywords : Members) (path : Location) (data : Json) : Except PropertyError Unit :=
  match Dict.get? keywords "type" with
  | none => .ok ()
  | some (.str expected) =>
    if hasType expected data then .ok ()
    else .error (.typeMismatch (display path) expected (typeOf data))
  | some _ => .error (.invalidSchema .typeNotText)

/-- The names that the keyword `required` lists. -/
def requiredNames (keywords : Members) : List String :=
  match Dict.get? keywords "required" with
  | some (.arr names) => names.filterMap Json.asStr?
  | _ => []

/-- Tests the keyword `required`. -/
def validateRequired (keywords : Members) (path : Location) (data : Members) :
    Except PropertyError Unit :=
  match (requiredNames keywords).find? fun name => !Dict.contains data name with
  | some name => .error (.missingRequired (join path name))
  | none => .ok ()

/-- The schemas that the keyword `properties` declares. -/
def declared (keywords : Members) : Members :=
  match Dict.get? keywords "properties" with
  | some (.obj nested) => nested
  | _ => []

/-- Tests the keyword `additionalProperties`, which only `false` gives an effect. -/
def validateAdditional (keywords : Members) (path : Location) (data : Members) :
    Except PropertyError Unit :=
  match Dict.get? keywords "additionalProperties" with
  | some (.bool false) =>
    match data.find? fun m => !Dict.contains (declared keywords) m.1 with
    | some m => .error (.unexpected (join path m.1))
    | none => .ok ()
  | _ => .ok ()

/-- Tests the keyword `enum`. -/
def validateEnum (keywords : Members) (path : Location) (data : Json) : Except PropertyError Unit :=
  match Dict.get? keywords "enum" with
  | some (.arr allowed) =>
    if allowed.any (· == data) then .ok ()
    else .error (.constraint (display path) (.notListed data allowed))
  | _ => .ok ()

/-- The number under a keyword, as a double. -/
def bound? (keywords : Members) (key : String) : Option Double :=
  (Dict.get? keywords key).bind asDouble?

/-- Tests the keywords `minimum` and `maximum`. -/
def validateRange (keywords : Members) (path : Location) (data : Json) : Except PropertyError Unit :=
  match asDouble? data with
  | none => .ok ()
  | some x =>
    match (bound? keywords "minimum").filter fun m => Ord.compare x m == .lt with
    | some m => .error (.constraint (display path) (.belowMinimum x m))
    | none =>
      match (bound? keywords "maximum").filter fun m => Ord.compare x m == .gt with
      | some m => .error (.constraint (display path) (.aboveMaximum x m))
      | none => .ok ()

/-- The natural number under a keyword. -/
def limit? (keywords : Members) (key : String) : Option Nat :=
  (Dict.get? keywords key).bind Json.asNat?

/-- Tests the keywords `minLength` and `maxLength`. -/
def validateLength (keywords : Members) (path : Location) (data : Json) : Except PropertyError Unit :=
  match data with
  | .str s =>
    let n := s.length
    match (limit? keywords "minLength").filter fun m => n < m with
    | some m => .error (.constraint (display path) (.tooShort n m))
    | none =>
      match (limit? keywords "maxLength").filter fun m => m < n with
      | some m => .error (.constraint (display path) (.tooLong n m))
      | none => .ok ()
  | _ => .ok ()

mutual

/-- Tests a document, at its location, against a schema. -/
def validateAt (schema : Json) (path : Location) (data : Json) : Except PropertyError Unit :=
  match schema with
  | .obj keywords =>
    let nested := match data with
      | .obj ms => do
        validateRequired keywords path ms
        validateMembers (declared keywords) path ms
        validateAdditional keywords path ms
      | .arr xs =>
        match Dict.get? keywords "items" with
        | some items => validateItems items path 0 xs
        | none => .ok ()
      | _ => .ok ()
    do
      validateType keywords path data
      nested
      validateEnum keywords path data
      validateRange keywords path data
      validateLength keywords path data
  | _ => .error (.invalidSchema (.notObject path))
termination_by structural data

/-- Tests the declared members of an object. -/
def validateMembers (schemas : Members) (path : Location) :
    List (String × Json) → Except PropertyError Unit
  | [] => .ok ()
  | (name, v) :: rest => do
    match Dict.get? schemas name with
    | some schema => validateAt schema (join path name) v
    | none => .ok ()
    validateMembers schemas path rest

/-- Tests the elements of an array, the first of which has the given index. -/
def validateItems (schema : Json) (path : Location) (index : Nat) :
    List Json → Except PropertyError Unit
  | [] => .ok ()
  | v :: rest => do
    validateAt schema (join path (toString index)) v
    validateItems schema path (index + 1) rest

end

/-- Tests properties against a schema. A null schema accepts all, and the identifier and
    the revision of the edge are no properties. -/
def validate (schema : Json) (properties : Members) : Except PropertyError Unit :=
  if schema.isNull then .ok ()
  else validateAt schema "" (.obj ((properties.erase "_id").erase "_rev"))

end Schema

end EdgeFields
