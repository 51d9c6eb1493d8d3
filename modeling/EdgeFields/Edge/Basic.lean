/-
  EdgeFields/Edge/Basic.lean
  ==========================
  **Edges.**

  A relationship between two resources is one edge. Each endpoint is a resource and the
  name of its field; the second field has a name only if the relationship shows on both
  sides. An edge has properties of its own, and the identifier and the revision of its
  record once it is stored.
-/
import EdgeFields.Json.Decode
import EdgeFields.Store.Error
import EdgeFields.Store.Record

namespace EdgeFields

structure Edge where
  id : Option String := none
  revision : Option String := none
  firstId : String
  firstName : String
  secondId : String
  secondName : Option String
  properties : Members

namespace Edge

/-! ### Members of stored edges -/

def firstIdKey : String := "firstId"

def firstNameKey : String := "firstPropertyName"

def secondIdKey : String := "secondId"

def secondNameKey : String := "secondPropertyName"

def propertiesKey : String := "properties"

/-! ### Endpoints -/

/-- The field of a resource stands at the first endpoint. -/
def firstIs (e : Edge) (owner field : String) : Bool :=
  e.firstId == owner && e.firstName == field

/-- The field of a resource stands at the second endpoint. -/
def secondIs (e : Edge) (owner field : String) : Bool :=
  e.secondId == owner && e.secondName == some field

def involves (e : Edge) (owner field : String) : Bool :=
  e.firstIs owner field || e.secondIs owner field

/-- The resource opposite to the field of a resource. A field that stands at both
    endpoints counts as the first. -/
def opposite (e : Edge) (owner field : String) : String :=
  if e.firstIs owner field then e.secondId else e.firstId

/-- Moves the endpoint opposite to the field of a resource. -/
def retarget (e : Edge) (owner field target : String) : Edge :=
  if e.firstIs owner field then { e with secondId := target } else { e with firstId := target }

/-! ### Records -/

/-- The content of the edge's record, without bookkeeping. -/
def content (e : Edge) : Members :=
  [(firstIdKey, .str e.firstId), (firstNameKey, .str e.firstName),
    (propertiesKey, .obj e.properties), (secondIdKey, .str e.secondId)] ++
  (e.secondName.map fun name => (secondNameKey, Json.str name)).toList

def toJson (e : Edge) : Json :=
  .obj <| Dict.insert? Record.idKey (e.id.map .str) <|
    Dict.insert? Record.revisionKey (e.revision.map .str) e.content

def ofJson? (j : Json) : Option Edge := do
  let ms ← j.asObj?
  let id ← Json.optional Json.asStr? ms Record.idKey
  let revision ← Json.optional Json.asStr? ms Record.revisionKey
  let firstId ← Json.required Json.asStr? ms firstIdKey
  let firstName ← Json.required Json.asStr? ms firstNameKey
  let secondId ← Json.required Json.asStr? ms secondIdKey
  let secondName ← Json.optional Json.asStr? ms secondNameKey
  let properties ← Json.defaulted [] Json.asObj? ms propertiesKey
  pure ⟨id, revision, firstId, firstName, secondId, secondName, properties⟩

/-- The edge of a record, with the record's identifier and revision. -/
def ofRecord (r : Record) : Except StoreError Edge :=
  match ofJson? r.content with
  | some e => .ok { e with id := some r.id, revision := some r.revision }
  | none => .error .notAnEdge

end Edge

end EdgeFields
