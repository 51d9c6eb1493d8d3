/-
  EdgeFields/Reference.lean
  =========================
  **References.**

  The client form of an edge, seen from the field of its owner: the opposite resource
  (`_ref`), the edge's properties (`_refProperties`), and the edge's identifier and
  revision. When a reference is expanded, the members of the referenced resource stand
  beside its own.

  Two references are the same relationship when their identities agree: their targets,
  and their properties without bookkeeping in canonical text.
-/
import EdgeFields.Edge.Basic
import EdgeFields.Error

namespace EdgeFields

structure Reference where
  id : Option String := none
  revision : Option String := none
  target : Option String := none
  properties : Members := []
  /-- Members of the referenced resource. -/
  expanded : Members := []

namespace Reference

def targetKey : String := "_ref"

def propertiesKey : String := "_refProperties"

/-- The members that are a reference's own. -/
def reserved : List String := [Record.idKey, Record.revisionKey, targetKey, propertiesKey]

/-! ### Documents -/

def toJson (r : Reference) : Json :=
  .obj <| Dict.insert? Record.idKey (r.id.map .str)
    <| Dict.insert? Record.revisionKey (r.revision.map .str)
    <| Dict.insert? targetKey (r.target.map .str)
    <| Dict.insert propertiesKey (.obj r.properties) r.expanded

def ofMembers? (ms : Members) : Option Reference := do
  let id ← Json.optional Json.asStr? ms Record.idKey
  let revision ← Json.optional Json.asStr? ms Record.revisionKey
  let target ← Json.optional Json.asStr? ms targetKey
  let properties ← Json.defaulted [] Json.asObj? ms propertiesKey
  pure ⟨id, revision, target, properties, ms.filter fun m => !reserved.contains m.1⟩

/-- The reference that a value denotes. -/
def ofJson : Json → Except Error Reference
  | .obj ms =>
    match ofMembers? ms with
    | some r => .ok r
    | none => .error .malformedReference
  | v => .error (.referenceNotObject v)

/-- The references that the value of a collection field denotes; null holds none. -/
def listOfJson : Json → Except Error (List Reference)
  | .null => .ok []
  | .arr xs => xs.mapM ofJson
  | v => .error (.collectionNotArray v)

def listToJson (rs : List Reference) : Json := .arr (rs.map toJson)

/-- The reference that the value of a singleton field denotes, if there is one. -/
def optionOfJson : Json → Except Error (Option Reference)
  | .null => .ok none
  | v => (ofJson v).map some

def optionToJson (r : Option Reference) : Json := (r.map toJson).getD .null

/-! ### The edge behind a reference -/

/-- The identifier of the edge: the reference's own, or else the one among its
    properties. -/
def edgeId? (r : Reference) : Option String :=
  r.id.or ((Dict.get? r.properties Record.idKey).bind Json.asStr?)

/-- The properties of the edge, without bookkeeping. -/
def edgeProperties (r : Reference) : Members := Record.withoutBookkeeping r.properties

/-- The client form of an edge, seen from a field of a resource. -/
def ofEdge (e : Edge) (owner field : String) : Reference where
  id := e.id
  revision := e.revision
  target := some (e.opposite owner field)
  properties :=
    Dict.insert? Record.revisionKey (e.revision.map .str)
      (Dict.insert? Record.idKey (e.id.map .str) e.properties)

/-- Puts the members of the referenced resource beside the reference's own. -/
def expand (r : Reference) (referent : Json) : Reference :=
  match referent with
  | .obj ms =>
    { r with expanded := Dict.merge r.expanded (ms.filter fun m => !reserved.contains m.1) }
  | _ => r

/-! ### Identity -/

/-- What makes two references the same relationship. -/
structure Identity where
  target : Option String
  /-- The text of the properties. -/
  properties : String
deriving DecidableEq, Repr

def identity (r : Reference) : Identity := ⟨r.target, (Json.obj r.edgeProperties).text⟩

/-- The first reference with the identity of an earlier one. -/
def firstRepeated? (seen : List Identity) : List Reference → Option Reference
  | [] => none
  | r :: rs => if seen.contains r.identity then some r else firstRepeated? (r.identity :: seen) rs

/-- Refuses references of which two are the same relationship. -/
def checkDistinct (rs : List Reference) : Except Error Unit :=
  match firstRepeated? [] rs with
  | some r => .error (.repeatedReference (r.target.getD ""))
  | none => .ok ()

end Reference

end EdgeFields
