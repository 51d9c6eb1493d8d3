/-
  EdgeFields/Engine/Validation.lean
  =================================
  **Validation of references.**

  A reference has a shape: a target in one of the allowed containers, and properties that
  satisfy the schema of the field. Beyond that the referenced resource has to exist, and an
  assignment that is added must not be there already. References that a field already holds
  are not validated again.
-/
import EdgeFields.Engine.BoundField

namespace EdgeFields

open EngineM

namespace BoundField

/-- Whether a target is a path of at least two segments, none of them empty. Slashes in
    front do not count. -/
def isWellFormedTarget (target : String) : Bool :=
  let segments := Text.pieces '/' (target.toList.dropWhile (· == '/'))
  segments.length ≥ 2 && segments.all fun s => !s.isEmpty

/-- Checks what can be checked without the store. -/
def checkShape (b : BoundField) (r : Reference) : Except Error Unit := do
  let target ← b.targetOf r
  if !isWellFormedTarget target then throw (.malformedTarget target b.field.name)
  if !b.field.accepts target then
    throw (.targetNotAllowed target b.field.name b.field.collections)
  match b.field.schema with
  | none => pure ()
  | some schema =>
    (Schema.validate schema r.properties).mapError (.invalidProperties b.field.name)

/-- The filter of the edges between the field of an owner and a target. -/
def assignmentFilter (b : BoundField) (owner target : String) : Filter :=
  let forward : Filter := .all [
    .equalTo (.field Edge.firstIdKey) (.str owner),
    .equalTo (.field Edge.firstNameKey) (.str b.field.name),
    .equalTo (.field Edge.secondIdKey) (.str target)]
  if b.field.isReverse then
    .any [forward, .all [
      .equalTo (.field Edge.secondIdKey) (.str owner),
      .equalTo (.field Edge.secondNameKey) (.str b.field.name),
      .equalTo (.field Edge.firstIdKey) (.str target)]]
  else forward

/-- The filter of the edges that a reference would repeat: its own edge does not count. -/
def repetitionFilter (b : BoundField) (owner target : String) (r : Reference) : Filter :=
  match r.edgeId? with
  | none => b.assignmentFilter owner target
  | some id =>
    .all [b.assignmentFilter owner target, .not (.equalTo (.field Record.idKey) (.str id))]

variable {σ : Type} [Store σ]

/-- Fails when a referenced resource does not exist, unless the field does not ask. -/
def checkReferent (b : BoundField) (target : String) : EngineM σ Unit := do
  if b.field.validatesReferents then
    tryCatch (do let _ ← fromStore (Store.read target)) fun e =>
      match e.kind with
      | .notFound => throw (.referentMissing target)
      | _ => throw e

/-- Fails when the field of an owner already has an edge to the target of a reference. -/
def checkUnassigned (b : BoundField) (owner target : String) (r : Reference) : EngineM σ Unit := do
  let request : Request := { filter := some (b.repetitionFilter owner target r), pageSize := 1 }
  let results ← fromStore (Store.query b.edgeContainer request)
  if !results.records.isEmpty then throw (.alreadyRelated owner b.field.name target)

/-- Validates one reference of an owner, with `appending` also against the assignments that
    are there. -/
def validateReference (b : BoundField) (owner : String) (appending : Bool) (r : Reference) :
    EngineM σ Unit := do
  ofResult (b.checkShape r)
  let target := r.target.getD ""
  b.checkReferent target
  if appending then b.checkUnassigned owner target r

/-- Fails when the owner does not exist. -/
def checkOwner (owner : String) : EngineM σ Unit :=
  tryCatch (do let _ ← fromStore (Store.read owner)) fun e =>
    match e.kind with
    | .notFound => throw (.ownerMissing owner)
    | _ => throw e

/-- Validates the references of a new value of which the old value has none with the same
    identity. Two references of the new value are never the same relationship. -/
def validateNew (b : BoundField) (owner : String) (appending : Bool) (old new : List Reference) :
    EngineM σ Unit := do
  ofResult (Reference.checkDistinct new)
  let known := old.map Reference.identity
  (new.filter fun r => !known.contains r.identity).forM (b.validateReference owner appending)

end BoundField

end EdgeFields
