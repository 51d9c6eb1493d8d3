/-
  EdgeFields/Engine/Singleton.lean
  ================================
  **Fields that hold at most one reference.**

  A reference that names the edge of the field updates it; any other replaces all edges that
  the field has.
-/
import EdgeFields.Engine.Validation

namespace EdgeFields

open EngineM

namespace Singleton

variable {σ : Type} [Store σ]

/-- The reference of an owner. Several edges are an error. -/
def current (b : BoundField) (owner : String) : EngineM σ (Option Reference) := do
  match ← b.existingEdges owner with
  | [] => pure none
  | [e] => pure (some (.ofEdge e owner b.field.name))
  | es => throw (.severalEdges b.field.name owner es.length)

def get (b : BoundField) (id : String) : EngineM σ (Option Reference) := do
  match ← current b (b.ownerPath id) with
  | none => pure none
  | some r =>
    if b.settings.expandReferences then some <$> BoundField.expandOrKeep r else pure (some r)

/-- Removes the edges at the field of an owner and returns the client form of the last. -/
def clearOwner (b : BoundField) (owner : String) : EngineM σ (Option Reference) := do
  let existing ← b.existingEdges owner
  let deletes ← ofResult (existing.mapM BoundField.deleteOperation)
  let deleted ← b.execute owner deletes
  pure deleted.getLast?

def clear (b : BoundField) (id : String) : EngineM σ (Option Reference) :=
  clearOwner b (b.ownerPath id)

/-- The write of a reference. One that names no edge has the field's edges removed first. -/
def writeOf (b : BoundField) (owner : String) (existing : List Edge) (r : Reference) :
    EngineM σ Operation :=
  match r.edgeId? with
  | some id =>
    match existing.find? fun e => e.id == some id with
    | none => throw (.edgeUnknown id owner b.field.name)
    | some e => ofResult (b.updateOperation owner e r)
  | none => do
    let deletes ← ofResult (existing.mapM BoundField.deleteOperation)
    let _ ← b.execute owner deletes
    ofResult (b.createOperation owner r)

/-- Writes the reference of an owner. No reference leaves the field as it is, or clears it
    with `replacing`. -/
def set (b : BoundField) (replacing : Bool) (id : String) (value : Option Reference) :
    EngineM σ (Option Reference) := do
  let owner := b.ownerPath id
  match value with
  | none =>
    if replacing then
      let _ ← clearOwner b owner
    pure none
  | some r =>
    ofResult (b.checkShape r)
    BoundField.checkOwner owner
    let existing ← b.existingEdges owner
    b.validateNew owner false (b.formsOf owner existing) [r]
    let write ← writeOf b owner existing r
    let written ← b.execute owner [write]
    pure written.getLast?

/-- Validates a new value of the field of an owner, if it differs from the old one. -/
def validate (b : BoundField) (id : String) (appending : Bool) (old new : Option Reference) :
    EngineM σ Unit :=
  match new with
  | none => pure ()
  | some r =>
    if old.map Reference.identity = some r.identity then pure ()
    else b.validateReference (b.ownerPath id) appending r

end Singleton

end EdgeFields
