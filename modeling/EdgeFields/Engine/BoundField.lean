/-
  EdgeFields/Engine/BoundField.lean
  =================================
  **Fields bound to their owners.**

  A bound field is a descriptor together with the container of the resources that have the
  field, and the settings of the engine. Its owner is named by path. This module turns
  references into writes of edges, reads the edges at a field of an owner, and turns edges
  back into references.
-/
import EdgeFields.Edge.ClientForm
import EdgeFields.Field
import EdgeFields.Store.Batch

namespace EdgeFields

/-- The error of the engine that an error of a batch stands for. -/
def Error.ofBatch : Batch.Error → Error
  | .tooLarge submitted limit => .tooManyOperations submitted limit
  | .operationFailed _ _ cause => .store cause

/-- A computation of the engine on a store state `σ`. -/
abbrev EngineM (σ : Type) := ExceptT Error (StateM σ)

namespace EngineM

variable {σ α : Type}

def fromStore (m : StoreM σ α) : EngineM σ α := ExceptT.adapt Error.store m

def fromBatch (m : ExceptT Batch.Error (StateM σ) α) : EngineM σ α :=
  ExceptT.adapt Error.ofBatch m

def ofResult (e : Except Error α) : EngineM σ α := ExceptT.mk (pure e)

end EngineM

open EngineM

structure BoundField where
  /-- The container of the owners. -/
  container : String
  field : Field
  settings : EngineSettings

namespace BoundField

/-- Binds a field, unless its descriptor is malformed. -/
def bind (container : String) (field : Field) (settings : EngineSettings) :
    Except Error BoundField :=
  match field.check with
  | .ok () => .ok ⟨container, field, settings⟩
  | .error e => .error (.invalidField field.name container e)

/-- The path of an owner. -/
def ownerPath (b : BoundField) (id : String) : String :=
  Path.join (Text.trimEnd (· == '/') b.container) id

/-- The container of the edges. -/
def edgeContainer (b : BoundField) : String := b.settings.repositoryPath

/-! ### Writes -/

def targetOf (b : BoundField) (r : Reference) : Except Error String :=
  match r.target with
  | some t => .ok t
  | none => .error (.missingTarget b.field.name)

/-- The edge of a new reference. The owner stands at its first endpoint. -/
def newEdge (b : BoundField) (owner : String) (r : Reference) : Except Error Edge :=
  (b.targetOf r).map fun target =>
    { firstId := owner
      firstName := b.field.name
      secondId := target
      secondName := b.field.reverseName
      properties := r.edgeProperties }

def createOperation (b : BoundField) (owner : String) (r : Reference) : Except Error Operation :=
  (b.newEdge owner r).map .create

/-- The write that makes a stored edge match a reference. The edge keeps its orientation:
    the endpoint opposite to the owner moves and the properties are replaced. The revision
    of the reference is no condition, so that a value read earlier can be written back. -/
def updateOperation (b : BoundField) (owner : String) (e : Edge) (r : Reference) :
    Except Error Operation :=
  match e.id with
  | none => .error .edgeWithoutId
  | some id =>
    if !e.involves owner b.field.name then .error (.edgeForeign id owner b.field.name)
    else (b.targetOf r).map fun target =>
      .update id none
        { e.retarget owner b.field.name target with
          id := none, revision := none, properties := r.edgeProperties }

/-- The write that removes a stored edge, if it still has the revision that was read. -/
def deleteOperation (e : Edge) : Except Error Operation :=
  match e.id with
  | none => .error .edgeWithoutId
  | some id => .ok (.delete id e.revision)

/-! ### Client forms -/

/-- The client form of a record, seen from the field of an owner. -/
def toReference (b : BoundField) (owner : String) (record : Record) : Except Error Reference :=
  match Edge.ofRecord record with
  | .ok e => .ok (.ofEdge e owner b.field.name)
  | .error e => .error (.store e)

/-! ### Queries -/

/-- The request for all edges at the field of an owner. -/
def relationshipQuery (b : BoundField) (owner : String) : Request :=
  (({ queryId := some Request.relationshipsId } : Request).withParameter
    Request.resourceParameter owner).withParameter Request.fieldParameter b.field.name

/-- The filter of the edges of which one endpoint is the field of an owner, and that satisfy
    a client filter, seen from that endpoint. -/
def endpointFilter (b : BoundField) (owner : String) (client : Option Filter) (fromSecond : Bool) :
    Filter :=
  let idKey := if fromSecond then Edge.secondIdKey else Edge.firstIdKey
  let nameKey := if fromSecond then Edge.secondNameKey else Edge.firstNameKey
  .all ([.equalTo (.field idKey) (.str owner), .equalTo (.field nameKey) (.str b.field.name)] ++
    (client.map (Filter.stored fromSecond)).toList)

/-- The filter of the edges at the field of an owner that satisfy a client filter. A reverse
    field is looked for at both endpoints, as its edges may have been created on either
    side. -/
def ownerFilter (b : BoundField) (owner : String) (client : Option Filter) : Filter :=
  if b.field.isReverse then
    .any [b.endpointFilter owner client false, b.endpointFilter owner client true]
  else b.endpointFilter owner client false

variable {σ : Type} [Store σ]

/-- Runs writes and returns the client forms of the written edges. -/
def execute (b : BoundField) (owner : String) (os : List Operation) :
    EngineM σ (List Reference) := do
  if os.isEmpty then return []
  let records ← fromBatch
    (Batch.execute b.edgeContainer b.settings.maxConcurrentOperations none os)
  ofResult (records.mapM (b.toReference owner))

/-- The edges at the field of an owner, at either endpoint. -/
def existingEdges (b : BoundField) (owner : String) : EngineM σ (List Edge) := do
  let results ← fromStore (Store.query b.edgeContainer (b.relationshipQuery owner))
  ofResult ((results.records.mapM Edge.ofRecord).mapError .store)

/-- The client forms of the edges of an owner. -/
def formsOf (b : BoundField) (owner : String) (es : List Edge) : List Reference :=
  es.map fun e => .ofEdge e owner b.field.name

/-! ### Expansion -/

/-- Puts the members of the referenced resource beside a reference's own. -/
def expand (r : Reference) : EngineM σ Reference := do
  match r.target with
  | none => throw .edgeWithoutTarget
  | some target =>
    let referent ← fromStore (Store.read target)
    return r.expand referent.content

/-- Expands a reference, or leaves it as it is when that fails. -/
def expandOrKeep (r : Reference) : EngineM σ Reference :=
  tryCatch (expand r) fun _ => pure r

end BoundField

end EdgeFields
