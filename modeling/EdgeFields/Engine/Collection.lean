/-
  EdgeFields/Engine/Collection.lean
  =================================
  **Fields that hold many references.**

  Reading and querying go through one store query, bound to the owner. Writing replaces
  the field's references or appends to them: references that name an edge update it, the
  others create edges, and with `replacing` the edges that are not named go first. Nothing is
  written before the whole value has been validated.

  The computations here run one at a time. Callers that run concurrently and want replaces
  of one owner to wait for each other hold its lock (`OwnerLocks`) around `set` and `clear`.
-/
import EdgeFields.Activity
import EdgeFields.Engine.Validation

namespace EdgeFields

open EngineM

namespace Collection

variable {σ : Type} [Store σ]

/-! ### Queries -/

/-- The store request that answers a client's request at the field of an owner. The owner
    cannot be overridden by parameters of the client. -/
def storeRequest (b : BoundField) (owner : String) (r : Request) : Except Error Request := do
  if let some expression := r.expression then
    throw (.queryExpression b.field.name expression)
  let base := ({} : Request).withPagingFrom r
  let bound ← match r.selection with
    | .relationships =>
      .ok (({ base with queryId := some Request.relationshipsId }.withParameter
        Request.resourceParameter owner).withParameter Request.fieldParameter b.field.name)
    | .unknown id => .error (.unsupportedQueryId id b.field.name)
    | _ =>
      let foreign := (r.filter.map Filter.foreignFields).getD []
      if !foreign.isEmpty && b.settings.strictFilterFields then
        .error (.unsupportedFilterFields foreign)
      else .ok { base with filter := some (b.ownerFilter owner r.filter) }
  pure { bound with parameters := Dict.merge r.parameters bound.parameters }

/-- Whether the answers to a request are expanded. -/
def expanding (b : BoundField) (r : Request) : Bool :=
  b.settings.expandReferences && r.selection != .idsOnly

/-- Hands the client forms of records to a visitor until it has seen enough. -/
def deliver {β : Type} (b : BoundField) (owner : String) (expand : Bool)
    (visit : β → Reference → β × Bool) : β → List Record → EngineM σ β
  | acc, [] => pure acc
  | acc, record :: rest => do
    let r ← ofResult (b.toReference owner record)
    let r ← if expand then BoundField.expandOrKeep r else pure r
    let (acc, more) := visit acc r
    if more then deliver b owner expand visit acc rest else pure acc

/-- What a query answers. -/
structure Answer (β : Type) where
  result : β
  response : Response
  activity : List Activity.Entry

/-- Queries the references of an owner. The visitor folds them and says whether it wants
    more. -/
def queryWith {β : Type} (b : BoundField) (context : Context) (id : String) (r : Request)
    (init : β) (visit : β → Reference → β × Bool) : EngineM σ (Answer β) := do
  let owner := b.ownerPath id
  let request ← ofResult (storeRequest b owner r)
  let results ← fromStore (Store.query b.edgeContainer request)
  let result ← deliver b owner (expanding b r) visit init results.records
  pure ⟨result, results.response, Activity.ofSuccess context "query" owner⟩

/-- Queries the references of an owner. -/
def query (b : BoundField) (context : Context) (id : String) (r : Request) :
    EngineM σ (Answer (List Reference)) :=
  queryWith b context id r [] fun acc r => (acc ++ [r], true)

/-- All references of an owner. -/
def get (b : BoundField) (context : Context) (id : String) : EngineM σ (List Reference) := do
  let answer ← query b context.asInternal id { queryId := some Request.relationshipsId }
  pure answer.result

/-! ### Writes -/

/-- Removes all edges at the field of an owner and returns their client forms. -/
def clearOwner (b : BoundField) (owner : String) : EngineM σ (List Reference) := do
  let existing ← b.existingEdges owner
  let deletes ← ofResult (existing.mapM BoundField.deleteOperation)
  b.execute owner deletes

def clear (b : BoundField) (id : String) : EngineM σ (List Reference) :=
  clearOwner b (b.ownerPath id)

/-- The edge with an identifier; of several the last one. -/
def edgeWithId? (es : List Edge) (id : String) : Option Edge :=
  es.reverse.find? fun e => e.id == some id

/-- The write of one reference: an update of the edge that it names, or else a creation. -/
def writeOf (b : BoundField) (owner : String) (existing : List Edge) (r : Reference) :
    Except Error Operation :=
  match r.edgeId? with
  | none => b.createOperation owner r
  | some id =>
    match edgeWithId? existing id with
    | none => .error (.edgeUnknown id owner b.field.name)
    | some e => b.updateOperation owner e r

/-- The edges that no reference names. -/
def unnamed (existing : List Edge) (value : List Reference) : List Edge :=
  let named := value.filterMap Reference.edgeId?
  existing.filter fun e => e.id.any fun id => !named.contains id

def isCreate : Operation → Bool
  | .create _ => true
  | _ => false

/-- Writes the references of an owner. Updates go before creations, and both keep the order
    of the value. -/
def set (b : BoundField) (replacing : Bool) (id : String) (value : List Reference) :
    EngineM σ (List Reference) := do
  let owner := b.ownerPath id
  ofResult (Reference.checkDistinct value)
  ofResult (value.forM b.checkShape)
  if value.isEmpty then
    if replacing then
      let _ ← clearOwner b owner
    return []
  BoundField.checkOwner owner
  let existing ← b.existingEdges owner
  b.validateNew owner (!replacing) (b.formsOf owner existing) value
  let writes ← ofResult (value.mapM (writeOf b owner existing))
  if replacing then
    let deletes ← ofResult ((unnamed existing value).mapM BoundField.deleteOperation)
    let _ ← b.execute owner deletes
  b.execute owner (writes.filter (!isCreate ·) ++ writes.filter isCreate)

/-- Validates a new value of the field of an owner beside the old one. -/
def validate (b : BoundField) (id : String) (appending : Bool) (old new : List Reference) :
    EngineM σ Unit :=
  b.validateNew (b.ownerPath id) appending old new

end Collection

end EdgeFields
