/-
  EdgeFields/Engine/Value.lean
  ============================
  **Field values as documents.**

  The operations of clients, for fields of either cardinality. The value of a collection
  field is an array of references, that of a singleton field a reference or null.
-/
import EdgeFields.Engine.Collection
import EdgeFields.Engine.Singleton

namespace EdgeFields

open EngineM

namespace BoundField

variable {σ : Type} [Store σ]

/-- The value of the field of an owner. -/
def getValue (b : BoundField) (context : Context) (id : String) : EngineM σ Json :=
  match b.field.cardinality with
  | .collection => Reference.listToJson <$> Collection.get b context id
  | .single => Reference.optionToJson <$> Singleton.get b id

/-- Writes the value of the field of an owner and returns what was written. -/
def setValue (b : BoundField) (replacing : Bool) (id : String) (value : Json) :
    EngineM σ Json :=
  match b.field.cardinality with
  | .collection => do
    let value ← ofResult (Reference.listOfJson value)
    Reference.listToJson <$> Collection.set b replacing id value
  | .single => do
    let value ← ofResult (Reference.optionOfJson value)
    Reference.optionToJson <$> Singleton.set b replacing id value

/-- Removes all references of an owner and returns them. -/
def clearValue (b : BoundField) (id : String) : EngineM σ Json :=
  match b.field.cardinality with
  | .collection => Reference.listToJson <$> Collection.clear b id
  | .single => Reference.optionToJson <$> Singleton.clear b id

/-- Validates a new value of the field of an owner beside the old one. -/
def validateValue (b : BoundField) (id : String) (appending : Bool) (old new : Json) :
    EngineM σ Unit :=
  match b.field.cardinality with
  | .collection => do
    let old ← ofResult (Reference.listOfJson old)
    let new ← ofResult (Reference.listOfJson new)
    Collection.validate b id appending old new
  | .single => do
    let old ← ofResult (Reference.optionOfJson old)
    let new ← ofResult (Reference.optionOfJson new)
    Singleton.validate b id appending old new

/-- Queries the references of an owner. Singleton fields take no queries. -/
def queryValue (b : BoundField) (context : Context) (id : String) (r : Request) :
    EngineM σ (Collection.Answer (List Reference)) :=
  match b.field.cardinality with
  | .collection => Collection.query b context id r
  | .single => throw (.singletonQuery b.field.name)

/-- Collections have no actions. -/
def runAction (b : BoundField) (action : String) : EngineM σ Json :=
  throw (.unsupportedAction action b.field.name)

end BoundField

end EdgeFields
