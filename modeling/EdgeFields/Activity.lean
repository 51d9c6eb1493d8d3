/-
  EdgeFields/Activity.lean
  ========================
  **Activity.**

  A request of a client that succeeds leaves an activity entry; requests of the engine
  itself leave none. A sink receives the entries. What a sink answers has no influence
  on the request.
-/
import EdgeFields.Context

namespace EdgeFields.Activity

inductive Status where
  | success
  | failure
deriving DecidableEq, Repr

def Status.name : Status → String
  | success => "SUCCESS"
  | failure => "FAILURE"

structure Entry where
  context : Context
  operation : String
  resourcePath : String
  status : Status
deriving DecidableEq, Repr

def Entry.toJson (e : Entry) : Json :=
  .object [("context", e.context.toJson), ("operation", .str e.operation),
    ("resource_path", .str e.resourcePath), ("status", .str e.status.name)]

/-- The members of the log event that reports an entry. -/
def Entry.eventJson (e : Entry) : Json :=
  .object [("level", .str "INFO"), ("message", .str "relationship activity"),
    ("transaction_id", .str e.context.transactionId),
    ("caller", .str (e.context.caller.getD "anonymous")), ("operation", .str e.operation),
    ("resource_path", .str e.resourcePath), ("status", .str e.status.name)]

/-- The entries of an operation that succeeded. -/
def ofSuccess (context : Context) (operation resourcePath : String) : List Entry :=
  if context.internal then [] else [⟨context, operation, resourcePath, .success⟩]

/-- Where entries go. -/
inductive Sink where
  | recorder
  /-- Writes a log event for each entry. -/
  | events
  | discard
deriving DecidableEq, Repr

/-- What a sink keeps of an entry. -/
def Sink.receive : Sink → Entry → List Json
  | recorder, e => [e.toJson]
  | events, e => [e.eventJson]
  | discard, _ => []

end EdgeFields.Activity
