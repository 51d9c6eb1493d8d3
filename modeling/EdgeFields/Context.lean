/-
  EdgeFields/Context.lean
  =======================
  **Contexts of requests.**
-/
import EdgeFields.Json.Decode
import EdgeFields.Store.Ids

namespace EdgeFields

/-- Who asks, and in which transaction. -/
structure Context where
  /-- What all store calls and log lines of a request share. -/
  transactionId : String
  caller : Option String := none
  /-- The engine itself asks; such requests are not reported. -/
  internal : Bool := false
deriving DecidableEq, Repr

namespace Context

/-- The context of a transaction of its own, by serial number. -/
def fresh (serial : Nat) : Context := { transactionId := Ids.assigned serial }

def withCaller (c : Context) (caller : String) : Context := { c with caller := some caller }

/-- The same context for a request of the engine itself. -/
def asInternal (c : Context) : Context := { c with internal := true }

def toJson (c : Context) : Json :=
  .object [("transaction_id", .str c.transactionId), ("caller", .ofStr? c.caller),
    ("internal", .bool c.internal)]

def ofJson? (j : Json) : Option Context := do
  let ms ← j.asObj?
  let transactionId ← Json.required Json.asStr? ms "transaction_id"
  let caller ← Json.optional Json.asStr? ms "caller"
  let internal ← Json.required Json.asBool? ms "internal"
  pure ⟨transactionId, caller, internal⟩

end Context

end EdgeFields
