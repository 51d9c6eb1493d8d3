/-
  EdgeFields/Store/Monitored.lean
  ===============================
  **A monitored store.**

  Wraps a store: every call is noted, calls that a rule selects fail without reaching the
  store, and records created without an identifier are numbered `e1`, `e2`, … in the order
  of their creation.
-/
import EdgeFields.Store.Basic

namespace EdgeFields

/-- A call of a store operation. -/
inductive StoreCall where
  | create (container : String) (id : Option String) (content : Json)
  | read (path : String)
  | update (path : String) (expected : Option String) (content : Json)
  | delete (path : String) (expected : Option String)
  | query (container : String) (request : Request)

namespace StoreCall

def kind : StoreCall → String
  | create _ _ _ => "create"
  | read _ => "read"
  | update _ _ _ => "update"
  | delete _ _ => "delete"
  | query _ _ => "query"

/-- The text that rules look into. -/
def subject : StoreCall → String
  | create container _ content => s!"{container} {content.text}"
  | read path => path
  | update path _ _ => path
  | delete path _ => path
  | query container _ => container

/-- A request without the members that ask for nothing, its filter as an expression. -/
def requestJson (r : Request) : Json :=
  let asked : Json → Bool
    | .null => false
    | .num (.int i) => i != 0
    | .arr xs => !xs.isEmpty
    | .obj ms => !ms.isEmpty
    | .str s => s != "none"
    | _ => true
  match r.toJson with
  | .obj ms =>
    .obj ((Dict.insert? "query_filter" (r.filter.map fun f => .str f.text) ms).filter
      fun m => asked m.2)
  | j => j

def toJson : StoreCall → Json
  | create container id content => .arr [.str "create", .str container, .ofStr? id, content]
  | read path => .arr [.str "read", .str path]
  | update path expected content => .arr [.str "update", .str path, .ofStr? expected, content]
  | delete path expected => .arr [.str "delete", .str path, .ofStr? expected]
  | query container r => .arr [.str "query", .str container, requestJson r]

end StoreCall

/-! ### Rules -/

/-- Selects calls that fail. -/
structure FailureRule where
  /-- The kind of the calls. -/
  call : String
  /-- A text that occurs in the subject of the calls. -/
  contains : String
  error : StoreError
  /-- How many calls are let through before the first one fails. -/
  skip : Nat

namespace FailureRule

def selects (r : FailureRule) (c : StoreCall) : Bool :=
  r.call == c.kind && Json.occursIn r.contains.toList c.subject.toList

/-- The error of the first rule that selects a call and has nothing left to skip, and the
    rules after the call. A rule in front of it that selects the call skips one. -/
def apply (c : StoreCall) : List FailureRule → Option StoreError × List FailureRule
  | [] => (none, [])
  | r :: rs =>
    if r.selects c then
      if r.skip = 0 then (some r.error, r :: rs)
      else
        let (e, rs) := apply c rs
        (e, { r with skip := r.skip - 1 } :: rs)
    else
      let (e, rs) := apply c rs
      (e, r :: rs)

end FailureRule

structure Monitored (σ : Type) where
  store : σ
  /-- The calls so far, the last one first. -/
  calls : List StoreCall := []
  rules : List FailureRule := []
  /-- The number of identifiers assigned. -/
  assigned : Nat := 0

namespace Monitored

variable {σ : Type}

/-- Notes a call, and fails if a rule selects it. -/
def enter (c : StoreCall) : StoreM (Monitored σ) Unit := fun s =>
  let (e, rules) := FailureRule.apply c s.rules
  let s := { s with calls := c :: s.calls, rules }
  match e with
  | some e => (.error e, s)
  | none => (.ok (), s)

/-- Runs a computation of the store inside. -/
def inside {α : Type} (m : StoreM σ α) : StoreM (Monitored σ) α := fun s =>
  let (a, store) := m s.store
  (a, { s with store })

/-- The given identifier, or the next number. -/
def identify (id : Option String) : StoreM (Monitored σ) String := fun s =>
  match id with
  | some id => (.ok id, s)
  | none => (.ok s!"e{s.assigned + 1}", { s with assigned := s.assigned + 1 })

instance [Store σ] : Store (Monitored σ) where
  create container id content := do
    enter (.create container id content)
    let id ← identify id
    inside (Store.create container (some id) content)
  read path := do
    enter (.read path)
    inside (Store.read path)
  update path expected content := do
    enter (.update path expected content)
    inside (Store.update path expected content)
  delete path expected := do
    enter (.delete path expected)
    inside (Store.delete path expected)
  query container request := do
    enter (.query container request)
    inside (Store.query container request)

end Monitored

end EdgeFields
