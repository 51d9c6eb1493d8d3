/-
  EdgeFields/Store/Batch.lean
  ===========================
  **Batches of edge writes.**

  A batch is a list of independent writes of single edges. Every write runs, whatever
  becomes of the others, and nothing is taken back. A limited number of writes is in flight
  at a time, and as soon as one completes the next one is submitted. The store answers at
  once, so that the write that was submitted first is the one that completes.
-/
import EdgeFields.Edge.Basic
import EdgeFields.Store.Basic

namespace EdgeFields

/-- A write of one edge. -/
inductive Operation where
  /-- Creates an edge under an identifier of the store's choice. -/
  | create (edge : Edge)
  | update (id : String) (expected : Option String) (edge : Edge)
  | delete (id : String) (expected : Option String)

namespace Operation

/-- The short name of an operation's kind. -/
def kind : Operation → String
  | create _ => "create"
  | update _ _ _ => "update"
  | delete _ _ => "delete"

/-- The name of an operation's kind in documents. -/
def tag : Operation → String
  | create _ => "CreateEdge"
  | update _ _ _ => "UpdateEdge"
  | delete _ _ => "DeleteEdge"

def body : Operation → Json
  | create e => .object [("edge", e.toJson)]
  | update id expected e =>
    .object [("id", .str id), ("expected_revision", .ofStr? expected), ("edge", e.toJson)]
  | delete id expected => .object [("id", .str id), ("expected_revision", .ofStr? expected)]

def toJson (o : Operation) : Json := .object [("op", .str o.tag), ("data", o.body)]

def ofJson? (j : Json) : Option Operation := do
  let ms ← j.asObj?
  let tag ← Json.required Json.enumName? ms "op"
  let data ← Json.required Json.asObj? ms "data"
  if tag = "CreateEdge" then
    let e ← Json.required Edge.ofJson? data "edge"
    pure (create e)
  else if tag = "UpdateEdge" then
    let id ← Json.required Json.asStr? data "id"
    let expected ← Json.optional Json.asStr? data "expected_revision"
    let e ← Json.required Edge.ofJson? data "edge"
    pure (update id expected e)
  else if tag = "DeleteEdge" then
    let id ← Json.required Json.asStr? data "id"
    let expected ← Json.optional Json.asStr? data "expected_revision"
    pure (delete id expected)
  else none

/-- Runs an operation on the edges of a container. -/
def run {σ : Type} [Store σ] (container : String) : Operation → StoreM σ Record
  | create e => Store.create container none (.obj e.content)
  | update id expected e => Store.update (Path.join container id) expected (.obj e.content)
  | delete id expected => Store.delete (Path.join container id) expected

end Operation

namespace Batch

/-- What became of one operation of a batch. -/
structure Outcome where
  index : Nat
  operation : Operation
  result : Except StoreError Record

/-- What became of a batch, in the order of completion. -/
abbrev Report := List Outcome

inductive Error where
  | tooLarge (submitted limit : Nat)
  /-- An operation failed; all others ran. -/
  | operationFailed (index : Nat) (kind : String) (cause : StoreError)

def Error.message : Error → String
  | tooLarge submitted limit =>
    s!"Batch too large: {submitted} operations submitted, maximum is {limit}"
  | operationFailed index kind cause => s!"Batch operation {index} ({kind}) failed: {cause.message}"

namespace Report

def completed (r : Report) : List (Nat × Record) :=
  r.filterMap fun o => match o.result with
    | .ok record => some (o.index, record)
    | .error _ => none

def failures (r : Report) : List (Nat × String × StoreError) :=
  r.filterMap fun o => match o.result with
    | .ok _ => none
    | .error e => some (o.index, o.operation.kind, e)

/-- The records in the order of completion, or the first failure. -/
def result (r : Report) : Except Error (List Record) :=
  match r.failures with
  | [] => .ok (r.completed.map (·.2))
  | (index, kind, cause) :: _ => .error (.operationFailed index kind cause)

end Report

variable {σ : Type} [Store σ]

/-- Waits for so many more outcomes. As many of the waiting operations are submitted as there
    is room for beside those in flight, and the one that was submitted first completes. -/
def await (container : String) (width : Nat) :
    Nat → List (Operation × Nat) → List (Operation × Nat) → StateM σ Report
  | 0, _, _ => pure []
  | n + 1, inFlight, waiting =>
    let room := max width 1 - inFlight.length
    match inFlight ++ waiting.take room with
    | [] => pure []
    | (o, index) :: inFlight => do
      let result ← (o.run container).run
      let rest ← await container width n inFlight (waiting.drop room)
      pure (⟨index, o, result⟩ :: rest)

/-- Runs a batch, unless it is larger than the limit, with so many operations in flight at
    most, and with one at least. -/
def run (container : String) (width : Nat) (limit : Option Nat) (os : List Operation) :
    ExceptT Error (StateM σ) Report :=
  match limit.filter fun n => n < os.length with
  | some n => throw (.tooLarge os.length n)
  | none => ExceptT.lift (await container width os.length [] os.zipIdx)

/-- Runs a batch and returns the records, or the first failure once all operations ran. -/
def execute (container : String) (width : Nat) (limit : Option Nat) (os : List Operation) :
    ExceptT Error (StateM σ) (List Record) := do
  let report ← run container width limit os
  ExceptT.mk (pure report.result)

end Batch

end EdgeFields
