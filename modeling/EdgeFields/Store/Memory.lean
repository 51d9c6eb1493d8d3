/-
  EdgeFields/Store/Memory.lean
  ============================
  **A store in memory.**

  Records are kept by path. One counter serves the revisions of all records, so that
  every write has a revision never seen before, and identifiers that are not given are
  assigned by serial number. An operation that fails leaves the store as it was.
-/
import EdgeFields.Edge.Basic
import EdgeFields.Store.Basic
import EdgeFields.Store.Ids
import EdgeFields.Store.Paging

namespace EdgeFields

/-- A record as it is kept: the content without identifier and revision. -/
structure StoredRecord where
  revision : Nat
  fields : Members

structure MemoryStore where
  records : Dict StoredRecord
  /-- The last revision given out. -/
  revisions : Nat
  /-- The number of identifiers assigned. -/
  serials : Nat
  sorted : Dict.Sorted records

namespace MemoryStore

def empty : MemoryStore := ⟨[], 0, 0, by simp [Dict.Sorted]⟩

/-- The store with a record put under a path, at the next revision. -/
def put (s : MemoryStore) (path : String) (fields : Members) : MemoryStore :=
  { s with
    records := Dict.insert path ⟨s.revisions + 1, fields⟩ s.records
    revisions := s.revisions + 1
    sorted := s.sorted.insert }

/-- The store without the record of a path. -/
def remove (s : MemoryStore) (path : String) : MemoryStore :=
  { s with records := Dict.erase path s.records, sorted := s.sorted.erase }

def StoredRecord.toRecord (r : StoredRecord) (id : String) : Record :=
  .ofMembers id (toString r.revision) r.fields

/-! ### Operations on single records -/

/-- The members that a content keeps: those of an object, without bookkeeping. -/
def keep : Json → Except StoreError Members
  | .obj ms => .ok (Record.withoutBookkeeping ms)
  | j => .error (.contentNotObject j)

def create (s : MemoryStore) (container : String) (id : Option String) (content : Json) :
    Except StoreError (Record × MemoryStore) := do
  let container := Path.trim container
  if container.isEmpty then throw .emptyContainer
  let (id, s) := match id with
    | some id => (id, s)
    | none => (Ids.assigned s.serials, { s with serials := s.serials + 1 })
  let path := Path.join container id
  let fields ← keep content
  if Dict.contains s.records path then throw (.recordExists path)
  pure (.ofMembers id (toString (s.revisions + 1)) fields, s.put path fields)

/-- The identifier and the stored record that a path names. -/
def find (s : MemoryStore) (path : String) : Except StoreError (String × StoredRecord) :=
  match Path.split? path with
  | none => .error (.invalidPath path)
  | some (_, id) =>
    match Dict.get? s.records (Path.trim path) with
    | none => .error (.recordMissing path)
    | some r => .ok (id, r)

def read (s : MemoryStore) (path : String) : Except StoreError Record :=
  (s.find path).map fun (id, r) => StoredRecord.toRecord r id

/-- Fails when a revision is expected and the record has another. -/
def checkRevision (path : String) (expected : Option String) (r : StoredRecord) :
    Except StoreError Unit :=
  match expected with
  | none => .ok ()
  | some e =>
    let found := toString r.revision
    if e = found then .ok () else .error (.revisionMismatch path e found)

/-- A malformed path is reported before a malformed content, and that before a missing
    record. -/
def update (s : MemoryStore) (path : String) (expected : Option String) (content : Json) :
    Except StoreError (Record × MemoryStore) := do
  if (Path.split? path).isNone then throw (.invalidPath path)
  let fields ← keep content
  let (id, r) ← s.find path
  checkRevision path expected r
  pure (.ofMembers id (toString (s.revisions + 1)) fields, s.put (Path.trim path) fields)

def delete (s : MemoryStore) (path : String) (expected : Option String) :
    Except StoreError (Record × MemoryStore) := do
  let (id, r) ← s.find path
  checkRevision path expected r
  pure (StoredRecord.toRecord r id, s.remove (Path.trim path))

/-! ### Queries -/

/-- The records of a container, in the order of their paths. -/
def container (s : MemoryStore) (name : String) : List Record :=
  s.records.filterMap fun (path, r) =>
    match Path.split? path with
    | some (c, id) => if c = Path.trim name then some (StoredRecord.toRecord r id) else none
    | none => none

/-- The filter of the edges at a field of a resource, at either of their endpoints. -/
def relationshipFilter (resource field : String) : Filter :=
  .any [
    .all [.equalTo (.field Edge.firstIdKey) (.str resource),
      .equalTo (.field Edge.firstNameKey) (.str field)],
    .all [.equalTo (.field Edge.secondIdKey) (.str resource),
      .equalTo (.field Edge.secondNameKey) (.str field)]]

/-- The filters that a request's query id stands for. -/
def selectionFilters (r : Request) : Except StoreError (List Filter) :=
  match r.selection with
  | .all => .ok []
  | .idsOnly => .ok []
  | .relationships =>
    match r.parameter? Request.resourceParameter, r.parameter? Request.fieldParameter with
    | none, _ => .error (.missingParameter Request.resourceParameter)
    | some _, none => .error (.missingParameter Request.fieldParameter)
    | some resource, some field => .ok [relationshipFilter resource field]
  | .unknown id => .error (.unknownQueryId id)

/-- The records that a request matches, in its order. -/
def matched (s : MemoryStore) (name : String) (r : Request) (filters : List Filter) :
    List Record :=
  SortKey.sort r.sortKeys Record.content
    ((s.container name).filter fun record =>
      Filter.accepts (.all (filters ++ r.filter.toList)) record.content)

def query (s : MemoryStore) (name : String) (r : Request) : Except StoreError QueryResults := do
  if r.expression.isSome then throw .nativeExpression
  let filters ← selectionFilters r
  let found := s.matched name r filters
  let first ← (Paging.start r).mapError .invalidCookie
  let page := Paging.page r.pageSize first found
  let records := match r.selection with
    | .idsOnly => page.map fun record => .ofMembers record.id record.revision []
    | _ => page
  pure ⟨records, Paging.response r first page.length found.length⟩

/-! ### Views and the interface -/

/-- The number of records in a container. -/
def count (s : MemoryStore) (name : String) : Nat :=
  (s.records.filter fun e => (Path.split? e.1).any fun p => p.1 == name).length

/-- Whether a path has a record. -/
def contains (s : MemoryStore) (path : String) : Bool := Dict.contains s.records (Path.trim path)

/-- A computation that writes: a failure leaves the state as it was. -/
def writing {α : Type} (f : MemoryStore → Except StoreError (α × MemoryStore)) :
    StoreM MemoryStore α :=
  fun s => match f s with
    | .ok (a, s') => (.ok a, s')
    | .error e => (.error e, s)

/-- A computation that only reads. -/
def reading {α : Type} (f : MemoryStore → Except StoreError α) : StoreM MemoryStore α :=
  fun s => (f s, s)

instance : Store MemoryStore where
  create container id content := writing fun s => s.create container id content
  read path := reading fun s => s.read path
  update path expected content := writing fun s => s.update path expected content
  delete path expected := writing fun s => s.delete path expected
  query container request := reading fun s => s.query container request

end MemoryStore

end EdgeFields
