/-
  EdgeFields/Request.lean
  =======================
  **Query requests and their paged answers.**

  One type serves the requests of clients, over client field names, and the store
  requests that they are turned into. Results are sorted by several keys: values
  of one kind in their order, others by their JSON text (`Json.sortOrder`).
-/
import EdgeFields.Filter.Codec

namespace EdgeFields

/-! ### Sorting -/

structure SortKey where
  field : Pointer
  ascending : Bool := true
deriving DecidableEq, Repr

/-- The order of two values among sorted results. -/
def Json.sortOrder (a b : Json) : Ordering := (a.compare? b).getD (Ord.compare a.text b.text)

/-- The order of two documents by one key; an absent field counts as null. -/
def SortKey.order (key : SortKey) (a b : Json) : Ordering :=
  let o := ((key.field.resolve a).getD .null).sortOrder ((key.field.resolve b).getD .null)
  if key.ascending then o else o.swap

/-- The order of two documents by several keys, the first one that tells them apart
    deciding. -/
def SortKey.orderAll : List SortKey → Json → Json → Ordering
  | [], _, _ => .eq
  | k :: ks, a, b => (k.order a b).then (orderAll ks a b)

/-- Items sorted by keys of their documents; items that the keys do not tell apart stay
    in order. -/
def SortKey.sort {α : Type} (keys : List SortKey) (document : α → Json) (items : List α) : List α :=
  if keys.isEmpty then items
  else items.mergeSort fun a b => SortKey.orderAll keys (document a) (document b) != .gt

/-! ### Requests -/

/-- Whether the total number of results is reported. -/
inductive TotalPolicy where
  | none
  | estimate
  | exact
deriving DecidableEq, Repr

def TotalPolicy.name : TotalPolicy → String
  | none => "none"
  | estimate => "estimate"
  | exact => "exact"

structure Request where
  queryId : Option String := none
  filter : Option Filter := none
  /-- Query text in the store's own language. -/
  expression : Option String := none
  /-- The results of one page; zero means that there are no pages. -/
  pageSize : Nat := 0
  offset : Nat := 0
  cookie : Option String := none
  total : TotalPolicy := .none
  sortKeys : List SortKey := []
  parameters : Dict String := []
  /-- The fields to return; none means all. -/
  fields : List Pointer := []

/-- Paging information beside the results. -/
structure Response where
  /-- The cookie of the next page, absent on the last one. -/
  cookie : Option String := none
  total : Option Nat := none
  remaining : Option Nat := none
deriving DecidableEq, Repr

namespace Request

/-- The query id of all records, the same as none. -/
def allId : String := "query-all"

/-- The query id of all records, of which only the identifiers are returned. -/
def idsOnlyId : String := "query-all-ids"

/-- The query id of all edges at a field of a resource. -/
def relationshipsId : String := "find-relationships-for-resource"

/-- The parameter of `relationshipsId` that names the resource. -/
def resourceParameter : String := "resourcePath"

/-- The parameter of `relationshipsId` that names the field. -/
def fieldParameter : String := "fieldName"

/-- What a query id selects. -/
inductive Selection where
  | all
  | idsOnly
  | relationships
  | unknown (id : String)
deriving DecidableEq, Repr

def selection (r : Request) : Selection :=
  match r.queryId with
  | none => .all
  | some id =>
    if id = allId then .all
    else if id = idsOnlyId then .idsOnly
    else if id = relationshipsId then .relationships
    else .unknown id

/-- Takes paging and sorting from another request. The selection of fields stays, as it
    applies to reshaped records. -/
def withPagingFrom (r source : Request) : Request :=
  { r with
    pageSize := source.pageSize
    offset := source.offset
    cookie := source.cookie
    total := source.total
    sortKeys := source.sortKeys }

def parameter? (r : Request) (name : String) : Option String := Dict.get? r.parameters name

def withParameter (r : Request) (name value : String) : Request :=
  { r with parameters := Dict.insert name value r.parameters }

end Request

/-! ### Documents -/

def SortKey.toJson (k : SortKey) : Json :=
  .object [("field", k.field.toJson), ("ascending", .bool k.ascending)]

def SortKey.ofJson? (j : Json) : Option SortKey := do
  let ms ← j.asObj?
  let field ← Json.required Pointer.ofJson? ms "field"
  let ascending ← Json.defaulted true Json.asBool? ms "ascending"
  pure { field, ascending }

def TotalPolicy.ofJson? : Json → Option TotalPolicy :=
  Json.enum? TotalPolicy.name [.none, .estimate, .exact]

namespace Request

def toJson (r : Request) : Json :=
  .object [
    ("query_id", .ofStr? r.queryId),
    ("query_filter", (r.filter.map Filter.toJson).getD .null),
    ("query_expression", .ofStr? r.expression),
    ("page_size", .ofNat r.pageSize),
    ("paged_results_offset", .ofNat r.offset),
    ("paged_results_cookie", .ofStr? r.cookie),
    ("total_paged_results_policy", .str r.total.name),
    ("sort_keys", .arr (r.sortKeys.map SortKey.toJson)),
    ("additional_parameters", .obj (r.parameters.map fun p => (p.1, .str p.2))),
    ("fields", .arr (r.fields.map Pointer.toJson))]

def ofJson? (j : Json) : Option Request := do
  let ms ← j.asObj?
  let queryId ← Json.optional Json.asStr? ms "query_id"
  let filter ← Json.optional Filter.ofJson? ms "query_filter"
  let expression ← Json.optional Json.asStr? ms "query_expression"
  let pageSize ← Json.required Json.asNat? ms "page_size"
  let offset ← Json.required Json.asNat? ms "paged_results_offset"
  let cookie ← Json.optional Json.asStr? ms "paged_results_cookie"
  let total ← Json.required TotalPolicy.ofJson? ms "total_paged_results_policy"
  let sortKeys ← Json.required (Json.items? SortKey.ofJson?) ms "sort_keys"
  let parameters ← Json.required (Json.values? Json.asStr?) ms "additional_parameters"
  let fields ← Json.required (Json.items? Pointer.ofJson?) ms "fields"
  pure { queryId, filter, expression, pageSize, offset, cookie, total, sortKeys, parameters, fields }

end Request

def Response.toJson (r : Response) : Json :=
  .object [
    ("paged_results_cookie", .ofStr? r.cookie),
    ("total_paged_results", (r.total.map Json.ofNat).getD .null),
    ("remaining_paged_results", (r.remaining.map Json.ofNat).getD .null)]

end EdgeFields
