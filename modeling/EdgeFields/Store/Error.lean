/-
  EdgeFields/Store/Error.lean
  ===========================
  **Errors of stores.**
-/
import EdgeFields.Json.Printer

namespace EdgeFields

/-- The classes of store errors. -/
inductive StoreErrorKind where
  | notFound
  | preconditionFailed
  | alreadyExists
  | query
  | serialization
  | internal
  | other
deriving DecidableEq, Repr

/-- Why a store refuses an operation. -/
inductive StoreError where
  | emptyContainer
  | invalidPath (path : String)
  | recordMissing (path : String)
  | recordExists (path : String)
  | revisionMismatch (path expected found : String)
  | contentNotObject (content : Json)
  /-- The content of an edge record is no edge. -/
  | notAnEdge
  | nativeExpression
  | unknownQueryId (id : String)
  | missingParameter (name : String)
  | invalidCookie (cookie : String)
  /-- A class and a text of a store's own. -/
  | reported (kind : StoreErrorKind) (text : String)

namespace StoreErrorKind

def all : List StoreErrorKind :=
  [notFound, preconditionFailed, alreadyExists, query, serialization, internal, other]

def label : StoreErrorKind → String
  | notFound => "Not found"
  | preconditionFailed => "Precondition failed"
  | alreadyExists => "Already exists"
  | query => "Query error"
  | serialization => "Serialization error"
  | internal => "Internal error"
  | other => "Other error"

end StoreErrorKind

namespace StoreError

def kind : StoreError → StoreErrorKind
  | emptyContainer => .query
  | invalidPath _ => .notFound
  | recordMissing _ => .notFound
  | recordExists _ => .alreadyExists
  | revisionMismatch _ _ _ => .preconditionFailed
  | contentNotObject _ => .serialization
  | notAnEdge => .serialization
  | nativeExpression => .query
  | unknownQueryId _ => .query
  | missingParameter _ => .query
  | invalidCookie _ => .query
  | reported kind _ => kind

/-- The text of an error without its class. -/
def detail : StoreError → String
  | emptyContainer => "Container must not be empty"
  | invalidPath path => s!"Invalid resource path {path}"
  | recordMissing path => s!"Record {path} not found"
  | recordExists path => s!"Record {path} already exists"
  | revisionMismatch path expected found => s!"Expected revision {expected} of {path} but found {found}"
  | contentNotObject content => s!"Record content must be an object, got {content.text}"
  | notAnEdge => "a member of the edge is missing or has the wrong type"
  | nativeExpression => "Native query expressions are not supported"
  | unknownQueryId id => s!"Unknown query id {id}"
  | missingParameter name => s!"Missing parameter {name}"
  | invalidCookie cookie => s!"Invalid paged results cookie {cookie}"
  | reported _ text => text

def message (e : StoreError) : String := s!"{e.kind.label}: {e.detail}"

end StoreError

end EdgeFields
