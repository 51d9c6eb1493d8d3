/-
  EdgeFields/Error.lean
  =====================
  **Errors of the relationship engine.**

  An error is its cause. `Error.kind` sorts the causes into the classes that clients see
  and `Error.message` words them; an error of the store keeps its own words.
-/
import EdgeFields.Filter.Token
import EdgeFields.Schema
import EdgeFields.Settings.Basic
import EdgeFields.Store.Error

namespace EdgeFields

/-- The classes of errors. -/
inductive ErrorKind where
  | badRequest
  | notFound
  | preconditionFailed
  | validation
  | notSupported
  | internal
  | configuration
  | logging
deriving DecidableEq, Repr

def ErrorKind.label : ErrorKind → String
  | badRequest => "Bad request"
  | notFound => "Not found"
  | preconditionFailed => "Precondition failed"
  | validation => "Validation failed"
  | notSupported => "Not supported"
  | internal => "Internal error"
  | configuration => "Configuration error"
  | logging => "Logging error"

inductive Error where
  -- Malformed references and values
  | referenceNotObject (value : Json)
  | malformedReference
  | collectionNotArray (value : Json)
  | missingTarget (field : String)
  | malformedTarget (target field : String)
  | targetNotAllowed (target field : String) (collections : List String)
  | invalidProperties (field : String) (cause : PropertyError)
  -- Requests
  | invalidFilter (cause : Filter.ReadError)
  | queryExpression (field expression : String)
  | unsupportedFilterFields (fields : List Pointer)
  | unsupportedQueryId (id field : String)
  | tooManyOperations (submitted limit : Nat)
  | singletonQuery (field : String)
  | unsupportedAction (action field : String)
  -- What a write refers to
  | ownerMissing (path : String)
  | edgeForeign (id owner field : String)
  | edgeUnknown (id owner field : String)
  | referentMissing (target : String)
  | alreadyRelated (owner field target : String)
  | repeatedReference (target : String)
  -- Stored edges that break the rules
  | edgeWithoutId
  | edgeWithoutTarget
  | severalEdges (field owner : String) (count : Nat)
  -- Setup
  | invalidField (field container : String) (cause : PropertyError)
  | settings (cause : SettingsError)
  | log (cause : Log.Error)
  -- The store
  | store (cause : StoreError)

namespace Error

def kind : Error → ErrorKind
  | referenceNotObject _ => .badRequest
  | malformedReference => .badRequest
  | collectionNotArray _ => .badRequest
  | missingTarget _ => .badRequest
  | malformedTarget _ _ => .badRequest
  | targetNotAllowed _ _ _ => .badRequest
  | invalidProperties _ _ => .badRequest
  | invalidFilter _ => .badRequest
  | queryExpression _ _ => .badRequest
  | unsupportedFilterFields _ => .badRequest
  | unsupportedQueryId _ _ => .badRequest
  | tooManyOperations _ _ => .badRequest
  | singletonQuery _ => .notSupported
  | unsupportedAction _ _ => .notSupported
  | ownerMissing _ => .notFound
  | edgeForeign _ _ _ => .notFound
  | edgeUnknown _ _ _ => .notFound
  | referentMissing _ => .validation
  | alreadyRelated _ _ _ => .validation
  | repeatedReference _ => .validation
  | edgeWithoutId => .internal
  | edgeWithoutTarget => .internal
  | severalEdges _ _ _ => .internal
  | invalidField _ _ _ => .configuration
  | settings _ => .configuration
  | log _ => .logging
  | store e =>
    match e.kind with
    | .notFound => .notFound
    | .preconditionFailed => .preconditionFailed
    | .query => .badRequest
    | _ => .internal

/-- The text of an error without its class. -/
def detail : Error → String
  | referenceNotObject v => s!"Relationship reference must be an object, got {v.text}"
  | malformedReference => "Malformed relationship reference: a member has the wrong type"
  | collectionNotArray v => s!"Relationship collection must be an array, got {v.text}"
  | missingTarget field => s!"Reference in field '{field}' is missing _ref"
  | malformedTarget target field => s!"Malformed _ref '{target}' in field '{field}'"
  | targetNotAllowed target field collections =>
    s!"_ref '{target}' is not allowed in field '{field}'; allowed collections: " ++
      ", ".intercalate collections
  | invalidProperties field cause => s!"Invalid _refProperties in field '{field}': {cause.message}"
  | invalidFilter cause => cause.message
  | queryExpression field expression =>
    s!"Query expressions are not supported on relationship field '{field}': {expression}"
  | unsupportedFilterFields fields =>
    "Unsupported fields in relationship filter: " ++ ", ".intercalate (fields.map Pointer.text)
  | unsupportedQueryId id field =>
    s!"Query id '{id}' is not supported on relationship field '{field}'"
  | tooManyOperations submitted limit =>
    s!"Too many relationships in one request: {submitted} submitted, maximum is {limit}"
  | singletonQuery field =>
    s!"Queries are not supported on singleton relationship field '{field}'"
  | unsupportedAction action field =>
    s!"Action '{action}' is not supported on relationship field '{field}'"
  | ownerMissing path => s!"Resource '{path}' does not exist"
  | edgeForeign id owner field => s!"Relationship {id} does not belong to {owner} field {field}"
  | edgeUnknown id owner field => s!"Relationship {id} not found on {owner} field {field}"
  | referentMissing target => s!"Referenced resource '{target}' does not exist"
  | alreadyRelated owner field target =>
    s!"Relationship from '{owner}' field '{field}' to '{target}' already exists"
  | repeatedReference target => s!"Duplicate reference to '{target}' in request"
  | edgeWithoutId => "Stored relationship has no id"
  | edgeWithoutTarget => "Stored relationship has no target"
  | severalEdges field owner count => s!"Singleton field {field} of {owner} has {count} relationships"
  | invalidField field container cause =>
    s!"Invalid relationship field '{field}' on {container}: {cause.message}"
  | settings cause => cause.message
  | log cause => cause.message
  | store e =>
    match e.kind with
    | .notFound => e.detail
    | .preconditionFailed => e.detail
    | .query => e.detail
    | _ => e.message

def message (e : Error) : String := s!"{e.kind.label}: {e.detail}"

end Error

end EdgeFields
