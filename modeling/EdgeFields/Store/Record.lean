/-
  EdgeFields/Store/Record.lean
  ============================
  **Stored records.**

  A record has an identifier within its container, a revision, and a content that
  repeats both under `_id` and `_rev` when it is an object.
-/
import EdgeFields.Json.Basic

namespace EdgeFields

structure Record where
  id : String
  revision : String
  content : Json

namespace Record

/-- The member that repeats the identifier. -/
def idKey : String := "_id"

/-- The member that repeats the revision. -/
def revisionKey : String := "_rev"

/-- Members with the identifier and the revision put in. -/
def withBookkeeping (id revision : String) (ms : Members) : Members :=
  Dict.insert revisionKey (.str revision) (Dict.insert idKey (.str id) ms)

/-- Members without the identifier and the revision. -/
def withoutBookkeeping (ms : Members) : Members :=
  Dict.erase revisionKey (Dict.erase idKey ms)

/-- The record with a given content. -/
def ofContent (id revision : String) (content : Json) : Record :=
  ⟨id, revision, match content with
    | .obj ms => .obj (withBookkeeping id revision ms)
    | j => j⟩

/-- The record with given members. -/
def ofMembers (id revision : String) (ms : Members) : Record :=
  ⟨id, revision, .obj (withBookkeeping id revision ms)⟩

/-- The members of the content without the identifier and the revision. -/
def fields (r : Record) : Members :=
  match r.content with
  | .obj ms => withoutBookkeeping ms
  | _ => []

def toJson (r : Record) : Json :=
  .object [("id", .str r.id), ("revision", .str r.revision), ("content", r.content)]

end Record

end EdgeFields
