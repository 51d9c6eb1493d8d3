/-
  EdgeFields/Store/Basic.lean
  ===========================
  **Stores of records.**

  A store is a state with five operations. An operation may fail, and what was written
  before a failure stays: `StoreM` threads the state through failures.
-/
import EdgeFields.Request
import EdgeFields.Store.Error
import EdgeFields.Store.Record
import EdgeFields.Text.Blank

namespace EdgeFields

/-- A computation on a store state `σ`. -/
abbrev StoreM (σ : Type) := ExceptT StoreError (StateM σ)

structure QueryResults where
  records : List Record
  response : Response

/-- The operations of a store. Records are addressed by the path of their container, a
    slash and their identifier. -/
class Store (σ : Type) where
  /-- Creates a record in a container, under an identifier of the store's choice when none
      is given. -/
  create (container : String) (id : Option String) (content : Json) : StoreM σ Record
  read (path : String) : StoreM σ Record
  /-- Replaces the content of a record, if it has the expected revision. -/
  update (path : String) (expected : Option String) (content : Json) : StoreM σ Record
  /-- Removes a record, if it has the expected revision. -/
  delete (path : String) (expected : Option String) : StoreM σ Record
  query (container : String) (request : Request) : StoreM σ QueryResults

/-! ### Paths -/

namespace Path

/-- A path without the slashes at its ends. -/
def trim (path : String) : String := Text.trimBoth (· == '/') path

/-- What stands before and after the last slash. -/
def atLastSlash? (cs : List Char) : Option (List Char × List Char) :=
  match cs.reverse.dropWhile (· != '/') with
  | _ :: front => some (front.reverse, (cs.reverse.takeWhile (· != '/')).reverse)
  | [] => none

/-- The container and the identifier of a path, both not empty. -/
def split? (path : String) : Option (String × String) :=
  match atLastSlash? (trim path).toList with
  | some (container, id) =>
    if container.isEmpty || id.isEmpty then none
    else some (String.ofList container, String.ofList id)
  | none => none

/-- The path of an identifier in a container. -/
def join (container id : String) : String := container ++ "/" ++ id

end Path

end EdgeFields
