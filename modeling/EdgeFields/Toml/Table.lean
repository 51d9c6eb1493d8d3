/-
  EdgeFields/Toml/Table.lean
  ==========================
  **Tables under construction.**

  A TOML document says bit by bit what is in a table. What may still be said about a table
  depends on how it came about (`Origin`): a header may name a table once, and only if
  dotted keys have not built it; dotted keys may add only to tables that dotted keys have
  built. A value is never added to.
-/
import EdgeFields.Json.Basic

namespace EdgeFields.Toml

/-- How a table came about. -/
inductive Origin where
  /-- A longer header passed through it. -/
  | implied
  /-- A dotted key passed through it. -/
  | dotted
  /-- It has a header or braces of its own. -/
  | declared
deriving DecidableEq, Repr

inductive Item where
  | value (value : Json)
  | table (origin : Origin) (members : List (String × Item))
  /-- A list of tables, each with a header of its own. -/
  | tables (elements : List (List (String × Item)))

abbrev Table := Dict Item

namespace Table

/-- Changes the table at a path and makes the tables on the way that are missing. A list of
    tables stands for its last element. Dotted keys do not pass through declared tables. -/
def alter (byKey : Bool) (change : Origin → Table → Option Table) :
    List String → Origin → Table → Option Table
  | [], origin, t => change origin t
  | k :: ks, _, t =>
    match Dict.get? t k with
    | none =>
      let origin := if byKey then .dotted else .implied
      (alter byKey change ks origin []).map fun sub => Dict.insert k (.table origin sub) t
    | some (.table origin sub) =>
      if byKey && origin = .declared then none
      else (alter byKey change ks origin sub).map fun sub => Dict.insert k (.table origin sub) t
    | some (.tables ts) =>
      match ts.getLast? with
      | none => none
      | some last =>
        (alter byKey change ks .declared last).map fun sub =>
          Dict.insert k (.tables (ts.dropLast ++ [sub])) t
    | some (.value _) => none

/-- Sets a value under a dotted key. -/
def put (path : List String) (value : Json) (t : Table) : Option Table := do
  let key ← path.getLast?
  alter true (fun origin t =>
    if (path.length = 1 ∨ origin = .dotted) ∧ !Dict.contains t key then
      some (Dict.insert key (.value value) t)
    else none) path.dropLast .declared t

/-- Opens the table of a header. -/
def declare (path : List String) (t : Table) : Option Table := do
  let key ← path.getLast?
  alter false (fun _ t =>
    match Dict.get? t key with
    | none => some (Dict.insert key (.table .declared []) t)
    | some (.table .implied sub) => some (Dict.insert key (.table .declared sub) t)
    | some _ => none) path.dropLast .declared t

/-- Opens the next element of the list of tables of a header. -/
def declareNext (path : List String) (t : Table) : Option Table := do
  let key ← path.getLast?
  alter false (fun _ t =>
    match Dict.get? t key with
    | none => some (Dict.insert key (.tables [[]]) t)
    | some (.tables ts) => some (Dict.insert key (.tables (ts ++ [[]])) t)
    | some _ => none) path.dropLast .declared t

end Table

/-! ### Finished tables -/

mutual

def Item.toJson : Item → Json
  | .value v => v
  | .table _ ms => .obj (membersToJson ms)
  | .tables ts => .arr (elementsToJson ts)

def membersToJson : List (String × Item) → Members
  | [] => []
  | (k, i) :: ms => (k, i.toJson) :: membersToJson ms

def elementsToJson : List (List (String × Item)) → List Json
  | [] => []
  | t :: ts => .obj (membersToJson t) :: elementsToJson ts

end

/-- The members of a finished table. -/
def Table.toMembers (t : Table) : Members := membersToJson t

end EdgeFields.Toml
