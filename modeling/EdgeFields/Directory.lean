/-
  EdgeFields/Directory.lean
  =========================
  **A directory tree.**

  The files below a working directory, and what a path names among them. A path is read
  from the left: every name but the last has to be a directory, `.` and empty names stay
  where they are, and `..` goes up. So `a/../b` names `b` only if `a` is a directory.

  Of the places outside of the working directory nothing is known but that a path may pass
  the directories above it. A path that starts with a slash starts there.
-/
import EdgeFields.Text.Pieces

namespace EdgeFields

/-- What stands at a location. -/
inductive Directory.Entry where
  | directory
  | file (text : String)
deriving DecidableEq, Repr

/-- Where a path leads. -/
inductive Directory.Place where
  /-- A location in the working directory, by the names on the way. -/
  | inside (location : List String)
  /-- A directory above the working directory. -/
  | above
deriving DecidableEq, Repr

structure Directory where
  /-- What is there, by the names on the way; each directory comes before what it holds. -/
  entries : List (List String × Directory.Entry) := []
deriving DecidableEq, Repr

namespace Directory

/-- What stands at a location; at the working directory itself, a directory. -/
def entry? (d : Directory) (location : List String) : Option Entry :=
  if location.isEmpty then some .directory else d.entries.lookup location

/-! ### Paths -/

/-- The names of a path, empty names and `.` included. -/
def rawNames (path : String) : List String := (Text.pieces '/' path.toList).map String.ofList

/-- The names of a path that are not empty or `.`. -/
def names (path : String) : List String := (rawNames path).filter fun n => n != "" && n != "."

/-- The name of the file that a path names, unless it ends with `..` or has no name. -/
def fileName? (path : String) : Option String := (names path).getLast?.filter (· != "..")

/-- What follows the last point of the file name; a point at its front does not count. -/
def extension? (path : String) : Option String :=
  (fileName? path).bind fun name =>
    match name.toList.reverse.span (· != '.') with
    | (after, _ :: _ :: _) => some (String.ofList after.reverse)
    | _ => none

/-- What stands at a place. -/
def entryAt? (d : Directory) : Place → Option Entry
  | .inside location => d.entry? location
  | .above => some .directory

/-- The place reached by a name from another place. -/
def step? (d : Directory) (here : Place) (name : String) : Option Place :=
  if d.entryAt? here != some .directory then none
  else if name = "" ∨ name = "." then some here
  else match here with
    | .above => if name = ".." then some .above else none
    | .inside location =>
      if name = ".." then some (if location.isEmpty then .above else .inside location.dropLast)
      else
        let next := location ++ [name]
        if (d.entry? next).isSome then some (.inside next) else none

/-- The place where a path starts. -/
def origin (path : String) : Place := if path.startsWith "/" then .above else .inside []

/-- The place that a path names, if something is there. -/
def locate? (d : Directory) (path : String) : Option Place :=
  if path.isEmpty then none else (rawNames path).foldlM d.step? (origin path)

/-! ### Making files -/

/-- Makes the directories that names pass from a place and returns where they lead, unless a
    file is in the way. Nothing is made outside of the working directory. -/
def makeAll (d : Directory) : Place → List String → Option (Place × Directory)
  | here, [] => some (here, d)
  | .above, _ :: ns => makeAll d .above ns
  | .inside here, n :: ns =>
    if n = ".." then
      makeAll d (if here.isEmpty then .above else .inside here.dropLast) ns
    else
      let next := here ++ [n]
      match d.entry? next with
      | some .directory => makeAll d (.inside next) ns
      | some (.file _) => none
      | none => makeAll ⟨d.entries ++ [(next, .directory)]⟩ (.inside next) ns

/-- Makes a file at a location, unless something is there. -/
def touch (d : Directory) (location : List String) : Directory :=
  if (d.entry? location).isSome then d else ⟨d.entries ++ [(location, .file "")]⟩

/-- The directory with a file of a given text, and the directories on the way to it. -/
def put (d : Directory) (path text : String) : Directory :=
  match d.makeAll (.inside []) (names path).dropLast with
  | none => d
  | some (_, d) => ⟨d.entries ++ [(names path, .file text)]⟩

/-- The directory that holds files of given texts, by path. -/
def ofFiles (files : List (String × String)) : Directory :=
  files.foldl (fun d f => d.put f.1 f.2) {}

/-- The locations that are in one directory and not in another. -/
def added (d base : Directory) : List (List String × Entry) :=
  d.entries.filter fun e => (base.entry? e.1).isNone

end Directory

end EdgeFields
