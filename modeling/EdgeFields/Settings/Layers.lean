/-
  EdgeFields/Settings/Layers.lean
  ===============================
  **Settings from several sources.**

  The defaults, files and environment variables are layers over each other: members of a
  later layer take the place of those of an earlier one, and objects are merged member by
  member. A layer that cannot be read spoils the settings for good, but is only noticed
  when they are asked for.

  The places that are searched are named for the application. What all layers make is read
  more freely than a document of settings: see `Layers.document`.
-/
import EdgeFields.Directory
import EdgeFields.Json.Reader
import EdgeFields.Settings.Basic
import EdgeFields.Settings.Variable
import EdgeFields.Toml.Document
import EdgeFields.Yaml.Value

namespace EdgeFields

/-! ### Merging -/

mutual

/-- A document over another one. -/
def Json.over (base : Json) (j : Json) : Json :=
  match j with
  | .obj ms =>
    match base with
    | .obj bs => .obj (membersOver bs ms)
    | _ => .obj ms
  | j => j
termination_by structural j

/-- Members over those of another document. -/
def Json.membersOver (base : Members) : List (String × Json) → Members
  | [] => base
  | (k, v) :: ms =>
    let value := match Dict.get? base k with
      | some b => b.over v
      | none => v
    membersOver (Dict.insert k value base) ms

end

/-! ### Files -/

/-- The formats of settings files. -/
inductive FileFormat where
  | toml
  | yaml
  | json
deriving DecidableEq, Repr

namespace FileFormat

/-- The format that an extension stands for. -/
def ofExtension? (extension : String) : Option FileFormat :=
  if extension = "toml" then some toml
  else if extension = "yaml" ∨ extension = "yml" then some yaml
  else if extension = "json" then some json
  else none

/-- The number of levels that a JSON text may have. -/
def jsonDepth : Nat := 127

/-- The members of a text. -/
def read? : FileFormat → String → Option Members
  | toml, s => Toml.read? s
  | yaml, s => Yaml.read? s
  | json, s => ((Json.parse? s).filter fun j => j.depth ≤ jsonDepth).bind Json.asObj?

/-- The extensions of settings files, in the order of the search. -/
def extensions : List String := ["toml", "yaml", "yml", "json"]

end FileFormat

/-! ### Variables -/

/-- The members that variables stand for. -/
def Variable.members (application : String) (vars : List (String × String)) : Members :=
  (vars.filterMap (document? application)).foldl Json.membersOver []

/-! ### Sections -/

namespace Layers

/-- A choice among names may also be a table: its first key counts, if it is null. -/
def choice : Json → Json
  | .obj ((k, .null) :: _) => .str k
  | j => j

/-- A section may also be a list of its values in the order of their names. -/
def listed (names : List String) : Json → Json
  | .arr vs => .object (names.zip vs)
  | j => j

/-- The object with another value under a key, if it has the key. -/
def alter (key : String) (change : Json → Json) : Json → Json
  | .obj ms => .obj (Dict.insert? key ((Dict.get? ms key).map change) ms)
  | j => j

/-- The document that the members of all layers make. -/
def document (ms : Members) : Json :=
  let logging j :=
    alter "level" choice (alter "format" choice (listed ["level", "format", "file", "stdout"] j))
  let relationships := listed ["repository_path", "max_concurrent_operations",
    "expand_references", "strict_filter_fields", "serialize_owner_replaces"]
  alter "logging" logging (alter "relationships" relationships (.obj ms))

end Layers

/-! ### Layers -/

/-- What the layers so far say, unless one of them cannot be read. -/
structure Layers where
  merged : Option Members

namespace Layers

/-- The defaults alone. -/
def defaults : Layers := ⟨({} : Settings).toJson.asObj?⟩

/-- Puts a layer over the others. -/
def add (l : Layers) (layer : Option Members) : Layers :=
  match l.merged, layer with
  | some base, some ms => ⟨some (Json.membersOver base ms)⟩
  | _, _ => ⟨none⟩

/-- Puts a file over the others. A directory in its place says nothing. -/
def addFile (l : Layers) (d : Directory) (path : String) : Except SettingsError Layers :=
  match d.locate? path with
  | none => .error (.fileNotFound path)
  | some location =>
    match (Directory.extension? path).bind FileFormat.ofExtension? with
    | none => .error (.unsupportedFormat path)
    | some format =>
      match d.entryAt? location with
      | some (.file text) => .ok (l.add (format.read? text))
      | _ => .ok l

/-- Puts the first file that is there over the others. -/
def addFirst (l : Layers) (d : Directory) : List String → Layers
  | [] => l
  | path :: paths =>
    match l.addFile d path with
    | .ok l => l
    | .error _ => l.addFirst d paths

/-- The files that are searched in the working directory. -/
def workingFiles (application : String) : List String :=
  FileFormat.extensions.map (fun e => s!"{application}.{e}") ++
    FileFormat.extensions.map fun e => s!".{application}/config.{e}"

/-- The files that are searched in the directory of the user. -/
def userFiles : List String := FileFormat.extensions.map fun e => s!"config.{e}"

/-- Puts the first file of the working directory over the others, and then the first one of
    the user. -/
def addDefaultFiles (l : Layers) (application : String) (working user : Directory) : Layers :=
  (l.addFirst working (workingFiles application)).addFirst user userFiles

/-- Puts environment variables over the others. -/
def addVariables (l : Layers) (application : String) (vars : List (String × String)) :
    Layers :=
  l.add (some (Variable.members application vars))

/-- The settings that the layers make, checked. -/
def settings (l : Layers) : Except SettingsError Settings := do
  match l.merged.bind fun ms => Settings.ofJson? (document ms) with
  | none => throw .malformed
  | some s =>
    s.check
    pure s

end Layers

end EdgeFields
