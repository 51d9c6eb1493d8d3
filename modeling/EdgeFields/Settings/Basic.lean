/-
  EdgeFields/Settings/Basic.lean
  ==============================
  **Settings.**

  The settings of the relationship engine and of logging, their defaults, presets,
  documents, and the conditions that they have to meet.
-/
import EdgeFields.Log.Level
import EdgeFields.Text.Blank

namespace EdgeFields

/-- Settings of the relationship engine. -/
structure EngineSettings where
  /-- The container of the edge records. -/
  repositoryPath : String := "repo/relationships"
  /-- The most store operations in flight for one write. -/
  maxConcurrentOperations : Nat := 16
  /-- Merge the referenced resources into what is read and queried. -/
  expandReferences : Bool := true
  /-- Reject filters over fields that references do not have. -/
  strictFilterFields : Bool := true
  /-- Let replaces and clears of one owner wait for each other. -/
  serializeOwnerReplaces : Bool := false
deriving DecidableEq, Repr

/-- Settings of logging. -/
structure LogSettings where
  level : Log.Level := .info
  format : Log.Format := .default
  file : Option String := none
  stdout : Bool := true
deriving DecidableEq, Repr

structure Settings where
  logging : LogSettings := {}
  relationships : EngineSettings := {}
deriving DecidableEq, Repr

/-- Why settings cannot be used. -/
inductive SettingsError where
  | fileNotFound (path : String)
  | unsupportedFormat (path : String)
  | emptyRepositoryPath
  | repositoryPathEndsWithSlash (path : String)
  | noConcurrency
  /-- A source is not well formed, or a value has the wrong type. -/
  | malformed
deriving DecidableEq, Repr

def SettingsError.message : SettingsError → String
  | fileNotFound path =>
    s!"Failed to load configuration file: Configuration file not found: {path}"
  | unsupportedFormat path =>
    s!"Failed to load configuration file: Unsupported file format: {path}"
  | emptyRepositoryPath =>
    "Configuration validation error: Relationship repository path cannot be empty"
  | repositoryPathEndsWithSlash path =>
    s!"Configuration validation error: Relationship repository path '{path}' must not end with '/'"
  | noConcurrency =>
    "Configuration validation error: max_concurrent_operations must be at least 1"
  | malformed => "Configuration parsing error: malformed source or value of the wrong type"

namespace Settings

/-- Checks settings before they are used. -/
def check (s : Settings) : Except SettingsError Unit :=
  let path := s.relationships.repositoryPath
  if path.toList.all Text.isBlank then .error .emptyRepositoryPath
  else if path.toList.getLast? = some '/' then .error (.repositoryPathEndsWithSlash path)
  else if s.relationships.maxConcurrentOperations = 0 then .error .noConcurrency
  else .ok ()

/-! ### Presets -/

/-- For development: pretty debug logging, and owners serialized. -/
def development : Settings where
  logging := { level := .debug, format := .pretty }
  relationships := { serializeOwnerReplaces := true }

/-- For automated tests: warnings only, no expansion, one operation at a time. -/
def testing : Settings where
  logging := { level := .warn }
  relationships := { expandReferences := false, maxConcurrentOperations := 1 }

/-- For production: logging as JSON. -/
def production : Settings where
  logging := { format := .json }

end Settings

/-! ### Documents -/

namespace EngineSettings

def toJson (s : EngineSettings) : Json :=
  .object [
    ("repository_path", .str s.repositoryPath),
    ("max_concurrent_operations", .ofNat s.maxConcurrentOperations),
    ("expand_references", .bool s.expandReferences),
    ("strict_filter_fields", .bool s.strictFilterFields),
    ("serialize_owner_replaces", .bool s.serializeOwnerReplaces)]

/-- Absent members take their defaults. -/
def ofJson? (j : Json) : Option EngineSettings := do
  let ms ← j.asObj?
  let d : EngineSettings := {}
  let repositoryPath ← Json.defaulted d.repositoryPath Json.asStr? ms "repository_path"
  let maxConcurrentOperations ←
    Json.defaulted d.maxConcurrentOperations Json.asNat? ms "max_concurrent_operations"
  let expandReferences ← Json.defaulted d.expandReferences Json.asBool? ms "expand_references"
  let strictFilterFields ← Json.defaulted d.strictFilterFields Json.asBool? ms "strict_filter_fields"
  let serializeOwnerReplaces ←
    Json.defaulted d.serializeOwnerReplaces Json.asBool? ms "serialize_owner_replaces"
  pure ⟨repositoryPath, maxConcurrentOperations, expandReferences, strictFilterFields,
    serializeOwnerReplaces⟩

end EngineSettings

namespace LogSettings

def toJson (s : LogSettings) : Json :=
  .object [
    ("level", s.level.toJson),
    ("format", s.format.toJson),
    ("file", .ofStr? s.file),
    ("stdout", .bool s.stdout)]

/-- Absent members take their defaults. -/
def ofJson? (j : Json) : Option LogSettings := do
  let ms ← j.asObj?
  let d : LogSettings := {}
  let level ← Json.defaulted d.level Log.Level.ofJson? ms "level"
  let format ← Json.defaulted d.format Log.Format.ofJson? ms "format"
  let file ← Json.optional Json.asStr? ms "file"
  let stdout ← Json.defaulted d.stdout Json.asBool? ms "stdout"
  pure { level, format, file, stdout }

end LogSettings

namespace Settings

def toJson (s : Settings) : Json :=
  .object [("logging", s.logging.toJson), ("relationships", s.relationships.toJson)]

/-- Absent members take their defaults. -/
def ofJson? (j : Json) : Option Settings := do
  let ms ← j.asObj?
  let logging ← Json.defaulted {} LogSettings.ofJson? ms "logging"
  let relationships ← Json.defaulted {} EngineSettings.ofJson? ms "relationships"
  pure { logging, relationships }

end Settings

end EdgeFields
