/-
  EdgeFields/Log/Level.lean
  =========================
  **Log levels and formats.**

  Levels are ordered by severity. Their names are read in any ASCII case from text,
  and in lower case only from documents.
-/
import EdgeFields.Json.Decode

namespace EdgeFields.Log

inductive Level where
  | trace
  | debug
  | info
  | warn
  | error
deriving DecidableEq, Repr

inductive Format where
  | default
  | json
  | compact
  | pretty
deriving DecidableEq, Repr

namespace Level

/-- All levels, from the least severe to the most. -/
def all : List Level := [trace, debug, info, warn, error]

def severity : Level → Nat
  | trace => 0
  | debug => 1
  | info => 2
  | warn => 3
  | error => 4

def name : Level → String
  | trace => "trace"
  | debug => "debug"
  | info => "info"
  | warn => "warn"
  | error => "error"

/-- The level with a name, in any ASCII case. -/
def ofName? (s : String) : Option Level := all.find? fun l => l.name == s.toLower

def toJson (l : Level) : Json := .str l.name

def ofJson? : Json → Option Level := Json.enum? name all

end Level

namespace Format

def all : List Format := [default, json, compact, pretty]

def name : Format → String
  | default => "default"
  | json => "json"
  | compact => "compact"
  | pretty => "pretty"

def toJson (f : Format) : Json := .str f.name

def ofJson? : Json → Option Format := Json.enum? name all

end Format

/-- Why logging cannot be set up. -/
inductive Error where
  | missingFileName (path : String)
  | invalidLevel (text : String)
  /-- A directory of the log file cannot be made, as a file stands in its place. -/
  | notDirectory (path : String)
deriving DecidableEq, Repr

def Error.message : Error → String
  | missingFileName path => s!"IO error: Log file path has no file name: {path}"
  | invalidLevel text => s!"Invalid log level: {text}"
  | notDirectory _ => "IO error: Not a directory (os error 20)"

/-- The level that a text names. -/
def parseLevel (text : String) : Except Error Level :=
  match Level.ofName? text with
  | some l => .ok l
  | none => .error (.invalidLevel text)

end EdgeFields.Log
