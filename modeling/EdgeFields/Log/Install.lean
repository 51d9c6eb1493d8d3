/-
  EdgeFields/Log/Install.lean
  ===========================
  **Installing logging.**

  Logging is installed once in a process: a threshold, a format and the destinations. A
  threshold from outside takes the place of the configured one. A log file is opened for
  appending, and the directories on the way to it are made first. From then on, a message at
  or above the threshold arrives at all destinations.
-/
import EdgeFields.Directory
import EdgeFields.Settings.Basic

namespace EdgeFields.Log

structure Message where
  level : Level
  text : String
deriving DecidableEq, Repr

/-- What logging is installed with. -/
structure Setup where
  /-- The lowest level that is logged; none means that nothing is. -/
  threshold : Option Level
  format : Format
  /-- The location of the log file in the working directory. -/
  file : Option (List String)
  stdout : Bool
deriving DecidableEq, Repr

/-- A process, as far as logging is concerned. -/
structure Host where
  /-- The working directory. -/
  directory : Directory
  setup : Option Setup := none
  /-- The messages that were logged. -/
  logged : List Message := []

/-- The threshold that a word sets: a level, or `off`, in any ASCII case. -/
def threshold? (word : String) : Option (Option Level) :=
  if word.toLower = "off" then some none else (Level.ofName? word).map some

def Setup.logs (s : Setup) (l : Level) : Bool :=
  s.threshold.any fun t => decide (t.severity ≤ l.severity)

/-- Opens the file of a path and returns its location, if that is in the working directory.
    The directories on the way are made even if the path turns out to name no file. -/
def openFile (path : String) (d : Directory) :
    Except Error (Option (List String)) × Directory :=
  match d.makeAll (Directory.origin path) (Directory.names path).dropLast with
  | none => (.error (.notDirectory path), d)
  | some (place, d) =>
    match Directory.fileName? path with
    | none => (.error (.missingFileName path), d)
    | some name =>
      match place with
      | .above => (.ok none, d)
      | .inside here => (.ok (some (here ++ [name])), d.touch (here ++ [name]))

namespace Host

/-- Sends a message to what is installed. -/
def emit (m : Message) (p : Host) : Host :=
  if p.setup.any (·.logs m.level) then { p with logged := p.logged ++ [m] } else p

/-- Installs logging, unless it is installed already, and returns whether there is a log file
    to be closed in the end. -/
def install (outside : Option String) (s : LogSettings) (p : Host) :
    Except Error Bool × Host :=
  if p.setup.isSome then (.ok false, p)
  else
    let threshold := (outside.bind threshold?).getD (some s.level)
    match s.file with
    | none => (.ok false, { p with setup := some ⟨threshold, s.format, none, s.stdout⟩ })
    | some path =>
      match openFile path p.directory with
      | (.error e, directory) => (.error e, { p with directory })
      | (.ok location, directory) =>
        (.ok true, { p with
          directory, setup := some ⟨threshold, s.format, location, s.stdout⟩ })

/-- The messages that arrived on standard output. -/
def onStdout (p : Host) : List Message := if p.setup.any (·.stdout) then p.logged else []

/-- The messages that arrived in the file at a location. -/
def inFile (p : Host) (location : List String) : List Message :=
  if p.setup.any (·.file == some location) then p.logged else []

/-- Whether the lines of the log are JSON objects. -/
def writesJson (p : Host) : Bool := p.setup.any (·.format == .json)

end Host

end EdgeFields.Log
