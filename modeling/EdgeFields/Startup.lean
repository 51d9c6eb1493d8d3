/-
  EdgeFields/Startup.lean
  =======================
  **Starting the engine.**

  The settings come from the default files and the environment; then logging is installed as
  they say.
-/
import EdgeFields.Error
import EdgeFields.Log.Install
import EdgeFields.Settings.Layers

namespace EdgeFields

/-- Where an application starts. -/
structure Environment where
  /-- The directory of the user's settings. -/
  user : Directory
  vars : List (String × String)
  /-- A threshold for the log, if one is set outside of the settings. -/
  threshold : Option String

/-- Loads the settings, installs logging and announces that the application is initialized.
    Returns the settings, and whether there is a log file to be closed in the end. -/
def startup (application : String) (env : Environment) (p : Log.Host) :
    Except Error (Settings × Bool) × Log.Host :=
  let layers := (Layers.defaults.addDefaultFiles application p.directory env.user).addVariables
    application env.vars
  match layers.settings with
  | .error e => (.error (.settings e), p)
  | .ok s =>
    match p.install env.threshold s.logging with
    | (.error e, p) => (.error (.log e), p)
    | (.ok guard, p) => (.ok (s, guard), p.emit ⟨.info, s!"{application} initialized"⟩)

end EdgeFields
