/-
  EdgeFields/Json/Decode.lean
  ===========================
  **Decoding members of objects.**

  A member is required, optional (absent and null mean nothing) or defaulted
  (absent means the default, null does not). Members that are not asked for are
  ignored.
-/
import EdgeFields.Json.Basic

namespace EdgeFields

namespace Json

variable {α : Type}

def required (decode : Json → Option α) (ms : Members) (key : String) : Option α :=
  (Dict.get? ms key).bind decode

def optional (decode : Json → Option α) (ms : Members) (key : String) : Option (Option α) :=
  match Dict.get? ms key with
  | none => some none
  | some .null => some none
  | some v => (decode v).map some

def defaulted (default : α) (decode : Json → Option α) (ms : Members) (key : String) : Option α :=
  match Dict.get? ms key with
  | none => some default
  | some v => decode v

/-- Decodes every item of an array. -/
def items? (decode : Json → Option α) : Json → Option (List α)
  | arr xs => xs.mapM decode
  | _ => none

/-- Decodes every value of an object. -/
def values? (decode : Json → Option α) : Json → Option (Dict α)
  | obj ms => ms.mapM fun m => (decode m.2).map (m.1, ·)
  | _ => none

/-- The name of an enumerated value: a string, or an object whose only member, under
    that name, is null. -/
def enumName? : Json → Option String
  | str s => some s
  | obj [(k, null)] => some k
  | _ => none

/-- The member of a list that has a name. -/
def choice? (name : α → String) (choices : List α) (s : String) : Option α :=
  choices.find? fun c => name c == s

/-- The member of a list whose name a value gives. -/
def enum? (name : α → String) (choices : List α) (j : Json) : Option α :=
  (enumName? j).bind (choice? name choices)

/-- A string, or null for nothing. -/
def ofStr? (s : Option String) : Json := (s.map str).getD null

end Json

end EdgeFields
