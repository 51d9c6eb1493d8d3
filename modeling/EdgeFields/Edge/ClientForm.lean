/-
  EdgeFields/Edge/ClientForm.lean
  ===============================
  **Client filters over stored edges.**

  | client field            | member of the stored edge                      |
  |-------------------------|------------------------------------------------|
  | `/_id`                  | `/_id`                                         |
  | `/_rev`                 | `/_rev`                                        |
  | `/_ref`                 | the opposite endpoint: `/secondId`, or from the |
  |                         | second endpoint `/firstId`                     |
  | `/_refProperties/…`     | `/properties/…`                                |

  All other fields stay as they are. Renaming touches the leaves of a filter only.
-/
import EdgeFields.Filter.Basic
import EdgeFields.Reference

namespace EdgeFields

/-- The member of a stored edge that a client field reads, seen from the first endpoint
    or, with `fromSecond`, from the second. -/
def Pointer.stored (fromSecond : Bool) (p : Pointer) : Pointer :=
  match p.segments with
  | [s] =>
    if s = Reference.targetKey then
      .field (if fromSecond then Edge.firstIdKey else Edge.secondIdKey)
    else if s = Reference.propertiesKey then .field Edge.propertiesKey
    else p
  | s :: rest =>
    if s = Reference.propertiesKey then ⟨Edge.propertiesKey :: rest⟩ else p
  | [] => p

/-- Whether a field is one of those that references have. -/
def Pointer.isClientField (p : Pointer) : Bool :=
  match p.segments with
  | [s] => Reference.reserved.contains s
  | s :: _ => s == Reference.propertiesKey
  | [] => false

namespace Filter

/-- The filter over stored edges that a client filter stands for. -/
def stored (fromSecond : Bool) (f : Filter) : Filter := f.mapFields (Pointer.stored fromSecond)

/-- The fields of a filter that references do not have. -/
def foreignFields (f : Filter) : List Pointer := f.fields.filter fun p => !p.isClientField

end Filter

end EdgeFields
