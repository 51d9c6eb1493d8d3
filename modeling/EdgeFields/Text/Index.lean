/-
  EdgeFields/Text/Index.lean
  ==========================
  **Indices written in text.**

  An index is written with decimal digits, zeros in front allowed, after an
  optional plus sign, and is below `2 ^ 64`. Array elements in pointers and paging
  cookies are written this way.
-/
import EdgeFields.Json.Number

namespace EdgeFields.Text

/-- The index that a text denotes. -/
def index? (s : String) : Option Nat :=
  let ds := match s.toList with
    | '+' :: rest => rest
    | cs => cs
  if !ds.isEmpty && ds.all Char.isDigit && Number.digitsValue ds < 0x10000000000000000 then
    some (Number.digitsValue ds)
  else none

end EdgeFields.Text
