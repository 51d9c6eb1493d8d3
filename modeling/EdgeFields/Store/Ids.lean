/-
  EdgeFields/Store/Ids.lean
  =========================
  **Identifiers assigned by a store.**

  An assigned identifier has the form of a random universal identifier: 32 hexadecimal
  digits in groups of 8, 4, 4, 4 and 12, of which the version digit is 4 and the
  variant digit 8. The other 30 digits write the serial number of the identifier, so
  that two serial numbers below `16 ^ 30` never share an identifier.
-/

namespace EdgeFields.Ids

/-- The lowest `count` hexadecimal digits of a number, the highest first. -/
def hexDigits : Nat → Nat → List Char
  | 0, _ => []
  | count + 1, n => hexDigits count (n / 16) ++ [Nat.digitChar (n % 16)]

/-- The identifier with a serial number. -/
def assigned (serial : Nat) : String :=
  let ds := hexDigits 30 serial
  String.ofList <|
    ds.take 8 ++ '-' :: (ds.drop 8).take 4 ++ '-' :: '4' :: (ds.drop 12).take 3 ++
      '-' :: '8' :: (ds.drop 15).take 3 ++ '-' :: ds.drop 18

end EdgeFields.Ids
