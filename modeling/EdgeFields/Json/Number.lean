/-
  EdgeFields/Json/Number.lean
  ===========================
  **Numbers of JSON documents.**

  A literal without fraction and exponent that fits 64 bits, signed or unsigned,
  is an integer; every other literal is a double. The two kinds are never equal,
  but they compare by value through `Number.toDouble`. The literal `-0` is the
  negative zero.

  A double is read as an integer of 64 bits and a power of ten (`Parts.scaled`),
  which are rounded and then multiplied or divided. It is mostly the nearest
  double and else one next to that; `1797693134862315700e290` is out of range
  though the largest double is greater.
-/
import EdgeFields.Number.Decimal

namespace EdgeFields

inductive Number where
  | int (value : Int)
  | float (value : Double)
deriving DecidableEq

namespace Number

/-- The integers that a literal can denote. -/
def InRange (i : Int) : Prop := -0x8000000000000000 ≤ i ∧ i < 0x10000000000000000

instance (i : Int) : Decidable (InRange i) := inferInstanceAs (Decidable (_ ∧ _))

/-- The value as a double; a wide integer is rounded. -/
def toDouble : Number → Double
  | int i => Double.ofInt i
  | float x => x

/-- Equality of documents: an integer and a double differ, the two zeros agree. -/
def same : Number → Number → Bool
  | int i, int j => i == j
  | float x, float y => x.sameValue y
  | _, _ => false

def render : Number → List Char
  | int i => if i < 0 then '-' :: Nat.toDigits 10 i.natAbs else Nat.toDigits 10 i.natAbs
  | float x => Layout.json.render x

/-! ### Literals -/

/-- The value of a digit string. -/
def digitsValue (ds : List Char) : Nat :=
  ds.foldl (fun n c => 10 * n + (c.toNat - '0'.toNat)) 0

/-- A leading run of digits and what follows it. -/
def spanDigits (cs : List Char) : List Char × List Char :=
  (cs.takeWhile Char.isDigit, cs.dropWhile Char.isDigit)

/-- A point and at least one digit, or nothing. -/
def scanFraction : List Char → Option (List Char × List Char)
  | '.' :: rest =>
    match spanDigits rest with
    | ([], _) => none
    | (ds, rest) => some (ds, rest)
  | rest => some ([], rest)

/-- The digits of an exponent after its mark, with an optional sign. -/
def scanSigned (cs : List Char) : Option (Int × List Char) :=
  let (minus, cs) := match cs with
    | '+' :: r => (false, r)
    | '-' :: r => (true, r)
    | r => (false, r)
  match spanDigits cs with
  | ([], _) => none
  | (ds, rest) => some (if minus then -(digitsValue ds : Int) else digitsValue ds, rest)

/-- An exponent, or nothing. -/
def scanExponent : List Char → Option (Option Int × List Char)
  | c :: rest =>
    if c == 'e' || c == 'E' then (scanSigned rest).map fun (e, r) => (some e, r)
    else some (none, c :: rest)
  | [] => some (none, [])

/-- What a literal consists of: a sign, the digits before and behind the point, an exponent. -/
structure Parts where
  negative : Bool
  whole : List Char
  fraction : List Char
  exponent : Option Int
deriving DecidableEq

/-- Appends digits to a significand up to the first with which it would leave 64 bits,
    and returns the digits that are left. -/
def gather (significand : Nat) : List Char → Nat × List Char
  | [] => (significand, [])
  | c :: ds =>
    let next := 10 * significand + (c.toNat - '0'.toNat)
    if next < 0x10000000000000000 then gather next ds else (significand, c :: ds)

namespace Parts

/-- A significand of 64 bits and the power of ten that it is multiplied by. The digits
    that do not fit count as zeros before the point and for nothing behind it. -/
def scaled (p : Parts) : Nat × Int :=
  let (front, dropped) := gather 0 p.whole
  let (significand, ignored) := gather front p.fraction
  (significand, p.exponent.getD 0 + dropped.length + ignored.length - p.fraction.length)

/-- The double that a literal denotes, unless it is too large. It is rounded once as
    a significand and once more as it is scaled, so it need not be the nearest. -/
def double? (p : Parts) : Option Double :=
  ((Double.ofInt p.scaled.1).scaleTen p.scaled.2).map (Double.withSign p.negative)

/-- The number that a literal denotes, unless it is too large for a double. -/
def number? (p : Parts) : Option Number :=
  let value : Int := if p.negative then -(digitsValue p.whole : Int) else digitsValue p.whole
  if p.fraction.isEmpty && p.exponent.isNone && decide (InRange value) &&
      !(p.negative && value == 0)
  then some (int value)
  else p.double?.map float

end Parts

/-- Splits a literal off the front of a text. A whole part of several digits does not
    start with zero. -/
def scanParts (cs : List Char) : Option (Parts × List Char) := do
  let (negative, cs) := match cs with
    | '-' :: r => (true, r)
    | r => (false, r)
  let (whole, cs) := spanDigits cs
  guard (!whole.isEmpty && (whole.length == 1 || whole.head? != some '0'))
  let (fraction, cs) ← scanFraction cs
  let (exponent, cs) ← scanExponent cs
  pure (⟨negative, whole, fraction, exponent⟩, cs)

/-- Reads a number from the front of a text. -/
def scan? (cs : List Char) : Option (Number × List Char) := do
  let (p, rest) ← scanParts cs
  let n ← p.number?
  pure (n, rest)

/-- The number that a whole text denotes. -/
def ofText? (cs : List Char) : Option Number :=
  match scan? cs with
  | some (n, []) => some n
  | _ => none

end Number

end EdgeFields
