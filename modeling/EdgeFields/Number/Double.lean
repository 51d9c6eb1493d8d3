/-
  EdgeFields/Number/Double.lean
  =============================
  **Finite binary64 numbers as exact data.**

  A `Double` is a sign and a magnitude code: the 63 low bits of the interchange
  format, read as a natural number. Codes below `infinityCode` are the finite
  values, and their order is the order of the values, so comparison is the
  comparison of two integers (`Double.key`). Zero has two codes with one key.

  The value of a code is `significand * 2 ^ scale / 2 ^ 1074`. Rounding a
  quotient of naturals (`nearestCode`) and a decimal (`Double.ofDecimal`) is done
  in exact arithmetic, to nearest and ties to even. Arithmetic on doubles rounds
  after each operation, so scaling by powers of ten (`Double.scaleTen`) can miss
  the nearest double.
-/

namespace EdgeFields

/-- The first magnitude code that is not finite. -/
def infinityCode : Nat := 2047 * Nat.pow 2 52

/-- A finite binary64 number. -/
structure Double where
  negative : Bool
  magnitude : Nat
  finite : magnitude < infinityCode
deriving DecidableEq

namespace Double

/-! ### Values -/

def zero (negative : Bool) : Double := ⟨negative, 0, by decide⟩

instance : Inhabited Double := ⟨zero false⟩

/-- The integer significand: below `2 ^ 52` for the numbers next to zero, and
    from `2 ^ 52` to `2 ^ 53 - 1` for all others. -/
def significand (x : Double) : Nat :=
  if x.magnitude < Nat.pow 2 52 then x.magnitude
  else Nat.pow 2 52 + x.magnitude % Nat.pow 2 52

/-- The power of two that the significand is multiplied by, counted from `2 ^ (-1074)`. -/
def scale (x : Double) : Nat := x.magnitude / Nat.pow 2 52 - 1

/-- The absolute value in units of `2 ^ (-1074)`. -/
def units (x : Double) : Nat := x.significand * Nat.pow 2 x.scale

/-- Whether the value is an integer. -/
def isIntegral (x : Double) : Bool := x.units % Nat.pow 2 1074 == 0

/-- The order key: the signed magnitude code. Both zeros have key 0. -/
def key (x : Double) : Int := if x.negative then -(x.magnitude : Int) else x.magnitude

instance : Ord Double := ⟨fun x y => compare x.key y.key⟩

/-- Numerical equality: unlike `=`, it holds between the two zeros. -/
def sameValue (x y : Double) : Bool := x.key == y.key

/-! ### Rounding -/

/-- `num / den` rounded to an integer, a half to the even neighbour. -/
def roundHalfEven (num den : Nat) : Nat :=
  let q := num / den
  let r := num % den
  if 2 * r < den then q else if den < 2 * r then q + 1 else q + q % 2

/-- The magnitude code nearest to `num / den`. A significand that rounds up to
    `2 ^ 53` carries into the scale by itself, because the two are added. -/
def nearestCode (num den : Nat) : Nat :=
  let scaled := num * Nat.pow 2 1074
  let k := (scaled / den).log2 + 1 - 53
  k * Nat.pow 2 52 + roundHalfEven scaled (den * Nat.pow 2 k)

/-- The double nearest to `± num / den`, or `none` when that is infinite. -/
def ofRatio (negative : Bool) (num den : Nat) : Option Double :=
  let code := nearestCode num den
  if h : code < infinityCode then some ⟨negative, code, h⟩ else none

/-- The number of decimal digits of `n`; zero has one. -/
def digitCount (n : Nat) : Nat := (Nat.toDigits 10 n).length

/-- The double nearest to `± digits * 10 ^ exponent`, or `none` when that is
    infinite. The two guards answer without a power of ten where the leading
    digit alone decides: below `10 ^ (-330)` all is zero, from `10 ^ 330` all is
    infinite. -/
def ofDecimal (negative : Bool) (digits : Nat) (exponent : Int) : Option Double :=
  let top := (digitCount digits : Int) + exponent
  if digits = 0 then some (zero negative)
  else if top < -330 then some (zero negative)
  else if 330 < top then none
  else ofRatio negative (digits * Nat.pow 10 exponent.toNat) (Nat.pow 10 (-exponent).toNat)

/-- The double nearest to an integer, at most the largest finite one. -/
def ofInt (i : Int) : Double :=
  ⟨decide (i < 0), min (nearestCode i.natAbs 1) (infinityCode - 1), by
    have : 0 < infinityCode := by decide
    omega⟩

/-! ### Arithmetic -/

def withSign (negative : Bool) (x : Double) : Double := { x with negative }

/-- The rounded product, or `none` when that is infinite. -/
def mul (x y : Double) : Option Double :=
  ofRatio (x.negative != y.negative) (x.units * y.units) (Nat.pow 2 2148)

/-- The rounded quotient of a double and a nonzero one, or `none` when that is infinite. -/
def div (x y : Double) : Option Double :=
  ofRatio (x.negative != y.negative) x.units y.units

def powTen (n : Nat) : Double := ofInt (Nat.pow 10 n)

/-- Divides by `10 ^ 308` a number of times, or until nothing is left. -/
def shrink : Nat → Double → Option Double
  | 0, x => some x
  | n + 1, x => if x.magnitude = 0 then some x else (x.div (powTen 308)).bind (shrink n)

/-- Multiplies by a power of ten or divides by it, as far as powers of ten are
    doubles. From a greater power only zero comes back finite, and a smaller one
    is reached in several divisions. -/
def scaleTen (x : Double) : Int → Option Double
  | .ofNat n =>
    if n ≤ 308 then x.mul (powTen n) else if x.magnitude = 0 then some x else none
  | .negSucc n => (shrink (n / 308) x).bind fun y => y.div (powTen (n % 308 + 1))

end Double

end EdgeFields
