/-
  EdgeFields/Number/Decimal.lean
  ==============================
  **Decimal text of a double.**

  Writing a double has two halves. *Selection* finds the fewest decimal digits
  to which it is the nearest double, and of those the nearest (`Double.shortest`). *Layout*
  places the point or the exponent (`Layout.render`). What a text format decides
  is a `Layout` record: which exponents are positional, whether an integral
  value keeps a fraction, and which way an exact tie between two candidates goes.
-/
import EdgeFields.Number.Double

namespace EdgeFields

/-! ### Selection -/

/-- Which of two equally near candidates is taken. -/
inductive Tie where
  | toEven
  | up
deriving DecidableEq, Repr

/-- A positive decimal `d₁.d₂d₃… * 10 ^ exponent`, without zeros at the end. -/
structure Decimal where
  digits : List Char
  exponent : Int
  isDigit : ∀ c ∈ digits, c.isDigit = true
deriving DecidableEq, Repr

/-- The decimal `n * 10 ^ exponent` of a positive `n`. -/
def Decimal.ofScaled (n : Nat) (exponent : Int) : Decimal :=
  let digits := Nat.toDigits 10 n
  { digits := (digits.reverse.dropWhile (· == '0')).reverse
    exponent := digits.length + exponent - 1
    isDigit := by
      intro c hc
      have hmem := (List.dropWhile_suffix _).mem (List.mem_reverse.1 hc)
      exact Nat.isDigit_of_mem_toDigits (by decide) (by decide) (List.mem_reverse.1 hmem) }

namespace Double

/-- The exponent of the power of ten next above the absolute value of a nonzero
    double: the value times `10 ^ 400` is at least one, so its digits can be counted. -/
def decimalTop (x : Double) : Int :=
  (digitCount (x.units * Nat.pow 10 400 / Nat.pow 2 1074) : Int) - 400

/-- Whether `x` is the double nearest to `n * 10 ^ exponent`. -/
def readsBack (x : Double) (n : Nat) (exponent : Int) : Bool :=
  ofDecimal x.negative n exponent == some x

/-- The candidate with `count` digits to which the double is nearest, if there is one: the value's
    two neighbours on that decimal grid are tried, and of two hits the nearer wins. -/
def candidate (tie : Tie) (x : Double) (count : Nat) : Option Decimal :=
  let e := x.decimalTop - count
  let num := x.units * Nat.pow 10 (-e).toNat
  let den := Nat.pow 2 1074 * Nat.pow 10 e.toNat
  let low := num / den
  let twice := 2 * (num % den)
  let upper := den < twice || (twice == den && (tie == .up || low % 2 == 1))
  match x.readsBack low e, x.readsBack (low + 1) e with
  | false, false => none
  | true, false => some (.ofScaled low e)
  | false, true => some (.ofScaled (low + 1) e)
  | true, true => some (.ofScaled (if upper then low + 1 else low) e)

/-- The fewest digits to which a nonzero double is nearest. Seventeen digits
    suffice; the exact decimal stands behind them so that the function is total. -/
def shortest (tie : Tie) (x : Double) : Decimal :=
  ((List.range' 1 17).findSome? (x.candidate tie)).getD
    (.ofScaled (x.units * Nat.pow 5 1074) (-1074))

end Double

/-! ### Layout -/

/-- The decisions of a text format for doubles. -/
structure Layout where
  /-- Exponents of the leading digit that are written positionally. -/
  positional : Int → Bool
  /-- Whether an integral value is written with a fraction. -/
  pointZero : Bool
  tie : Tie

namespace Layout

/-- A positional decimal: the point stands inside, before or after the digits. -/
def placePoint (pointZero : Bool) (d : Decimal) : List Char :=
  if d.exponent < 0 then
    '0' :: '.' :: (List.replicate (-d.exponent - 1).toNat '0' ++ d.digits)
  else
    let whole := d.exponent.toNat + 1
    if d.digits.length ≤ whole then
      d.digits ++ List.replicate (whole - d.digits.length) '0' ++
        (if pointZero then ['.', '0'] else [])
    else d.digits.take whole ++ '.' :: d.digits.drop whole

/-- A decimal with an exponent, whose sign is always written. -/
def scientific (d : Decimal) : List Char :=
  let mantissa := match d.digits with
    | [] => ['0']
    | [c] => [c]
    | c :: rest => c :: '.' :: rest
  mantissa ++ 'e' :: (if d.exponent < 0 then '-' else '+') :: Nat.toDigits 10 d.exponent.natAbs

/-- The text of a double. -/
def render (l : Layout) (x : Double) : List Char :=
  let body :=
    if x.magnitude = 0 then '0' :: (if l.pointZero then ['.', '0'] else [])
    else
      let d := x.shortest l.tie
      if l.positional d.exponent then placePoint l.pointZero d else scientific d
  if x.negative then '-' :: body else body

/-- Numbers in JSON text: positional from `10 ^ (-5)` to below `10 ^ 16`, always with
    a fraction or an exponent, a tie to the even digit. -/
def json : Layout := ⟨fun e => decide (-5 ≤ e ∧ e ≤ 15), true, .toEven⟩

/-- Numbers in messages: always positional, an integral value without a fraction,
    a tie to the upper digit. -/
def plain : Layout := ⟨fun _ => true, false, .up⟩

end Layout

/-- The text of a double in messages. -/
def Double.plainText (x : Double) : String := String.ofList (Layout.plain.render x)

end EdgeFields
