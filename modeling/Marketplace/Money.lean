/-
  Amounts of money as the process computes them: floating point numbers, which
  it reads from `numeric(12,2)` columns and writes to them.

  `fl` rounds the result of a floating point operation.  A column holds cents,
  and so do the rows of the database.
-/
import Mathlib.Algebra.Order.Round
import Mathlib.Data.Rat.Floor

namespace Marketplace.Money

variable (fl : ℚ → ℚ)

/-- `decimalTransformer.from`: the number read from a column that holds `c` cents. -/
def fromColumn (c : ℤ) : ℚ := fl (c / 100)

/-- The cents a column holds after a number has been written to it. -/
def toColumn (amount : ℚ) : ℤ := round (amount * 100)

/-- `Math.round(amount * 100) * quantity`; `Math.round` rounds halves up. -/
def cents (amount : ℚ) (quantity : ℤ) : ℚ := fl (round (fl (amount * 100)) * quantity)

/-- Multiplies a 2-decimal amount by an integer quantity without floating point drift. -/
def multiplyMoney (amount : ℚ) (quantity : ℤ) : ℚ := fl (cents fl amount quantity / 100)

end Marketplace.Money
