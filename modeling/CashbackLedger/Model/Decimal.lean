import Mathlib.Data.Int.Log
import Mathlib.Data.Rat.Floor
import Mathlib.Algebra.Order.Floor.Semiring

/-
  Decimals: exact rationals with the roundings of decimal.js and of PostgreSQL.

  Both round half away from zero. decimal.js rounds a product to 20 significant digits, a
  NUMERIC(p, s) column rounds what it stores to `s` decimals and refuses a value whose integer
  part then needs more than `p - s` digits.
-/

namespace CashbackLedger

/-- `Prisma.Decimal`. -/
abbrev Decimal : Type := ℚ

/-- Rounds to `d` decimal places, half away from zero. `d` may be negative. -/
def roundHalfUp (d : ℤ) (q : Decimal) : Decimal :=
  let s : ℚ := 10 ^ d
  if 0 ≤ q then ⌊q * s + 1 / 2⌋ / s else -(⌊-q * s + 1 / 2⌋ / s)

/-- Rounds to `n` significant digits, half away from zero. -/
def toSignificantDigits (n : ℕ) (q : Decimal) : Decimal :=
  if q = 0 then 0 else roundHalfUp (n - 1 - Int.log 10 |q|) q

/-- `a.mul(b)` at the default precision. -/
def decimalMul (a b : Decimal) : Decimal := toSignificantDigits 20 (a * b)

/-- `q.toDecimalPlaces(n)`. -/
def toDecimalPlaces (q : Decimal) (n : ℕ) : Decimal := roundHalfUp n q

/-- What a `DECIMAL(p, s)` column stores for `q`; `none` is "numeric field overflow". -/
def storeNumeric (p s : ℕ) (q : Decimal) : Option Decimal :=
  if |roundHalfUp s q| < 10 ^ (p - s) then some (roundHalfUp s q) else none

example : decimalMul (999999999999999999 / 100) (3333 / 10000) = 3332999999999999.9967 := by
  decide +kernel

example : storeNumeric 18 2 (1005 / 1000) = some (101 / 100) := by decide +kernel

end CashbackLedger
