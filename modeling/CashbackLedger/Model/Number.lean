import CashbackLedger.Lib.Floating
import CashbackLedger.Model.Decimal

/-
  JavaScript numbers.

  A number is a binary64 value. `JSON.parse` reads a literal as the number nearest to it, a number
  is printed as the shortest decimal that is read back as it (ECMAScript, `Number::toString`), and
  decimal.js takes the text: `new Prisma.Decimal(x)` is the decimal that `x` prints as. So a literal
  comes through where the number prints as it was sent (`Number.toDecimal`).
-/

namespace CashbackLedger

open Lib

/-- IEEE 754 binary64. -/
def binary64 : Format := { precision := 53, minExp := -1074, precision_pos := by decide }

/-- The number nearest to a decimal: what a literal stands for, and `Decimal#toNumber`. -/
def toNumber (q : Decimal) : ℚ := binary64.round q

/-- The decimal a number prints as. -/
def printed (x : ℚ) : Decimal := binary64.shortest 17 x

/-- A finite number, by its value. -/
structure Number where
  value : ℚ
  double : toNumber value = value
  finite : |value| < 2 ^ 1024
deriving DecidableEq

/-- A literal of a JSON text; `none` is Infinity. -/
def Number.ofLiteral (q : Decimal) : Option Number :=
  if h : |toNumber q| < 2 ^ 1024 then some ⟨toNumber q, binary64.round_round q, h⟩ else none

/-- `new Prisma.Decimal(x)`. -/
def Number.toDecimal (x : Number) : Decimal := printed x.value

example : printed (toNumber (1 / 3)) = 3333333333333333 / 10 ^ 16 := by decide +kernel

section

variable {q : Decimal} {x : ℚ} {j : ℤ}

theorem Number.value_inj {y z : Number} (h : y.value = z.value) : y = z := by
  cases y
  cases z
  cases h
  rfl

theorem Number.ofLiteral_value {y : Number} (h : Number.ofLiteral q = some y) :
    y.value = toNumber q := by
  unfold Number.ofLiteral at h
  split at h
  · obtain rfl := Option.some_inj.mp h
    rfl
  · cases h

theorem toNumber_mono {r : Decimal} (h : q ≤ r) : toNumber q ≤ toNumber r := Format.round_mono h

theorem toNumber_zero : toNumber 0 = 0 := Format.round_zero

theorem printed_zero : printed 0 = 0 := Format.shortest_zero

theorem seventeen_digits : 2 ^ binary64.precision < 10 ^ 16 := by decide

/-- What is printed is read back. -/
theorem toNumber_printed (h : toNumber x = x) : toNumber (printed x) = x :=
  Format.round_shortest seventeen_digits h

theorem le_printed (hx : toNumber x = x) (hq : printed (toNumber q) = q) (h : toNumber q ≤ x) :
    q ≤ printed x :=
  Format.le_shortest seventeen_digits hx hq h

theorem printed_le (hx : toNumber x = x) (hq : printed (toNumber q) = q) (h : x ≤ toNumber q) :
    printed x ≤ q :=
  Format.shortest_le seventeen_digits hx hq h

/-- A multiple of a power of ten is no smaller than it, nor is its number. -/
theorem zpow_le_toNumber (hj : (10 : ℚ) ^ j ≤ toNumber (10 ^ j)) (h : IsMultiple (10 ^ j) q)
    (hq : 0 < q) : (10 : ℚ) ^ j ≤ q ∧ (10 : ℚ) ^ j ≤ toNumber q := by
  have hstep := IsMultiple.add_le (zpow_pos (by norm_num) j) (.zero _) h hq
  rw [zero_add] at hstep
  exact ⟨hstep, hj.trans (toNumber_mono hstep)⟩

/-- Printing the number of a decimal adds no places. -/
theorem printed_isMultiple (hj : (10 : ℚ) ^ j ≤ toNumber (10 ^ j)) (h : IsMultiple (10 ^ j) q)
    (hq : 0 ≤ q) : IsMultiple (10 ^ j) (printed (toNumber q)) := by
  rcases hq.eq_or_lt with rfl | hq
  · rw [toNumber_zero, printed_zero]
    exact .zero _
  obtain ⟨-, hlow⟩ := zpow_le_toNumber hj h hq
  rw [toNumber, Format.round_of_nonneg hq.le] at hlow ⊢
  rw [printed, Format.shortest_of_nonneg (Format.roundPos_nonneg hq.le)]
  exact Format.shortestFrom_isMultiple seventeen_digits hq.le h hlow

/-- A decimal of up to 15 digits prints as it was. -/
theorem printed_toNumber (hj : (10 : ℚ) ^ j ≤ toNumber (10 ^ j)) (hnormal : -300 ≤ j)
    (h : IsMultiple (10 ^ j) q) (hq : 0 ≤ q) (hlt : q < 10 ^ (j + 15)) :
    printed (toNumber q) = q := by
  rcases hq.eq_or_lt with rfl | hq
  · rw [toNumber_zero, printed_zero]
  obtain ⟨hlow, hlow'⟩ := zpow_le_toNumber hj h hq
  rw [toNumber, Format.round_of_nonneg hq.le] at hlow' ⊢
  rw [printed, Format.shortest_of_nonneg (Format.roundPos_nonneg hq.le)]
  have hdigits : 4 * 10 ^ 15 ≤ 2 ^ binary64.precision := by decide
  refine Format.shortestFrom_roundPos seventeen_digits hdigits h hlow
    (by exact_mod_cast hlt) hlow' ?_
  calc (2 : ℚ) ^ (binary64.minExp + binary64.precision - 1) ≤ 10 ^ (-300 : ℤ) := by decide +kernel
    _ ≤ 10 ^ j := zpow_le_zpow_right₀ (by norm_num) hnormal

/-! ## Cents and rates -/

/-- Whole cents below 10^13 print as they were. -/
theorem printed_toNumber_cents (h : IsMultiple (1 / 100) q) (hq : 0 ≤ q) (hlt : q < 10 ^ 13) :
    printed (toNumber q) = q := by
  have heq : (1 / 100 : ℚ) = 10 ^ (-2 : ℤ) := by norm_num
  rw [heq] at h
  exact printed_toNumber (by decide +kernel) (by norm_num) h hq (by norm_num; linarith)

/-- So do rates with up to four decimals. -/
theorem printed_toNumber_rate (h : IsMultiple (1 / 10000) q) (hq : 0 ≤ q) (hle : q ≤ 1) :
    printed (toNumber q) = q := by
  have heq : (1 / 10000 : ℚ) = 10 ^ (-4 : ℤ) := by norm_num
  rw [heq] at h
  exact printed_toNumber (by decide +kernel) (by norm_num) h hq (lt_of_le_of_lt hle (by norm_num))

end

end CashbackLedger
