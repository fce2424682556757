import Mathlib.Algebra.Order.Group.MinMax
import CashbackLedger.Lib.Rounding
import CashbackLedger.Model.Handler

/-
  The cashback of an order as a number.

  Two roundings follow each other: the product of amount and rate is rounded to 20 significant
  digits, then, after the comparison with the cap, the result to cents. On non-negative values
  both are instances of `nearest`, so bounds by amounts and caps, which both roundings fix, and
  monotonicity pass through them (`cashback_bounded`).

  In units of 10⁻⁶ all values are naturals. The product has at most 22 digits there, so the
  first rounding drops at most two of them; where it lifts the rest to half a cent or above, the
  second one rounds up what is below half a cent (`RoundsTwice`).
-/

namespace CashbackLedger

open Lib

/-! ## The roundings of the model -/

theorem roundHalfUp_eq {d : ℤ} {q : Decimal} (hq : 0 ≤ q) :
    roundHalfUp d q = nearest ((10 : ℚ) ^ (-d)) q := by
  rw [roundHalfUp, if_pos hq, nearest, zpow_neg, div_inv_eq_mul, div_eq_mul_inv]

theorem toDecimalPlaces_two {q : Decimal} (hq : 0 ≤ q) :
    toDecimalPlaces q 2 = nearest (1 / 100) q := by
  rw [toDecimalPlaces, roundHalfUp_eq hq]
  norm_num

theorem toSignificantDigits_eq {n : ℕ} {q : Decimal} (hq : 0 < q) :
    toSignificantDigits n q = significant 10 n q := by
  have hexp : -((n : ℤ) - 1 - Int.log 10 q) = Int.log 10 q - n + 1 := by ring
  rw [toSignificantDigits, if_neg hq.ne', abs_of_pos hq,
    roundHalfUp_eq hq.le, hexp, significant, ulp]
  norm_num

/-- What a column stores unchanged. -/
theorem storeNumeric_eq_some {p s : ℕ} {q : Decimal} (hq : 0 ≤ q) :
    storeNumeric p s q = some q ↔ IsMultiple ((10 : ℚ) ^ (-(s : ℤ))) q ∧ q < 10 ^ (p - s) := by
  have hunit : (0 : ℚ) < 10 ^ (-(s : ℤ)) := zpow_pos (by norm_num) _
  rw [storeNumeric, roundHalfUp_eq hq, abs_of_nonneg (nearest_nonneg hunit hq)]
  constructor
  · intro h
    split at h
    · next hlt =>
      have heq := Option.some_inj.mp h
      rw [heq] at hlt
      exact ⟨heq ▸ nearest_isMultiple _ _, hlt⟩
    · cases h
  · rintro ⟨hmultiple, hlt⟩
    rw [nearest_eq_of_isMultiple hunit hmultiple, if_pos hlt]

section

variable {p s : ℕ} {q q' r : Decimal}

theorem storeNumeric_nearest (hq : 0 ≤ q) (h : storeNumeric p s q = some q') :
    q' = nearest ((10 : ℚ) ^ (-(s : ℤ))) q := by
  unfold storeNumeric at h
  split at h
  · cases h
    exact roundHalfUp_eq hq
  · cases h

theorem column_unit_pos (s : ℕ) : (0 : ℚ) < 10 ^ (-(s : ℤ)) := zpow_pos (by norm_num) _

theorem storeNumeric_nonneg (hq : 0 ≤ q) (h : storeNumeric p s q = some q') : 0 ≤ q' := by
  rw [storeNumeric_nearest hq h]
  exact nearest_nonneg (column_unit_pos s) hq

/-- A stored value is stored as it is. -/
theorem storeNumeric_again (hq : 0 ≤ q) (h : storeNumeric p s q = some q') :
    storeNumeric p s q' = some q' := by
  have hnear := storeNumeric_nearest hq h
  have hnonneg := storeNumeric_nonneg hq h
  refine (storeNumeric_eq_some hnonneg).mpr ⟨hnear ▸ nearest_isMultiple _ _, ?_⟩
  unfold storeNumeric at h
  split at h
  · next hlt =>
    cases h
    rwa [abs_of_nonneg hnonneg] at hlt
  · cases h

theorem storeNumeric_le (hq : 0 ≤ q) (h : storeNumeric p s q = some q')
    (hr : IsMultiple ((10 : ℚ) ^ (-(s : ℤ))) r) (hle : q ≤ r) : q' ≤ r := by
  rw [storeNumeric_nearest hq h]
  exact nearest_le (column_unit_pos s) hr hle

theorem le_storeNumeric (hq : 0 ≤ q) (h : storeNumeric p s q = some q')
    (hr : IsMultiple ((10 : ℚ) ^ (-(s : ℤ))) r) (hle : r ≤ q) : r ≤ q' := by
  rw [storeNumeric_nearest hq h]
  exact le_nearest (column_unit_pos s) hr hle

end

theorem decimalMul_nonneg {a b : Decimal} (h : 0 ≤ a * b) : 0 ≤ decimalMul a b := by
  rcases h.eq_or_lt with h | h
  · rw [decimalMul, ← h, toSignificantDigits, if_pos rfl]
  · rw [decimalMul, toSignificantDigits_eq h]
    exact nearest_nonneg (ulp_pos (by norm_num) _) h.le

theorem decimalMul_mono {a b a' b' : Decimal} (h : 0 ≤ a * b) (hle : a * b ≤ a' * b') :
    decimalMul a b ≤ decimalMul a' b' := by
  rcases h.eq_or_lt with heq | hpos
  · have hzero : decimalMul a b = 0 := by rw [decimalMul, ← heq, toSignificantDigits, if_pos rfl]
    rw [hzero]
    exact decimalMul_nonneg (h.trans hle)
  · rw [decimalMul, decimalMul, toSignificantDigits_eq hpos,
      toSignificantDigits_eq (hpos.trans_le hle)]
    exact significant_mono (by norm_num) (by norm_num) hpos hle

/-! ## Amounts and rules -/

/-- An order amount in a `DECIMAL(18, 2)` column, at least one cent. -/
structure ValidAmount (amount : Decimal) : Prop where
  stored : storeNumeric 18 2 amount = some amount
  min : 1 / 100 ≤ amount

/-- A rate in a `DECIMAL(6, 4)` column between 0 and 1, with no cap or a non-negative one in a
    `DECIMAL(18, 2)` column. -/
structure ValidRule (rule : Rule) : Prop where
  rate_stored : storeNumeric 6 4 rule.rate = some rule.rate
  rate_nonneg : 0 ≤ rule.rate
  rate_le_one : rule.rate ≤ 1
  cap_stored : ∀ cap, rule.cap = some cap → storeNumeric 18 2 cap = some cap
  cap_nonneg : ∀ cap, rule.cap = some cap → 0 ≤ cap

/-- The lower of a value and the cap. -/
def atMost (cap : Option Decimal) (q : Decimal) : Decimal :=
  match cap with
  | none => q
  | some cap => min q cap

/-- The cashback of an amount under a rule, without rounding. -/
def exactCashback (amount : Decimal) (rule : Rule) : Decimal := atMost rule.cap (amount * rule.rate)

/-- No cap is above every cap. -/
def CapLe : Option Decimal → Option Decimal → Prop
  | _, none => True
  | none, some _ => False
  | some cap, some cap' => cap ≤ cap'

theorem cashbackOf_eq (amount : Decimal) (rule : Rule) :
    cashbackOf amount rule = toDecimalPlaces (atMost rule.cap (decimalMul amount rule.rate)) 2 := by
  unfold cashbackOf atMost
  cases rule.cap with
  | none => rfl
  | some cap =>
    dsimp only
    rw [← min_def_lt, min_comm]

section

variable {amount amount' : Decimal} {rule rule' : Rule} {cap cap' : Option Decimal} {q q' : Decimal}

theorem atMost_le (cap : Option Decimal) (q : Decimal) : atMost cap q ≤ q := by
  cases cap with
  | none => exact le_rfl
  | some cap => exact min_le_left q cap

theorem atMost_mono (hcap : CapLe cap cap') (h : q ≤ q') : atMost cap q ≤ atMost cap' q' := by
  cases cap' with
  | none => exact (atMost_le cap q).trans h
  | some c' =>
    cases cap with
    | none => exact hcap.elim
    | some c => exact min_le_min h hcap

theorem abs_atMost_sub_le (cap : Option Decimal) (q q' : Decimal) :
    |atMost cap q - atMost cap q'| ≤ |q - q'| := by
  cases cap with
  | none => exact le_rfl
  | some cap =>
    have h := abs_min_sub_min_le_max q cap q' cap
    rwa [sub_self, abs_zero, max_eq_left (abs_nonneg _)] at h

theorem ValidAmount.nonneg (h : ValidAmount amount) : 0 ≤ amount := le_trans (by norm_num) h.min

theorem ValidAmount.cents (h : ValidAmount amount) : IsMultiple (1 / 100) amount := by
  have hm := ((storeNumeric_eq_some h.nonneg).mp h.stored).1
  norm_num at hm ⊢
  exact hm

theorem ValidAmount.lt (h : ValidAmount amount) : amount < 10 ^ 16 :=
  ((storeNumeric_eq_some h.nonneg).mp h.stored).2

theorem ValidRule.cap_cents (h : ValidRule rule) {c : Decimal} (hc : rule.cap = some c) :
    IsMultiple (1 / 100) c := by
  have hm := ((storeNumeric_eq_some (h.cap_nonneg c hc)).mp (h.cap_stored c hc)).1
  norm_num at hm ⊢
  exact hm

theorem ValidRule.atMost_nonneg (h : ValidRule rule) (hq : 0 ≤ q) : 0 ≤ atMost rule.cap q := by
  unfold atMost
  split
  · exact hq
  · exact le_min hq (h.cap_nonneg _ ‹_›)

theorem product_nonneg (ha : ValidAmount amount) (hr : ValidRule rule) : 0 ≤ amount * rule.rate :=
  mul_nonneg ha.nonneg hr.rate_nonneg

theorem product_le (ha : ValidAmount amount) (hr : ValidRule rule) : amount * rule.rate ≤ amount :=
  mul_le_of_le_one_right ha.nonneg hr.rate_le_one

/-- An amount has too few digits for the first rounding to change it. -/
theorem ValidAmount.toSignificantDigits (h : ValidAmount amount) :
    toSignificantDigits 20 amount = amount := by
  have hpos : 0 < amount := lt_of_lt_of_le (by norm_num) h.min
  rw [toSignificantDigits_eq hpos]
  refine significant_eq (k := -2) (by norm_num) hpos ?_ (h.lt.trans (by norm_num))
  have hm := h.cents
  norm_num at hm ⊢
  exact hm

/-- The rounded product does not exceed the amount. -/
theorem decimalMul_le (ha : ValidAmount amount) (hr : ValidRule rule) :
    decimalMul amount rule.rate ≤ amount := by
  have hle : amount * rule.rate ≤ amount * 1 := (product_le ha hr).trans_eq (mul_one amount).symm
  have hmono := decimalMul_mono (product_nonneg ha hr) hle
  have hself : decimalMul amount 1 = amount := by rw [decimalMul, mul_one, ha.toSignificantDigits]
  exact hmono.trans_eq hself

/-- The first rounding moves the product by half of 10⁻⁴ at most. -/
theorem abs_decimalMul_sub_le (ha : ValidAmount amount) (hr : ValidRule rule) :
    |decimalMul amount rule.rate - amount * rule.rate| ≤ 1 / 20000 := by
  rcases (product_nonneg ha hr).eq_or_lt with hzero | hpos
  · rw [decimalMul, ← hzero, CashbackLedger.toSignificantDigits, if_pos rfl]
    norm_num
  · have hlt : amount * rule.rate < ((10 : ℕ) : ℚ) ^ (16 : ℤ) :=
      ((product_le ha hr).trans_lt ha.lt).trans_le (by norm_num)
    have hulp := ulp_le (n := 20) (by norm_num) hpos hlt
    have hnear := abs_nearest_sub_le (ulp_pos (n := 20) (by norm_num : 1 < 10) (amount * rule.rate))
      (amount * rule.rate)
    rw [decimalMul, toSignificantDigits_eq hpos, significant]
    norm_num at hulp
    linarith

theorem cashbackOf_nearest (ha : ValidAmount amount) (hr : ValidRule rule) :
    cashbackOf amount rule = nearest (1 / 100) (atMost rule.cap (decimalMul amount rule.rate)) := by
  rw [cashbackOf_eq, toDecimalPlaces_two]
  exact hr.atMost_nonneg (decimalMul_nonneg (product_nonneg ha hr))

theorem cashback_nonneg (ha : ValidAmount amount) (hr : ValidRule rule) :
    0 ≤ cashbackOf amount rule := by
  rw [cashbackOf_nearest ha hr]
  exact nearest_nonneg (by norm_num) (hr.atMost_nonneg (decimalMul_nonneg (product_nonneg ha hr)))

theorem cashback_le_amount (ha : ValidAmount amount) (hr : ValidRule rule) :
    cashbackOf amount rule ≤ amount := by
  rw [cashbackOf_nearest ha hr]
  exact nearest_le (by norm_num) ha.cents ((atMost_le _ _).trans (decimalMul_le ha hr))

theorem cashback_le_cap (ha : ValidAmount amount) (hr : ValidRule rule) {c : Decimal}
    (hc : rule.cap = some c) : cashbackOf amount rule ≤ c := by
  rw [cashbackOf_nearest ha hr]
  refine nearest_le (by norm_num) (hr.cap_cents hc) ?_
  rw [hc]
  exact min_le_right _ c

theorem cashback_near_exact (ha : ValidAmount amount) (hr : ValidRule rule) :
    |cashbackOf amount rule - exactCashback amount rule| < 1 / 100 := by
  have hcents := abs_nearest_sub_le (u := 1 / 100) (by norm_num)
    (atMost rule.cap (decimalMul amount rule.rate))
  have hcap := abs_atMost_sub_le rule.cap (decimalMul amount rule.rate) (amount * rule.rate)
  have hmul := abs_decimalMul_sub_le ha hr
  rw [← cashbackOf_nearest ha hr] at hcents
  have htriangle := abs_sub_le (cashbackOf amount rule)
    (atMost rule.cap (decimalMul amount rule.rate)) (exactCashback amount rule)
  unfold exactCashback at htriangle ⊢
  linarith

theorem cashback_stored (ha : ValidAmount amount) (hr : ValidRule rule) :
    storeNumeric 18 2 (cashbackOf amount rule) = some (cashbackOf amount rule) := by
  refine (storeNumeric_eq_some (cashback_nonneg ha hr)).mpr ⟨?_, ?_⟩
  · have hm := nearest_isMultiple (1 / 100) (atMost rule.cap (decimalMul amount rule.rate))
    rw [← cashbackOf_nearest ha hr] at hm
    norm_num at hm ⊢
    exact hm
  · exact (cashback_le_amount ha hr).trans_lt ha.lt

theorem cashback_mono (ha : ValidAmount amount) (hr : ValidRule rule) (ha' : ValidAmount amount')
    (hr' : ValidRule rule') (hamount : amount ≤ amount') (hrate : rule.rate ≤ rule'.rate)
    (hcap : CapLe rule.cap rule'.cap) : cashbackOf amount rule ≤ cashbackOf amount' rule' := by
  rw [cashbackOf_nearest ha hr, cashbackOf_nearest ha' hr']
  have hproduct : amount * rule.rate ≤ amount' * rule'.rate :=
    mul_le_mul hamount hrate hr.rate_nonneg ha'.nonneg
  exact nearest_mono
    (by norm_num) (atMost_mono hcap (decimalMul_mono (product_nonneg ha hr) hproduct))

end

/-- The insert of an entry of this amount is not refused for its value and does not round it. -/
def StoredAsIs (amount : Decimal) : Prop :=
  ∀ env p newId w d r, d.amount = amount → TxStmt.run env p newId w (.ledgerCreate d) = some r →
    r ≠ .error .invalidValue ∧ ∀ e, r = .ok e → e.amount = amount

theorem storedAsIs {amount : Decimal} (h : storeNumeric 18 2 amount = some amount) :
    StoredAsIs amount := by
  rintro env p newId w d r rfl hrun
  unfold TxStmt.run at hrun
  dsimp only at hrun
  rw [h] at hrun
  dsimp only at hrun
  split at hrun
  · cases hrun
    exact ⟨nofun, nofun⟩
  split at hrun
  · cases hrun
  split at hrun
  · cases hrun
  split at hrun
  · cases hrun
    exact ⟨nofun, nofun⟩
  · cases hrun
    refine ⟨nofun, fun e he => ?_⟩
    cases he
    rfl

/-- The cashback lies between zero and the amount, stays below the cap, is less than a cent from
    the exact value and is stored as it is; a larger amount, a higher rate or a higher cap never
    gives less. -/
theorem cashback_bounded (amount : Decimal) (rule : Rule) (ha : ValidAmount amount)
    (hr : ValidRule rule) :
    0 ≤ cashbackOf amount rule ∧ cashbackOf amount rule ≤ amount ∧
    (∀ cap, rule.cap = some cap → cashbackOf amount rule ≤ cap) ∧
    |cashbackOf amount rule - exactCashback amount rule| < 1 / 100 ∧
    storeNumeric 18 2 (cashbackOf amount rule) = some (cashbackOf amount rule) ∧
    StoredAsIs (cashbackOf amount rule) ∧
    ∀ amount' rule', ValidAmount amount' → ValidRule rule' → amount ≤ amount' →
      rule.rate ≤ rule'.rate → CapLe rule.cap rule'.cap →
      cashbackOf amount rule ≤ cashbackOf amount' rule' :=
  ⟨cashback_nonneg ha hr, cashback_le_amount ha hr, fun _ hc => cashback_le_cap ha hr hc,
    cashback_near_exact ha hr, cashback_stored ha hr, storedAsIs (cashback_stored ha hr),
    fun _ _ ha' hr' hamount hrate hcap => cashback_mono ha hr ha' hr' hamount hrate hcap⟩

/-- 12.34 % of 99.99, capped at 10. -/
theorem cashback_bounded_capped :
    0 ≤ cashbackOf (9999 / 100) { rate := 1234 / 10000, cap := some 10 } ∧
    cashbackOf (9999 / 100) { rate := 1234 / 10000, cap := some 10 } ≤ 10 :=
  have h := cashback_bounded (9999 / 100) { rate := 1234 / 10000, cap := some 10 }
    ⟨by decide +kernel, by norm_num⟩
    ⟨by decide +kernel, by norm_num, by norm_num, by rintro _ ⟨⟩; decide +kernel,
      by rintro _ ⟨⟩; norm_num⟩
  ⟨h.1, h.2.2.1 10 rfl⟩

/-! ## Rounding twice -/

/-- The product in units of 10⁻⁶: an amount has two decimals, a rate has four. -/
def productUnits (amount rate : Decimal) : ℕ := ⌊amount * rate * 10 ^ 6⌋₊

/-- No cap intervenes, the product has more than 20 digits and its part below a cent is below half
    a cent, but reaches half a cent when the digits beyond the 20th are rounded. -/
def RoundsTwice (amount : Decimal) (rule : Rule) : Prop :=
  (∀ cap, rule.cap = some cap → amount * rule.rate < cap) ∧
    let n := productUnits amount rule.rate
    (10 ^ 20 ≤ n ∧ n < 10 ^ 21 ∧ 4995 ≤ n % 10000 ∧ n % 10000 < 5000) ∨
      (10 ^ 21 ≤ n ∧ 4950 ≤ n % 10000 ∧ n % 10000 < 5000)

/-- `n` units after the first rounding. -/
def mulUnits (n : ℕ) : ℕ :=
  if n < 10 ^ 20 then n
  else if n < 10 ^ 21 then (2 * n + 10) / 20 * 10
  else (2 * n + 100) / 200 * 100

/-- `n` units in cents, rounded. -/
def unitsToCents (n : ℕ) : ℕ := (2 * n + 10000) / 20000

theorem toDecimalPlaces_units (n : ℕ) :
    toDecimalPlaces (n * 10 ^ (-6 : ℤ)) 2 = unitsToCents n * (1 / 100) := by
  have h := nearest_mul (K := ℚ) (v := 10 ^ (-6 : ℤ)) (by norm_num) (m := 10000) (by norm_num) n
  have hcent : ((10000 : ℕ) : ℚ) * 10 ^ (-6 : ℤ) = 1 / 100 := by norm_num
  rw [hcent] at h
  rw [toDecimalPlaces_two (by positivity), h]
  rfl

theorem significant_units {n k : ℕ} (hlo : 10 ^ (19 + k) ≤ n) (hhi : n < 10 ^ (20 + k)) :
    toSignificantDigits 20 ((n : ℚ) * 10 ^ (-6 : ℤ)) =
      ((2 * n + 10 ^ k) / (2 * 10 ^ k) * 10 ^ k : ℕ) * 10 ^ (-6 : ℤ) := by
  have hn : 0 < n := lt_of_lt_of_le (by positivity) hlo
  have h := significant_mul (K := ℚ) (b := 10) (d := 19) (by norm_num) (-6) hlo hhi
  push_cast at h ⊢
  rw [toSignificantDigits_eq (by positivity), h, mul_assoc]

theorem decimalMul_units {a b : Decimal} {n : ℕ} (h : a * b = n * 10 ^ (-6 : ℤ))
    (hn : n < 10 ^ 22) : decimalMul a b = mulUnits n * 10 ^ (-6 : ℤ) := by
  rw [decimalMul, h]
  unfold mulUnits
  split
  · next hlt =>
    rcases Nat.eq_zero_or_pos n with rfl | hpos
    · rw [Nat.cast_zero, zero_mul, toSignificantDigits, if_pos rfl]
    · have hq : (0 : ℚ) < n * 10 ^ (-6 : ℤ) := by positivity
      have hlt' : (n : ℚ) < 10 ^ 20 := by exact_mod_cast hlt
      rw [toSignificantDigits_eq hq]
      refine significant_eq (k := -6) (by norm_num) hq ⟨n, by norm_num⟩ ?_
      norm_num
      linarith
  split
  · next hge hlt => exact significant_units (k := 1) (not_lt.mp hge) hlt
  · next hge => exact significant_units (k := 2) (not_lt.mp hge) hn

/-- Where the first rounding changes the cents, in units. -/
theorem unitsToCents_mulUnits (n : ℕ) : unitsToCents (mulUnits n) = unitsToCents n ↔
    ¬ ((10 ^ 20 ≤ n ∧ n < 10 ^ 21 ∧ 4995 ≤ n % 10000 ∧ n % 10000 < 5000) ∨
      (10 ^ 21 ≤ n ∧ 4950 ≤ n % 10000 ∧ n % 10000 < 5000)) := by
  unfold unitsToCents mulUnits
  split
  · omega
  split
  · omega
  · omega

/-- The first rounding does not cross a whole number of cents. -/
theorem mulUnits_le {n c : ℕ} (h : n ≤ c * 10000) : mulUnits n ≤ c * 10000 := by
  unfold mulUnits
  split
  · omega
  split
  · omega
  · omega

theorem le_mulUnits {n c : ℕ} (h : c * 10000 ≤ n) : c * 10000 ≤ mulUnits n := by
  unfold mulUnits
  split
  · omega
  split
  · omega
  · omega

/-- A valid cap in units, and what it does to `n` units. -/
theorem ValidRule.cap_units {rule : Rule} (h : ValidRule rule) {cap : Decimal}
    (hc : rule.cap = some cap) :
    ∃ c : ℕ, cap = (c * 10000 : ℕ) * 10 ^ (-6 : ℤ) ∧
      ∀ n : ℕ, atMost rule.cap (n * 10 ^ (-6 : ℤ)) =
        ((min n (c * 10000) : ℕ) : ℚ) * 10 ^ (-6 : ℤ) := by
  obtain ⟨c, hcents⟩ := (h.cap_cents hc).exists_nat (by norm_num) (h.cap_nonneg cap hc)
  have hcap : cap = (c * 10000 : ℕ) * 10 ^ (-6 : ℤ) := by
    rw [hcents]
    push_cast
    norm_num
    ring
  refine ⟨c, hcap, fun n => ?_⟩
  have hmin : atMost rule.cap ((n : ℚ) * 10 ^ (-6 : ℤ)) = min ((n : ℚ) * 10 ^ (-6 : ℤ)) cap := by
    rw [hc]
    rfl
  rw [hmin, hcap, ← min_mul_of_nonneg _ _ (by positivity), Nat.cast_min]

theorem product_units {amount : Decimal} {rule : Rule} (ha : ValidAmount amount)
    (hr : ValidRule rule) :
    amount * rule.rate = productUnits amount rule.rate * 10 ^ (-6 : ℤ) ∧
      productUnits amount rule.rate < 10 ^ 22 := by
  obtain ⟨a, hamount⟩ := ha.cents.exists_nat (by norm_num) ha.nonneg
  have hrate := ((storeNumeric_eq_some hr.rate_nonneg).mp hr.rate_stored).1
  obtain ⟨r, hrate⟩ := hrate.exists_nat (by positivity) hr.rate_nonneg
  have hproduct : amount * rule.rate = (a * r : ℕ) * 10 ^ (-6 : ℤ) := by
    rw [hamount, hrate]
    push_cast
    norm_num
    ring
  have hunits : productUnits amount rule.rate = a * r := by
    have hscaled : amount * rule.rate * 10 ^ 6 = (a * r : ℕ) := by
      rw [hproduct, mul_assoc]
      norm_num
    rw [productUnits, hscaled, Nat.floor_natCast]
  rw [hunits]
  refine ⟨hproduct, ?_⟩
  have hlt : ((a * r : ℕ) : ℚ) * 10 ^ (-6 : ℤ) < 10 ^ 16 :=
    hproduct ▸ (product_le ha hr).trans_lt ha.lt
  have hlt' : ((a * r : ℕ) : ℚ) < (10 ^ 22 : ℕ) := by
    norm_num at hlt ⊢
    linarith
  exact_mod_cast hlt'

theorem centsOf_inj {m n : ℕ} : (m : ℚ) * (1 / 100) = n * (1 / 100) ↔ m = n := by
  rw [mul_left_inj' (by norm_num)]
  exact Nat.cast_inj

/-- The cashback is the exact value, rounded once, unless it is rounded twice. -/
theorem cashback_eq_rounded_iff {amount : Decimal} {rule : Rule} (ha : ValidAmount amount)
    (hr : ValidRule rule) :
    cashbackOf amount rule = toDecimalPlaces (exactCashback amount rule) 2 ↔
      ¬ RoundsTwice amount rule := by
  obtain ⟨hproduct, hlt⟩ := product_units ha hr
  have hmul := decimalMul_units hproduct hlt
  unfold RoundsTwice
  rw [cashbackOf_eq, exactCashback, hmul, hproduct]
  generalize productUnits amount rule.rate = n at *
  cases hc : rule.cap with
  | none =>
    have hfree : ∀ cap, (none : Option Decimal) = some cap → (n : ℚ) * 10 ^ (-6 : ℤ) < cap := nofun
    rw [atMost, atMost, toDecimalPlaces_units, toDecimalPlaces_units, centsOf_inj,
      unitsToCents_mulUnits, and_iff_right hfree]
  | some cap =>
    obtain ⟨c, hcap, hmin⟩ := hr.cap_units hc
    rw [← hc, hmin, hmin, toDecimalPlaces_units, toDecimalPlaces_units, centsOf_inj]
    have hbelow : (∀ cap, rule.cap = some cap → (n : ℚ) * 10 ^ (-6 : ℤ) < cap) ↔ n < c * 10000 := by
      rw [hc]
      constructor
      · intro h
        have := h cap rfl
        rw [hcap] at this
        exact Nat.cast_lt.mp (lt_of_mul_lt_mul_right this (by positivity))
      · intro h _ heq
        rw [← Option.some_inj.mp heq, hcap]
        exact mul_lt_mul_of_pos_right (Nat.cast_lt.mpr h) (by positivity)
    rw [hbelow]
    by_cases hle : n < c * 10000
    · rw [min_eq_left (mulUnits_le hle.le), min_eq_left hle.le, unitsToCents_mulUnits,
        and_iff_right hle]
    · rw [min_eq_right (le_mulUnits (not_lt.mp hle)), min_eq_right (not_lt.mp hle)]
      exact iff_of_true rfl fun h => hle h.1

end CashbackLedger
