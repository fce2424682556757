import Mathlib.Algebra.Order.Floor.Ring
import Mathlib.Algebra.Order.Floor.Semifield
import Mathlib.Data.Int.Log
import Mathlib.Tactic.FieldSimp
import Mathlib.Tactic.Linarith
import Mathlib.Tactic.Positivity
import Mathlib.Tactic.Ring

/-
  Rounding to the nearest multiple of a unit, halves up.

  `nearest u q` is the multiple of `u` nearest to `q`, the larger one at equal distance. It is
  monotone and fixes the multiples of `u`; bounds by multiples follow from these two facts.

  `significant b n q` rounds a positive `q` to `n` digits in base `b`: the unit depends on `q`
  (`ulp`). It is monotone all the same, since the powers of `b` between two values with
  different units are fixed by both roundings.

  On multiples of a small unit `v`, rounding is division with remainder (`nearest_mul`).
-/

namespace CashbackLedger.Lib

variable {K : Type} [Field K]

/-- An integer multiple of `u`. -/
def IsMultiple (u q : K) : Prop := ∃ n : ℤ, q = n * u

theorem IsMultiple.zero (u : K) : IsMultiple u 0 := ⟨0, by rw [Int.cast_zero, zero_mul]⟩

theorem IsMultiple.trans {u v q : K} (h : IsMultiple v q) (hv : IsMultiple u v) :
    IsMultiple u q := by
  obtain ⟨n, rfl⟩ := h
  obtain ⟨m, rfl⟩ := hv
  exact ⟨n * m, by rw [Int.cast_mul, mul_assoc]⟩

variable [LinearOrder K]

/-- A non-negative multiple is a natural one. -/
theorem IsMultiple.exists_nat [IsStrictOrderedRing K] {u q : K} (h : IsMultiple u q) (hu : 0 < u)
    (hq : 0 ≤ q) : ∃ n : ℕ, q = n * u := by
  obtain ⟨n, rfl⟩ := h
  have hn : 0 ≤ n := Int.cast_nonneg_iff.mp (nonneg_of_mul_nonneg_left hq hu)
  obtain ⟨m, rfl⟩ := Int.eq_ofNat_of_zero_le hn
  exact ⟨m, by rw [Int.cast_natCast]⟩

/-- Two multiples are a unit apart. -/
theorem IsMultiple.add_le [IsStrictOrderedRing K] {u q r : K} (hu : 0 < u) (hq : IsMultiple u q)
    (hr : IsMultiple u r) (h : q < r) : q + u ≤ r := by
  obtain ⟨n, rfl⟩ := hq
  obtain ⟨m, rfl⟩ := hr
  have hnm : n + 1 ≤ m := Int.cast_lt.mp (lt_of_mul_lt_mul_right h hu.le)
  calc (n : K) * u + u = ((n + 1 : ℤ) : K) * u := by push_cast; ring
    _ ≤ m * u := mul_le_mul_of_nonneg_right (Int.cast_le.mpr hnm) hu.le

variable [FloorRing K]

/-- The multiple of `u` nearest to `q`, halves up. -/
def nearest (u q : K) : K := ⌊q / u + 1 / 2⌋ * u

theorem nearest_isMultiple (u q : K) : IsMultiple u (nearest u q) := ⟨_, rfl⟩

variable [IsStrictOrderedRing K]

section nearest

variable {u q r : K}

theorem nearest_mono (hu : 0 < u) (h : q ≤ r) : nearest u q ≤ nearest u r := by
  have hfloor : ⌊q / u + 1 / 2⌋ ≤ ⌊r / u + 1 / 2⌋ := by
    refine Int.floor_mono ?_
    gcongr
  exact mul_le_mul_of_nonneg_right (Int.cast_le.mpr hfloor) hu.le

theorem nearest_eq_of_isMultiple (hu : 0 < u) (h : IsMultiple u q) : nearest u q = q := by
  obtain ⟨n, rfl⟩ := h
  have hhalf : ⌊(1 / 2 : K)⌋ = 0 := Int.floor_eq_zero_iff.mpr ⟨by norm_num, by norm_num⟩
  rw [nearest, mul_div_cancel_right₀ _ hu.ne', Int.floor_intCast_add, hhalf, add_zero]

/-- A multiple above `q` is above its rounding. -/
theorem nearest_le (hu : 0 < u) (hr : IsMultiple u r) (h : q ≤ r) : nearest u q ≤ r :=
  (nearest_mono hu h).trans_eq (nearest_eq_of_isMultiple hu hr)

/-- A multiple below `q` is below its rounding. -/
theorem le_nearest (hu : 0 < u) (hq : IsMultiple u q) (h : q ≤ r) : q ≤ nearest u r :=
  (nearest_eq_of_isMultiple hu hq).symm.trans_le (nearest_mono hu h)

theorem nearest_nonneg (hu : 0 < u) (h : 0 ≤ q) : 0 ≤ nearest u q := le_nearest hu (.zero u) h

/-- Rounding moves a value by half a unit at most. -/
theorem abs_nearest_sub_le (hu : 0 < u) (q : K) : |nearest u q - q| ≤ u / 2 := by
  have hq : q = q / u * u := (div_mul_cancel₀ q hu.ne').symm
  have hle : (⌊q / u + 1 / 2⌋ : K) * u ≤ (q / u + 1 / 2) * u :=
    mul_le_mul_of_nonneg_right (Int.floor_le _) hu.le
  have hlt : (q / u + 1 / 2) * u < (⌊q / u + 1 / 2⌋ + 1) * u :=
    mul_lt_mul_of_pos_right (Int.lt_floor_add_one _) hu
  rw [add_mul, ← hq] at hle hlt
  rw [add_mul] at hlt
  rw [nearest, abs_le]
  constructor <;> linarith

end nearest

/-! ## Significant digits -/

section significant

variable {b : ℕ} {n : ℕ} {q r : K}

/-- The unit in the last place of `q` with `n` digits in base `b`. -/
def ulp (b n : ℕ) (q : K) : K := (b : K) ^ (Int.log b q - n + 1)

/-- Rounds to `n` digits in base `b`, halves up. -/
def significant (b n : ℕ) (q : K) : K := nearest (ulp b n q) q

omit [FloorRing K] in
theorem base_pos (hb : 1 < b) : (0 : K) < b := Nat.cast_pos.mpr (Nat.zero_lt_of_lt hb)

theorem ulp_pos (hb : 1 < b) (q : K) : 0 < ulp b n q := zpow_pos (base_pos hb) _

omit [FloorRing K] in
/-- A power of the base that is no smaller is a multiple of it. -/
theorem zpow_isMultiple (hb : 1 < b) {i j : ℤ} (h : i ≤ j) :
    IsMultiple ((b : K) ^ i) ((b : K) ^ j) := by
  obtain ⟨k, hk⟩ := Int.le.dest h
  refine ⟨(b : ℤ) ^ k, ?_⟩
  rw [← hk, zpow_add₀ (base_pos hb).ne', mul_comm]
  push_cast
  rw [zpow_natCast]

/-- The next power of the base is not exceeded by rounding. -/
theorem significant_le_zpow (hb : 1 < b) (q : K) :
    significant b n q ≤ (b : K) ^ (Int.log b q + 1) := by
  have hmultiple : IsMultiple (ulp b n q) ((b : K) ^ (Int.log b q + 1)) :=
    zpow_isMultiple hb (by omega)
  exact nearest_le (ulp_pos hb q) hmultiple (Int.lt_zpow_succ_log_self hb q).le

/-- The leading power of the base stays below. -/
theorem zpow_le_significant (hb : 1 < b) (hn : 0 < n) (hq : 0 < q) :
    (b : K) ^ Int.log b q ≤ significant b n q := by
  have hmultiple : IsMultiple (ulp b n q) ((b : K) ^ Int.log b q) :=
    zpow_isMultiple hb (by omega)
  exact le_nearest (ulp_pos hb q) hmultiple (Int.zpow_log_le_self hb hq)

theorem significant_mono (hb : 1 < b) (hn : 0 < n) (hq : 0 < q) (h : q ≤ r) :
    significant b n q ≤ significant b n r := by
  rcases (Int.log_mono_right (b := b) hq h).eq_or_lt with heq | hlt
  · have hulp : ulp b n q = ulp b n r := by rw [ulp, heq, ulp]
    rw [significant, hulp]
    exact nearest_mono (ulp_pos hb r) h
  · calc significant b n q ≤ (b : K) ^ (Int.log b q + 1) := significant_le_zpow hb q
      _ ≤ (b : K) ^ Int.log b r :=
          zpow_le_zpow_right₀ (Nat.one_le_cast.mpr hb.le) (Int.add_one_le_of_lt hlt)
      _ ≤ significant b n r := zpow_le_significant hb hn (hq.trans_le h)

/-- Below a power of the base, the unit is `n` places under it. -/
theorem ulp_le (hb : 1 < b) {k : ℤ} (hq : 0 < q) (h : q < (b : K) ^ k) :
    ulp b n q ≤ (b : K) ^ (k - n) := by
  have hlog : Int.log b q < k := (Int.lt_zpow_iff_log_lt hb hq).mp h
  exact zpow_le_zpow_right₀ (Nat.one_le_cast.mpr hb.le) (by omega)

/-- A value with at most `n` digits after its leading one is not changed. -/
theorem significant_eq (hb : 1 < b) {k : ℤ} (hq : 0 < q) (hmultiple : IsMultiple ((b : K) ^ k) q)
    (h : q < (b : K) ^ (k + n)) : significant b n q = q := by
  have hlog : Int.log b q < k + n := (Int.lt_zpow_iff_log_lt hb hq).mp h
  exact nearest_eq_of_isMultiple (ulp_pos hb q) (hmultiple.trans (zpow_isMultiple hb (by omega)))

end significant

/-! ## Multiples of a small unit -/

/-- Rounding `n` small units to a multiple of `m` of them. -/
theorem nearest_mul {v : K} (hv : 0 < v) {m : ℕ} (hm : 0 < m) (n : ℕ) :
    nearest (m * v) (n * v) = ((2 * n + m) / (2 * m) : ℕ) * (m * v) := by
  have hm' : (0 : K) < m := Nat.cast_pos.mpr hm
  have hquot : (n * v) / (m * v) + 1 / 2 = ((2 * n + m : ℕ) : K) / (2 * m : ℕ) := by
    push_cast
    field_simp
  have hfloor : ⌊((2 * n + m : ℕ) : K) / (2 * m : ℕ)⌋ = (((2 * n + m) / (2 * m) : ℕ) : ℤ) := by
    rw [← Nat.floor_div_eq_div (K := K), Int.natCast_floor_eq_floor (by positivity)]
  rw [nearest, hquot, hfloor, Int.cast_natCast]

/-- Rounding `n` units `b ^ j` to `d + 1` digits when `n` has `k` digits more. -/
theorem significant_mul {b d k n : ℕ} (hb : 1 < b) (j : ℤ) (hlo : b ^ (d + k) ≤ n)
    (hhi : n < b ^ (d + 1 + k)) :
    significant b (d + 1) ((n : K) * (b : K) ^ j) =
      ((2 * n + b ^ k) / (2 * b ^ k) : ℕ) * ((b ^ k : ℕ) * (b : K) ^ j) := by
  have hb' : (0 : K) < b := base_pos hb
  have hpow : ∀ i : ℕ, (b : K) ^ ((i : ℤ) + j) = (b ^ i : ℕ) * (b : K) ^ j := fun i => by
    rw [zpow_add₀ hb'.ne', zpow_natCast, Nat.cast_pow]
  have hunit : (0 : K) < (b : K) ^ j := zpow_pos hb' j
  have hq : (0 : K) < n * (b : K) ^ j :=
    mul_pos (Nat.cast_pos.mpr (lt_of_lt_of_le (Nat.pow_pos (Nat.zero_lt_of_lt hb)) hlo)) hunit
  have hge : ((d + k : ℕ) : ℤ) + j ≤ Int.log b ((n : K) * (b : K) ^ j) := by
    rw [← Int.zpow_le_iff_le_log hb hq, hpow]
    exact mul_le_mul_of_nonneg_right (Nat.cast_le.mpr hlo) hunit.le
  have hlt : Int.log b ((n : K) * (b : K) ^ j) < ((d + 1 + k : ℕ) : ℤ) + j := by
    rw [← Int.lt_zpow_iff_log_lt hb hq, hpow]
    exact mul_lt_mul_of_pos_right (Nat.cast_lt.mpr hhi) hunit
  have hulp : ulp b (d + 1) ((n : K) * (b : K) ^ j) = (b ^ k : ℕ) * (b : K) ^ j := by
    rw [← hpow, ulp]
    congr 1
    push_cast at hge hlt ⊢
    omega
  rw [significant, hulp]
  exact nearest_mul hunit (Nat.pow_pos (Nat.zero_lt_of_lt hb)) n

end CashbackLedger.Lib
