import CashbackLedger.Lib.Rounding
import Mathlib.Data.Rat.Floor

/-
  Binary floating-point numbers and the decimals they print as.

  A format has a precision in bits and a smallest unit. `Format.round q` is the number of the format
  nearest to the rational `q`, ties to even; formats are unbounded above. It is monotone, and its
  values are its fixed points (`Format.round_round`).

  `Format.shortest d x` is the decimal of fewest digits, at most `d`, that rounds to `x`; of two
  with as few digits the one nearer to `x`. When the precision is below `d - 1` decimal digits, such
  a decimal exists (`exists_candidate`), so the number is read back from it (`round_shortest`). A
  decimal with few enough digits is printed again by the number it rounds to (`shortest_round`).
-/

namespace CashbackLedger.Lib

/-! ## Integers -/

/-- The nearest integer, the even one at equal distance. -/
def roundEven (q : ℚ) : ℤ := if q - ⌊q⌋ = 1 / 2 ∧ ⌊q⌋ % 2 = 0 then ⌊q⌋ else ⌊q + 1 / 2⌋

section

variable {q r : ℚ} {n : ℤ}

theorem roundEven_le_floor (q : ℚ) : roundEven q ≤ ⌊q + 1 / 2⌋ := by
  unfold roundEven
  split
  · exact Int.floor_mono (by linarith)
  · exact le_refl _

theorem abs_roundEven_sub_le (q : ℚ) : |(roundEven q : ℚ) - q| ≤ 1 / 2 := by
  unfold roundEven
  split
  · next h =>
    rw [abs_sub_comm, h.1, abs_of_pos (by norm_num)]
  · have hle := Int.floor_le (q + 1 / 2)
    have hlt := Int.lt_floor_add_one (q + 1 / 2)
    rw [abs_le]
    constructor <;> linarith

theorem roundEven_mono (h : q ≤ r) : roundEven q ≤ roundEven r := by
  rcases h.eq_or_lt with rfl | hlt
  · exact le_refl _
  · have hq := roundEven_le_floor q
    rw [roundEven.eq_def r]
    split
    · next hr =>
      -- `r` is halfway, and `q + 1 / 2` is still below the integer above it
      refine hq.trans (Int.lt_add_one_iff.mp (Int.floor_lt.mpr ?_))
      push_cast
      linarith [hr.1]
    · exact hq.trans (Int.floor_mono (by linarith))

theorem roundEven_intCast (n : ℤ) : roundEven (n : ℚ) = n := by
  have hhalf : ⌊(1 / 2 : ℚ)⌋ = 0 := by norm_num
  unfold roundEven
  rw [Int.floor_intCast, sub_self, if_neg (by norm_num), Int.floor_intCast_add, hhalf, add_zero]

theorem roundEven_eq (h : |q - n| < 1 / 2) : roundEven q = n := by
  have hround := abs_le.mp (abs_roundEven_sub_le q)
  have hnear := abs_lt.mp h
  have hlt : |((roundEven q - n : ℤ) : ℚ)| < 1 := by
    push_cast
    rw [abs_lt]
    constructor <;> linarith
  have hzero : roundEven q - n = 0 := Int.abs_lt_one_iff.mp (by exact_mod_cast hlt)
  omega

/-- The nearest integer is the one below or the one above. -/
theorem roundEven_cases (q : ℚ) : roundEven q = ⌊q⌋ ∨ roundEven q = ⌊q⌋ + 1 := by
  have hround := abs_le.mp (abs_roundEven_sub_le q)
  have hle := Int.floor_le q
  have hlt := Int.lt_floor_add_one q
  have hlow : ⌊q⌋ < roundEven q + 1 := by
    have h : (⌊q⌋ : ℚ) < roundEven q + 1 := by linarith
    exact_mod_cast h
  have hhigh : roundEven q < ⌊q⌋ + 2 := by
    have h : (roundEven q : ℚ) < ⌊q⌋ + 2 := by linarith
    exact_mod_cast h
  omega

end

/-! ## Formats -/

/-- A binary format: its precision in bits, and the exponent of its smallest unit. -/
structure Format where
  precision : ℕ
  minExp : ℤ
  precision_pos : 0 < precision

namespace Format

/-- The unit in the last place of a positive `q`. -/
def unit (F : Format) (q : ℚ) : ℚ := 2 ^ max (Int.log 2 q - F.precision + 1) F.minExp

/-- The number nearest to a `q` that is not negative. -/
def roundPos (F : Format) (q : ℚ) : ℚ := roundEven (q / F.unit q) * F.unit q

/-- The number nearest to `q`, ties to even. -/
def round (F : Format) (q : ℚ) : ℚ := if 0 ≤ q then F.roundPos q else -F.roundPos (-q)

section

variable {F : Format} {q r v x : ℚ}

theorem unit_pos (F : Format) (q : ℚ) : 0 < F.unit q := zpow_pos (by norm_num) _

theorem two_zpow_isMultiple {i j : ℤ} (h : i ≤ j) : IsMultiple ((2 : ℚ) ^ i) (2 ^ j) := by
  have h2 := zpow_isMultiple (K := ℚ) (b := 2) (by decide) h
  exact_mod_cast h2

theorem zpow_log_le (hq : 0 < q) : (2 : ℚ) ^ Int.log 2 q ≤ q := by
  have h := Int.zpow_log_le_self (b := 2) (by decide) hq
  exact_mod_cast h

theorem lt_zpow_log (q : ℚ) : q < (2 : ℚ) ^ (Int.log 2 q + 1) := by
  have h := Int.lt_zpow_succ_log_self (b := 2) (by decide) q
  exact_mod_cast h

theorem zpow_le_zpow {i j : ℤ} (h : i ≤ j) : (2 : ℚ) ^ i ≤ 2 ^ j :=
  zpow_le_zpow_right₀ (by norm_num) h

theorem zpow_div_pow_succ (m : ℤ) (n : ℕ) : (2 : ℚ) ^ m / 2 ^ (n + 1) = 2 ^ (m - n) / 2 := by
  rw [zpow_sub₀ (by norm_num), zpow_natCast, pow_succ, div_div]

/-- The larger of two values has the larger unit, and it is a multiple of the smaller one. -/
theorem unit_isMultiple (hq : 0 < q) (h : q ≤ r) : IsMultiple (F.unit q) (F.unit r) :=
  two_zpow_isMultiple (max_le_max_right _ (by have := Int.log_mono_right (b := 2) hq h; omega))

theorem roundPos_isMultiple (q : ℚ) : IsMultiple (F.unit q) (F.roundPos q) := ⟨_, rfl⟩

/-- A multiple of its own unit stays as it is. -/
theorem roundPos_eq_self (h : IsMultiple (F.unit q) q) : F.roundPos q = q := by
  obtain ⟨n, hn⟩ := h
  have hdiv : q / F.unit q = n := (div_eq_iff (F.unit_pos q).ne').mpr hn
  rw [roundPos, hdiv, roundEven_intCast, ← hn]

theorem roundPos_le (h : IsMultiple (F.unit q) r) (hqr : q ≤ r) : F.roundPos q ≤ r := by
  obtain ⟨n, rfl⟩ := h
  have hle : roundEven (q / F.unit q) ≤ n := by
    have hmono := roundEven_mono ((div_le_iff₀ (F.unit_pos q)).mpr hqr)
    rwa [roundEven_intCast] at hmono
  exact mul_le_mul_of_nonneg_right (Int.cast_le.mpr hle) (F.unit_pos q).le

theorem le_roundPos (h : IsMultiple (F.unit r) q) (hqr : q ≤ r) : q ≤ F.roundPos r := by
  obtain ⟨n, rfl⟩ := h
  have hle : n ≤ roundEven (r / F.unit r) := by
    have hmono := roundEven_mono ((le_div_iff₀ (F.unit_pos r)).mpr hqr)
    rwa [roundEven_intCast] at hmono
  exact mul_le_mul_of_nonneg_right (Int.cast_le.mpr hle) (F.unit_pos r).le

theorem roundPos_nonneg (h : 0 ≤ q) : 0 ≤ F.roundPos q := le_roundPos (.zero _) h

theorem roundPos_zero : F.roundPos 0 = 0 := roundPos_eq_self (.zero _)

/-- Where the units differ, a power of two that both roundings fix lies between the values. -/
theorem unit_lt (h : F.unit q < F.unit r) :
    q ≤ 2 ^ Int.log 2 r ∧ IsMultiple (F.unit q) ((2 : ℚ) ^ Int.log 2 r) ∧
      IsMultiple (F.unit r) ((2 : ℚ) ^ Int.log 2 r) := by
  have hexp := (zpow_lt_zpow_iff_right₀ (by norm_num : (1 : ℚ) < 2)).mp h
  have hprecision := F.precision_pos
  refine ⟨(lt_zpow_log q).le.trans (zpow_le_zpow ?_),
    two_zpow_isMultiple ?_, two_zpow_isMultiple ?_⟩ <;> omega

theorem roundPos_mono (hq : 0 ≤ q) (h : q ≤ r) : F.roundPos q ≤ F.roundPos r := by
  rcases hq.eq_or_lt with rfl | hq
  · rw [roundPos_zero]
    exact roundPos_nonneg h
  by_cases hunit : F.unit q < F.unit r
  · obtain ⟨hle, hmultiple, hmultiple'⟩ := unit_lt hunit
    exact (roundPos_le hmultiple hle).trans (le_roundPos hmultiple' (zpow_log_le (hq.trans_le h)))
  · have heq : F.unit q = F.unit r := by
      obtain ⟨n, hn⟩ := unit_isMultiple (F := F) hq h
      have hpos : 0 < n := by
        have hprod : 0 < (n : ℚ) * F.unit q := hn ▸ F.unit_pos r
        exact_mod_cast pos_of_mul_pos_left hprod (F.unit_pos q).le
      refine le_antisymm ?_ (not_lt.mp hunit)
      rw [hn]
      exact le_mul_of_one_le_left (F.unit_pos q).le (by exact_mod_cast hpos)
    rw [roundPos, roundPos, heq]
    refine mul_le_mul_of_nonneg_right (Int.cast_le.mpr (roundEven_mono ?_)) (F.unit_pos r).le
    exact div_le_div_of_nonneg_right h (F.unit_pos r).le

/-- What was rounded is a number of the format. -/
theorem roundPos_roundPos (hq : 0 ≤ q) : F.roundPos (F.roundPos q) = F.roundPos q := by
  rcases (roundPos_nonneg (F := F) hq).eq_or_lt with hzero | hpos
  · rw [← hzero, roundPos_zero]
  refine roundPos_eq_self ?_
  by_cases hunit : F.unit q < F.unit (F.roundPos q)
  · -- `q` was rounded up to the power of two above it
    obtain ⟨hle, hmultiple, hmultiple'⟩ := unit_lt hunit
    have heq := le_antisymm (roundPos_le hmultiple hle) (zpow_log_le hpos)
    exact (congrArg (IsMultiple (F.unit (F.roundPos q))) heq).mpr hmultiple'
  · have hexp := mt (zpow_lt_zpow_iff_right₀ (by norm_num : (1 : ℚ) < 2)).mpr hunit
    exact (roundPos_isMultiple q).trans (two_zpow_isMultiple (not_lt.mp hexp))

theorem abs_roundPos_sub_le (q : ℚ) : |F.roundPos q - q| ≤ F.unit q / 2 := by
  have hq : q = q / F.unit q * F.unit q := (div_mul_cancel₀ q (F.unit_pos q).ne').symm
  have hmul : F.roundPos q - q = (roundEven (q / F.unit q) - q / F.unit q) * F.unit q := by
    rw [sub_mul, ← hq, roundPos]
  rw [hmul, abs_mul, abs_of_pos (F.unit_pos q)]
  have h := mul_le_mul_of_nonneg_right (abs_roundEven_sub_le (q / F.unit q)) (F.unit_pos q).le
  linarith

/-- The relative error, above the range in which the smallest unit counts. -/
theorem abs_roundPos_sub_le_mul (hq : (2 : ℚ) ^ (F.minExp + F.precision - 1) ≤ q) :
    |F.roundPos q - q| ≤ q / 2 ^ F.precision := by
  have hpos : 0 < q := lt_of_lt_of_le (zpow_pos (by norm_num) _) hq
  have hlog : F.minExp + F.precision - 1 ≤ Int.log 2 q :=
    (Int.zpow_le_iff_le_log (b := 2) (by decide) hpos).mp (by exact_mod_cast hq)
  have hunit : F.unit q = 2 ^ Int.log 2 q / 2 ^ F.precision * 2 := by
    rw [unit, max_eq_left (by omega), zpow_add₀ (by norm_num),
      zpow_sub₀ (by norm_num), zpow_natCast, zpow_one]
  refine (abs_roundPos_sub_le q).trans ?_
  rw [hunit, mul_div_cancel_right₀ _ (by norm_num)]
  exact div_le_div_of_nonneg_right (zpow_log_le hpos) (by positivity)

/-- What a value near a multiple of its unit is rounded to. -/
theorem roundPos_eq (hmultiple : IsMultiple (F.unit v) x) (h : |v - x| < F.unit v / 2) :
    F.roundPos v = x := by
  obtain ⟨n, rfl⟩ := hmultiple
  have hpos := F.unit_pos v
  have hnear : |v / F.unit v - n| < 1 / 2 := by
    have hdiv : v / F.unit v - n = (v - n * F.unit v) / F.unit v := by
      rw [sub_div, mul_div_cancel_right₀ _ hpos.ne']
    rw [hdiv, abs_div, abs_of_pos hpos, div_lt_iff₀ hpos]
    linarith
  rw [roundPos, roundEven_eq hnear]

/-- A number of the format is what values round to that are nearer than half a unit below it. -/
theorem roundPos_eq_of_near (hx : 0 < x) (hnumber : F.roundPos x = x)
    (h : |v - x| < x / 2 ^ (F.precision + 1)) : F.roundPos v = x := by
  have hmultiple : IsMultiple (F.unit x) x := ⟨_, hnumber.symm⟩
  have hprecision := F.precision_pos
  have hlow := zpow_log_le hx
  have hhigh := lt_zpow_log x
  have hquarter : x / 2 ^ (F.precision + 1) ≤ x / 4 := by
    have hpow : (4 : ℚ) ≤ 2 ^ (F.precision + 1) := by
      have h2 : (2 : ℚ) ^ 2 ≤ 2 ^ (F.precision + 1) := pow_le_pow_right₀ (by norm_num) (by omega)
      linarith
    exact div_le_div_of_nonneg_left hx.le (by norm_num) hpow
  obtain ⟨hbelow, habove⟩ := abs_lt.mp h
  have hv : 0 < v := by linarith
  -- powers of two from the unit of `x` on are its multiples
  have hunit : IsMultiple (F.unit x) ((2 : ℚ) ^ Int.log 2 x) := by
    have hle : F.unit x ≤ x := by
      have hstep := IsMultiple.add_le (F.unit_pos x) (.zero _) hmultiple hx
      linarith
    have hexp := (Int.zpow_le_iff_le_log (b := 2) (by decide) hx).mp (by exact_mod_cast hle)
    exact two_zpow_isMultiple hexp
  have hhalf : x / 2 ^ (F.precision + 1) < F.unit x / 2 := by
    calc x / 2 ^ (F.precision + 1) < 2 ^ (Int.log 2 x + 1) / 2 ^ (F.precision + 1) :=
          div_lt_div_of_pos_right hhigh (by positivity)
      _ = 2 ^ (Int.log 2 x + 1 - F.precision) / 2 := zpow_div_pow_succ _ _
      _ ≤ F.unit x / 2 := div_le_div_of_nonneg_right
          (zpow_le_zpow (le_max_of_le_left (by omega))) (by norm_num)
  rcases lt_trichotomy (Int.log 2 v) (Int.log 2 x) with hlt | heq | hgt
  · -- `x` is the power of two above `v`, and the unit is half as large below it
    have hvlow : v < 2 ^ Int.log 2 x := (lt_zpow_log v).trans_le (zpow_le_zpow (by omega))
    have hpower : x = 2 ^ Int.log 2 x := by
      refine le_antisymm (not_lt.mp fun hlt' => ?_) hlow
      have hstep := IsMultiple.add_le (F.unit_pos x) hunit hmultiple hlt'
      linarith [F.unit_pos x]
    have hlog : Int.log 2 x - 1 ≤ Int.log 2 v := by
      refine (Int.zpow_le_iff_le_log (b := 2) (by decide) hv).mp ?_
      have hprev : (2 : ℚ) ^ (Int.log 2 x - 1) = 2 ^ Int.log 2 x / 2 :=
        zpow_sub_one₀ (by norm_num) _
      push_cast
      linarith
    refine roundPos_eq (hmultiple.trans (unit_isMultiple hv (by linarith))) (h.trans_le ?_)
    calc x / 2 ^ (F.precision + 1) = 2 ^ Int.log 2 x / 2 ^ (F.precision + 1) := by rw [← hpower]
      _ = 2 ^ (Int.log 2 x - F.precision) / 2 := zpow_div_pow_succ _ _
      _ ≤ F.unit v / 2 := div_le_div_of_nonneg_right
          (zpow_le_zpow (le_max_of_le_left (by omega))) (by norm_num)
  · have hsame : F.unit v = F.unit x := by rw [unit, heq, unit]
    exact roundPos_eq (hsame ▸ hmultiple) (hsame ▸ h.trans hhalf)
  · -- the power of two between them is more than half a unit away from `x`
    have hnext : IsMultiple (F.unit x) ((2 : ℚ) ^ (Int.log 2 x + 1)) :=
      (two_zpow_isMultiple (by omega)).trans hunit
    have hstep := IsMultiple.add_le (F.unit_pos x) hmultiple hnext hhigh
    have hle : (2 : ℚ) ^ (Int.log 2 x + 1) ≤ v := (zpow_le_zpow (by omega)).trans (zpow_log_le hv)
    linarith [F.unit_pos x]

/-! ### Values of either sign -/

theorem round_of_nonneg (h : 0 ≤ q) : F.round q = F.roundPos q := if_pos h

theorem round_zero : F.round 0 = 0 := (round_of_nonneg (le_refl _)).trans roundPos_zero

theorem round_neg (q : ℚ) : F.round (-q) = -F.round q := by
  rcases lt_trichotomy q 0 with hneg | rfl | hpos
  · rw [round, round, if_pos (by linarith), if_neg (by linarith), neg_neg]
  · rw [neg_zero, round_zero, neg_zero]
  · rw [round, round, if_neg (by linarith), if_pos hpos.le, neg_neg]

theorem round_nonneg (h : 0 ≤ q) : 0 ≤ F.round q :=
  (roundPos_nonneg h).trans_eq (round_of_nonneg h).symm

theorem round_mono (h : q ≤ r) : F.round q ≤ F.round r := by
  by_cases hq : 0 ≤ q
  · rw [round_of_nonneg hq, round_of_nonneg (hq.trans h)]
    exact roundPos_mono hq h
  · have hq' : 0 ≤ -q := by linarith
    rw [round, if_neg hq]
    by_cases hr : 0 ≤ r
    · exact (neg_nonpos.mpr (roundPos_nonneg hq')).trans (round_nonneg hr)
    · rw [round, if_neg hr]
      exact neg_le_neg (roundPos_mono (by linarith) (by linarith))

/-- The values of `round` are the numbers of the format. -/
theorem round_round (q : ℚ) : F.round (F.round q) = F.round q := by
  by_cases hq : 0 ≤ q
  · rw [round_of_nonneg hq, round_of_nonneg (roundPos_nonneg hq), roundPos_roundPos hq]
  · have hq' : 0 ≤ -q := by linarith
    rw [show q = -(-q) from (neg_neg q).symm, round_neg, round_neg, round_of_nonneg hq',
      round_of_nonneg (roundPos_nonneg hq'), roundPos_roundPos hq']

end

/-! ## The shortest decimal -/

/-- The unit of decimals with `k` digits near a positive `x`. -/
def digitUnit (x : ℚ) (k : ℕ) : ℚ := 10 ^ (Int.log 10 x + 1 - k)

/-- Of the two decimals with `k` digits next to `x`, the one that is rounded to `x`, or the nearer
    one where both are. -/
def candidate (F : Format) (x : ℚ) (k : ℕ) : Option ℚ :=
  let u := digitUnit x k
  let below := ⌊x / u⌋ * u
  let above := (⌊x / u⌋ + 1) * u
  if F.roundPos below = x then
    if F.roundPos above = x then some (roundEven (x / u) * u) else some below
  else if F.roundPos above = x then some above else none

/-- The first candidate from `k` digits on. -/
def shortestFrom (F : Format) (x : ℚ) : ℕ → ℕ → ℚ
  | _, 0 => x
  | k, n + 1 => (F.candidate x k).getD (F.shortestFrom x (k + 1) n)

/-- The shortest decimal of a number, with `d` digits at most. -/
def shortest (F : Format) (d : ℕ) (x : ℚ) : ℚ :=
  if 0 ≤ x then F.shortestFrom x 1 d else -F.shortestFrom (-x) 1 d

section

variable {F : Format} {c v x : ℚ} {d k n : ℕ} {j : ℤ}

theorem digitUnit_pos (x : ℚ) (k : ℕ) : 0 < digitUnit x k := zpow_pos (by norm_num) _

/-- What a candidate is. -/
structure IsCandidate (F : Format) (x : ℚ) (k : ℕ) (v : ℚ) : Prop where
  nonneg : 0 ≤ v
  multiple : IsMultiple (digitUnit x k) v
  rounds : F.roundPos v = x

theorem candidate_spec (hx : 0 ≤ x) (h : F.candidate x k = some v) : IsCandidate F x k v := by
  have hu := digitUnit_pos x k
  have hfloor : 0 ≤ ⌊x / digitUnit x k⌋ := Int.floor_nonneg.mpr (div_nonneg hx hu.le)
  have hfloor' : (0 : ℚ) ≤ ⌊x / digitUnit x k⌋ := Int.cast_nonneg_iff.mpr hfloor
  have habove : IsMultiple (digitUnit x k) ((⌊x / digitUnit x k⌋ + 1) * digitUnit x k) :=
    ⟨⌊x / digitUnit x k⌋ + 1, by push_cast; rfl⟩
  unfold candidate at h
  dsimp only at h
  split at h
  · next hlow =>
    split at h
    · next hhigh =>
      obtain rfl := Option.some_inj.mp h
      rcases roundEven_cases (x / digitUnit x k) with heq | heq <;> rw [heq]
      · exact ⟨mul_nonneg hfloor' hu.le, ⟨_, rfl⟩, hlow⟩
      · push_cast
        exact ⟨mul_nonneg (by linarith) hu.le, habove, hhigh⟩
    · obtain rfl := Option.some_inj.mp h
      exact ⟨mul_nonneg hfloor' hu.le, ⟨_, rfl⟩, hlow⟩
  · split at h
    · next hhigh =>
      obtain rfl := Option.some_inj.mp h
      exact ⟨mul_nonneg (by linarith) hu.le, habove, hhigh⟩
    · cases h

/-- Where some decimal with `k` digits is rounded to `x`, one next to `x` is. -/
theorem candidate_isSome (hx : 0 ≤ x) (hnumber : F.roundPos x = x) (hc : IsCandidate F x k c) :
    (F.candidate x k).isSome := by
  have hu := digitUnit_pos x k
  obtain ⟨hnonneg, ⟨n, rfl⟩, hrounds⟩ := hc
  have hside : F.roundPos (⌊x / digitUnit x k⌋ * digitUnit x k) = x ∨
      F.roundPos ((⌊x / digitUnit x k⌋ + 1) * digitUnit x k) = x := by
    have hlow : ⌊x / digitUnit x k⌋ * digitUnit x k ≤ x := (le_div_iff₀ hu).mp (Int.floor_le _)
    have hhigh : x ≤ (⌊x / digitUnit x k⌋ + 1) * digitUnit x k :=
      (div_le_iff₀ hu).mp (Int.lt_floor_add_one _).le
    by_cases hn : n ≤ ⌊x / digitUnit x k⌋
    · left
      have hle : (n : ℚ) * digitUnit x k ≤ ⌊x / digitUnit x k⌋ * digitUnit x k :=
        mul_le_mul_of_nonneg_right (Int.cast_le.mpr hn) hu.le
      refine le_antisymm ?_ ?_
      · exact (roundPos_mono (hnonneg.trans hle) hlow).trans_eq hnumber
      · exact hrounds.symm.trans_le (roundPos_mono hnonneg hle)
    · right
      have hle : (⌊x / digitUnit x k⌋ + 1) * digitUnit x k ≤ n * digitUnit x k := by
        refine mul_le_mul_of_nonneg_right ?_ hu.le
        exact_mod_cast (show ⌊x / digitUnit x k⌋ + 1 ≤ n by omega)
      refine le_antisymm ?_ ?_
      · exact (roundPos_mono (hx.trans hhigh) hle).trans_eq hrounds
      · exact hnumber.symm.trans_le (roundPos_mono hx hhigh)
  unfold candidate
  dsimp only
  split
  · split <;> rfl
  · next hlow =>
    rw [if_pos (hside.resolve_left hlow)]
    rfl

/-- The first candidate has no more digits than any other. -/
theorem shortestFrom_spec {i : ℕ} (hk : k ≤ i) (hi : i < k + n) (h : (F.candidate x i).isSome) :
    ∃ i' ≤ i, F.candidate x i' = some (F.shortestFrom x k n) := by
  induction n generalizing k with
  | zero => omega
  | succ n ih =>
    cases hc : F.candidate x k with
    | some v => exact ⟨k, hk, by rw [shortestFrom, hc]; rfl⟩
    | none =>
      have hne : k ≠ i := by
        rintro rfl
        rw [hc] at h
        cases h
      obtain ⟨i', hi', heq⟩ := ih (k := k + 1) (by omega) (by omega)
      exact ⟨i', hi', by rw [shortestFrom, hc]; exact heq⟩

/-- More digits than the precision has always suffice. -/
theorem exists_candidate (hd : 2 ^ F.precision < 10 ^ d) (hx : 0 < x) (hnumber : F.roundPos x = x) :
    (F.candidate x (d + 1)).isSome := by
  have hu := digitUnit_pos x (d + 1)
  have hlog : (10 : ℚ) ^ Int.log 10 x ≤ x := by
    have h := Int.zpow_log_le_self (b := 10) (by decide) hx
    exact_mod_cast h
  have hunit : digitUnit x (d + 1) = 10 ^ Int.log 10 x / 10 ^ d := by
    rw [digitUnit, ← zpow_natCast, ← zpow_sub₀ (by norm_num)]
    congr 1
    push_cast
    ring
  have hlt : digitUnit x (d + 1) / 2 < x / 2 ^ (F.precision + 1) := by
    have hd' : (2 : ℚ) ^ F.precision < 10 ^ d := by exact_mod_cast hd
    have hle : digitUnit x (d + 1) ≤ x / 10 ^ d := by
      rw [hunit]
      exact div_le_div_of_nonneg_right hlog (by positivity)
    have hless : x / 10 ^ d < x / 2 ^ F.precision := div_lt_div_of_pos_left hx (by positivity) hd'
    rw [pow_succ, ← div_div]
    linarith
  refine candidate_isSome hx.le hnumber ⟨nearest_nonneg hu hx.le, nearest_isMultiple _ _, ?_⟩
  exact roundPos_eq_of_near hx hnumber ((abs_nearest_sub_le hu x).trans_lt hlt)

theorem shortestFrom_isCandidate (hd : 2 ^ F.precision < 10 ^ d) (hx : 0 < x)
    (hnumber : F.roundPos x = x) : ∃ k ≤ d + 1, IsCandidate F x k (F.shortestFrom x 1 (d + 1)) := by
  obtain ⟨k, hk, hcandidate⟩ :=
    shortestFrom_spec (k := 1) (n := d + 1) (by omega) (by omega) (exists_candidate hd hx hnumber)
  exact ⟨k, hk, candidate_spec hx.le hcandidate⟩

theorem ten_zpow_isMultiple {i j : ℤ} (h : i ≤ j) : IsMultiple ((10 : ℚ) ^ i) (10 ^ j) := by
  have h10 := zpow_isMultiple (K := ℚ) (b := 10) (by decide) h
  exact_mod_cast h10

/-- The shortest decimal has no more places than any other decimal that is rounded to the number. -/
theorem shortestFrom_isMultiple (hd : 2 ^ F.precision < 10 ^ d) (hc : 0 ≤ c)
    (hmultiple : IsMultiple (10 ^ j) c) (hj : (10 : ℚ) ^ j ≤ F.roundPos c) :
    IsMultiple (10 ^ j) (F.shortestFrom (F.roundPos c) 1 (d + 1)) := by
  have hnumber := roundPos_roundPos (F := F) hc
  generalize hround : F.roundPos c = x at hj hnumber
  have hx : 0 < x := (zpow_pos (by norm_num) j).trans_le hj
  have hlog : j ≤ Int.log 10 x :=
    (Int.zpow_le_iff_le_log (b := 10) (by decide) hx).mp (by exact_mod_cast hj)
  -- with `i` digits, `c` is on the grid
  obtain ⟨i, hi⟩ : ∃ i : ℕ, (i : ℤ) = Int.log 10 x + 1 - j :=
    ⟨(Int.log 10 x + 1 - j).toNat, by omega⟩
  have hgrid : digitUnit x i = 10 ^ j := by rw [digitUnit, hi, sub_sub_cancel]
  have hsome := candidate_isSome hx.le hnumber ⟨hc, hgrid ▸ hmultiple, hround⟩
  obtain ⟨i', hi', hcandidate⟩ :
      ∃ i' ≤ i, F.candidate x i' = some (F.shortestFrom x 1 (d + 1)) := by
    by_cases hle : i ≤ d + 1
    · exact shortestFrom_spec (by omega) (by omega) hsome
    · obtain ⟨i', hi', heq⟩ :=
        shortestFrom_spec (k := 1) (n := d + 1)
          (by omega) (by omega) (exists_candidate hd hx hnumber)
      exact ⟨i', by omega, heq⟩
  refine (candidate_spec hx.le hcandidate).multiple.trans ?_
  exact ten_zpow_isMultiple (by omega)

/-- A decimal with few enough digits is the shortest one of the number it is rounded to. -/
theorem shortestFrom_roundPos (hd : 2 ^ F.precision < 10 ^ d) {digits : ℕ}
    (hdigits : 4 * 10 ^ digits ≤ 2 ^ F.precision) (hmultiple : IsMultiple (10 ^ j) c)
    (hlow : (10 : ℚ) ^ j ≤ c) (hhigh : c < 10 ^ (j + digits)) (hj : (10 : ℚ) ^ j ≤ F.roundPos c)
    (hnormal : (2 : ℚ) ^ (F.minExp + F.precision - 1) ≤ 10 ^ j) :
    F.shortestFrom (F.roundPos c) 1 (d + 1) = c := by
  have hunit : (0 : ℚ) < 10 ^ j := zpow_pos (by norm_num) j
  have hc : 0 < c := hunit.trans_le hlow
  have hx : 0 < F.roundPos c := hunit.trans_le hj
  obtain ⟨k, -, hv⟩ := shortestFrom_isCandidate hd hx (roundPos_roundPos hc.le)
  have hmultiple' := shortestFrom_isMultiple hd hc.le hmultiple hj
  generalize F.shortestFrom (F.roundPos c) 1 (d + 1) = v at hv hmultiple'
  have hvpos : 0 < v := by
    refine hv.nonneg.lt_of_ne fun h => ?_
    have hzero := hv.rounds
    rw [← h, roundPos_zero] at hzero
    exact hx.ne hzero
  have hvlow : (10 : ℚ) ^ j ≤ v := by
    have hstep := IsMultiple.add_le hunit (.zero _) hmultiple' hvpos
    linarith
  -- both are within their relative errors of the number
  have herr := abs_le.mp (abs_roundPos_sub_le_mul (hnormal.trans hlow))
  have herr' := abs_le.mp (abs_roundPos_sub_le_mul (hnormal.trans hvlow))
  rw [hv.rounds] at herr'
  have hpow : (4 : ℚ) * 10 ^ digits ≤ 2 ^ F.precision := by exact_mod_cast hdigits
  have hfour : (4 : ℚ) ≤ 2 ^ F.precision := by
    have hone : (1 : ℚ) ≤ 10 ^ digits := one_le_pow₀ (by norm_num)
    linarith
  have hcquarter : c / 2 ^ F.precision ≤ c / 4 :=
    div_le_div_of_nonneg_left hc.le (by norm_num) hfour
  have hvquarter : v / 2 ^ F.precision ≤ v / 4 :=
    div_le_div_of_nonneg_left hvpos.le (by norm_num) hfour
  have hsum : v / 2 ^ F.precision + c / 2 ^ F.precision ≤ 4 * c / 2 ^ F.precision := by
    rw [← add_div]
    exact div_le_div_of_nonneg_right (by linarith) (by positivity)
  have hless : 4 * c / 2 ^ F.precision < 10 ^ j := by
    rw [div_lt_iff₀ (by positivity)]
    calc 4 * c < 4 * (10 ^ j * 10 ^ digits) := by
          rw [← zpow_natCast (10 : ℚ) digits, ← zpow_add₀ (by norm_num)]
          linarith
      _ = 10 ^ j * (4 * 10 ^ digits) := by ring
      _ ≤ 10 ^ j * 2 ^ F.precision := mul_le_mul_of_nonneg_left hpow hunit.le
  rcases lt_trichotomy v c with hlt | heq | hgt
  · have hstep := IsMultiple.add_le hunit hmultiple' hmultiple hlt
    linarith
  · exact heq
  · have hstep := IsMultiple.add_le hunit hmultiple hmultiple' hgt
    linarith

/-! ### Values of either sign -/

theorem shortest_of_nonneg (hx : 0 ≤ x) : F.shortest d x = F.shortestFrom x 1 d := if_pos hx

theorem shortest_zero : F.shortest (d + 1) 0 = 0 := by
  have hcandidate : F.candidate 0 1 = some 0 := by
    have heven : roundEven 0 = 0 := roundEven_intCast 0
    simp [candidate, roundPos_zero, heven]
  rw [shortest_of_nonneg (le_refl _), shortestFrom, hcandidate]
  rfl

/-- A number is read back from its shortest decimal. -/
theorem round_shortest (hd : 2 ^ F.precision < 10 ^ d) (hnumber : F.round x = x) :
    F.round (F.shortest (d + 1) x) = x := by
  have hpos : ∀ {x : ℚ}, 0 < x → F.round x = x → F.round (F.shortestFrom x 1 (d + 1)) = x := by
    intro x hx hnumber
    rw [round_of_nonneg hx.le] at hnumber
    obtain ⟨k, -, hv⟩ := shortestFrom_isCandidate hd hx hnumber
    rw [round_of_nonneg hv.nonneg]
    exact hv.rounds
  rcases lt_trichotomy x 0 with hneg | rfl | hx
  · have hnumber' : F.round (-x) = -x := by rw [round_neg, hnumber]
    rw [shortest, if_neg (not_le.mpr hneg), round_neg, hpos (by linarith) hnumber', neg_neg]
  · rw [shortest_zero, round_zero]
  · rw [shortest_of_nonneg hx.le]
    exact hpos hx hnumber

/-- A number above that of a decimal is not printed below it. -/
theorem le_shortest (hd : 2 ^ F.precision < 10 ^ d) (hnumber : F.round x = x)
    (hc : F.shortest (d + 1) (F.round c) = c) (h : F.round c ≤ x) : c ≤ F.shortest (d + 1) x := by
  refine not_lt.mp fun hlt => ?_
  have hle := round_mono (F := F) hlt.le
  rw [round_shortest hd hnumber] at hle
  rw [le_antisymm hle h, hc] at hlt
  exact hlt.false

/-- A number below that of a decimal is not printed above it. -/
theorem shortest_le (hd : 2 ^ F.precision < 10 ^ d) (hnumber : F.round x = x)
    (hc : F.shortest (d + 1) (F.round c) = c) (h : x ≤ F.round c) : F.shortest (d + 1) x ≤ c := by
  refine not_lt.mp fun hlt => ?_
  have hle := round_mono (F := F) hlt.le
  rw [round_shortest hd hnumber] at hle
  rw [le_antisymm h hle, hc] at hlt
  exact hlt.false

end

end Format

end CashbackLedger.Lib
