import Mathlib.Data.List.DropRight
import Mathlib.Tactic.FieldSimp
import Mathlib.Tactic.NormNum
import Mathlib.Tactic.Ring
import CashbackLedger.Model.Platform

/-
  The platform reads a printed decimal as it was.

  `printDecimal` writes the whole part, then the fraction to twenty places without the zeros at
  its end; `readDecimal` puts the two together again (`readUnsigned_unsignedText`). Four places
  are what the columns hold (`platform_decimalText`). Dates are digits and separators.
-/

namespace CashbackLedger

namespace Platform

/-! ## Digits -/

theorem ofDigitChars_digits (width n : Nat) : Nat.ofDigitChars 10 (digits width n) 0 = n := by
  rw [digits, Nat.ofDigitChars_append, Nat.ofDigitChars_replicate_zero, Nat.mul_zero,
    Nat.ofDigitChars_ten_toDigits]

theorem isDigit_of_mem_digits {width n : Nat} {c : Char} (h : c ∈ digits width n) :
    c.isDigit = true := by
  rcases List.mem_append.mp h with h | h
  · rw [List.eq_of_mem_replicate h]
    rfl
  · exact Nat.isDigit_of_mem_toDigits (by decide) (by decide) h

theorem digits_ne_nil (width n : Nat) : digits width n ≠ [] :=
  List.append_ne_nil_of_right_ne_nil _ Nat.toDigits_ne_nil

theorem ne_of_isDigit {c d : Char} (hc : c.isDigit = true) (hd : d.isDigit = false) :
    (c != d) = true := by
  refine bne_iff_ne.mpr ?_
  rintro rfl
  rw [hc] at hd
  cases hd

theorem length_digits {width n : Nat} (hw : 0 < width) (hn : n < 10 ^ width) :
    (digits width n).length = width := by
  have hlen := (Nat.length_toDigits_le_iff (b := 10) (by decide) hw).mpr hn
  rw [digits, List.length_append, List.length_replicate]
  omega

theorem readDigits_eq {cs : List Char} (hne : cs ≠ []) (hall : ∀ c ∈ cs, c.isDigit = true) :
    readDigits cs = some (Nat.ofDigitChars 10 cs 0) := by
  have hcond : (cs ≠ [] && cs.all Char.isDigit) = true := by
    simpa [hne] using hall
  rw [readDigits, if_pos hcond, Nat.ofDigitChars_eq_foldl]

/-- Trimming removes zeros at the end only. -/
theorem trimZeros_append (cs : List Char) : ∃ k, cs = trimZeros cs ++ List.replicate k '0' := by
  refine ⟨(cs.rtakeWhile (· == '0')).length, ?_⟩
  have hzeros : cs.rtakeWhile (· == '0') = List.replicate (cs.rtakeWhile (· == '0')).length '0' :=
    List.eq_replicate_of_mem fun c hc =>
      beq_iff_eq.mp (List.mem_rtakeWhile_imp (p := (· == '0')) hc)
  rw [← hzeros]
  exact (List.rdropWhile_append_rtakeWhile (p := (· == '0'))).symm

theorem mem_of_mem_trimZeros {cs : List Char} {c : Char} (h : c ∈ trimZeros cs) : c ∈ cs := by
  obtain ⟨k, hk⟩ := trimZeros_append cs
  rw [hk]
  exact List.mem_append_left _ h

/-! ## Numbers -/

/-- The text of `scaled / 10 ^ places` without its sign. -/
def unsignedText (places scaled : Nat) : List Char :=
  let fraction := trimZeros (digits places (scaled % 10 ^ places))
  digits 1 (scaled / 10 ^ places) ++ if fraction = [] then [] else '.' :: fraction

/-- The fraction is read as it was before the zeros at its end were trimmed. -/
theorem fraction_value {places n : Nat} (hp : 0 < places) (hn : n < 10 ^ places) :
    (Nat.ofDigitChars 10 (trimZeros (digits places n)) 0 : ℚ) /
      10 ^ (trimZeros (digits places n)).length = n / 10 ^ places := by
  obtain ⟨k, hk⟩ := trimZeros_append (digits places n)
  have hlen : (trimZeros (digits places n)).length + k = places := by
    have h := congrArg List.length hk
    rw [length_digits hp hn, List.length_append, List.length_replicate] at h
    exact h.symm
  have hval : 10 ^ k * Nat.ofDigitChars 10 (trimZeros (digits places n)) 0 = n := by
    have h := ofDigitChars_digits places n
    rw [hk, Nat.ofDigitChars_append, Nat.ofDigitChars_replicate_zero] at h
    exact h
  have hval' : (n : ℚ) = 10 ^ k * (Nat.ofDigitChars 10 (trimZeros (digits places n)) 0 : ℕ) := by
    exact_mod_cast hval.symm
  generalize trimZeros (digits places n) = fraction at *
  rw [hval', ← hlen, pow_add]
  field_simp

theorem readUnsigned_unsignedText {places : Nat} (hp : 0 < places) (scaled : Nat) :
    readUnsigned (unsignedText places scaled) = some ((scaled : ℚ) / 10 ^ places) := by
  have hlt : scaled % 10 ^ places < 10 ^ places := Nat.mod_lt _ (Nat.pow_pos (by decide))
  have hfraction := fraction_value hp hlt
  have hdigit : ∀ c ∈ trimZeros (digits places (scaled % 10 ^ places)), c.isDigit = true :=
    fun c hc => isDigit_of_mem_digits (mem_of_mem_trimZeros hc)
  have hwhole : ∀ c ∈ digits 1 (scaled / 10 ^ places), (c != '.') = true := fun c hc =>
    ne_of_isDigit (isDigit_of_mem_digits hc) (by decide)
  have hread : readDigits (digits 1 (scaled / 10 ^ places)) = some (scaled / 10 ^ places) := by
    rw [readDigits_eq (digits_ne_nil _ _) fun c hc => isDigit_of_mem_digits hc,
      ofDigitChars_digits]
  have hsplit : (scaled : ℚ) / 10 ^ places =
      (scaled / 10 ^ places : ℕ) + (scaled % 10 ^ places : ℕ) / 10 ^ places := by
    have h : (scaled : ℚ) = (scaled / 10 ^ places : ℕ) * 10 ^ places +
        (scaled % 10 ^ places : ℕ) := by
      exact_mod_cast (Nat.div_add_mod' scaled (10 ^ places)).symm
    rw [div_eq_iff (by positivity), add_mul, div_mul_cancel₀ _ (by positivity)]
    exact h
  rw [hsplit, ← hfraction, unsignedText, readUnsigned, List.span_eq_takeWhile_dropWhile,
    List.takeWhile_append_of_pos hwhole, List.dropWhile_append_of_pos hwhole]
  generalize trimZeros (digits places (scaled % 10 ^ places)) = fraction at *
  by_cases hf : fraction = []
  · subst hf
    rw [if_pos rfl, List.takeWhile_nil, List.dropWhile_nil, List.append_nil]
    dsimp only
    rw [hread]
    simp
  · rw [if_neg hf, List.takeWhile_cons_of_neg (by decide), List.dropWhile_cons_of_neg (by decide),
      List.append_nil]
    dsimp only
    rw [hread, readDigits_eq hf hdigit]
    rfl

theorem readDecimal_unsigned {places : Nat} (hp : 0 < places) (scaled : Nat) :
    readDecimal (String.ofList (unsignedText places scaled)) =
      some ((scaled : ℚ) / 10 ^ places) := by
  have hread := readUnsigned_unsignedText hp scaled
  have hhead : ∀ c cs, unsignedText places scaled = c :: cs → c ≠ '-' := by
    intro c cs h
    obtain ⟨d, ds, hd⟩ := List.exists_cons_of_ne_nil (digits_ne_nil 1 (scaled / 10 ^ places))
    have hmem : c ∈ digits 1 (scaled / 10 ^ places) := by
      rw [unsignedText, hd, List.cons_append] at h
      rw [hd, (List.cons.inj h).1]
      exact List.mem_cons_self
    exact bne_iff_ne.mp (ne_of_isDigit (isDigit_of_mem_digits hmem) (by decide))
  rw [readDecimal, String.toList_ofList]
  split
  · next cs h => exact absurd rfl (hhead _ cs h)
  · exact hread

theorem printDecimal_eq {q : Decimal} {n : ℕ} (h : |q| = n / 10 ^ 20) :
    printDecimal q = String.ofList ((if q < 0 then ['-'] else []) ++ unsignedText 20 n) := by
  have hscaled : q.num.natAbs * 10 ^ 20 / q.den = n := by
    have hnum : (q.num.natAbs : ℚ) = |q| * q.den := by
      rw [Nat.cast_natAbs, Int.cast_abs, ← Rat.mul_den_eq_num, abs_mul, Nat.abs_cast]
    have hmul : q.num.natAbs * 10 ^ 20 = n * q.den := by
      have hq : (q.num.natAbs : ℚ) * 10 ^ 20 = n * q.den := by
        rw [hnum, h]
        field_simp
      exact_mod_cast hq
    rw [hmul, Nat.mul_div_cancel _ q.den_pos]
  rw [printDecimal, hscaled, List.append_assoc]
  rfl

/-- Up to four decimals are printed and read back. -/
theorem readDecimal_printDecimal (n : ℤ) :
    readDecimal (printDecimal ((n : ℚ) / 10 ^ 4)) = some ((n : ℚ) / 10 ^ 4) := by
  have habs : |(n : ℚ) / 10 ^ 4| = ((n.natAbs * 10 ^ 16 : ℕ) : ℚ) / 10 ^ 20 := by
    rw [abs_div, abs_of_pos (by positivity : (0 : ℚ) < 10 ^ 4), ← Int.cast_abs, ← Nat.cast_natAbs]
    push_cast
    norm_num
    ring
  rw [printDecimal_eq habs]
  split
  · next hneg =>
    have hplaces : 0 < 20 := by decide
    have hread := readUnsigned_unsignedText hplaces (n.natAbs * 10 ^ 16)
    rw [readDecimal, String.toList_ofList]
    show (readUnsigned (unsignedText 20 (n.natAbs * 10 ^ 16))).map _ = _
    rw [hread, ← habs, Option.map_some, abs_of_neg hneg, neg_neg]
  · next hpos =>
    rw [List.nil_append, readDecimal_unsigned (by decide), ← habs, abs_of_nonneg (not_lt.mp hpos)]

/-! ## Dates -/

theorem toNat_ne_zero_of_isDigit {c : Char} (h : c.isDigit = true) : c.toNat ≠ 0 := by
  intro hzero
  obtain rfl : c = Char.ofNat 0 := by rw [← hzero, Char.ofNat_toNat]
  cases h

theorem storableText_isoText (t : Time) : Json.storableText (isoText t) = true := by
  have hdigits : ∀ width n, ∀ c ∈ digits width n, c.toNat ≠ 0 := fun _ _ c hc =>
    toNat_ne_zero_of_isDigit (isDigit_of_mem_digits hc)
  refine List.all_eq_true.mpr fun c hc => bne_iff_ne.mpr ?_
  rw [isoText, String.toList_ofList] at hc
  simp only [List.mem_append, List.mem_cons, List.not_mem_nil, or_false, or_assoc] at hc
  rcases hc with h | rfl | h | rfl | h | rfl | h | rfl | h | rfl | h | rfl | h | rfl
  all_goals first
    | exact hdigits _ _ _ h
    | decide

end Platform

theorem platform_isoText (sha256 : String → String) : IsoText (platform sha256) :=
  Platform.storableText_isoText

theorem platform_decimalText (sha256 : String → String) : DecimalText (platform sha256) :=
  ⟨Platform.readDecimal_printDecimal, rfl⟩

end CashbackLedger
