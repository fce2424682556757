import CashbackLedger.Safety.Cashback
import CashbackLedger.Safety.Crediting

/-
  The amount of the entry that crediting writes.

  Both handlers write `cashbackOf` of the order and the current rule, which the column stores as it
  is. So the entry holds the exact cashback, rounded once to cents, if and only if the product is
  not rounded twice (`credit_amount`).
-/

namespace CashbackLedger

open Lib

section

variable {env : Env} {p : Pid} {sur : Surroundings} {w : World} {x : Option Json} {o : Order}

theorem creditOutcome_eq_ok {d : LedgerData} (h : creditOutcome env p w x = some (.ok d)) :
    ∃ o, w.orderOf env x = some o ∧ o.status = .CONFIRMED ∧
      d = creditData o (cashbackOf o.amount (w.ruleOf o.merchantId)) := by
  unfold creditOutcome at h
  split at h
  · cases h
  split at h
  · cases h
  · next order hguard =>
    obtain ⟨hfound, hstatus⟩ := guardOrder_ok hguard
    refine ⟨order, hfound, hstatus, ?_⟩
    unfold insertOutcome at h
    split at h
    · cases h
    split at h
    · cases h
    split at h
    · cases h
    · exact (Except.ok.inj (Option.some_inj.mp h)).symm

theorem creditOutcome_ok (ho : w.orderOf env x = some o) (hstatus : o.status = .CONFIRMED)
    (hfree : ∀ touches, w.lockedByOther p touches = false)
    (hnew : ∀ e ∈ w.ledger, ¬ (e.orderId = o.id ∧ e.type = .CREDIT))
    (hstored : storeNumeric 18 2 (cashbackOf o.amount (w.ruleOf o.merchantId)) =
      some (cashbackOf o.amount (w.ruleOf o.merchantId))) :
    ∃ d, creditOutcome env p w x = some (.ok d) := by
  have hany : (w.ledger.any fun e => e.orderId == o.id && e.type == .CREDIT) = false := by
    refine Bool.eq_false_iff.mpr fun h => ?_
    obtain ⟨e, he, hkey⟩ := Table.any_iff.mp h
    exact hnew e he (by simpa using hkey)
  have hguard : guardOrder env x (w.orderOf env x) = .ok o := by
    rw [ho]
    exact guardOrder_confirmed hstatus
  refine ⟨creditData o (cashbackOf o.amount (w.ruleOf o.merchantId)), ?_⟩
  unfold creditOutcome
  split
  · next hid =>
    rw [World.orderOf, hid] at ho
    cases ho
  · rw [hguard]
    dsimp only
    unfold insertOutcome
    have hamount : (creditData o (cashbackOf o.amount (w.ruleOf o.merchantId))).amount =
        cashbackOf o.amount (w.ruleOf o.merchantId) := rfl
    rw [hamount, hstored]
    dsimp only
    rw [hfree, if_neg (by decide)]
    exact if_neg (Bool.eq_false_iff.mp hany)

/-- The amount that a run writes is the exact cashback rounded once, unless it is rounded twice. -/
theorem Refines.amount {run : Option ((World × Nat) × Except Fault (CreditResult × Time))}
    (h : Refines w (creditOutcome env p w x) run) (ho : w.orderOf env x = some o)
    (ha : ValidAmount o.amount) (hr : ValidRule (w.ruleOf o.merchantId)) {y : World × Nat}
    {res : CreditResult × Time} (hrun : run = some (y, .ok res)) :
    ∃ entry, w.ledger.insert? entry = some y.1.ledger ∧
      entry.orderId = o.id ∧ entry.type = .CREDIT ∧
      (entry.amount = toDecimalPlaces (exactCashback o.amount (w.ruleOf o.merchantId)) 2 ↔
        ¬ RoundsTwice o.amount (w.ruleOf o.merchantId)) := by
  subst hrun
  cases hout : creditOutcome env p w x with
  | none =>
    rw [hout] at h
    exact h.elim
  | some outcome =>
    rw [hout] at h
    obtain ⟨d, entry, rfl, ⟨-, horder, htype, hstored, -⟩, added, -⟩ := h
    obtain ⟨o', ho', -, rfl⟩ := creditOutcome_eq_ok hout
    cases ho.symm.trans ho'
    have hamount : entry.amount = cashbackOf o.amount (w.ruleOf o.merchantId) :=
      Option.some_inj.mp (hstored.symm.trans (cashback_stored ha hr))
    refine ⟨entry, added, horder, htype, ?_⟩
    rw [hamount]
    exact cashback_eq_rounded_iff ha hr

theorem Refines.ends {run : Option ((World × Nat) × Except Fault (CreditResult × Time))}
    {d : LedgerData} (h : Refines w (creditOutcome env p w x) run)
    (hout : creditOutcome env p w x = some (.ok d)) : ∃ y res, run = some (y, .ok res) := by
  rw [hout] at h
  match run, h with
  | some (y, .ok res), _ => exact ⟨y, res, rfl⟩
  | some (y, .error e), h => cases h.1

end

/-! ## Ten quadrillion at 99.99 % -/

end CashbackLedger
