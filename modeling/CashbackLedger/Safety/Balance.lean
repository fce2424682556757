import Mathlib.Algebra.BigOperators.Group.Finset.Basic
import Mathlib.Data.List.Dedup
import Mathlib.Tactic.Ring
import CashbackLedger.Model.Platform
import CashbackLedger.Model.Users

/-
  The cashback balance of a user.

  The balance reported is exact: credits minus debits in the reported currency (`balance_exact`).
  Of a user with several currencies only the first one of the query is reported, and the query
  has no order, so the report is determined by the ledger exactly when there is one currency.
-/

namespace CashbackLedger

open Lib

/-- The amounts of one type that a user has in a currency. -/
def amountsOf (userId currency : String) (type : LedgerEntryType)
    (ledger : List LedgerEntry) : List Decimal :=
  (ledger.filter fun e => e.userId = userId ∧
    e.currency = currency ∧ e.type = type).map LedgerEntry.amount

/-- CREDIT amounts minus DEBIT amounts of a user in a currency. -/
def netOf (userId currency : String) (ledger : List LedgerEntry) : Decimal :=
  (amountsOf userId currency .CREDIT ledger).sum - (amountsOf userId currency .DEBIT ledger).sum

/-- The response reports one currency of the user with its exact balance; SGD and 0 without
    entries. -/
structure Reports (userId : String) (ledger : List LedgerEntry) (b : BalanceResponse) : Prop where
  user : b.userId = userId
  balance : b.balance = netOf userId b.currency ledger
  currency : (∃ e ∈ ledger, e.userId = userId ∧ e.currency = b.currency) ∨
    (∀ e ∈ ledger, e.userId ≠ userId) ∧ b.currency = "SGD" ∧ b.balance = 0

section

variable {userId : String} {ledger : List LedgerEntry} {rows : List BalanceRow}

/-- The groups of a ledger. -/
def groupsOf (userId : String) (ledger : List LedgerEntry) : List (String × LedgerEntryType) :=
  ((ledger.filter fun e => e.userId = userId).map fun e => (e.currency, e.type)).dedup

/-- The row of a group. -/
def rowOf (userId : String) (ledger : List LedgerEntry)
    (g : String × LedgerEntryType) : BalanceRow :=
  { currency := g.1, type := g.2, sum := some (amountsOf userId g.1 g.2 ledger).sum }

theorem groupBy_eq :
    groupBy userId ledger = (groupsOf userId ledger).map (rowOf userId ledger) := by
  refine List.map_congr_left fun g _ => ?_
  unfold rowOf amountsOf
  simp only [List.filter_filter, Bool.decide_and, Bool.and_comm, Prod.ext_iff]

theorem mem_groupsOf {g : String × LedgerEntryType} :
    g ∈ groupsOf userId ledger ↔ ∃ e ∈ ledger, e.userId = userId ∧ (e.currency, e.type) = g := by
  unfold groupsOf
  rw [List.mem_dedup, List.mem_map]
  simp only [List.mem_filter, decide_eq_true_eq, and_assoc]

/-- A group without entries adds nothing. -/
theorem amountsOf_eq_nil {c : String} {t : LedgerEntryType} (h : (c, t) ∉ groupsOf userId ledger) :
    amountsOf userId c t ledger = [] := by
  refine List.map_eq_nil_iff.mpr (List.filter_eq_nil_iff.mpr fun e he hkey => h ?_)
  obtain ⟨huser, hcurrency, htype⟩ := of_decide_eq_true hkey
  exact mem_groupsOf.mpr ⟨e, he, huser, by rw [hcurrency, htype]⟩

theorem signed_rowOf (g : String × LedgerEntryType) :
    (rowOf userId ledger g).signed =
      (if g.2 = .CREDIT then 1 else -1) * (amountsOf userId g.1 g.2 ledger).sum := rfl

/-- The groups of a currency add up to its credits minus its debits. -/
theorem total_groupBy (c : String) :
    OrderedMap.total BalanceRow.currency BalanceRow.signed c (groupBy userId ledger) =
      netOf userId c ledger := by
  let f : String × LedgerEntryType → Decimal := fun g => (rowOf userId ledger g).signed
  have hrows : OrderedMap.total BalanceRow.currency BalanceRow.signed c (groupBy userId ledger) =
      (((groupsOf userId ledger).filter fun g => g.1 = c).map f).sum := by
    rw [OrderedMap.total, groupBy_eq, List.filter_map, List.map_map]
    rfl
  have hnodup : ((groupsOf userId ledger).filter fun g => g.1 = c).Nodup :=
    (List.nodup_dedup _).filter _
  have hsub : ((groupsOf userId ledger).filter fun g => g.1 = c).toFinset ⊆
      {(c, .CREDIT), (c, .DEBIT)} := by
    rintro ⟨c', t⟩ hg
    obtain rfl : c' = c := of_decide_eq_true (List.mem_filter.mp (List.mem_toFinset.mp hg)).2
    cases t with
    | CREDIT => exact Finset.mem_insert_self _ _
    | DEBIT => exact Finset.mem_insert_of_mem (Finset.mem_singleton_self _)
  have hzero : ∀ g ∈ ({(c, .CREDIT), (c, .DEBIT)} : Finset (String × LedgerEntryType)),
      g ∉ ((groupsOf userId ledger).filter fun g => g.1 = c).toFinset → f g = 0 := by
    rintro ⟨c', t⟩ hpair hg
    have hc : c' = c := by
      rcases Finset.mem_insert.mp hpair with h | h
      · exact congrArg Prod.fst h
      · exact congrArg Prod.fst (Finset.mem_singleton.mp h)
    have hnone : (c', t) ∉ groupsOf userId ledger := fun h =>
      hg (List.mem_toFinset.mpr (List.mem_filter.mpr ⟨h, decide_eq_true hc⟩))
    show (rowOf userId ledger (c', t)).signed = 0
    rw [signed_rowOf, amountsOf_eq_nil hnone, List.sum_nil, mul_zero]
  have hpair : f (c, .CREDIT) + f (c, .DEBIT) = netOf userId c ledger := by
    show (rowOf userId ledger _).signed + (rowOf userId ledger _).signed = _
    rw [signed_rowOf, signed_rowOf, netOf, if_pos rfl, if_neg nofun]
    ring
  rw [hrows, ← List.sum_toFinset f hnodup, Finset.sum_subset hsub hzero,
    Finset.sum_pair (by simp), hpair]

/-- The currency of the first row, with the total of all rows in it. -/
theorem first?_byCurrency (r : BalanceRow) (rows : List BalanceRow) :
    (byCurrency (r :: rows)).first? =
      some (r.currency, OrderedMap.total BalanceRow.currency BalanceRow.signed r.currency
        (r :: rows)) :=
  OrderedMap.first?_addUp_cons r rows

theorem getBalance_nil (env : Env) (now : Time) :
    getBalance env userId [] now =
      { userId := userId, currency := "SGD", balance := 0, asOf := env.isoText now } := rfl

/-- On an answer of the query that starts with `r`. -/
theorem getBalance_cons (env : Env) (now : Time) {r : BalanceRow}
    (h : (r :: rows).Perm (groupBy userId ledger)) :
    getBalance env userId (r :: rows) now =
      { userId := userId, currency := r.currency, balance := netOf userId r.currency ledger,
        asOf := env.isoText now } := by
  unfold getBalance
  rw [first?_byCurrency, OrderedMap.total_perm h, total_groupBy]

theorem groupBy_eq_nil : groupBy userId ledger = [] ↔ ∀ e ∈ ledger, e.userId ≠ userId := by
  rw [groupBy_eq, List.map_eq_nil_iff, List.eq_nil_iff_forall_not_mem]
  constructor
  · intro h e he huser
    exact h _ (mem_groupsOf.mpr ⟨e, he, huser, rfl⟩)
  · intro h g hg
    obtain ⟨e, he, huser, -⟩ := mem_groupsOf.mp hg
    exact h e he huser

theorem currency_of_mem {r : BalanceRow} (h : r ∈ groupBy userId ledger) :
    ∃ e ∈ ledger, e.userId = userId ∧ e.currency = r.currency := by
  rw [groupBy_eq] at h
  obtain ⟨g, hg, rfl⟩ := List.mem_map.mp h
  obtain ⟨e, he, huser, rfl⟩ := mem_groupsOf.mp hg
  exact ⟨e, he, huser, rfl⟩

theorem reports (env : Env) (now : Time) (h : rows.Perm (groupBy userId ledger)) :
    Reports userId ledger (getBalance env userId rows now) := by
  cases rows with
  | nil =>
    have hnone := groupBy_eq_nil.mp (List.nil_perm.mp h)
    have hempty : ∀ t, amountsOf userId "SGD" t ledger = [] := fun t =>
      amountsOf_eq_nil fun hg => by
        obtain ⟨e, he, huser, -⟩ := mem_groupsOf.mp hg
        exact hnone e he huser
    rw [getBalance_nil]
    refine ⟨rfl, ?_, Or.inr ⟨hnone, rfl, rfl⟩⟩
    show 0 = netOf userId "SGD" ledger
    rw [netOf, hempty, hempty, sub_self]
  | cons r rows =>
    rw [getBalance_cons env now h]
    exact ⟨rfl, rfl, Or.inl (currency_of_mem (h.mem_iff.mp List.mem_cons_self))⟩

end

end CashbackLedger
