import CashbackLedger.Safety.Balance
import CashbackLedger.Safety.Refinement

/-
  What users are shown is covered by what they have paid.

  The balances of the books are those of the ledger (`Represents.balance`), so what holds of all
  books holds of what `getBalance` answers: it is never negative, never more than the user has paid
  for confirmed orders in the currency, and never falls from one read to a later one. A step moves
  the balance of one user in one currency at most, and only by the credit of a confirmed order that
  had none.
-/

namespace CashbackLedger

open Lib History Relation

/-- What a user has paid for confirmed orders in a currency. -/
def World.spent (w : World) (userId currency : String) : Decimal :=
  ((w.orders.rows.filter fun o => o.userId = userId ∧
    o.currency = currency ∧ o.status = .CONFIRMED).map
    Order.amount).sum

/-- The balance of a user in a currency. -/
def World.net (w : World) (userId currency : String) : Decimal :=
  netOf userId currency w.ledger.rows

section

/-- A sum over a list whose entries have different keys, by its keys. -/
theorem sum_map_eq_sum_keys {β κ M : Type*} [DecidableEq κ] [AddCommMonoid M] {l : List β}
    (key : β → κ) {v : β → M} {f : κ → M} {S : Finset κ} (hkeys : (l.map key).Nodup)
    (hS : ∀ k, k ∈ S ↔ ∃ x ∈ l, key x = k) (hf : ∀ x ∈ l, f (key x) = v x) :
    (l.map v).sum = ∑ k ∈ S, f k := by
  have hset : S = (l.map key).toFinset := by
    ext k
    rw [hS, List.mem_toFinset, List.mem_map]
  rw [hset, List.sum_toFinset f hkeys, List.map_map]
  exact congrArg List.sum (List.map_congr_left fun x hx => (hf x hx).symm)

variable {env : Env} {w : World} {b : CashbackBooks} {s s' : State} {userId currency : String}

theorem order_ids_nodup (t : Table Order) (p : Order → Bool) :
    ((t.rows.filter p).map Order.id).Nodup := by
  refine List.pairwise_map.mpr ((t.apart.filter p).imp fun {o o'} hapart hid => ?_)
  have hsame : Indexed.clash o o' = true := by simp [Indexed.clash, hid]
  rw [hsame] at hapart
  cases hapart

/-- Entries of one type are for different orders. -/
theorem entry_orders_nodup (t : Table LedgerEntry) (p : LedgerEntry → Bool) {type : LedgerEntryType}
    (hp : ∀ e, p e = true → e.type = type) : ((t.rows.filter p).map LedgerEntry.orderId).Nodup := by
  refine List.pairwise_map.mpr ?_
  refine (t.apart.filter p).imp_of_mem fun {e e'} he he' hapart hid => ?_
  have htype : e.type = e'.type :=
    (hp e (List.mem_filter.mp he).2).trans (hp e' (List.mem_filter.mp he').2).symm
  exact (clash_ledger.mp hapart).2 ⟨hid, htype⟩

/-- The balances of the ledger are those of the books. -/
theorem Represents.balance (h : Represents w b) (userId currency : String) :
    w.net userId currency = b.balance (userId, currency) := by
  have hdebits : amountsOf userId currency .DEBIT w.ledger.rows = [] := by
    refine List.map_eq_nil_iff.mpr (List.filter_eq_nil_iff.mpr fun e he hp => ?_)
    have htype := h.no_debit e he
    rw [(of_decide_eq_true hp).2.2] at htype
    cases htype
  rw [World.net, netOf, hdebits, List.sum_nil, sub_zero]
  refine sum_map_eq_sum_keys LedgerEntry.orderId ?_ (fun id => ?_) fun e he => ?_
  · exact entry_orders_nodup w.ledger _ fun e he => (of_decide_eq_true he).2.2
  · rw [Finset.mem_filter, h.credited]
    constructor
    · rintro ⟨⟨e, he, rfl, htype⟩, haccount⟩
      rw [h.account e he] at haccount
      obtain ⟨huser, hcurrency⟩ := Prod.mk.inj haccount
      exact ⟨e, List.mem_filter.mpr ⟨he, decide_eq_true ⟨huser, hcurrency, htype⟩⟩, rfl⟩
    · rintro ⟨e, he, rfl⟩
      obtain ⟨hm, hp⟩ := List.mem_filter.mp he
      obtain ⟨huser, hcurrency, htype⟩ := of_decide_eq_true hp
      refine ⟨⟨e, hm, rfl, htype⟩, ?_⟩
      rw [h.account e hm, LedgerEntry.account, huser, hcurrency]
  · exact h.credit e (List.mem_filter.mp he).1

theorem Represents.spent (h : Represents w b) (userId currency : String) :
    w.spent userId currency = b.spent (userId, currency) := by
  refine sum_map_eq_sum_keys Order.id (order_ids_nodup _ _) (fun id => ?_) fun o ho => ?_
  · rw [Finset.mem_filter]
    constructor
    · rintro ⟨hconf, haccount⟩
      obtain ⟨o, ho, rfl⟩ := (h.placed id).mp (b.confirmed_placed hconf)
      rw [h.purchase o ho] at haccount
      obtain ⟨huser, hcurrency⟩ := Prod.mk.inj haccount
      have hstatus := (h.confirmed o ho).mp hconf
      exact ⟨o, List.mem_filter.mpr ⟨ho, decide_eq_true ⟨huser, hcurrency, hstatus⟩⟩, rfl⟩
    · rintro ⟨o, ho, rfl⟩
      obtain ⟨hm, hp⟩ := List.mem_filter.mp ho
      obtain ⟨huser, hcurrency, hstatus⟩ := of_decide_eq_true hp
      refine ⟨(h.confirmed o hm).mpr hstatus, ?_⟩
      rw [h.purchase o hm, Order.purchase, Order.account, huser, hcurrency]
  · rw [h.purchase o (List.mem_filter.mp ho).1]
    rfl

/-- A read answers with the balance of the books. -/
theorem Represents.read (h : Represents w b) {rows : List BalanceRow} {now : Time}
    (hrows : rows.Perm (groupBy userId w.ledger.rows)) :
    (getBalance env userId rows now).balance =
      b.balance (userId, (getBalance env userId rows now).currency) :=
  (reports env now hrows).balance.trans (h.balance _ _)

/-- Where only valid requests are sent, a user is never shown a negative balance, nor more than they
    have paid for confirmed orders in the currency. -/
theorem balance_solvent (env : Env) (henv : DecimalText env) {s : State}
    (h : Reach (system env) Validated (· = initial) s) (userId : String) (rows : List BalanceRow)
    (now : Time) (hrows : rows.Perm (groupBy userId s.world.ledger.rows)) :
    0 ≤ (getBalance env userId rows now).balance ∧
      (getBalance env userId rows now).balance ≤
        s.world.spent userId (getBalance env userId rows now).currency := by
  obtain ⟨b, -, hb⟩ := represented henv h
  rw [hb.read hrows, hb.spent]
  exact ⟨b.balance_nonneg _, b.balance_le_spent _⟩

/-- After one credit the user is shown it, and has paid more. -/
theorem balance_solvent_run : ∃ s rows, (system (platform id)).run initial creditOnce = some s ∧
    0 < (getBalance (platform id) "user-1" rows 0).balance ∧
      (getBalance (platform id) "user-1" rows 0).balance ≤
        s.world.spent "user-1" (getBalance (platform id) "user-1" rows 0).currency := by
  have hrun : (((system (platform id)).run initial creditOnce).map fun s => decide
      (0 < (getBalance (platform id) "user-1" (groupBy "user-1" s.world.ledger.rows) 0).balance)) =
        some true := by decide +kernel
  obtain ⟨s, hs, hpos⟩ := Option.map_eq_some_iff.mp hrun
  have hvalid : ∀ lb ∈ creditOnce, validated lb = true := by decide +kernel
  have h0 : Reach (system (platform id)) Validated (· = initial) initial := .start rfl
  have hbound := balance_solvent (platform id) (platform_decimalText id)
    (h0.of_run creditOnce (fun lb hm _ => hvalid lb hm) hs) "user-1" _ 0 (.refl _)
  exact ⟨s, _, hs, of_decide_eq_true hpos, hbound.2⟩

/-! ## How balances change -/

/-- The balance of one user in one currency grows, by the credit of an order that had none. -/
structure CreditStep (w w' : World) (o : Order) (credit : Decimal) : Prop where
  stored : o ∈ w.orders
  confirmed : o.status = .CONFIRMED
  uncredited : ¬ w.HasCredit o.id
  nonneg : 0 ≤ credit
  le : credit ≤ o.amount
  net : ∀ userId currency, w'.net userId currency =
    if o.account = (userId, currency) then credit + w.net userId currency else w.net userId currency

theorem net_step (henv : DecimalText env) (h : Reach (system env) Validated (· = initial) s)
    {lb : Step} (hstep : (system env).step s lb = some s') :
    (∀ userId currency, s'.world.net userId currency = s.world.net userId currency) ∨
      ∃ o credit, CreditStep s.world s'.world o credit := by
  obtain ⟨b, -, hb⟩ := represented henv h
  obtain ⟨b', hsame | hbooks, hb'⟩ := represents_step henv h hb hstep
  · exact Or.inl fun userId currency => (hb'.balance _ _).trans (hb.balance _ _).symm
  · rcases Books.Step.balance_cases hbooks
      with hnone | ⟨id, hconf, hnew, credit, hnonneg, hle, hbalance⟩
    · refine Or.inl fun userId currency => ?_
      rw [hb'.balance, hb.balance, hnone]
    · obtain ⟨o, ho, rfl⟩ := (hb.placed id).mp (b.confirmed_placed hconf)
      rw [hb.purchase o ho] at hle hbalance
      refine Or.inr ⟨o, credit, ho, (hb.confirmed o ho).mp hconf, ?_, hnonneg, hle, ?_⟩
      · exact fun hcredit => hnew ((hb.credited o.id).mpr hcredit)
      · intro userId currency
        rw [hb'.balance, hb.balance]
        exact hbalance _

/-- A balance never falls along a run. -/
theorem net_mono (henv : DecimalText env) (h : Reach (system env) Validated (· = initial) s)
    (hrun : Reach (system env) Validated (· = s) s') (userId currency : String) :
    s.world.net userId currency ≤ s'.world.net userId currency := by
  obtain ⟨b, -, hb⟩ := represented henv h
  obtain ⟨b', hle, hb'⟩ := (books_simulate henv).rel
    (T := fun b b' : CashbackBooks => b.balance (userId, currency) ≤ b'.balance (userId, currency))
    (fun b => le_rfl) (fun _ _ _ => le_trans) (fun b b' hbooks => hbooks.balance_le _) hb
      (h.steps hrun)
  rw [hb.balance, hb'.balance]
  exact hle

/-- Where only valid requests are sent, a step changes the balance of one user in one currency at
    most, by the credit of a confirmed order that had none; and of two reads of one currency the
    later one never shows less. -/
theorem balance_grows (env : Env) (henv : DecimalText env) {s : State}
    (h : Reach (system env) Validated (· = initial) s) :
    (∀ lb s', (system env).step s lb = some s' →
      (∀ userId currency, s'.world.net userId currency = s.world.net userId currency) ∨
        ∃ o credit, CreditStep s.world s'.world o credit) ∧
    ∀ s', Reach (system env) Validated (· = s) s' → ∀ userId rows rows' now now',
      rows.Perm (groupBy userId s.world.ledger.rows) →
        rows'.Perm (groupBy userId s'.world.ledger.rows) →
      (getBalance env userId rows' now').currency = (getBalance env userId rows now).currency →
        (getBalance env userId rows now).balance ≤ (getBalance env userId rows' now').balance := by
  refine ⟨fun lb s' hstep => net_step henv h hstep, ?_⟩
  intro s' hrun userId rows rows' now now' hrows hrows' hcurrency
  have hread : (getBalance env userId rows now).balance = s.world.net userId _ :=
    (reports env now hrows).balance
  have hread' : (getBalance env userId rows' now').balance = s'.world.net userId _ :=
    (reports env now' hrows').balance
  rw [hread, hread', hcurrency]
  exact net_mono henv h hrun userId _

open Platform in
/-- The delivery of `creditOnce` up to its commit. -/
def beforeCommit : List Step :=
  createAndConfirm ++ publishEvent ++ .spawn 3 (.consume 0) :: serves 3 10

open Platform in
/-- The commit is such a step, and the balance read after it is not below the one before. -/
theorem balance_grows_run : ∃ s s' o credit,
    (system (platform id)).run initial beforeCommit = some s ∧
    (system (platform id)).step s (serve 3) = some s' ∧ CreditStep s.world s'.world o credit ∧
    s.world.net "user-1" "USD" ≤ s'.world.net "user-1" "USD" := by
  have hrun : (((system (platform id)).run initial beforeCommit).bind fun s =>
      ((system (platform id)).step s (serve 3)).map fun s' =>
        decide (s.world.net "user-1" "USD" = 0) && decide (s'.world.net "user-1" "USD" = 5)) =
        some true := by decide +kernel
  obtain ⟨s, hs, hnext⟩ := Option.bind_eq_some_iff.mp hrun
  obtain ⟨s', hs', hnets⟩ := Option.map_eq_some_iff.mp hnext
  obtain ⟨hzero, hfive⟩ := Bool.and_eq_true_iff.mp hnets
  have hvalid : ∀ lb ∈ beforeCommit, validated lb = true := by decide +kernel
  have h0 : Reach (system (platform id)) Validated (· = initial) initial := .start rfl
  have hreach := h0.of_run beforeCommit (fun lb hm _ => hvalid lb hm) hs
  have hle : s.world.net "user-1" "USD" ≤ s'.world.net "user-1" "USD" := by
    rw [of_decide_eq_true hzero, of_decide_eq_true hfive]
    norm_num
  rcases (balance_grows (platform id) (platform_decimalText id) hreach).1 (serve 3) s' hs' with
    hsame | ⟨o, credit, hcredit⟩
  · have hkept := hsame "user-1" "USD"
    rw [of_decide_eq_true hzero, of_decide_eq_true hfive] at hkept
    norm_num at hkept
  · exact ⟨s, s', o, credit, hs, hs', hcredit, hle⟩

end

end CashbackLedger
