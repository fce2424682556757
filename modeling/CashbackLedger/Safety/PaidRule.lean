import CashbackLedger.Safety.Ledger
import CashbackLedger.Safety.RuleReads
import CashbackLedger.Safety.ValidRules

/-
  The rule behind a credit.

  Rules are read from a cache that may be stale and are updated while events are handled. Whatever
  fails and however the processes are interleaved, an entry of the ledger still pays its order under
  a rule that the order's merchant really had: the row of its table, or the default where it had no
  row, in one of the tables that the run went through up to the commit (`credits_pay_a_real_rule`).
  The entries that a merchant may be given at a state are those of the tables before it
  (`OnceRead`), and they only become more.
-/

namespace CashbackLedger

open Lib History

/-- Nothing has happened yet. -/
def FromScratch (s : State) (tables : List (Table CashbackRule)) : Prop :=
  s = initial ∧ tables = [s.world.rules]

/-- A run of the platform with the rule tables it goes through. -/
abbrev RunTables (env : Env) : State → List (Table CashbackRule) → Prop :=
  Traced (system env) ruleTables (fun _ _ _ => True) FromScratch

/-- The entry is read as the rule of the merchant in one of the tables. -/
def OnceRead (env : Env) (tables : List (Table CashbackRule)) : EntriesOf := fun m entry =>
  ∃ t ∈ tables, toDecimalRule env entry = .ok (ruleOf (ruleRow t m))

/-- The entry pays a confirmed order under the rule of its merchant in one of the tables. -/
def LedgerEntry.Paid (w : World) (tables : List (Table CashbackRule))
    (entry : LedgerEntry) : Prop :=
  ∃ o ∈ w.orders, o.status = .CONFIRMED ∧ CreditOf entry o ∧ entry.type = .CREDIT ∧
    ∃ t ∈ tables,
      storeNumeric 18 2 (cashbackOf o.amount (ruleOf (ruleRow t o.merchantId))) = some entry.amount

/-- The cache and the processes know rules of the tables only, and the ledger was paid under
    such. -/
structure PaidSound (env : Env) (s : State) (tables : List (Table CashbackRule)) : Prop where
  current : s.world.rules ∈ tables
  fits : s.world.RulesFit
  cache : CacheHolds (OnceRead env tables) s.world.redis
  told : ∀ p pr, s.proc p = some pr → Told env (OnceRead env tables) pr.log
  paid : ∀ entry ∈ s.world.ledger, entry.Paid s.world tables

section

variable {env : Env} {w w' : World} {l : History} {s s' : State} {entry : LedgerEntry} {lb : Step}
  {V : EntriesOf} {m : String} {cached : CachedCashbackRule} {tables : List (Table CashbackRule)}

theorem OnceRead.cons (h : OnceRead env tables m cached) (t : Table CashbackRule) :
    OnceRead env (t :: tables) m cached := by
  obtain ⟨t', ht', hread⟩ := h
  exact ⟨t', List.mem_cons_of_mem t ht', hread⟩

theorem LedgerEntry.Paid.next (h : entry.Paid w tables) (hw : w.Extends w')
    (t : Table CashbackRule) : entry.Paid w' (t :: tables) := by
  obtain ⟨o, ho, hstatus, hcredit, htype, t', ht', hamount⟩ := h
  obtain ⟨o', ho', hcore, hkept⟩ := hw.orders o ho
  obtain ⟨-, -, hmerchant, hprice, -, -⟩ := Order.of_core hcore
  refine ⟨o', ho', hkept hstatus, hcredit.of_core hcore, htype, t', List.mem_cons_of_mem t ht', ?_⟩
  rw [hmerchant, hprice]
  exact hamount

/-- What the database holds now is in one of the tables. -/
theorem PaidSound.table (h : PaidSound env s tables) (henv : DecimalText env) :
    TableHolds env (OnceRead env tables) s.world.rules := fun m =>
  ⟨_, h.current, h.fits.payload_read henv m⟩

/-- A process credits an order under a rule it was told. -/
theorem CommitKind.paid (hl : LogSound env w l) (hall : AllSourced env l) (htold : Told env V l)
    (h : CommitKind env l [.ledger entry]) :
    ∃ o ∈ w.orders, o.status = .CONFIRMED ∧ CreditOf entry o ∧ entry.type = .CREDIT ∧
      ∃ cached rule, V o.merchantId cached ∧ toDecimalRule env cached = .ok rule ∧
        storeNumeric 18 2 (cashbackOf o.amount rule) = some entry.amount := by
  generalize hws : [TxWrite.ledger entry] = ws at h
  cases h with
  | nothing => cases hws
  | confirm made => cases hws
  | credit found made =>
    cases hws
    obtain ⟨ev, hev, o, cached, rule, hf, hread, hrule, hd⟩ := hall _ made.issued
    obtain ⟨_, ⟨o', ho', hcore, hstatus⟩, -⟩ := hl.got hf.1
    rw [hd] at made
    obtain ⟨_, huser, horder, htype, hstored, hcurrency⟩ := hl.got made
    obtain ⟨-, -, hmerchant, hprice, -, -⟩ := Order.of_core hcore
    refine ⟨o', ho', hstatus hf.2, CreditOf.of_core ⟨horder, huser, hcurrency⟩ hcore,
      htype, cached, rule, ?_,
      hrule, ?_⟩
    · rw [hmerchant]
      exact htold.entryRead hread
    · rw [hprice]
      exact hstored

theorem RunTables.reach (h : RunTables env s tables) : Reach (system env) anyStep (· = initial) s :=
  h.forget (fun _ _ _ _ => trivial) fun _ _ hs => hs.1

theorem paidSound (henv : DecimalText env) (h : RunTables env s tables) :
    PaidSound env s tables := by
  induction h with
  | start heq =>
    obtain ⟨rfl, rfl⟩ := heq
    exact ⟨List.mem_singleton.mpr rfl, fun r hr => absurd hr (Table.not_mem_empty r),
      fun e he => absurd he List.not_mem_nil, (fun p pr hp => by cases hp),
      fun entry he => absurd he (Table.not_mem_empty entry)⟩
  | @next s s' tables lb htables _ hstep ih =>
    have hr := RunTables.reach htables
    have hextends := step_extends fresh_of_initial hr hstep
    have hcurrent : s'.world.rules ∈ s'.world.rules :: tables := List.mem_cons_self
    have honce : ∀ m cached, OnceRead env tables m cached →
        OnceRead env (s'.world.rules :: tables) m cached :=
      fun _ _ hread => hread.cons _
    have hold : ∀ p pr, s.proc p = some pr →
        Told env (OnceRead env (s'.world.rules :: tables)) pr.log :=
      fun p pr hp => (ih.told p pr hp).mono honce
    have hpaid : ∀ entry ∈ s.world.ledger, entry.Paid s'.world (s'.world.rules :: tables) :=
      fun entry he => (ih.paid entry he).next hextends _
    cases Machine.step_cases hstep with
    | spawn free =>
      exact ⟨hcurrent, ih.fits, ih.cache.mono honce,
        Pool.forall_put told_nil fun q pr _ => hold q pr, hpaid⟩
    | crash alive =>
      have htold := hold _ _ alive
      exact ⟨hcurrent, ih.fits, ih.cache.mono honce,
        Pool.forall_put htold fun q pr _ => hold q pr, hpaid⟩
    | @move x w moved =>
      cases x <;> cases moved <;> exact ⟨hcurrent, ih.fits, ih.cache.mono honce, hold, hpaid⟩
    | @call p ch t l c k w r at_call served =>
      have hs := sound fresh_of_initial hr
      have hc := (hr.sat (sourced_sat env) initial_idle at_call).1
      have hshaped := hs.shaped at_call hc.1
      have htold := ih.told p _ at_call
      have hcache := ih.cache.exec hshaped hc.2.1.1 (fun m found => htold.loaded) served
      have htold' := htold.exec (ih.table henv) ih.cache served
      refine ⟨hcurrent, fun row hrow => ?_, hcache.mono honce,
        Pool.forall_put (htold'.mono honce) fun q pr _ => hold q pr, fun entry he => ?_⟩
      · rcases exec_rules hshaped served with heq | ⟨m, rate, cap, stored, -, hstores⟩
        · exact ih.fits row (heq ▸ hrow)
        · rcases hstores.rows row hrow with rfl | hrow
          · exact hstores.fits
          · exact ih.fits row hrow
      · obtain ⟨w₁, heff, rfl⟩ := exec_effect hshaped served
        rcases heff.ledger_origin he with he | ⟨rfl, tx, hmine, hab, hwrites⟩
        · exact hpaid entry he
        · have htx : History.tx l = some tx := (hs.txOf at_call).symm.trans hmine
          have hkind := hc.1.commit htx hab
          rw [hwrites] at hkind
          obtain ⟨o, ho, hstatus, hcredit, htype, cached, rule, ⟨t, ht, hread⟩, hrule, hamount⟩ :=
            hkind.paid (hs.logs p _ at_call) hc.2.2 htold
          cases hread.symm.trans hrule
          have hnow : entry.Paid s.world tables := ⟨o, ho, hstatus, hcredit, htype, t, ht, hamount⟩
          exact hnow.next hextends _

/-- Whatever fails and however stale the cache is: every entry of the ledger is a credit that pays a
    confirmed order under the rule that the order's merchant had in one of the tables that the run
    has gone through. -/
theorem credits_pay_a_real_rule (env : Env) (henv : DecimalText env) (h : RunTables env s tables)
    (hmem : entry ∈ s.world.ledger) :
    ∃ o ∈ s.world.orders, o.status = .CONFIRMED ∧ CreditOf entry o ∧ entry.type = .CREDIT ∧
      ∃ t ∈ tables,
        storeNumeric 18 2 (cashbackOf o.amount (ruleOf (ruleRow t o.merchantId))) =
          some entry.amount :=
  (paidSound henv h).paid entry hmem

open Platform in
/-- The merchant's first rule is stored while its order is being credited. -/
def updateWhileCrediting : List Step :=
  createAndConfirm ++ publishEvent ++ .spawn 3 (.consume 0) :: serves 3 10 ++
    .spawn 4 (.upsertRule "shop-1" { rate := number (1 / 10), cap := none }) ::
      serves 4 2 ++ [serve 3]

/-- The entry pays 5 of 100, the default of an earlier table; by now the rate is a tenth. -/
theorem credits_pay_a_real_rule_run : ∃ s tables entry o t,
    RunTables (platform id) s tables ∧ entry ∈ s.world.ledger ∧ entry.amount = 5 ∧
    (ruleOf (ruleRow s.world.rules "shop-1")).rate = 1 / 10 ∧ CreditOf entry o ∧ t ∈ tables ∧
    storeNumeric 18 2 (cashbackOf o.amount (ruleOf (ruleRow t o.merchantId))) = some 5 := by
  have hrun : (((system (platform id)).runTraced 5 ruleTables (fun _ _ _ => true) initial
      [initial.world.rules] updateWhileCrediting).map fun x =>
        x.1.world.ledger.any (fun entry => entry.amount == 5) &&
          (ruleOf (ruleRow x.1.world.rules "shop-1")).rate == 1 / 10) =
          some true := by decide +kernel
  obtain ⟨⟨s, tables⟩, hs, hboth⟩ := Option.map_eq_some_iff.mp hrun
  obtain ⟨hany, hrate⟩ := Bool.and_eq_true_iff.mp hboth
  obtain ⟨entry, hentry, hamount⟩ := Table.any_iff.mp hany
  have h0 : RunTables (platform id) initial [initial.world.rules] := .start ⟨rfl, rfl⟩
  have h := h0.of_runTraced (fun _ _ _ _ _ => trivial) (initial_below 5) hs
  obtain ⟨o, -, -, hcredit, -, t, ht, hpaid⟩ :=
    credits_pay_a_real_rule (platform id) (platform_decimalText id) h hentry
  have hfive : entry.amount = 5 := beq_iff_eq.mp hamount
  exact ⟨s, tables, entry, o, t, h, hentry, hfive, beq_iff_eq.mp hrate, hcredit, ht, hfive ▸ hpaid⟩

end

end CashbackLedger
