import CashbackLedger.Model.DecimalText
import CashbackLedger.Safety.Cashback
import CashbackLedger.Safety.Handled

/-
  The ledger does not depend on the order in which events are handled.

  Two runs start from the same orders, rules and ledger, with caches that say nothing else, and
  handle the same events, each at least once without a transient failure. How often, in which order,
  by the consumer or the retry loop, and interleaved with what else, is left open. In the end the
  data of the ledger is a function of the start and of the set of events (`Due`), so the two ledgers
  are one up to generated ids.
-/

namespace CashbackLedger

open Lib History

/-! ## Runs -/

/-- The rules stay as they are and generated ids are new; everything else may happen. -/
def FixedRules (s : State) : Step → Prop
  | .spawn _ (.upsertRule _ _) => False
  | .step p ch => NewId s.world p ch
  | _ => True

/-- Nothing runs yet in the world `w₀`. -/
def Starts (w₀ : World) (s : State) : Prop := Fresh s ∧ s.world = w₀

/-- The events that processes have started to handle. -/
def handledEvents (s : State) : Set Event := {ev | ∃ p pr, s.proc p = some pr ∧ ev ∈ handled pr.log}

/-- The event names a confirmed order. -/
def World.Announced (w : World) (ev : Event) : Prop :=
  ∃ o ∈ w.orders, o.status = .CONFIRMED ∧ ev.orderId = some (.str o.id.text)

/-- A run from `w₀` to `s` has handled exactly these genuine events, each at least once without a
    transient failure. -/
structure Schedule (env : Env) (w₀ : World) (events : Set Event) (s : State) : Prop where
  run : Reach (system env) FixedRules (Starts w₀) s
  handled : handledEvents s = events
  genuine : ∀ ev ∈ events, w₀.Announced ev
  cleanly : ∀ ev ∈ events, ∃ p pr, s.proc p = some pr ∧ HandledCleanly env pr.log ev

/-- The same orders, rules and ledger. -/
structure SameBooks (w w' : World) : Prop where
  orders : w'.orders = w.orders
  rules : w'.rules = w.rules
  ledger : w'.ledger = w.ledger

/-- The credit of an order under its merchant's rule, as the column stores it. -/
def creditOf (rules : Table CashbackRule) (o : Order) : Option LedgerData :=
  (storeNumeric 18 2 (cashbackOf o.amount (ruleOf (ruleRow rules o.merchantId)))).map (creditData o)

/-- What the ledger holds in the end: what it held, and the credits of the orders that are named. -/
def Due (w₀ : World) (events : Set Event) (d : LedgerData) : Prop :=
  (∃ e ∈ w₀.ledger, e.data = d) ∨ ∃ ev ∈ events, ∃ o ∈ w₀.orders,
    ev.orderId = some (.str o.id.text) ∧ ¬ w₀.HasCredit o.id ∧ creditOf w₀.rules o = some d

section

variable {env : Env} {w₀ w : World} {s : State} {l : History} {e : LedgerEntry} {o o' : Order}
  {d : LedgerData} {events : Set Event} {p : Pid}

theorem starts_fresh (w₀ : World) (s : State) (h : Starts w₀ s) : Fresh s := h.1

theorem starts_idle (w₀ : World) (s : State) (h : Starts w₀ s) : s.Idle := h.1.1

theorem handledEvents_put {pr : Process} (hpr : ∀ pr', s.proc p = some pr' → pr'.log <:+ pr.log) :
    handledEvents s ⊆ handledEvents (s.put w p pr) := by
  rintro ev ⟨q, pr', hq, hev⟩
  by_cases hqp : q = p
  · subst hqp
    exact ⟨q, pr, Pool.put_self s w q pr, handled_subset (hpr pr' hq) hev⟩
  · exact ⟨q, pr', by rw [Pool.put_other s w p pr hqp, hq], hev⟩

theorem creditOf_core (h : o'.core = o.core) (rules : Table CashbackRule) :
    creditOf rules o' = creditOf rules o := by
  obtain ⟨hid, huser, hmerchant, hamount, hcurrency, -⟩ := Order.of_core h
  unfold creditOf
  rw [hmerchant, hamount]
  refine congrArg (Option.map · _) (funext fun amount => ?_)
  rw [creditData, creditData, hid, huser, hcurrency]

theorem creditOf_eq_some {rules : Table CashbackRule} (h : creditOf rules o = some d) :
    d.orderId = o.id ∧ d.type = .CREDIT ∧
      (storeNumeric 18 2 (cashbackOf o.amount (ruleOf (ruleRow rules o.merchantId)))).isSome := by
  obtain ⟨amount, hamount, rfl⟩ := Option.map_eq_some_iff.mp h
  exact ⟨rfl, rfl, Option.isSome_of_mem hamount⟩

/-- Entries with the same data are one entry. -/
theorem data_nodup (t : Table LedgerEntry) : (t.rows.map LedgerEntry.data).Nodup := by
  refine List.pairwise_map.mpr (t.apart.imp fun {a b} hab heq => ?_)
  have horder : a.orderId = b.orderId := congrArg LedgerData.orderId heq
  have htype : a.type = b.type := congrArg LedgerData.type heq
  exact (clash_ledger.mp hab).2 ⟨horder, htype⟩

/-! ## What a run keeps -/

theorem Task.Calls.upsertRule {t : Task} {m : String} {rate : Decimal} {cap : Option Decimal}
    (h : t.Calls env l (.rules (.upsert m rate cap))) : ∃ m dto, t = .upsertRule m dto := by
  cases t with
  | upsertRule m dto => exact ⟨m, dto, rfl⟩
  | _ => exact h.uses.elim

theorem FixedRules.not_upsertRule {t : Task} (h : FixedRules s (.spawn p t)) (m : String)
    (dto : UpsertCashbackRuleDto) : t ≠ .upsertRule m dto := by
  rintro rfl
  exact h

/-- The rules are those of the start, and nobody is told anything else. -/
structure Kept (env : Env) (w₀ : World) (s : State) : Prop where
  rules : s.world.rules = w₀.rules
  cache : CacheHolds (RulesOf env w₀.rules) s.world.redis
  told : ∀ p pr, s.proc p = some pr → Told env (RulesOf env w₀.rules) pr.log

theorem kept (henv : DecimalText env) (hfit : w₀.RulesFit)
    (hcache : CacheHolds (RulesOf env w₀.rules) w₀.redis)
    (h : Reach (system env) FixedRules (Starts w₀) s) : Kept env w₀ s := by
  have htable : TableHolds env (RulesOf env w₀.rules) w₀.rules := fun m =>
    toDecimalRule_rulePayload henv fun r hr => hfit r (Table.mem_of_find? hr)
  refine Reach.invariant (sourced_sat env) (starts_idle w₀) ?_ ?_ ?_ ?_ ?_ h
  · rintro s ⟨hfresh, rfl⟩
    exact ⟨rfl, hcache, fun p pr hp => nomatch (hfresh.1 p).symm.trans hp⟩
  · intro s p t _ hI _ _
    exact ⟨hI.rules, hI.cache, Pool.forall_put told_nil fun q pr _ => hI.told q pr⟩
  · intro s p ch t l c k w r hr hI hmet hp hc hx _
    have hshaped := (sound (starts_fresh w₀) hr).shaped hp hc.1
    have htold := hI.told p _ hp
    refine ⟨?_, hI.cache.exec hshaped hc.2.1.1 (fun m found => htold.loaded) hx,
      Pool.forall_put ?_ fun q pr _ => hI.told q pr⟩
    · rcases exec_rules hshaped hx with heq | ⟨m, rate, cap, stored, rfl, -⟩
      · exact heq.trans hI.rules
      · obtain ⟨m, dto, rfl⟩ := hc.1.upsertRule
        have hnot := hr.tasks (K := fun t => ∀ m dto, t ≠ .upsertRule m dto)
          (fun s p t hmet => hmet.not_upsertRule) (starts_idle w₀) hp
        exact absurd rfl (hnot m dto)
    · exact htold.exec (hI.rules.symm ▸ htable) hI.cache hx
  · intro s p t l x _ hI _ hp
    have htold := hI.told p _ hp
    exact ⟨hI.rules, hI.cache, Pool.forall_put htold fun q pr _ => hI.told q pr⟩
  · intro s e w _ hI _ hw
    cases e <;> cases hw <;> exact ⟨hI.rules, hI.cache, hI.told⟩

theorem starts_extends (h : Reach (system env) FixedRules (Starts w₀) s) : w₀.Extends s.world := by
  induction h with
  | start h => exact h.2 ▸ World.Extends.refl _
  | next hr _ hstep ih => exact ih.trans (step_extends (starts_fresh w₀) hr hstep)

theorem explained (h : Reach (system env) FixedRules (Starts w₀) s) {pr : Process}
    (hp : s.proc p = some pr) : Explained env w₀ pr.log := by
  refine Reach.logs (I := Explained env w₀) (starts_idle w₀) explained_nil ?_ h hp
  intro s p ch t l c k w r hr _ hp hx hl
  have htx := (sound (starts_fresh w₀) hr).txOf hp
  have hapart := pendingApart (starts_fresh w₀) (fun s p ch hmet => hmet) hr
  exact hl.cons (exec_smooth (starts_extends hr) hapart htx hx)

/-! ## Where the entries come from -/

/-- The entry is the credit of an order that a handled event names. -/
def CreditedBy (env : Env) (w₀ : World) (s : State) (e : LedgerEntry) : Prop :=
  ∃ ev ∈ handledEvents s, ∃ o, s.world.HasOrder o ∧ readId env ev.orderId = some o.id ∧
    creditOf w₀.rules o = some e.data

theorem CreditedBy.mono {s' : State} (h : CreditedBy env w₀ s e) (hw : s.world.Extends s'.world)
    (hevents : handledEvents s ⊆ handledEvents s') : CreditedBy env w₀ s' e := by
  obtain ⟨ev, hev, o, ho, hid, hcredit⟩ := h
  exact ⟨ev, hevents hev, o, ho.mono hw, hid, hcredit⟩

theorem CommitKind.credited (hl : LogSound env w l) (hall : AllSourced env l)
    (htold : Told env (RulesOf env w₀.rules) l) (h : CommitKind env l [.ledger e]) :
    ∃ ev ∈ l.handled, ∃ o, w.HasOrder o ∧ readId env ev.orderId = some o.id ∧
      creditOf w₀.rules o = some e.data := by
  generalize hws : [TxWrite.ledger e] = ws at h
  cases h with
  | nothing => cases hws
  | confirm made => cases hws
  | credit found made =>
    cases hws
    obtain ⟨ev, hev, o, entry, rule, hf, hread, hrule, hd⟩ := hall _ made.issued
    obtain ⟨_, ho, hid⟩ := hl.got hf.1
    rw [hd] at made
    obtain ⟨_, huser, horder, htype, hamount, hcurrency⟩ := hl.got made
    have heq := hrule.symm.trans (htold.entryRead hread)
    cases heq
    refine ⟨ev, hev, o, ho, hid, Option.map_eq_some_iff.mpr ⟨e.amount, hamount, ?_⟩⟩
    rw [LedgerEntry.data, huser, horder, htype, hcurrency]
    rfl

theorem credited (henv : DecimalText env) (hfit : w₀.RulesFit)
    (hcache : CacheHolds (RulesOf env w₀.rules) w₀.redis)
    (h : Reach (system env) FixedRules (Starts w₀) s) :
    ∀ e ∈ s.world.ledger, e ∈ w₀.ledger ∨ CreditedBy env w₀ s e := by
  refine Reach.invariant (I := fun s => ∀ e ∈ s.world.ledger, e ∈ w₀.ledger ∨ CreditedBy env w₀ s e)
    (sourced_sat env) (starts_idle w₀) ?_ ?_ ?_ ?_ ?_ h
  · rintro s ⟨-, rfl⟩ e he
    exact Or.inl he
  · intro s p t _ hI _ hfree e he
    refine (hI e he).imp_right fun hcredit => hcredit.mono (World.Extends.refl _) ?_
    exact handledEvents_put fun pr' hp => nomatch hfree.symm.trans hp
  · intro s p ch t l c k w r hr hI _ hp hc hx _ e he
    have hs := sound (starts_fresh w₀) hr
    have hshaped := hs.shaped hp hc.1
    have hw := exec_extends hshaped hx
    have hevents : handledEvents s ⊆ handledEvents (s.put w p ⟨t, ⟨c, r⟩ :: l, k r, true⟩) :=
      handledEvents_put fun pr' hp' => by
        cases hp.symm.trans hp'
        exact List.suffix_cons _ l
    obtain ⟨w₁, heff, rfl⟩ := exec_effect hshaped hx
    rcases heff.ledger_origin he with he | ⟨rfl, tx, hmine, hab, hwrites⟩
    · exact (hI e he).imp_right fun hcredit => hcredit.mono hw hevents
    · have htx : History.tx l = some tx := (hs.txOf hp).symm.trans hmine
      have hkind := hc.1.commit htx hab
      rw [hwrites] at hkind
      obtain ⟨ev, hev, o, ho, hid, hcredit⟩ :=
        hkind.credited (hs.logs p _ hp) hc.2.2 ((kept henv hfit hcache hr).told p _ hp)
      exact Or.inr (CreditedBy.mono ⟨ev, ⟨p, _, hp, hev⟩, o, ho, hid, hcredit⟩ hw hevents)
  · intro s p t l x _ hI _ hp e he
    refine (hI e he).imp_right fun hcredit => hcredit.mono (kill_extends p _) ?_
    refine handledEvents_put fun pr' hp' => ?_
    cases hp.symm.trans hp'
    exact List.suffix_refl l
  · intro s o w _ hI _ hw e he
    have hledger : w.ledger = s.world.ledger := by cases o <;> cases hw <;> rfl
    have hmoved : CreditedBy env w₀ s e →
        CreditedBy env w₀ { s with world := w } e := fun hcredit =>
      hcredit.mono (outside_extends hw) fun _ hev => hev
    exact (hI e (hledger ▸ he)).imp_right hmoved

/-! ## The final ledger -/

/-- An entry for an order of the start is the order's credit. -/
theorem CreditedBy.credit (h : CreditedBy env w₀ s e) (hext : w₀.Extends s.world)
    (ho : o ∈ w₀.orders) (hid : e.orderId = o.id) : creditOf w₀.rules o = some e.data := by
  obtain ⟨ev, -, o', ⟨o₁, ho₁, hcore₁, -⟩, -, hcredit⟩ := h
  obtain ⟨o₂, ho₂, hcore₂, -⟩ := hext.orders o ho
  have hids : o₁.id = o₂.id := by
    have hentry : e.orderId = o'.id := (creditOf_eq_some hcredit).1
    rw [Order.id_of_core hcore₁, Order.id_of_core hcore₂, ← hid, hentry]
  have hsame : o₁ = o₂ := Table.eq_of_clash ho₁ ho₂ (by simp [Indexed.clash, hids])
  have hcore : o'.core = o.core := by rw [← hcore₁, ← hcore₂, hsame]
  rw [← creditOf_core hcore]
  exact hcredit

/-- Two CREDIT entries of one order are one entry. -/
theorem credit_unique {a b : LedgerEntry} (ha : a ∈ w.ledger) (hb : b ∈ w.ledger)
    (horder : a.orderId = b.orderId) (htype : a.type = b.type) : a = b :=
  Table.eq_of_clash ha hb (by simp [Indexed.clash, horder, htype])

theorem Schedule.hasCredit (henv : DecimalText env) (hfit : w₀.RulesFit)
    (hcache : CacheHolds (RulesOf env w₀.rules) w₀.redis) (h : Schedule env w₀ events s)
    {ev : Event} (hev : ev ∈ events) (ho : o ∈ w₀.orders) (hid : ev.orderId = some (.str o.id.text))
    (hfits :
      (storeNumeric 18 2 (cashbackOf o.amount (ruleOf (ruleRow w₀.rules o.merchantId)))).isSome) :
    s.world.HasCredit o.id := by
  have hread : readId env ev.orderId = some o.id := by rw [hid]; exact env.readUuid_text o.id
  obtain ⟨o', ho', hstatus, hid'⟩ := h.genuine ev hev
  have hread' : readId env ev.orderId = some o'.id := by rw [hid']; exact env.readUuid_text o'.id
  have hids : o.id = o'.id := Option.some_inj.mp (hread.symm.trans hread')
  have hsame : o = o' := Table.eq_of_clash ho ho' (by simp [Indexed.clash, hids])
  obtain ⟨p, pr, hp, hclean⟩ := h.cleanly ev hev
  have hs := sound (starts_fresh w₀) h.run
  exact hclean.hasCredit (hs.logs p pr hp) (explained h.run hp)
    ((kept henv hfit hcache h.run).told p pr hp) ho hread (hsame ▸ hstatus) hfits

/-- In the end the data of the ledger is what is due. -/
theorem Schedule.mem_ledger (henv : DecimalText env) (hfit : w₀.RulesFit)
    (hcache : CacheHolds (RulesOf env w₀.rules) w₀.redis) (h : Schedule env w₀ events s) :
    d ∈ s.world.ledger.rows.map LedgerEntry.data ↔ Due w₀ events d := by
  have hext := starts_extends h.run
  have horigin := credited henv hfit hcache h.run
  rw [List.mem_map]
  constructor
  · rintro ⟨e, he, rfl⟩
    rcases horigin e he with hold | hcredited
    · exact Or.inl ⟨e, hold, rfl⟩
    · obtain ⟨ev, hev, o', -, hid', hcredit'⟩ := id hcredited
      rw [h.handled] at hev
      obtain ⟨o, ho, -, hid⟩ := h.genuine ev hev
      have hread : readId env ev.orderId = some o.id := by rw [hid]; exact env.readUuid_text o.id
      have hids : o'.id = o.id := Option.some_inj.mp (hid'.symm.trans hread)
      obtain ⟨horder, htype, -⟩ := creditOf_eq_some hcredit'
      by_cases hhas : w₀.HasCredit o.id
      · obtain ⟨e₀, he₀, horder₀, htype₀⟩ := hhas
        have hsame : e₀ = e := credit_unique (hext.ledger e₀ he₀) he
          (horder₀.trans (hids.symm.trans horder.symm)) (htype₀.trans htype.symm)
        exact Or.inl ⟨e₀, he₀, congrArg LedgerEntry.data hsame⟩
      · exact Or.inr ⟨ev, hev, o, ho, hid, hhas, hcredited.credit hext ho (horder.trans hids)⟩
  · rintro (⟨e, he, rfl⟩ | ⟨ev, hev, o, ho, hid, hnew, hcredit⟩)
    · exact ⟨e, hext.ledger e he, rfl⟩
    · obtain ⟨e, he, horder, htype⟩ :=
        h.hasCredit henv hfit hcache hev ho hid (creditOf_eq_some hcredit).2.2
      rcases horigin e he with hold | hcredited
      · exact absurd ⟨e, hold, horder, htype⟩ hnew
      · have heq := (hcredited.credit hext ho horder).symm.trans hcredit
        exact ⟨e, he, Option.some_inj.mp heq⟩

theorem Schedule.one_credit (henv : DecimalText env) (hfit : w₀.RulesFit)
    (hcache : CacheHolds (RulesOf env w₀.rules) w₀.redis) (h : Schedule env w₀ events s)
    {ev : Event} (hev : ev ∈ events) (ho : o ∈ w₀.orders) (hid : ev.orderId = some (.str o.id.text))
    (ha : ValidAmount o.amount) (hr : ValidRule (ruleOf (ruleRow w₀.rules o.merchantId))) :
    (s.world.ledger.rows.filter fun e => e.orderId == o.id && e.type == .CREDIT).length = 1 := by
  have hfits := Option.isSome_of_mem (cashback_stored ha hr)
  obtain ⟨e, he, horder, htype⟩ := h.hasCredit henv hfit hcache hev ho hid hfits
  refine le_antisymm (s.world.ledger.length_filter_le_one fun a b ha hb => ?_) ?_
  · simp only [Bool.and_eq_true, beq_iff_eq] at ha hb
    simp [Indexed.clash, ha, hb]
  · exact List.length_pos_of_mem (List.mem_filter.mpr ⟨he, by simp [horder, htype]⟩)

theorem SameBooks.due (h : SameBooks w₀ w) : Due w events d ↔ Due w₀ events d := by
  simp only [Due, World.HasCredit, h.orders, h.rules, h.ledger]

/-- Two runs from the same orders, rules and ledger that handle the same genuine events, each at
    least once without a transient failure, end with the same entries up to generated ids, and every
    order that was named has exactly one CREDIT entry. -/
theorem ledgers_converge (env : Env) (henv : DecimalText env) (w w' : World)
    (hbooks : SameBooks w w') (hfit : w.RulesFit)
    (hcache : CacheHolds (RulesOf env w.rules) w.redis)
    (hcache' : CacheHolds (RulesOf env w.rules) w'.redis) (events : Set Event) (s s' : State)
    (h : Schedule env w events s) (h' : Schedule env w' events s') :
    (s.world.ledger.rows.map LedgerEntry.data).Perm (s'.world.ledger.rows.map LedgerEntry.data) ∧
    ∀ ev ∈ events, ∀ o ∈ w.orders, ev.orderId = some (.str o.id.text) → ValidAmount o.amount →
      ValidRule (ruleOf (ruleRow w.rules o.merchantId)) → ∀ t ∈ [s, s'],
        (t.world.ledger.rows.filter fun e => e.orderId == o.id && e.type == .CREDIT).length =
          1 := by
  have hfit' : w'.RulesFit := fun r hr => hfit r (hbooks.rules ▸ hr)
  rw [← hbooks.rules] at hcache'
  refine ⟨?_, fun ev hev o ho hid ha hr t ht => ?_⟩
  · refine (List.perm_ext_iff_of_nodup (data_nodup _) (data_nodup _)).mpr fun d => ?_
    rw [h.mem_ledger henv hfit hcache, h'.mem_ledger henv hfit' hcache', hbooks.due]
  · rcases List.mem_cons.mp ht with rfl | ht
    · exact h.one_credit henv hfit hcache hev ho hid ha hr
    · rw [List.mem_singleton.mp ht]
      rw [← hbooks.orders] at ho
      rw [← hbooks.rules] at hr
      exact h'.one_credit henv hfit' hcache' hev ho hid ha hr

end

/-! ## A delivery against a failed delivery, a retry pass and another delivery -/

theorem ran_silent {x : Async Unit} {l l' : History} {r : Outcome} (h : Ran (silent x).run l l' r) :
    ∃ r', Ran x.run l l' r' := by
  rcases h.act_bind with ⟨l₁, a, hx, hended⟩ | ⟨e, hx, -⟩
  · cases hended
    exact ⟨_, hx⟩
  · exact ⟨_, hx⟩

/-- A delivery or a retry pass that has ended has run the handler on its events. -/
theorem ended_handlersRan {env : Env} {ok : State → Step → Prop} {start : State → Prop} {s : State}
    (hidle : ∀ s, start s → s.Idle) (h : Reach (system env) ok start s) {p : Pid} {t : Task}
    {l : History} {a : Outcome} {alive : Bool} (hp : s.proc p = some ⟨t, l, .ret a, alive⟩)
    (ht : (∃ offset, t = .consume offset) ∨ t = .retryInbox) : HandlersRan env l := by
  have hran := h.completes hidle hp (.ret a l)
  rcases ht with ⟨offset, rfl⟩ | rfl
  · obtain ⟨r, hr⟩ := ran_silent hran
    exact consume_handlersRan hr
  · obtain ⟨r, hr⟩ := ran_silent hran
    exact retryInbox_handlersRan hr

/-- The event of the order `n`. -/
def eventOf (n : Nat) : Event :=
  ⟨Platform.uuidText (n + 10), .obj [("orderId", .str (Platform.uuid n).text)]⟩

def isEventOf (n : Nat) : Event → Bool
  | ⟨sid, .obj [(name, .str id)]⟩ =>
      sid == Platform.uuidText (n + 10) && name == "orderId" && id == (Platform.uuid n).text
  | _ => false

theorem isEventOf_eq {n : Nat} {ev : Event} (h : isEventOf n ev = true) : ev = eventOf n := by
  unfold isEventOf at h
  split at h
  · simp only [Bool.and_eq_true, beq_iff_eq] at h
    obtain ⟨⟨rfl, rfl⟩, rfl⟩ := h
    rfl
  · cases h

/-- A confirmed order, whose merchant has no rule of its own. -/
def announcedOrder (n : Nat) (merchantId : String) (amount : Decimal) : Order where
  id := Platform.uuid n
  userId := "user-1"
  merchantId := merchantId
  amount := amount
  currency := "USD"
  status := .CONFIRMED
  createdAt := 0

/-- The message of the event. -/
def eventMessage (n : Nat) : KafkaMessage where
  key := some (Platform.uuid n).text
  value := some (.obj [("id", .str (eventOf n).sourceEventId), ("type", .str "OrderConfirmed"),
    ("payload", (eventOf n).payload)])

/-- Two orders are confirmed, and their events are on the topic. -/
def announcedWorld : World :=
  { World.empty with
    orders := ⟨[announcedOrder 1 "shop-1" 100, announcedOrder 2 "shop-2" 40], by
      simp [Indexed.clash, announcedOrder]; decide⟩
    broker := { World.empty.broker with events := [eventMessage 1, eventMessage 2] } }

def announcedState : State := { world := announcedWorld, proc := fun _ => none }

open Platform in
/-- The two events are delivered one after the other. -/
def deliveredInOrder : List Step :=
  .spawn 4 (.consume 0) :: serves 4 13 ++ .spawn 5 (.consume 1) :: serves 5 13

open Platform in
/-- The second event is handled first. The delivery of the first one cannot open its transaction; a
    retry pass credits the order, and another delivery meets the credit. -/
def deliveredSwapped : List Step :=
  .spawn 5 (.consume 1) :: serves 5 13 ++ storeEvent ++ .spawn 4 .retryInbox :: serves 4 13 ++
    .move (.rewind 0) :: .spawn 6 (.consume 0) :: serves 6 9

def fixedRules (s : State) : Step → Bool
  | .spawn _ (.upsertRule _ _) => false
  | .step p ch => s.world.txs.all fun x => x.1 == p || x.2.writes.all fun
      | .ledger e => e.id != ch.newId
      | _ => true
  | _ => true

theorem fixedRules_iff {s : State} {lb : Step} (h : fixedRules s lb = true) : FixedRules s lb := by
  cases lb with
  | spawn p t => cases t <;> trivial
  | step p ch =>
    rintro q e hq ⟨tx, htx, hw⟩
    obtain ⟨l₁, l₂, heq, -⟩ := List.lookup_eq_some_iff.mp htx
    have hmem : (q, tx) ∈ s.world.txs := by
      rw [heq]
      exact List.mem_append_right l₁ List.mem_cons_self
    have hwrites :=
      (Bool.or_eq_true_iff.mp (List.all_eq_true.mp h _ hmem)).resolve_left (by simpa using hq)
    simpa using List.all_eq_true.mp hwrites _ hw
  | _ => trivial

/-- The process has handled no other event. -/
def onlyAnnounced : Option Process → Bool
  | none => true
  | some pr => (handled pr.log).all fun ev => isEventOf 1 ev || isEventOf 2 ev

/-- A delivery or a retry pass that has handled the event and ended, without a failure. -/
def endedCleanly (n : Nat) : Option Process → Bool
  | some ⟨.consume _, l, .ret _, _⟩ => l.all (fun x => !txFailed x) && (handled l).any (isEventOf n)
  | some ⟨.retryInbox, l, .ret _, _⟩ => l.all (fun x => !txFailed x) &&
      (handled l).any (isEventOf n)
  | _ => false

theorem endedCleanly_spec {s : State} {p : Pid} {n : Nat}
    (hreach : Reach (system (platform id)) FixedRules (Starts announcedWorld) s)
    (h : endedCleanly n (s.proc p) = true) :
    ∃ pr, s.proc p = some pr ∧ eventOf n ∈ handled pr.log ∧
      HandledCleanly (platform id) pr.log (eventOf n) := by
  have hlog : ∀ {l : History},
      (l.all (fun x => !txFailed x) && (handled l).any (isEventOf n)) = true →
      HandlersRan (platform id) l → eventOf n ∈ handled l ∧
          HandledCleanly (platform id) l (eventOf n) := by
    intro l hl hran
    obtain ⟨hclean, hany⟩ := Bool.and_eq_true_iff.mp hl
    obtain ⟨ev, hev, hone⟩ := List.any_eq_true.mp hany
    rw [isEventOf_eq hone] at hev
    exact ⟨hev, (hran _ hev).cleanly fun x hx => by simpa using List.all_eq_true.mp hclean x hx⟩
  unfold endedCleanly at h
  split at h
  · next hp => exact ⟨_, hp, hlog h (ended_handlersRan (starts_idle _) hreach hp (Or.inl ⟨_, rfl⟩))⟩
  · next hp => exact ⟨_, hp, hlog h (ended_handlersRan (starts_idle _) hreach hp (Or.inr rfl))⟩
  · cases h

/-- What is checked of a run: two processes have handled the events, and none another one. -/
def handledBoth (p q : Pid) (s : State) : Bool :=
  (List.range 7).all (fun p => onlyAnnounced (s.proc p)) && endedCleanly 1 (s.proc p) &&
    endedCleanly 2 (s.proc q)

/-- A checked run is a schedule for the two events. -/
theorem schedule_of_run {ls : List Step} {s : State} {p q : Pid}
    (hrun : (system (platform id)).runChecked 7 fixedRules announcedState ls = some s)
    (hcheck : handledBoth p q s = true) :
    Schedule (platform id) announcedWorld {eventOf 1, eventOf 2} s := by
  obtain ⟨hfirst, hsecond⟩ := Bool.and_eq_true_iff.mp hcheck
  obtain ⟨honly, hfirst⟩ := Bool.and_eq_true_iff.mp hfirst
  have hbelow : announcedState.Below 7 := fun _ _ => rfl
  have hstart : Reach (system (platform id)) FixedRules (Starts announcedWorld) announcedState :=
    .start ⟨⟨fun _ => rfl, fun _ => rfl⟩, rfl⟩
  have hreach := hstart.of_runChecked (fun _ _ _ h => fixedRules_iff h) hbelow hrun
  obtain ⟨pr₁, hp₁, hmem₁, hclean₁⟩ := endedCleanly_spec hreach hfirst
  obtain ⟨pr₂, hp₂, hmem₂, hclean₂⟩ := endedCleanly_spec hreach hsecond
  have hall := (hbelow.runChecked hrun).all (f := fun _ => onlyAnnounced) (fun _ => rfl) honly
  refine ⟨hreach, Set.ext fun ev => ⟨fun ⟨r, pr, hr, hev⟩ => ?_, ?_⟩, ?_, ?_⟩
  · have honly' := hall r
    rw [hr] at honly'
    exact (Bool.or_eq_true_iff.mp (List.all_eq_true.mp honly' ev hev)).imp isEventOf_eq isEventOf_eq
  · rintro (rfl | rfl)
    · exact ⟨p, pr₁, hp₁, hmem₁⟩
    · exact ⟨q, pr₂, hp₂, hmem₂⟩
  · rintro ev (rfl | rfl)
    · exact ⟨announcedOrder 1 "shop-1" 100, List.mem_cons_self, rfl, rfl⟩
    · exact ⟨announcedOrder 2 "shop-2" 40, List.mem_cons_of_mem _ List.mem_cons_self, rfl, rfl⟩
  · rintro ev (rfl | rfl)
    · exact ⟨p, pr₁, hp₁, hclean₁⟩
    · exact ⟨q, pr₂, hp₂, hclean₂⟩

/-- Two orders are credited once each, whichever event is handled first. -/
theorem ledgers_converge_retried :
    ∃ s s', (system (platform id)).run announcedState deliveredInOrder = some s ∧
      (system (platform id)).run announcedState deliveredSwapped = some s' ∧
      (s.world.ledger.rows.map LedgerEntry.data).Perm (s'.world.ledger.rows.map LedgerEntry.data) ∧
      ∀ o ∈ [announcedOrder 1 "shop-1" 100, announcedOrder 2 "shop-2" 40], ∀ t ∈ [s, s'],
        (t.world.ledger.rows.filter fun e => e.orderId == o.id && e.type == .CREDIT).length =
          1 := by
  have hchecked : ∀ (ls : List Step) (p q : Pid),
      ((system (platform id)).runChecked 7 fixedRules announcedState ls).map (handledBoth p q) =
        some true →
      ∃ s, (system (platform id)).run announcedState ls = some s ∧
        Schedule (platform id) announcedWorld {eventOf 1, eventOf 2} s := by
    intro ls p q h
    obtain ⟨s, hs, hcheck⟩ := Option.map_eq_some_iff.mp h
    exact ⟨s, Machine.run_of_runChecked hs, schedule_of_run hs hcheck⟩
  obtain ⟨s, hrun, hs⟩ := hchecked deliveredInOrder 4 5 (by decide +kernel)
  obtain ⟨s', hrun', hs'⟩ := hchecked deliveredSwapped 4 5 (by decide +kernel)
  have hdefault : ValidRule (ruleOf none) :=
    ⟨by decide +kernel, by decide +kernel, by decide +kernel, nofun, nofun⟩
  have hrule : ∀ m, ValidRule (ruleOf (ruleRow announcedWorld.rules m)) := fun _ => hdefault
  have h := ledgers_converge (platform id) (platform_decimalText id) announcedWorld announcedWorld
    ⟨rfl, rfl, rfl⟩ (fun r hr => absurd hr (Table.not_mem_empty r))
    (fun e he => absurd he List.not_mem_nil) (fun e he => absurd he List.not_mem_nil)
    {eventOf 1, eventOf 2} s s' hs hs'
  refine ⟨s, s', hrun, hrun', h.1, fun o ho => ?_⟩
  rcases List.mem_cons.mp ho with rfl | ho'
  · exact h.2 (eventOf 1) (Or.inl rfl) _ ho rfl ⟨by decide +kernel, by decide +kernel⟩ (hrule _)
  · rw [List.mem_singleton.mp ho'] at ho ⊢
    exact h.2 (eventOf 2) (Or.inr rfl) _ ho rfl ⟨by decide +kernel, by decide +kernel⟩ (hrule _)

end CashbackLedger
