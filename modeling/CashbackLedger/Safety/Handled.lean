import CashbackLedger.Protocol.Handling
import CashbackLedger.Safety.Runs

/-
  An event that is handled without a transient failure has its credit.

  The entries of open transactions are apart from each other and from the ledger in their keys
  (`PendingApart`): the locks of the unique index see to the order, `uuid()` to the id. So what the
  database answers to the calls of a handler is determined up to failures of the calls themselves
  (`Smooth`): the order is found, the rule is read, the entry is taken or is a duplicate, the commit
  succeeds. A handler that meets only such answers leaves a credit of its order, its own or the
  earlier one.
-/

namespace CashbackLedger

open Lib History

/-! ## Entries of open transactions -/

/-- The open transaction of `p` has written the entry. -/
def World.Pending (w : World) (p : Pid) (e : LedgerEntry) : Prop :=
  ∃ tx, w.txOf p = some tx ∧ TxWrite.ledger e ∈ tx.writes

structure PendingApart (w : World) : Prop where
  stored : ∀ p e, w.Pending p e → ∀ e' ∈ w.ledger, Indexed.clash e' e = false
  others : ∀ p q e e', p ≠ q → w.Pending p e → w.Pending q e' → Indexed.clash e e' = false

/-- The id generated for `p` is not the id of an entry in another open transaction. -/
def NewId (w : World) (p : Pid) (ch : Choice) : Prop :=
  ∀ q e, q ≠ p → w.Pending q e → e.id ≠ ch.newId

section

variable {env : Env} {p q : Pid} {ch : Choice} {w w' : World} {c : Call} {r : Reply c}
  {e : LedgerEntry}

theorem clash_ledger {a b : LedgerEntry} :
    Indexed.clash a b = false ↔ a.id ≠ b.id ∧ ¬ (a.orderId = b.orderId ∧ a.type = b.type) := by
  simp [Indexed.clash]

/-- Nobody else holds what a statement found free. -/
theorem not_lockedByOther {touches : TxWrite → Bool} (h : w.lockedByOther p touches = false)
    (hq : q ≠ p) (he : w.Pending q e) : touches (.ledger e) = false := by
  obtain ⟨tx, htx, hw⟩ := he
  obtain ⟨l₁, l₂, heq, -⟩ := List.lookup_eq_some_iff.mp htx
  have hmem : (q, tx) ∈ w.txs := by
    rw [heq]
    exact List.mem_append_right l₁ List.mem_cons_self
  have hfree := List.any_eq_false.mp h (q, tx) hmem
  rw [Bool.and_eq_true, not_and] at hfree
  have hwrites := hfree (by simpa using hq)
  rw [List.any_eq_true, not_exists] at hwrites
  simpa using fun ht => hwrites _ ⟨hw, ht⟩

/-- An entry that an insert has just written is new in its keys. -/
theorem exec_created {d : LedgerData} (hgot : Got [⟨c, r⟩] (.stmt (.ledgerCreate d)) e)
    (h : exec env p c ch w = some (w', r)) :
    e.id = ch.newId ∧ (∀ e' ∈ w.ledger, Indexed.clash e' e = false) ∧
      ∀ q e', q ≠ p → w.Pending q e' → ¬ (e'.orderId = e.orderId ∧ e'.type = e.type) := by
  obtain ⟨now, hm⟩ := hgot
  cases List.mem_singleton.mp hm
  obtain ⟨msg, hr⟩ | ⟨w₁, hrun, -⟩ := exec_reply h
  · cases hr
  simp only [Call.run, TxCall.run] at hrun
  split at hrun
  · cases hrun
  split at hrun
  · cases hrun
  obtain ⟨y, hy, heq⟩ := Option.map_eq_some_iff.mp hrun
  cases heq
  unfold TxStmt.run at hy
  dsimp only at hy
  split at hy
  · cases hy
  split at hy
  · cases hy
  split at hy
  · cases hy
  split at hy
  · cases hy
  split at hy
  · cases hy
  rename_i hid hlocked hkey
  cases hy
  refine ⟨rfl, fun e' he' => clash_ledger.mpr ⟨fun heq => ?_, fun hsame => ?_⟩,
    fun q e' hq he' hsame => ?_⟩
  · exact hid (Table.any_iff.mpr ⟨e', he', by simpa using heq⟩)
  · exact hkey (Table.any_iff.mpr ⟨e', he', by simpa using hsame⟩)
  · have hfree := not_lockedByOther (by simpa using hlocked) hq he'
    simp [hsame] at hfree

/-- What a transaction holds after a call it held before, or the call is the insert. -/
theorem pending_exec (hs : CommitsShaped p w c) (h : exec env p c ch w = some (w', r))
    (he : w'.Pending q e) :
    (w.Pending q e ∧ (q = p → c ≠ .tx .commit)) ∨
      q = p ∧ ∃ d, Got [⟨c, r⟩] (.stmt (.ledgerCreate d)) e := by
  obtain ⟨tx, htx, hw⟩ := he
  rw [exec_txOf hs h] at htx
  split at htx
  · next hq =>
    subst hq
    cases c with
    | tx c =>
      obtain ⟨x, now⟩ := r
      cases c with
      | begin =>
        cases x <;> cases htx
        exact absurd hw List.not_mem_nil
      | stmt s =>
        cases x with
        | error err =>
          obtain ⟨tx₀, htx₀, rfl⟩ := Option.map_eq_some_iff.mp htx
          exact Or.inl ⟨⟨tx₀, htx₀, hw⟩, fun _ => nofun⟩
        | ok x =>
          obtain ⟨tx₀, htx₀, rfl⟩ := Option.map_eq_some_iff.mp htx
          rcases List.mem_append.mp hw with hw | hw
          · exact Or.inl ⟨⟨tx₀, htx₀, hw⟩, fun _ => nofun⟩
          · cases s with
            | ledgerCreate d =>
              cases List.mem_singleton.mp hw
              exact Or.inr ⟨rfl, d, got_head _ _ _⟩
            | orderUpdate id status => cases List.mem_singleton.mp hw
            | outboxCreate d => cases List.mem_singleton.mp hw
            | _ => exact absurd hw List.not_mem_nil
      | commit => cases htx
      | rollback => cases htx
    | _ => exact Or.inl ⟨⟨tx, htx, hw⟩, fun _ => nofun⟩
  · next hq => exact Or.inl ⟨⟨tx, htx, hw⟩, fun heq => absurd heq hq⟩

theorem PendingApart.mono (h : PendingApart w) (hpending : ∀ q e, w'.Pending q e → w.Pending q e)
    (hledger : w'.ledger = w.ledger) : PendingApart w' where
  stored p e he e' he' := h.stored p e (hpending p e he) e' (hledger ▸ he')
  others p q e e' hpq he he' := h.others p q e e' hpq (hpending p e he) (hpending q e' he')

theorem PendingApart.exec (hI : PendingApart w) (hs : CommitsShaped p w c) (hnew : NewId w p ch)
    (h : exec env p c ch w = some (w', r)) : PendingApart w' := by
  have hapart : ∀ {q e e' d}, q ≠ p → Got [⟨c, r⟩] (.stmt (.ledgerCreate d)) e → w.Pending q e' →
      Indexed.clash e e' = false := by
    intro q e e' d hq hgot he'
    obtain ⟨hid, -, hfree⟩ := exec_created hgot h
    refine clash_ledger.mpr ⟨fun heq => hnew q e' hq he' (heq.symm.trans hid), fun hsame => ?_⟩
    exact hfree q e' hq he' ⟨hsame.1.symm, hsame.2.symm⟩
  refine ⟨fun q e he e' he' => ?_, fun q q' e e' hq he he' => ?_⟩
  · obtain ⟨w₁, heff, rfl⟩ := exec_effect hs h
    rcases pending_exec hs h he with ⟨hold, hcommit⟩ | ⟨rfl, d, hgot⟩
    · rcases heff.ledger_origin he' with he' | ⟨rfl, tx, hmine, -, hw⟩
      · exact hI.stored q e hold e' he'
      · have hne : p ≠ q := fun heq => hcommit heq.symm rfl
        exact hI.others p q e' e hne ⟨tx, hmine, hw ▸ List.mem_singleton_self _⟩ hold
    · rcases heff.ledger_origin he' with he' | ⟨rfl, -⟩
      · exact (exec_created hgot h).2.1 e' he'
      · obtain ⟨now, hm⟩ := hgot
        cases List.mem_singleton.mp hm
  · rcases pending_exec hs h he with ⟨hold, -⟩ | ⟨rfl, d, hgot⟩
    · rcases pending_exec hs h he' with ⟨hold', -⟩ | ⟨rfl, d, hgot⟩
      · exact hI.others q q' e e' hq hold hold'
      · rw [Indexed.clash_comm]
        exact hapart hq hgot hold
    · rcases pending_exec hs h he' with ⟨hold', -⟩ | ⟨rfl, -⟩
      · exact hapart (Ne.symm hq) hgot hold'
      · exact absurd rfl hq

theorem pendingApart_of_closed (h : ∀ p, w.txOf p = none) : PendingApart w := by
  have hnone : ∀ p e, ¬ w.Pending p e := fun p e ⟨tx, htx, _⟩ => by
    rw [h p] at htx
    cases htx
  exact ⟨fun p e he => absurd he (hnone p e), fun p q e e' _ he => absurd he (hnone p e)⟩

end

/-- In every run whose generated ids are new, the entries of open transactions are apart. -/
theorem pendingApart {env : Env} {ok : State → Step → Prop} {start : State → Prop} {s : State}
    (hstart : ∀ s, start s → Fresh s) (hnew : ∀ s p ch, ok s (.step p ch) → NewId s.world p ch)
    (h : Reach (system env) ok start s) : PendingApart s.world := by
  refine Reach.invariant (I := fun s => PendingApart s.world) (task_sat env)
    (fun s hs => (hstart s hs).1) ?_ ?_ ?_ ?_ ?_ h
  · exact fun s hs => pendingApart_of_closed (hstart s hs).2
  · exact fun s p t _ hI _ _ => hI
  · intro s p ch t l c k w r hr hI hmet hp hc hx _
    exact hI.exec ((sound hstart hr).shaped hp hc) (hnew s p ch hmet) hx
  · intro s p t l x _ hI _ _
    refine hI.mono (fun q e ⟨tx, htx, hw⟩ => ?_) rfl
    change (s.world.setTx p none).txOf q = some tx at htx
    rw [World.txOf_setTx] at htx
    split at htx
    · cases htx
    · exact ⟨tx, htx, hw⟩
  · intro s e w _ hI _ hw
    refine hI.mono (fun q e ⟨tx, htx, hw'⟩ => ⟨tx, ?_, hw'⟩) (by cases e <;> cases hw <;> rfl)
    rw [← outside_txOf hw]
    exact htx

/-! ## Answers without a failure of the call -/

/-- What the database answers in a sound transaction, for the orders of `w₀`. -/
def Smooth (env : Env) (w₀ : World) (l : History) : (c : Call) → Except Fault c.Result → Prop
  | .tx .begin, r => r = .ok ()
  | .tx (.stmt (.orderFindUnique x)), r => Open l [] → ∀ o ∈ w₀.orders, readId env x = some o.id →
      ∃ o', r = .ok (some o') ∧ o'.core = o.core ∧ (o.status = .CONFIRMED → o'.status = .CONFIRMED)
  | .tx (.stmt (.ruleFindUnique _)), r => Open l [] → ∃ found, r = .ok found
  | .tx (.stmt (.ledgerCreate d)), r => Open l [] → (∃ o ∈ w₀.orders, o.id = d.orderId) →
      (storeNumeric 18 2 d.amount).isSome → (∃ e, r = .ok e) ∨ r = .error .uniqueViolation
  | .tx .commit, r => ∀ e, Open l [.ledger e] → r = .ok ()
  | _, _ => True

/-- Every reply is smooth, or the call has failed. -/
def Explained (env : Env) (w₀ : World) (l : History) : Prop :=
  ∀ (c : Call) (r : Reply c) (l' : History), (⟨c, r⟩ :: l') <:+ l →
    (∃ m, r.1 = .error (.callFailed m)) ∨ Smooth env w₀ l' c r.1

/-- Since the log was `l₀`, every reply is smooth. -/
def SmoothSince (env : Env) (w₀ : World) (l₀ l : History) : Prop :=
  ∀ (c : Call) (r : Reply c) (l' : History), (⟨c, r⟩ :: l') <:+ l →
    l₀ <:+ l' → Smooth env w₀ l' c r.1

section

variable {env : Env} {p : Pid} {ch : Choice} {newId : Uuid} {w₀ w w' w₁ : World} {c : Call}
  {l l' l₀ : History}

theorem stmt_smooth {s : TxStmt} {x : Except Fault s.Result} (hext : w₀.Extends w)
    (h : s.run env p newId w = some x) : Smooth env w₀ l (.stmt s) x := by
  cases s with
  | orderFindUnique y =>
    intro _ o ho hy
    unfold TxStmt.run at h
    dsimp only at h
    rw [hy] at h
    cases h
    obtain ⟨o', ho', hcore, hstatus⟩ := hext.orders o ho
    have hid := Order.id_of_core hcore
    have hfound : w.orders.find? (fun b => b.id == o.id) = some o' := by
      refine Table.find?_of_mem ho' (by simpa using hid) fun b _ hb => ?_
      have hb' : b.id = o.id := by simpa using hb
      simp [Indexed.clash, hid, hb']
    exact ⟨o', congrArg Except.ok hfound, hcore, hstatus⟩
  | ruleFindUnique m =>
    cases h
    exact fun _ => ⟨_, rfl⟩
  | ledgerCreate d =>
    intro _ ⟨o, ho, hid⟩ hstored
    unfold TxStmt.run at h
    dsimp only at h
    split at h
    · next hnone =>
      rw [hnone] at hstored
      cases hstored
    split at h
    · next hmissing =>
      obtain ⟨o', ho', hcore, -⟩ := hext.orders o ho
      have hany : (w.orders.any fun b => b.id == d.orderId) = true :=
        Table.any_iff.mpr ⟨o', ho', by simpa using (Order.id_of_core hcore).trans hid⟩
      rw [hany] at hmissing
      cases hmissing
    split at h
    · cases h
    split at h
    · cases h
    split at h
    · cases h
      exact Or.inr rfl
    · cases h
      exact Or.inl ⟨_, rfl⟩
  | _ => trivial

/-- A credit that is alone in its transaction is committed. -/
theorem commit_smooth {e : LedgerEntry} {x : Except Fault Unit} (hI : PendingApart w)
    (htx : w.txOf p = some { writes := [.ledger e], aborted := false })
    (h : Call.run env p newId w (.tx .commit) = some (w₁, x)) : x = .ok () := by
  simp only [Call.run, TxCall.run, htx] at h
  rw [if_neg (by simp)] at h
  split at h
  · next hnone =>
    simp only [World.applyWrites, World.applyWrite, List.foldlM_cons, List.foldlM_nil,
      Option.bind_eq_bind] at hnone
    cases hins : w.ledger.insert? e with
    | none =>
      obtain ⟨b, hb, hclash⟩ := Table.clash_of_insert_none hins
      rw [hI.stored p e ⟨_, htx, List.mem_singleton_self _⟩ b hb] at hclash
      cases hclash
    | some t =>
      rw [hins] at hnone
      cases hnone
  · cases h
    rfl

theorem exec_smooth {r : Reply c} (hext : w₀.Extends w) (hI : PendingApart w)
    (htx : w.txOf p = l.tx) (h : exec env p c ch w = some (w', r)) :
    (∃ m, r.1 = .error (.callFailed m)) ∨ Smooth env w₀ l c r.1 := by
  refine (exec_reply h).imp_right fun ⟨w₁, hrun, _⟩ => ?_
  cases c with
  | tx c =>
    cases c with
    | begin =>
      have heq := congrArg Prod.snd (Option.some_inj.mp hrun)
      exact heq.symm
    | stmt s =>
      by_cases hopen : Open l []
      · simp only [Call.run, TxCall.run, htx.trans hopen] at hrun
        rw [if_neg (by simp)] at hrun
        obtain ⟨y, hy, heq⟩ := Option.map_eq_some_iff.mp hrun
        cases heq
        exact stmt_smooth hext hy
      · cases s <;> first | trivial | exact fun h => absurd h hopen
    | commit => exact fun e hopen => commit_smooth hI (htx.trans hopen) hrun
    | rollback => trivial
  | _ => trivial

theorem explained_nil : Explained env w₀ [] := fun _ _ _ h =>
  absurd (h.subset List.mem_cons_self) List.not_mem_nil

theorem Explained.cons {r : Reply c} (h : Explained env w₀ l)
    (hr : (∃ m, r.1 = .error (.callFailed m)) ∨ Smooth env w₀ l c r.1) :
    Explained env w₀ (⟨c, r⟩ :: l) := by
  intro c' r' l' hs
  rcases List.suffix_cons_iff.mp hs with heq | hs
  · cases heq
    exact hr
  · exact h c' r' l' hs

/-- Replies that are explained are smooth where no call of a transaction has failed. -/
theorem Explained.smoothSince (h : Explained env w₀ l) (hl : l' <:+ l)
    (hclean : Since (fun x => txFailed x = false) l₀ l') : SmoothSince env w₀ l₀ l' := by
  intro c r l₁ hs hl₁
  rcases h c r l₁ (hs.trans hl) with ⟨m, hm⟩ | hsmooth
  · obtain ⟨x, now⟩ := r
    subst hm
    cases c with
    | tx c => exact nomatch hclean.entry hs hl₁
    | _ => trivial
  · exact hsmooth

theorem SmoothSince.suffix (h : SmoothSince env w₀ l₀ l) (hl : l' <:+ l) :
    SmoothSince env w₀ l₀ l' :=
  fun c r l₁ hs hl₁ => h c r l₁ (hs.trans hl) hl₁

theorem SmoothSince.later (h : SmoothSince env w₀ l₀ l) (hl : l₀ <:+ l') :
    SmoothSince env w₀ l' l :=
  fun c r l₁ hs hl₁ => h c r l₁ hs (hl.trans hl₁)

end

/-! ## The handler -/

/-- The entries that are read as the rule a merchant has in the table. -/
def RulesOf (env : Env) (t : Table CashbackRule) : EntriesOf := fun m entry =>
  toDecimalRule env entry = .ok (ruleOf (ruleRow t m))

/-- A unique index refused a second credit of the order. -/
def Duplicate (l : History) (id : Uuid) : Prop :=
  ∃ d : LedgerData, d.orderId = id ∧ d.type = .CREDIT ∧
    Failed l (.stmt (.ledgerCreate d)) .uniqueViolation

section

variable {env : Env} {w₀ w : World} {l l₁ : History} {x : Option Json} {o : Order}

theorem Duplicate.mono {id : Uuid} (h : Duplicate l id) (hl : l <:+ l₁) : Duplicate l₁ id := by
  obtain ⟨d, hid, htype, hf⟩ := h
  exact ⟨d, hid, htype, hf.mono hl⟩

theorem Duplicate.hasCredit {id : Uuid} (hl : LogSound env w l) (h : Duplicate l id) :
    w.HasCredit id := by
  obtain ⟨d, rfl, htype, hf⟩ := h
  obtain ⟨_, e, he, hid, ht⟩ := hl.failed hf
  exact ⟨e, he, hid, ht.trans htype⟩

/-- The rule is read as it is in the table. -/
theorem ran_getCashbackRule {m : String} {r : Except Fault Rule} (hopen : Open l [])
    (hran : Ran (getCashbackRule env m).run l l₁ r) (hsmooth : SmoothSince env w₀ l l₁)
    (htold : Told env (RulesOf env w₀.rules) l₁) :
    r = .ok (ruleOf (ruleRow w₀.rules m)) ∧ Open l₁ [] := by
  obtain ⟨hfrom, hkept⟩ := (sat_getCashbackRule_from.and (sat_getCashbackRule m hopen)).ran hran
  cases hfrom with
  | @read entry read =>
    have hrule := htold.entryRead read
    rw [hrule] at hkept
    exact ⟨hrule, hkept⟩
  | failed e failed =>
    obtain ⟨now, l₂, haside, hs⟩ := failed
    have htx : History.tx l₂ = History.tx l := haside.const History.tx fun y l hy => by
      obtain ⟨c, r⟩ := y
      cases c <;> first | rfl | exact hy.elim
    obtain ⟨found, hfound⟩ := hsmooth _ _ l₂ hs haside.suffix (htx.trans hopen)
    cases hfound

/-- The insert writes the entry or finds a duplicate. -/
theorem ran_createCredit {cashback : Decimal} {r : Except Fault CreditResult} (hopen : Open l [])
    (hran : Ran (createCredit o cashback).run l l₁ r) (hsmooth : SmoothSince env w₀ l l₁)
    (ho : ∃ o' ∈ w₀.orders, o'.id = o.id) (hfits : (storeNumeric 18 2 cashback).isSome) :
    ((∃ res, r = .ok res) ∧ ∃ e, Open l₁ [.ledger e] ∧
      Got l₁ (.stmt (.ledgerCreate (creditData o cashback))) e) ∨ Duplicate l₁ o.id := by
  rcases hran.act_tryCatch with ⟨res, hinserted, rfl⟩ | ⟨l₂, e, hthrew, hcaught⟩
  · rcases ran_await_bind hinserted with ⟨entry, now, hended⟩ | ⟨e, now, -, heq⟩
    · cases hended
      exact Or.inl ⟨⟨_, rfl⟩, entry, hopen.stmt (.ledgerCreate (creditData o cashback)) entry now,
        got_head _ _ _⟩
    · cases heq
  · rcases ran_await_bind hthrew with ⟨entry, now, hended⟩ | ⟨e', now, rfl, heq⟩
    · cases hended
    · cases heq
      rcases hsmooth _ _ l hcaught.suffix (List.suffix_refl l) hopen ho hfits
        with ⟨entry, heq⟩ | heq
      · cases heq
      · cases heq
        exact Or.inr ⟨creditData o cashback, rfl, rfl, (failed_head _ _ _).mono hcaught.suffix⟩

theorem ran_creditOrder {r : Except Fault CreditResult} (hopen : Open l [])
    (hran : Ran (creditOrder env (getCashbackRule env) x).run l l₁ r)
    (hsmooth : SmoothSince env w₀ l l₁) (htold : Told env (RulesOf env w₀.rules) l₁)
    (ho : o ∈ w₀.orders) (hx : readId env x = some o.id) (hstatus : o.status = .CONFIRMED)
    (hfits :
      (storeNumeric 18 2 (cashbackOf o.amount (ruleOf (ruleRow w₀.rules o.merchantId)))).isSome) :
    ((∃ res, r = .ok res) ∧ ∃ o' cashback e, o'.id = o.id ∧ Open l₁ [.ledger e] ∧
      Got l₁ (.stmt (.ledgerCreate (creditData o' cashback))) e) ∨ Duplicate l₁ o.id := by
  rcases ran_await_bind hran with ⟨found, now, hran⟩ | ⟨e, now, rfl, -⟩
  · obtain ⟨o', hfound, hcore, hstatus'⟩ :=
      hsmooth _ _ l hran.suffix (List.suffix_refl l) hopen o ho hx
    cases hfound
    have hread := hopen.stmt (.orderFindUnique x) (some o') now
    have hlater :=
      hsmooth.later (List.suffix_cons ⟨.stmt (.orderFindUnique x), (.ok (some o'), now)⟩ l)
    rw [guardOrder_confirmed (hstatus' hstatus)] at hran
    obtain ⟨hid, -, hmerchant, hamount, -, -⟩ := Order.of_core hcore
    rcases ran_ofExcept_bind hran with ⟨_, heq, hran⟩ | ⟨e, heq, -⟩
    · cases heq
      rcases hran.act_bind with ⟨l₂, rule, hrule, hran⟩ | ⟨e, hrule, -⟩
      · obtain ⟨heq, hopen'⟩ := ran_getCashbackRule hread hrule (hlater.suffix hran.suffix)
          (htold.suffix hran.suffix)
        cases heq
        rw [hmerchant, hamount] at hran
        rcases ran_createCredit hopen' hran (hlater.later hrule.suffix) ⟨o, ho, hid.symm⟩ hfits with
          ⟨hres, e, hwritten, hgot⟩ | hdup
        · exact Or.inl ⟨hres, o', _, e, hid, hwritten, hgot⟩
        · exact Or.inr (hid ▸ hdup)
      · obtain ⟨heq, -⟩ := ran_getCashbackRule hread hrule hlater htold
        cases heq
    · cases heq
  · obtain ⟨o', heq, -⟩ := hsmooth _ _ l (List.suffix_refl _) (List.suffix_refl l) hopen o ho hx
    cases heq

/-- A clean handling of an event leaves a credit of the order it names. -/
theorem HandledCleanly.hasCredit {ev : Event} (h : HandledCleanly env l ev) (hl : LogSound env w l)
    (hexplained : Explained env w₀ l) (htold : Told env (RulesOf env w₀.rules) l)
    (ho : o ∈ w₀.orders) (hx : readId env ev.orderId = some o.id) (hstatus : o.status = .CONFIRMED)
    (hfits :
      (storeNumeric 18 2 (cashbackOf o.amount (ruleOf (ruleRow w₀.rules o.merchantId)))).isSome) :
    w.HasCredit o.id := by
  obtain ⟨l₀, l₁, r, -, hran, hs, hclean⟩ := h
  have hsmooth := hexplained.smoothSince hs hclean
  rcases ran_transaction hran with ⟨e, now, rfl⟩ | ⟨begun, l₂, y, hbody, hs₂, hcommit⟩
  · have heq := hsmooth _ _ l₀ (List.suffix_refl _) (List.suffix_refl l₀)
    cases heq
  · have hbegun := List.suffix_cons (⟨.tx .begin, (.ok (), begun)⟩ : Σ c, Reply c) l₀
    rcases ran_creditOrder (open_begin begun l₀) hbody ((hsmooth.suffix hs₂).later hbegun)
      (htold.suffix (hs₂.trans hs)) ho hx hstatus hfits
      with ⟨⟨res, rfl⟩, o', cashback, e, hid, hopen, hgot⟩ | hdup
    · obtain ⟨z, now, hcommitted⟩ := hcommit res rfl
      have heq := hsmooth _ _ l₂ hcommitted (hbegun.trans hbody.suffix) e hopen
      cases heq
      have hdone : CreditCommitted l o' := ⟨cashback, e, now, l₂, hcommitted.trans hs, hopen, hgot⟩
      exact hid ▸ hdone.hasCredit hl
    · exact (hdup.mono (hs₂.trans hs)).hasCredit hl

end

end CashbackLedger
