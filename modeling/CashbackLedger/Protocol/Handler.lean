import CashbackLedger.Run.History

/-
  What crediting an order does, call by call.

  `HandlerCall env x l c`: the handler for the order `x` may issue `c` after the log `l`. It
  reads the order it was given, inserts a CREDIT entry made from the order it read CONFIRMED,
  and commits nothing but that entry. `Credited` is what its normal return leaves in the log;
  when it throws, the log holds no commit of its own (`NoCommit`).
-/

namespace CashbackLedger

open Lib History

abbrev Call.stmt (s : TxStmt) : Call := .tx (.stmt s)

/-- The handler read the order `x` and found it confirmed. -/
def FoundConfirmed (l : History) (x : Option Json) (o : Order) : Prop :=
  Got l (.stmt (.orderFindUnique x)) (some o) ∧ o.status = .CONFIRMED

/-- The handler committed a CREDIT entry of `o`. -/
def CreditCommitted (l : History) (o : Order) : Prop :=
  ∃ cashback entry now l', (⟨.tx .commit, (.ok (), now)⟩ :: l') <:+ l ∧
    Open l' [.ledger entry] ∧ Got l' (.stmt (.ledgerCreate (creditData o cashback))) entry

/-- A unique index refused the entry of `o`, and the next statement of the same transaction was
    answered. -/
def CreditRefused (l : History) (o : Order) : Prop :=
  ∃ existing now l', (⟨.stmt (.ledgerFindUnique o.id .CREDIT), (.ok existing, now)⟩ :: l') <:+ l ∧
    Aborted l'

/-- The handler has returned for the order `x`. -/
def Credited (l : History) (x : Option Json) : Prop :=
  ∃ o, FoundConfirmed l x o ∧ (CreditCommitted l o ∨ CreditRefused l o)

/-- A commit that was answered. -/
def IsCommit : (Σ c, Reply c) → Prop
  | ⟨.tx .commit, (.ok _, _)⟩ => True
  | _ => False

/-- Since the log was `l`, no commit was answered. -/
def NoCommit : History → History → Prop := Since fun x => ¬ IsCommit x

/-- The calls that read a rule. -/
def ReadsRule : Call → Prop
  | .redis _ => True
  | .proc (.sleep _) => True
  | .tx (.stmt (.ruleFindUnique _)) => True
  | _ => False

/-- The calls inside the transaction for the order `x`. -/
def BodyCall (x : Option Json) (l : History) : Call → Prop
  | .tx (.stmt (.orderFindUnique y)) => y = x
  | .tx (.stmt (.ruleFindUnique _)) => True
  | .tx (.stmt (.ledgerCreate d)) => ∃ o cashback, FoundConfirmed l x o ∧ d = creditData o cashback
  | .tx (.stmt (.ledgerFindUnique _ type)) => type = .CREDIT
  | .redis _ => True
  | .proc (.sleep _) => True
  | _ => False

/-- The calls of the handler for the order `x`. -/
def HandlerCall (x : Option Json) (l : History) : Call → Prop
  | .tx .begin => True
  | .tx .rollback => True
  | .tx .commit => ∀ tx, l.tx = some tx → tx.aborted = false →
      ∃ o cashback entry, FoundConfirmed l x o ∧
        Got l (.stmt (.ledgerCreate (creditData o cashback))) entry ∧ tx.writes = [.ledger entry]
  | c => BodyCall x l c

variable {env : Env} {l l' : History} {x : Option Json} {o : Order}

theorem FoundConfirmed.mono (h : FoundConfirmed l x o) (hl : l <:+ l') : FoundConfirmed l' x o :=
  ⟨h.1.mono hl, h.2⟩

theorem CreditCommitted.mono (h : CreditCommitted l o) (hl : l <:+ l') : CreditCommitted l' o := by
  obtain ⟨cashback, entry, now, l₁, hs, hopen, hgot⟩ := h
  exact ⟨cashback, entry, now, l₁, hs.trans hl, hopen, hgot⟩

theorem CreditRefused.mono (h : CreditRefused l o) (hl : l <:+ l') : CreditRefused l' o := by
  obtain ⟨existing, now, l₁, hs, ha⟩ := h
  exact ⟨existing, now, l₁, hs.trans hl, ha⟩

theorem Credited.mono (h : Credited l x) (hl : l <:+ l') : Credited l' x := by
  obtain ⟨o, hfound, hcommitted | hrefused⟩ := h
  · exact ⟨o, hfound.mono hl, Or.inl (hcommitted.mono hl)⟩
  · exact ⟨o, hfound.mono hl, Or.inr (hrefused.mono hl)⟩

theorem ReadsRule.body {c : Call} (h : ReadsRule c) : BodyCall x l c := by
  cases c with
  | redis c => trivial
  | proc c => cases c <;> trivial
  | tx c =>
    cases c with
    | stmt s => cases s <;> trivial
    | _ => exact h.elim
  | _ => exact h.elim

theorem BodyCall.handler {c : Call} (h : BodyCall x l c) : HandlerCall x l c := by
  cases c with
  | tx c => cases c <;> first | exact h | exact h.elim
  | _ => exact h

/-- Inside the body nothing is committed. -/
theorem BodyCall.not_isCommit {c : Call} (h : BodyCall x l c) (r : Reply c) :
    ¬ IsCommit ⟨c, r⟩ := by
  cases c with
  | tx c => cases c <;> first | exact id | exact h.elim
  | _ => exact id

/-! ## Reading the rule -/

section

variable {α : Type} {P : History → Call → Prop} {Q : History → Except Fault α → Prop}

/-- A call whose failure is replaced by a default. -/
theorem sat_tryAwait_bind {c : Call} {d : c.Result} {f : c.Result → Async α} (hP : P l c)
    (hf : ∀ r x, Sat P Q (⟨c, r⟩ :: l) (f x).run) :
    Sat P Q l ((tryCatch (await c) fun _ => pure d) >>= f).run := by
  refine sat_act_bind.mpr (sat_act_tryCatch.mpr ⟨hP, ?_⟩)
  rintro ⟨e | x, now⟩ <;> exact hf _ _

theorem sat_tryAwait {c : Call} {d : c.Result} {Q : History → Except Fault c.Result → Prop}
    (hP : P l c) (hQ : ∀ r x, Q (⟨c, r⟩ :: l) (.ok x)) :
    Sat P Q l (tryCatch (await c) fun _ => pure d : Async c.Result).run := by
  refine sat_act_tryCatch.mpr ⟨hP, ?_⟩
  rintro ⟨e | x, now⟩ <;> exact hQ _ _

theorem sat_readCache_bind {key : String} {f : Option CachedCashbackRule → Async α}
    (hP : P l (.redis (.get key)))
    (hf : ∀ r raw, Sat P Q (⟨.redis (.get key), r⟩ :: l) (f raw).run) :
    Sat P Q l (readCache key >>= f).run := by
  refine sat_act_bind.mpr (sat_act_tryCatch.mpr ?_)
  refine sat_await_bind hP (fun raw now => ?_) fun e now => hf _ _
  cases raw with
  | none => exact hf _ _
  | some raw => exact hf _ _

end

/-- A rule that is read leaves the open transaction as it is. -/
def RuleRead (l : History) : Except Fault Rule → Prop
  | .ok _ => Open l []
  | .error _ => True

theorem ruleRead_ofExcept {r : Except Fault Rule} (h : Open l []) : RuleRead l r := by
  cases r with
  | ok rule => exact h
  | error e => trivial

theorem sat_loadRule (merchantId : String) (h : Open l []) :
    Sat (fun _ c => ReadsRule c) RuleRead l (loadRule env merchantId).run := by
  refine sat_await_bind trivial (fun rule now => ?_) fun e now => trivial
  have hopen := h.stmt (.ruleFindUnique merchantId) rule now
  exact sat_tryAwait_bind trivial fun r _ => sat_ofExcept (ruleRead_ofExcept (hopen.redis r))

theorem sat_readThrough (merchantId : String) (gotLock : Bool) (h : Open l []) :
    Sat (fun _ c => ReadsRule c) RuleRead l (readThrough env merchantId gotLock).run := by
  unfold readThrough
  split
  · exact sat_loadRule merchantId h
  · refine sat_tell_bind trivial fun r now => sat_readCache_bind trivial fun r' raw => ?_
    have hopen := (h.proc (r, now)).redis r'
    cases raw with
    | none => exact sat_loadRule merchantId hopen
    | some retried => exact sat_ofExcept (ruleRead_ofExcept hopen)

theorem sat_getCashbackRule (merchantId : String) (h : Open l []) :
    Sat (fun _ c => ReadsRule c) RuleRead l (getCashbackRule env merchantId).run := by
  refine sat_readCache_bind trivial fun r raw => ?_
  cases raw with
  | some cached => exact sat_ofExcept (ruleRead_ofExcept (h.redis r))
  | none =>
    refine sat_tryAwait_bind trivial fun r' gotLock => sat_act_finally.mpr ?_
    refine (sat_readThrough merchantId gotLock ((h.redis r).redis r')).post fun l' rule hrule => ?_
    cases gotLock with
    | false => exact hrule
    | true =>
      rw [if_pos rfl]
      refine sat_tryAwait (c := .redis (.del _)) trivial fun r _ => ?_
      cases rule with
      | ok rule => exact hrule.redis r
      | error e => trivial

theorem sat_findRule (merchantId : String) (h : Open l []) :
    Sat (fun _ c => ReadsRule c) RuleRead l (findRule merchantId).run := by
  refine sat_await_bind trivial (fun rule now => ?_) fun e now => trivial
  exact h.stmt (.ruleFindUnique merchantId) rule now

/-! ## The handler -/

/-- The end of the transaction's body: the entry is written, or a unique index refused it. -/
def CreditReady (x : Option Json) (l : History) : Except Fault CreditResult → Prop
  | .ok _ => ∃ o cashback, FoundConfirmed l x o ∧
      ((∃ entry, Open l [.ledger entry] ∧
          Got l (.stmt (.ledgerCreate (creditData o cashback))) entry) ∨
        (Aborted l ∧ CreditRefused l o))
  | .error _ => True

theorem sat_createCredit {cashback : Decimal} (hf : FoundConfirmed l x o) (h : Open l []) :
    Sat (BodyCall x) (CreditReady x) l (createCredit o cashback).run := by
  have hcall : BodyCall x l (.stmt (.ledgerCreate (creditData o cashback))) :=
    ⟨o, cashback, hf, rfl⟩
  refine sat_act_tryCatch.mpr (sat_await_bind hcall (fun entry now => ?_) fun e now => ?_)
  · have hopen := h.stmt (.ledgerCreate (creditData o cashback)) entry now
    exact ⟨o, cashback, hf.mono (List.suffix_cons _ _), Or.inl ⟨entry, hopen, got_head _ _ _⟩⟩
  · have haborted := h.failed (.ledgerCreate (creditData o cashback)) e now
    dsimp only
    split
    · next he =>
      subst he
      refine sat_await_bind rfl (fun existing now' => ?_) fun e now => trivial
      refine ⟨o, cashback, (hf.mono (List.suffix_cons _ _)).mono (List.suffix_cons _ _),
        Or.inr ⟨?_, ?_⟩⟩
      · exact haborted.stmt (.ledgerFindUnique o.id .CREDIT) existing now'
      · exact ⟨existing, now', _, List.suffix_refl _, haborted⟩
    · trivial

theorem guardOrder_confirmed (hstatus : o.status = .CONFIRMED) :
    guardOrder env x (some o) = .ok o := by
  simp only [guardOrder, hstatus, ne_eq, not_true_eq_false, if_false]
  rfl

/-- An order passes the checks exactly when it was found and is confirmed. -/
theorem guardOrder_ok {found : Option Order} {order : Order}
    (h : guardOrder env x found = .ok order) : found = some order ∧ order.status = .CONFIRMED := by
  cases found with
  | none =>
    unfold guardOrder at h
    cases hid : stringOf env x <;> rw [hid] at h <;> cases h
  | some o =>
    by_cases hstatus : o.status = .CONFIRMED
    · simp only [guardOrder, hstatus, ne_eq, not_true_eq_false, if_false] at h
      cases h
      exact ⟨rfl, hstatus⟩
    · simp only [guardOrder, hstatus, ne_eq, not_false_eq_true, if_true] at h
      cases hid : stringOf env x <;> rw [hid] at h <;> cases h

theorem sat_creditOrder (env : Env) {rule : String → Async Rule}
    (hrule : ∀ l m, Open l [] → Sat (fun _ c => ReadsRule c) RuleRead l (rule m).run)
    (h : Open l []) : Sat (BodyCall x) (CreditReady x) l (creditOrder env rule x).run := by
  refine sat_await_bind rfl (fun found now => ?_) fun e now => trivial
  have hopen := h.stmt (.orderFindUnique x) found now
  refine sat_ofExcept_bind (fun order horder => ?_) fun _ _ => trivial
  obtain ⟨rfl, hstatus⟩ := guardOrder_ok horder
  have hf : FoundConfirmed (⟨.stmt (.orderFindUnique x), (.ok (some order), now)⟩ :: l) x order :=
    ⟨got_head _ _ _, hstatus⟩
  have hread := (hrule _ order.merchantId hopen).suffix
  refine Sat.act_bind (hread.mono (fun _ _ hc => hc.body) fun _ _ h => h) ?_
    fun _ _ _ => trivial
  exact fun l' rule hr => sat_createCredit (hf.mono hr.2) hr.1

/-- What the handler leaves behind when it started after `l₀`. -/
def HandlerEnd {α : Type} (x : Option Json) (l₀ l : History) : Except Fault α → Prop
  | .ok _ => Credited l x
  | .error _ => NoCommit l₀ l

theorem sat_credit {rule : String → Async Rule}
    (hrule : ∀ l m, Open l [] → Sat (fun _ c => ReadsRule c) RuleRead l (rule m).run) :
    Sat (HandlerCall x) (HandlerEnd x l) l (transaction (creditOrder env rule x)).run := by
  have hrolls : ∀ {l' : History} {e : Fault}, NoCommit l l' →
      Rolls (HandlerCall x) (HandlerEnd (α := CreditResult × Time) x l) l' e :=
    fun hl => ⟨trivial, fun r => hl.cons id⟩
  have hrefl : NoCommit l l := Since.refl l
  refine sat_transaction trivial (fun e now => hrefl.cons id) fun now => ?_
  have hbegin : NoCommit l (⟨.tx .begin, (.ok (), now)⟩ :: l) := hrefl.cons id
  have hbody := (sat_creditOrder (x := x) env hrule (open_begin now l)).since
    (S := fun y => ¬ IsCommit y) fun l' c r hc => hc.not_isCommit r
  refine hbody.mono (fun _ _ hc => hc.handler) fun l' r hr => ?_
  obtain ⟨hr, hl⟩ := hr
  replace hl : NoCommit l l' := hbegin.trans hl
  cases r with
  | error e => exact hrolls hl
  | ok res =>
    obtain ⟨o, cashback, hf, hend⟩ := hr
    refine ⟨?_, fun now => ?_, fun e now => hrolls (hl.cons id)⟩
    · intro tx htx hab
      rcases hend with ⟨entry, hopen, hgot⟩ | ⟨⟨ws, haborted⟩, _⟩
      · rw [hopen] at htx
        cases htx
        exact ⟨o, cashback, entry, hf, hgot, rfl⟩
      · rw [haborted] at htx
        cases htx
        cases hab
    · refine ⟨o, hf.mono (List.suffix_cons _ _), ?_⟩
      rcases hend with ⟨entry, hopen, hgot⟩ | ⟨_, hrefused⟩
      · exact Or.inl ⟨cashback, entry, now, l', List.suffix_refl _, hopen, hgot⟩
      · exact Or.inr (hrefused.mono (List.suffix_cons _ _))

theorem sat_processOrderConfirmed (env : Env) (x : Option Json) :
    Sat (HandlerCall x) (HandlerEnd x l) l (processOrderConfirmed env x).run :=
  sat_credit fun _ m h => sat_getCashbackRule m h

theorem sat_domainProcessOrderConfirmed (env : Env) (x : Option Json) :
    Sat (HandlerCall x) (HandlerEnd x l) l (domainProcessOrderConfirmed env x).run :=
  sat_credit fun _ m h => sat_findRule m h

end CashbackLedger
