import CashbackLedger.Lib.Rounding
import CashbackLedger.Model.RuleSystem
import CashbackLedger.Protocol.Handler

/-
  A cashback rule on its way through the cache.

  A row becomes an entry of two texts (`rulePayload`), the entry a JSON document, and back. What
  the columns hold has at most four decimals, so nothing is lost on the way
  (`toDecimalRule_rulePayload`): a cap of 0 stays a cap, no cap stays no cap.

  `ReadCall env m l c`: a read of the rule of `m` may issue `c` after the log `l`. It writes to the
  cache only what it has just read from the database (`History.loaded`), and it yields an entry
  that it found in the cache or made of such a row (`EntryRead`).
-/

namespace CashbackLedger

open Lib History

/-- A decimal with at most four places. -/
def FourPlaces (q : Decimal) : Prop := ∃ n : ℤ, q = (n : ℚ) / 10 ^ 4

theorem storeNumeric_fourPlaces {p s : ℕ} {q r : Decimal} (hs : s ≤ 4)
    (h : storeNumeric p s q = some r) : FourPlaces r := by
  have hpow : (10 : ℚ) ^ 4 = 10 ^ (4 - s) * 10 ^ s := by rw [← pow_add, Nat.sub_add_cancel hs]
  have hmultiple : ∀ n : ℤ, FourPlaces ((n : ℚ) / 10 ^ s) := fun n => by
    refine ⟨n * 10 ^ (4 - s), ?_⟩
    rw [hpow]
    push_cast
    field_simp
  unfold storeNumeric at h
  split at h
  · cases h
    unfold roundHalfUp
    dsimp only
    rw [zpow_natCast]
    split
    · exact hmultiple _
    · rw [← neg_div, ← Int.cast_neg]
      exact hmultiple _
  · cases h

/-- The columns of a rule hold what they can. -/
structure CashbackRule.FitsColumns (r : CashbackRule) : Prop where
  rate : FourPlaces r.rate
  cap : ∀ cap, r.cap = some cap → FourPlaces cap

/-- The rule a merchant has with this row, or without one. -/
def ruleOf (found : Option CashbackRule) : Rule where
  rate := (found.map CashbackRule.rate).getD defaultRate
  cap := found.bind CashbackRule.cap

section

variable {env : Env} {found : Option CashbackRule}

theorem newDecimal_text (henv : DecimalText env) {q : Decimal} (h : FourPlaces q) :
    newDecimal env (env.decimalText q) = .ok q := by
  obtain ⟨n, rfl⟩ := h
  rw [newDecimal, henv.read]

theorem decimalText_ne_empty (henv : DecimalText env) {q : Decimal} (h : FourPlaces q) :
    env.decimalText q ≠ "" := by
  intro hempty
  obtain ⟨n, rfl⟩ := h
  have hread := henv.read n
  rw [hempty, henv.empty] at hread
  cases hread

/-- The document of an entry is read as the entry. -/
theorem parseCached_json (rule : CachedCashbackRule) :
    parseCached (some rule.json) = some rule := by
  obtain ⟨rate, cap⟩ := rule
  cases cap <;> rfl

theorem defaultRate_fourPlaces : FourPlaces defaultRate := ⟨500, by norm_num [defaultRate]⟩

/-- The entry made of a row is read as the rule of the row. -/
theorem toDecimalRule_rulePayload (henv : DecimalText env)
    (h : ∀ r, found = some r → r.FitsColumns) :
    toDecimalRule env (rulePayload env found) = .ok (ruleOf found) := by
  cases found with
  | none =>
    have hrate := newDecimal_text henv defaultRate_fourPlaces
    simp only [toDecimalRule, rulePayload, Option.map_none, Option.getD_none, Option.bind_none]
    rw [hrate]
    rfl
  | some r =>
    obtain ⟨hrate, hcap⟩ := h r rfl
    have hrate := newDecimal_text henv hrate
    cases hc : r.cap with
    | none =>
      simp only [toDecimalRule, rulePayload, ruleOf, Option.map_some, Option.getD_some,
        Option.bind_some, hc, Option.map_none]
      rw [hrate]
      rfl
    | some cap =>
      have hread := newDecimal_text henv (hcap cap hc)
      simp only [toDecimalRule, rulePayload, ruleOf, Option.map_some, Option.getD_some,
        Option.bind_some, hc, Option.map_some]
      simp only [hrate, hread, bind, Except.bind, if_neg (decimalText_ne_empty henv (hcap cap hc))]
      rfl

end

/-! ## Reading a rule, call by call -/

/-- The merchant and the row the process has just read and is about to write to the cache. -/
def History.loaded : History → Option (String × Option CashbackRule)
  | ⟨.tx (.stmt (.ruleFindUnique m)), (.ok found, _)⟩ :: _ => some (m, found)
  | ⟨.rules (.findUnique m), (.ok found, _)⟩ :: _ => some (m, found)
  | _ => none

/-- The process was told the row of the merchant. -/
def RowRead (l : History) (m : String) (found : Option CashbackRule) : Prop :=
  Got l (.stmt (.ruleFindUnique m)) found ∨ Got l (.rules (.findUnique m)) found

/-- Where an entry for the merchant comes from. -/
inductive EntryRead (env : Env) (l : History) (m : String) : CachedCashbackRule → Prop where
  | cached {raw : JsonText} {cached : CachedCashbackRule}
      (got : Got l (.redis (.get (ruleKey m))) (some raw))
      (parsed : parseCached raw = some cached) :
      EntryRead env l m cached
  | stored {found : Option CashbackRule} (read : RowRead l m found) :
      EntryRead env l m (rulePayload env found)

/-- The calls of a read of the rule of `m`. -/
def ReadCall (env : Env) (m : String) (l : History) : Call → Prop
  | .redis (.get key) => key = ruleKey m
  | .redis (.set key value _) => key = ruleKey m ∧ ∃ found, History.loaded l = some (m, found) ∧
      value = some (rulePayload env found).json
  | .redis (.setNx key _) => key = ruleKey m ++ ":lock"
  | .redis (.del key) => key = ruleKey m ++ ":lock"
  | .proc (.sleep _) => True
  | .tx (.stmt (.ruleFindUnique m')) => m' = m
  | .rules (.findUnique m') => m' = m
  | _ => False

/-- A Redis call or a step of the process on its own. -/
def Aside : (Σ c, Reply c) → Prop
  | ⟨.redis _, _⟩ => True
  | ⟨.proc _, _⟩ => True
  | _ => False

/-- The read of the row failed with `e`, in a transaction as it was after `l₀`. -/
def RowFailed (l₀ l : History) (m : String) (e : Fault) : Prop :=
  ∃ now l', Since Aside l₀ l' ∧ (⟨.tx (.stmt (.ruleFindUnique m)), (.error e, now)⟩ :: l') <:+ l

/-- How a read of the rule of `m` ends that was begun after `l₀`. -/
inductive RuleFrom (env : Env) (m : String) (l₀ l : History) : Except Fault Rule → Prop where
  | read {entry : CachedCashbackRule} (read : EntryRead env l m entry) :
      RuleFrom env m l₀ l (toDecimalRule env entry)
  | failed (e : Fault) (failed : RowFailed l₀ l m e) : RuleFrom env m l₀ l (.error e)

/-- The entry that is read. -/
def EntryFrom (env : Env) (m : String) (l : History) (r : Except Fault CachedCashbackRule) : Prop :=
  ∀ entry, r = .ok entry → EntryRead env l m entry

section

variable {env : Env} {m : String} {l₀ l l' : History}

theorem RowRead.mono {found : Option CashbackRule} (h : RowRead l m found) (hl : l <:+ l') :
    RowRead l' m found := h.imp (·.mono hl) (·.mono hl)

theorem EntryRead.mono {entry : CachedCashbackRule} (h : EntryRead env l m entry) (hl : l <:+ l') :
    EntryRead env l' m entry := by
  cases h with
  | cached got parsed => exact .cached (got.mono hl) parsed
  | stored read => exact .stored (read.mono hl)

theorem aside_redis (h : Since Aside l₀ l) {c : RedisCall} (r : Reply (.redis c)) :
    Since Aside l₀ (⟨.redis c, r⟩ :: l) := h.cons trivial

theorem aside_proc (h : Since Aside l₀ l) {c : LocalCall} (r : Reply (.proc c)) :
    Since Aside l₀ (⟨.proc c, r⟩ :: l) := h.cons trivial

theorem RowFailed.mono {e : Fault} (h : RowFailed l₀ l m e) (hl : l <:+ l') :
    RowFailed l₀ l' m e := by
  obtain ⟨now, l₁, hsince, hs⟩ := h
  exact ⟨now, l₁, hsince, hs.trans hl⟩

theorem RowFailed.anyFailed {e : Fault} (h : RowFailed l₀ l m e) : AnyFailed l := by
  obtain ⟨now, l₁, -, hs⟩ := h
  exact (anyFailed_head e now l₁).mono hs

theorem RuleFrom.mono {r : Except Fault Rule} (h : RuleFrom env m l₀ l r) (hl : l <:+ l') :
    RuleFrom env m l₀ l' r := by
  cases h with
  | read read => exact .read (read.mono hl)
  | failed e failed => exact .failed e (failed.mono hl)

theorem RuleFrom.entry {r : Except Fault Rule} (h : RuleFrom env m l₀ l r) {rule : Rule}
    (hr : r = .ok rule) :
    ∃ entry, EntryRead env l m entry ∧ toDecimalRule env entry = .ok rule := by
  cases h with
  | read read => exact ⟨_, read, hr⟩
  | failed e failed => cases hr

theorem EntryFrom.mono {r : Except Fault CachedCashbackRule} (h : EntryFrom env m l r)
    (hl : l <:+ l') : EntryFrom env m l' r := fun entry hr => (h entry hr).mono hl

theorem sat_readCache :
    Sat (ReadCall env m) (fun l' r => ∃ reply cached, l' = ⟨.redis (.get (ruleKey m)), reply⟩ :: l ∧
      r = .ok cached ∧ ∀ entry, cached = some entry → EntryRead env l' m entry) l
      (readCache (ruleKey m)).run := by
  refine sat_act_tryCatch.mpr (sat_await_bind rfl (fun raw now => ?_) fun e now =>
    ⟨_, none, rfl, rfl, nofun⟩)
  cases raw with
  | none => exact ⟨_, none, rfl, rfl, nofun⟩
  | some raw => exact ⟨_, parseCached raw, rfl, rfl, fun entry he => .cached (got_head _ _ _) he⟩

/-- A block under the lock: the lock is released at the end, the outcome stays. -/
theorem sat_locked {α : Type} {x : Async α} {gotLock : Bool} {Q : History → Except Fault α → Prop}
    (hmono : ∀ {l' r} y, Q l' r → Q (y :: l') r) (hx : Sat (ReadCall env m) Q l x.run) :
    Sat (ReadCall env m) Q l
      (x.finally (if gotLock then releaseLock (ruleKey m ++ ":lock") else pure ())).run := by
  refine sat_act_finally.mpr (hx.post fun l' r hr => ?_)
  cases gotLock with
  | false => exact hr
  | true => exact sat_tryAwait (c := .redis (.del _)) rfl fun _ _ => hmono _ hr

theorem sat_loadRule_from (h : Since Aside l₀ l) :
    Sat (ReadCall env m) (RuleFrom env m l₀) l (loadRule env m).run := by
  refine sat_await_bind rfl (fun found now => ?_) fun e now =>
    .failed e ⟨now, l, h, List.suffix_refl _⟩
  refine sat_tryAwait_bind ⟨rfl, found, rfl, rfl⟩ fun r _ => sat_ofExcept ?_
  exact .read (.stored (Or.inl ((got_head _ _ _).cons _)))

theorem sat_getCashbackRule_from :
    Sat (ReadCall env m) (RuleFrom env m l) l (getCashbackRule env m).run := by
  refine Sat.act_bind sat_readCache (fun l₁ cached h => ?_) fun l₁ e h => ?_
  · obtain ⟨reply, _, rfl, heq, hread⟩ := h
    cases heq
    cases cached with
    | some entry => exact sat_ofExcept (.read (hread entry rfl))
    | none =>
      have hsince := aside_redis (Since.refl l) reply
      refine sat_tryAwait_bind (c := .redis (.setNx _ _)) rfl fun r gotLock => ?_
      refine sat_locked (fun y h => h.mono (List.suffix_cons y _)) ?_
      unfold readThrough
      cases gotLock with
      | true => exact sat_loadRule_from (aside_redis hsince r)
      | false =>
        refine sat_tell_bind trivial fun slept now => ?_
        refine Sat.act_bind sat_readCache (fun l₂ retried h => ?_) fun l₂ e h => ?_
        · obtain ⟨reply', _, rfl, heq, hread⟩ := h
          cases heq
          cases retried with
          | some entry => exact sat_ofExcept (.read (hread entry rfl))
          | none =>
            exact sat_loadRule_from
              (aside_redis (aside_proc (aside_redis hsince r) (slept, now)) reply')
        · obtain ⟨_, _, -, heq, -⟩ := h
          cases heq
  · obtain ⟨_, _, -, heq, -⟩ := h
    cases heq

theorem sat_loadSnapshot :
    Sat (ReadCall env m) (EntryFrom env m) l (loadSnapshot env m).run := by
  refine sat_await_bind rfl (fun found now => ?_) fun _ _ => nofun
  refine sat_tryAwait_bind ⟨rfl, found, rfl, rfl⟩ fun r _ entry hr => ?_
  cases hr
  exact .stored (Or.inr ((got_head _ _ _).cons _))

theorem sat_getRule : Sat (ReadCall env m) (EntryFrom env m) l (getRule env m).run := by
  have hfound : ∀ {l₁ : History} {entry : CachedCashbackRule}, EntryRead env l₁ m entry →
      EntryFrom env m l₁ (.ok entry) := by
    rintro l₁ entry hread _ heq
    cases heq
    exact hread
  refine Sat.act_bind sat_readCache (fun l₁ cached h => ?_) fun l₁ e h => nofun
  obtain ⟨_, _, -, heq, hread⟩ := h
  cases heq
  cases cached with
  | some entry => exact hfound (hread entry rfl)
  | none =>
    refine sat_tryAwait_bind (c := .redis (.setNx _ _)) rfl fun r gotLock => ?_
    refine sat_locked (fun y h => h.mono (List.suffix_cons y _)) ?_
    unfold snapshotThrough
    cases gotLock with
    | true => exact sat_loadSnapshot
    | false =>
      refine sat_tell_bind trivial fun r now => ?_
      refine Sat.act_bind sat_readCache (fun l₂ retried h => ?_) fun l₂ e h => nofun
      obtain ⟨_, _, -, heq, hread⟩ := h
      cases heq
      cases retried with
      | some entry => exact hfound (hread entry rfl)
      | none => exact sat_loadSnapshot

end

/-! ## The tasks around a rule -/

/-- The process was told that its row of the merchant is stored. -/
def Upserted (l : History) (m : String) (row : CashbackRule) : Prop :=
  ∃ rate cap, Got l (.rules (.upsert m rate cap)) row

/-- The process has stored a row of the merchant and deleted the entry of the merchant. -/
def Invalidated (l : History) (m : String) : Prop :=
  Issued l (.redis (.del (ruleKey m))) ∧ ∃ row, Upserted l m row

/-- The calls a task may issue after a log. -/
def RuleTask.Calls (env : Env) : RuleTask → History → Call → Prop
  | .upsertRule m _ => fun l c => (l = [] ∧ ∃ rate cap, c = .rules (.upsert m rate cap)) ∨
      c = .redis (.del (ruleKey m)) ∧ ∃ row, Upserted l m row
  | .invalidate m => fun _ c => c = .redis (.del (ruleKey m))
  | .getRule m => ReadCall env m
  | .getCashbackRule m => fun l c => (l = [] ∧ c = .tx .begin) ∨
      Got l (.tx .begin) () ∧ ReadCall env m l c

/-- How a task ends. -/
def RuleTask.Ends (env : Env) : RuleTask → History → RuleOutcome → Prop
  | .upsertRule m _ => fun l r => ∀ a, r = .ok a → Invalidated l m
  | .invalidate _ => fun _ _ => True
  | .getRule m => fun l r => ∀ a, r = .ok a → ∃ entry, a = .snapshot entry ∧ EntryRead env l m entry
  | .getCashbackRule m => fun l r => (AnyFailed l ∧ ∃ e, r = .error e) ∨
      ∃ entry, EntryRead env l m entry ∧ r = (toDecimalRule env entry).map RuleAnswer.rule

/-- Every task obeys its protocol. -/
theorem ruleTask_sat (env : Env) (t : RuleTask) :
    Sat (t.Calls env) (t.Ends env) [] (t.program env).run := by
  cases t with
  | upsertRule m dto =>
    refine Sat.act_bind (M := fun l r => ∀ a, r = .ok a → Invalidated l m) ?_
      (fun l b h a _ => h b rfl) fun l e h => nofun
    refine sat_ofExcept_bind (fun cap hcap => ?_) fun _ _ => nofun
    refine sat_await_bind (Or.inl ⟨rfl, _, _, rfl⟩) (fun row now => ?_) fun _ _ => nofun
    refine sat_tryAwait_bind (Or.inr ⟨rfl, row, _, _, got_head _ _ _⟩) fun r _ a _ => ?_
    exact ⟨issued_head r _, row, _, _, (got_head _ _ _).cons _⟩
  | invalidate m => exact sat_tryAwait_bind (c := .redis (.del _)) rfl fun _ _ => trivial
  | getRule m =>
    refine Sat.act_bind sat_getRule (fun l entry h a ha => ?_) fun l e h => nofun
    cases ha
    exact ⟨entry, rfl, h entry rfl⟩
  | getCashbackRule m =>
    refine sat_await_bind (Or.inl ⟨rfl, rfl⟩) (fun _ now => ?_)
      fun e now => Or.inl ⟨anyFailed_head e now [], e, rfl⟩
    have hbegun := got_head (c := .tx .begin) () now []
    have hfrom : Sat (ReadCall env m) (RuleFrom env m [⟨.tx .begin, (.ok (), now)⟩]) _
        (getCashbackRule env m).run := sat_getCashbackRule_from
    have hread := hfrom.along (I := fun l => Got l (.tx .begin) ()) hbegun fun l c r h _ => h.cons _
    have hends : ∀ {l₀ l : History} {r : Except Fault Rule}, RuleFrom env m l₀ l r →
        (RuleTask.getCashbackRule m).Ends env l (r.map RuleAnswer.rule) := fun h => by
      cases h with
      | read read => exact Or.inr ⟨_, read, rfl⟩
      | failed e failed => exact Or.inl ⟨failed.anyFailed, e, rfl⟩
    have hread' : Sat ((RuleTask.getCashbackRule m).Calls env)
        (RuleFrom env m [⟨.tx .begin, (.ok (), now)⟩]) _ (getCashbackRule env m).run :=
      hread.mono (fun l c h => Or.inr ⟨h.2, h.1⟩) fun l r h => h.1
    exact Sat.act_bind hread' (fun l rule h => hends h) fun l e h => hends h

/-- No task around a rule commits. -/
theorem RuleTask.Calls.not_commit {env : Env} {t : RuleTask} {l : History} {c : Call}
    (h : t.Calls env l c) : c ≠ .tx .commit := by
  rintro rfl
  cases t with
  | upsertRule m dto =>
    rcases h with ⟨-, rate, cap, hc⟩ | ⟨hc, -⟩ <;> cases hc
  | invalidate m => cases h
  | getRule m => exact h
  | getCashbackRule m =>
    rcases h with ⟨-, hc⟩ | ⟨-, hc⟩
    · cases hc
    · exact hc

/-- So their open transactions do not matter to the stored data. -/
theorem RuleTask.Calls.shaped {env : Env} {t : RuleTask} {l : History} {c : Call} {p : Pid}
    {w : World} (h : t.Calls env l c) : CommitsShaped p w c :=
  fun hcommit => absurd hcommit h.not_commit

end CashbackLedger
