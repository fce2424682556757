import CashbackLedger.Safety.Submitted

/-
  Reading a rule past whatever the cache holds.

  `parseCached` checks the shape of what is stored, `toDecimalRule` reads its numbers, outside any
  `try`. So a stored document of the right shape whose texts are no numbers makes the read throw,
  and numbers out of range are handed on. What is stored is harmless exactly when everything of the
  right shape is well formed (`corrupt_cache_survived`), whatever becomes of the Redis calls.
-/

namespace CashbackLedger

open Lib History

/-- A rate between 0 and 1, no cap or a non-negative one. -/
structure Rule.InRange (rule : Rule) : Prop where
  rate_nonneg : 0 ≤ rule.rate
  rate_le_one : rule.rate ≤ 1
  cap_nonneg : ∀ cap, rule.cap = some cap → 0 ≤ cap

/-- The stored string is a well-formed entry for this rule. -/
def Decodes (env : Env) (raw : JsonText) (rule : Rule) : Prop :=
  ∃ entry, parseCached raw = some entry ∧ toDecimalRule env entry = .ok rule ∧ rule.InRange

/-- Of the right shape only if well formed. -/
def Harmless (env : Env) (raw : JsonText) : Prop :=
  ∀ entry, parseCached raw = some entry → ∃ rule, toDecimalRule env entry = .ok rule ∧ rule.InRange

def lockKey (m : String) : String := ruleKey m ++ ":lock"

/-- The cache answered this string for the key of the merchant. -/
def Stored (m : String) (l : History) (raw : JsonText) : Prop :=
  Got l (.redis (.get (ruleKey m))) (some raw)

/-- No entry was found in the cache. -/
def NoEntry (m : String) (l : History) : Prop := ∀ raw, Stored m l raw → parseCached raw = none

/-- A read in a database with these rules, where the cache answers strings in `S` only. -/
structure ReadsFrom (S : JsonText → Prop) (t : Table CashbackRule) (m : String)
    (l : History) : Prop where
  stored : ∀ raw, Stored m l raw → S raw
  row : ∀ found, RowRead l m found → found = ruleRow t m
  works : ∀ e, ¬ Failed l (.tx (.stmt (.ruleFindUnique m))) e

/-- A lock that was acquired has been released, or its release was tried and the lock expires. -/
def LockFreed (env : Env) (m : String) (l : History) : Prop :=
  ∀ now l₁, (⟨.redis (.setNx (lockKey m) env.lockTtlMs), (.ok true, now)⟩ :: l₁) <:+ l →
    ∃ r l₂, (⟨.redis (.del (lockKey m)), r⟩ :: l₂) <:+ l ∧
      (⟨.redis (.setNx (lockKey m) env.lockTtlMs), (.ok true, now)⟩ :: l₁) <:+ l₂

/-- The read yields the rule of a well-formed entry it found, or without one the rule in the
    database or the default; no lock is left behind. -/
structure Survives (env : Env) (t : Table CashbackRule) (m : String) (l : History)
    (r : Except Fault Rule) : Prop where
  rule : ∃ rule, r = .ok rule ∧ ((∃ raw, Stored m l raw ∧ Decodes env raw rule) ∨
    (∀ raw, Stored m l raw → ¬ ∃ rule', Decodes env raw rule') ∧ rule = ruleOf (ruleRow t m))
  lock : LockFreed env m l

/-! ## How a read ends -/

inductive ReadEnds (env : Env) (m : String) (l : History) : Except Fault Rule → Prop where
  | hit {raw : JsonText} {entry : CachedCashbackRule} (stored : Stored m l raw)
      (parsed : parseCached raw = some entry) : ReadEnds env m l (toDecimalRule env entry)
  | loaded {found : Option CashbackRule} (missed : NoEntry m l) (read : RowRead l m found) :
      ReadEnds env m l (toDecimalRule env (rulePayload env found))
  | failed (e : Fault) (failed : Failed l (.tx (.stmt (.ruleFindUnique m))) e) :
      ReadEnds env m l (.error e)

section

variable {env : Env} {m : String} {l l' : History} {c : Call} {r : Reply c}

/-- Any call that acquires no lock. -/
def NoAcquire (_ : History) (c : Call) : Prop := ∀ key ms, c ≠ .redis (.setNx key ms)

theorem noEntry_nil : NoEntry m [] := fun _ ⟨_, h⟩ => absurd h List.not_mem_nil

theorem NoEntry.cons (h : NoEntry m l) (hc : ∀ key, c ≠ .redis (.get key)) :
    NoEntry m (⟨c, r⟩ :: l) := by
  rintro raw ⟨now, hm⟩
  rcases List.mem_cons.mp hm with heq | hm
  · cases heq
    exact absurd rfl (hc _)
  · exact h raw ⟨now, hm⟩

/-- The entry in a reply of the cache. -/
def entryIn {key : String} : Reply (.redis (.get key)) → Option CachedCashbackRule
  | (.ok (some raw), _) => parseCached raw
  | _ => none

theorem NoEntry.get {r : Reply (.redis (.get (ruleKey m)))} (h : NoEntry m l)
    (hr : entryIn r = none) : NoEntry m (⟨.redis (.get (ruleKey m)), r⟩ :: l) := by
  rintro raw ⟨now, hm⟩
  rcases List.mem_cons.mp hm with heq | hm
  · cases heq
    exact hr
  · exact h raw ⟨now, hm⟩

theorem ReadEnds.cons {x : Except Fault Rule} (h : ReadEnds env m l x)
    (hc : ∀ key, c ≠ .redis (.get key)) : ReadEnds env m (⟨c, r⟩ :: l) x := by
  cases h with
  | hit stored parsed => exact .hit (stored.cons _) parsed
  | loaded missed read => exact .loaded (missed.cons hc) (read.mono (List.suffix_cons _ _))
  | failed e failed => exact .failed e (failed.cons _)

theorem ends_entryIn {r : Reply (.redis (.get (ruleKey m)))} {entry : CachedCashbackRule}
    (h : entryIn r = some entry) :
    ReadEnds env m (⟨.redis (.get (ruleKey m)), r⟩ :: l) (toDecimalRule env entry) := by
  unfold entryIn at h
  split at h
  · exact .hit (got_head _ _ _) h
  · cases h

/-- A lock that was not acquired needs no release. -/
theorem LockFreed.cons (h : LockFreed env m l) {x : Σ c, Reply c}
    (hx : ∀ now, x ≠ ⟨.redis (.setNx (lockKey m) env.lockTtlMs), (.ok true, now)⟩) :
    LockFreed env m (x :: l) := by
  intro now l₁ hs
  rcases List.suffix_cons_iff.mp hs with heq | hs
  · exact absurd (List.cons.inj heq).1.symm (hx now)
  · obtain ⟨r', l₂, hdel, hold⟩ := h now l₁ hs
    exact ⟨r', l₂, hdel.trans (List.suffix_cons _ _), hold⟩

theorem LockFreed.call (h : LockFreed env m l) (hc : NoAcquire l c) :
    LockFreed env m (⟨c, r⟩ :: l) :=
  h.cons fun _ heq => hc _ _ (congrArg Sigma.fst heq)

/-- After the release. -/
theorem lockFreed_del (r : Reply (.redis (.del (lockKey m)))) (l : History) :
    LockFreed env m (⟨.redis (.del (lockKey m)), r⟩ :: l) := by
  intro now l₁ hs
  rcases List.suffix_cons_iff.mp hs with heq | hs
  · cases heq
  · exact ⟨r, l, List.suffix_refl _, hs⟩

theorem lockFreed_nil : LockFreed env m [] :=
  fun _ _ h => absurd (List.suffix_nil.mp h) (List.cons_ne_nil _ _)

/-- The reply of the cache decides what is read. -/
theorem sat_readCache_exact {P : History → Call → Prop}
    {Q : History → Except Fault (Option CachedCashbackRule) → Prop}
    (hP : P l (.redis (.get (ruleKey m))))
    (h : ∀ r, Q (⟨.redis (.get (ruleKey m)), r⟩ :: l) (.ok (entryIn r))) :
    Sat P Q l (readCache (ruleKey m)).run := by
  refine sat_act_tryCatch.mpr (sat_await_bind hP (fun raw now => ?_) fun e now => h _)
  cases raw with
  | none => exact h _
  | some raw => exact h _

/-- The reply to the acquisition decides whether the lock is held. -/
theorem sat_acquireLock {P : History → Call → Prop} {Q : History → Except Fault Bool → Prop}
    (hP : P l (.redis (.setNx (lockKey m) env.lockTtlMs)))
    (h : ∀ r gotLock, (gotLock = false → r.1 ≠ .ok true) →
      Q (⟨.redis (.setNx (lockKey m) env.lockTtlMs), r⟩ :: l) (.ok gotLock)) :
    Sat P Q l (acquireLock env (lockKey m)).run := by
  refine sat_act_tryCatch.mpr (sat_await hP (fun x now => ?_) fun e now => ?_)
  · refine h _ x fun hx => ?_
    rw [hx]
    exact nofun
  · exact h _ false fun _ => nofun

theorem sat_loadRule_ends (h : NoEntry m l) :
    Sat NoAcquire (ReadEnds env m) l (loadRule env m).run := by
  refine sat_await_bind (fun _ _ => nofun) (fun found now => ?_) fun e now =>
    .failed e (failed_head e now l)
  refine sat_tryAwait_bind (fun _ _ => nofun) fun r _ => sat_ofExcept (.loaded ?_ ?_)
  · exact NoEntry.cons (NoEntry.cons h fun _ => nofun) fun _ => nofun
  · exact Or.inl ((got_head _ _ _).cons _)

theorem sat_readThrough_ends (h : NoEntry m l) (gotLock : Bool) :
    Sat NoAcquire (ReadEnds env m) l (readThrough env m gotLock).run := by
  unfold readThrough
  cases gotLock with
  | true => exact sat_loadRule_ends h
  | false =>
    refine sat_tell_bind (fun _ _ => nofun) fun slept now =>
      sat_act_bind.mpr (sat_readCache_exact (fun _ _ => nofun) fun r => ?_)
    have hslept : NoEntry m (⟨.proc (.sleep env.lockWaitMs), (slept, now)⟩ :: l) :=
      h.cons fun _ => nofun
    cases hr : entryIn r with
    | none => exact sat_loadRule_ends (hslept.get hr)
    | some entry => exact sat_ofExcept (ends_entryIn hr)

/-- How the whole read ends. -/
theorem sat_getCashbackRule_ends :
    Sat (fun _ _ => True) (fun l r => ReadEnds env m l r ∧ LockFreed env m l)
      [] (getCashbackRule env m).run := by
  refine sat_act_bind.mpr (sat_readCache_exact trivial fun r => ?_)
  have hfreed : LockFreed env m [⟨.redis (.get (ruleKey m)), r⟩] :=
    lockFreed_nil.call fun _ _ => nofun
  cases hr : entryIn r with
  | some entry => exact sat_ofExcept ⟨ends_entryIn hr, hfreed⟩
  | none =>
    have hmissed := noEntry_nil.get hr
    refine sat_act_bind.mpr (sat_acquireLock trivial fun r' gotLock hlock => sat_act_finally.mpr ?_)
    have hmissed' :
        NoEntry m
          [⟨.redis (.setNx (lockKey m) env.lockTtlMs), r'⟩, ⟨.redis (.get (ruleKey m)), r⟩] :=
      hmissed.cons fun _ => nofun
    have hread : Sat NoAcquire (ReadEnds env m) _ (readThrough env m gotLock).run :=
      sat_readThrough_ends hmissed' gotLock
    cases gotLock with
    | true =>
      refine hread.mono (fun _ _ _ => trivial) fun l' x hx => ?_
      refine sat_tryAwait (c := .redis (.del _)) trivial fun r'' _ => ?_
      exact ⟨hx.cons fun _ => nofun, lockFreed_del r'' l'⟩
    | false =>
      have hfreed' :=
          hfreed.cons (x := ⟨.redis (.setNx (lockKey m) env.lockTtlMs), r'⟩) fun now heq => by
        cases heq
        exact hlock rfl rfl
      have hkept := hread.along hfreed' fun l' c r h hc => h.call hc
      exact hkept.mono (fun _ _ _ => trivial) fun l' x hx => hx

/-! ## What may be stored -/

variable {S : JsonText → Prop} {t : Table CashbackRule} {x : Except Fault Rule}

theorem ReadEnds.survives (henv : DecimalText env)
    (hfits : ∀ r, ruleRow t m = some r → r.FitsColumns) (hS : ∀ raw, S raw → Harmless env raw)
    (hreads : ReadsFrom S t m l) (hlock : LockFreed env m l) (h : ReadEnds env m l x) :
    Survives env t m l x := by
  refine ⟨?_, hlock⟩
  cases h with
  | @hit raw entry stored parsed =>
    obtain ⟨rule, hrule, hrange⟩ := hS raw (hreads.stored raw stored) entry parsed
    exact ⟨rule, hrule, Or.inl ⟨raw, stored, entry, parsed, hrule, hrange⟩⟩
  | loaded missed read =>
    obtain rfl := hreads.row _ read
    refine ⟨_, toDecimalRule_rulePayload henv hfits, Or.inr ⟨fun raw hraw => ?_, rfl⟩⟩
    rintro ⟨rule', entry, parsed, -⟩
    rw [missed raw hraw] at parsed
    cases parsed
  | failed e failed => exact absurd failed (hreads.works e)

/-- An entry of the right shape is taken at once. -/
theorem ran_hit {raw : JsonText} {entry : CachedCashbackRule} (h : parseCached raw = some entry) :
    Ran (getCashbackRule env m).run [] [⟨.redis (.get (ruleKey m)), (.ok (some raw), 0)⟩]
      (toDecimalRule env entry) := by
  refine .call (.ok (some raw), 0) ?_
  dsimp only [Prog.bind, ExceptT.bindCont, pure, ExceptT.pure, ExceptT.mk]
  rw [h]
  dsimp only
  cases toDecimalRule env entry with
  | ok rule => exact .ret _ _
  | error e => exact .ret _ _

theorem readsFrom_hit {raw : JsonText} (h : S raw) :
    ReadsFrom S t m [⟨.redis (.get (ruleKey m)), (.ok (some raw), 0)⟩] := by
  refine ⟨fun raw' hstored => ?_, fun found hread => ?_, fun e hfailed => ?_⟩
  · obtain ⟨now, hm⟩ := hstored
    cases List.mem_singleton.mp hm
    exact h
  · rcases hread with ⟨now, hm⟩ | ⟨now, hm⟩
    · cases List.mem_singleton.mp hm
    · cases List.mem_singleton.mp hm
  · obtain ⟨now, hm⟩ := hfailed
    cases List.mem_singleton.mp hm

theorem default_inRange : (ruleOf none).InRange := by
  refine ⟨?_, ?_, nofun⟩
  · show 0 ≤ defaultRate
    norm_num [defaultRate]
  · show defaultRate ≤ 1
    norm_num [defaultRate]

end

/-- Strings are survived, whatever is in the database and becomes of the Redis calls, exactly when
    each of them that has the shape of an entry is well formed. -/
theorem corrupt_cache_survived (env : Env) (henv : DecimalText env) (m : String)
    (S : JsonText → Prop) :
    (∀ t l x, (∀ r, ruleRow t m = some r → r.FitsColumns) → Ran (getCashbackRule env m).run [] l x →
      ReadsFrom S t m l → Survives env t m l x) ↔ ∀ raw, S raw → Harmless env raw := by
  constructor
  · intro h raw hraw entry hparsed
    obtain ⟨rule, hrule, hfrom⟩ :=
      (h .empty _ _ (fun _ => nofun) (ran_hit hparsed) (readsFrom_hit hraw)).rule
    refine ⟨rule, hrule, ?_⟩
    rcases hfrom with ⟨raw', -, entry', -, -, hrange⟩ | ⟨-, rfl⟩
    · exact hrange
    · exact default_inRange
  · intro hS t l x hfits hran hreads
    obtain ⟨hends, hlock⟩ := sat_getCashbackRule_ends.ran hran
    exact hends.survives henv hfits hS hreads hlock

/-- A stored document of the right shape. -/
def entryWith (rate : String) : RedisEntry :=
  { key := ruleKey "shop-1", value := some (.obj [("rate", .str rate), ("cap", .null)]),
    expiresAt := 60000 }

/-- The rate that is read with this entry in the cache and no rule in the database. -/
def rateRead (entry : RedisEntry) : Option (Except Fault Decimal) :=
  (runBeside (platform id) 0 alone { World.empty with redis := [entry] }
    (getCashbackRule (platform id) "shop-1")).map fun x => x.2.map Rule.rate

/-- A rate that is no number makes the read throw; one out of range is handed on. -/
theorem corrupt_cache_fails :
    (rateRead (entryWith "abc")).map Except.isOk = some false ∧
      (rateRead (entryWith "2")).map Except.toOption = some (some 2) := by
  decide +kernel

/-- A rate of 10 %, found in the cache. -/
def hitRead : History :=
  [⟨.redis (.get (ruleKey "shop-1")), (.ok (some (entryWith "0.1").value), 0)⟩]

theorem readDecimal_tenth : (platform id).readDecimal "0.1" = some (1 / 10) := by decide +kernel

theorem corrupt_cache_survived_entry :
    Survives (platform id) .empty "shop-1" hitRead (toDecimalRule (platform id) ⟨"0.1", none⟩) := by
  have hrule : toDecimalRule (platform id) ⟨"0.1", none⟩ = .ok ⟨1 / 10, none⟩ := by
    unfold toDecimalRule newDecimal
    rw [readDecimal_tenth]
    rfl
  refine (corrupt_cache_survived (platform id) (platform_decimalText id) "shop-1"
    fun raw => raw = (entryWith "0.1").value).mpr ?_ .empty hitRead _
    (fun _ => nofun) (ran_hit rfl) (readsFrom_hit rfl)
  rintro raw rfl entry hparsed
  cases hparsed
  exact ⟨_, hrule, by norm_num, by norm_num, nofun⟩

end CashbackLedger
