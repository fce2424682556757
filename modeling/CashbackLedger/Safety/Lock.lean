import CashbackLedger.Safety.CorruptCache
import CashbackLedger.Safety.RuleUpdates

/-
  The lock around the read of a rule.

  `acquireLock` sets `'1'` under the merchant's cache key followed by ":lock", `releaseLock` deletes
  that key, whoever set it. A caller that comes back after its lease has ended deletes the lock of
  the next one, and the lock of a merchant is the cache entry of the merchant whose id ends in
  ":lock" (`lock_removed_by_other`). Where releases come in time and no two merchants are related
  so, a lock stays until its owner releases it or its lease ends, only a lock of the same merchant
  is in its way, and at most one caller holds it (`lock_kept_by_owner`).

  The ghost value of a run is the list of the locks that were set and that their owners have not
  deleted. It also has the locks whose owners do not know of them, since the reply was lost.
-/

namespace CashbackLedger

open Lib History

/-- A lock: whose call set it, under which key, until when. -/
structure CacheLock where
  owner : Pid
  key : String
  expiresAt : Time
deriving DecidableEq

/-- What stands in Redis for a lock. -/
def CacheLock.entry (lock : CacheLock) : RedisEntry :=
  { key := lock.key, value := some (.num 1), expiresAt := lock.expiresAt }

/-- The locks after a call of `p` that took effect. -/
def locksAfter (p : Pid) (now : Time) (redis : List RedisEntry) (locks : List CacheLock) :
    RedisCall → List CacheLock
  | .setNx key ms =>
      match RedisCall.lookup now key redis with
      | some _ => locks
      | none => { owner := p, key := key, expiresAt := now + ms } :: locks
  | .del key => locks.filter fun lock => lock.owner != p || lock.key != key
  | .get _ => locks
  | .set _ _ _ => locks

def lockUpdates (s : RuleState) (lb : RuleStep) (_ : RuleState) (locks : List CacheLock) :
    List CacheLock :=
  match lb with
  | .step p ch =>
      match s.nextCall p with
      | some (.redis c) =>
          if ch.fate.takesEffect then locksAfter p s.world.clock s.world.redis locks c else locks
      | _ => locks
  | _ => locks

/-- The lock a process was told it acquired and has not tried to release, with the end of its
    lease. -/
def History.holding : History → Option (String × Time)
  | ⟨.redis (.setNx key ms), (.ok true, now)⟩ :: _ => some (key, now + ms)
  | ⟨.redis (.del _), _⟩ :: _ => none
  | _ :: l => History.holding l
  | [] => none

def RuleTask.merchantId : RuleTask → String
  | .upsertRule m _ => m
  | .invalidate m => m
  | .getRule m => m
  | .getCashbackRule m => m

/-- No lock key of the one merchant is the cache key of the other. -/
def Unrelated (m m' : String) : Prop := m ≠ m' ++ ":lock" ∧ m' ≠ m ++ ":lock"

/-- The lock a process is about to release. -/
def releasing : Option RuleProcess → Option (String × Time)
  | some ⟨_, l, .call (.redis (.del key)) _, true⟩ => (History.holding l).filter fun x => x.1 == key
  | _ => none

/-- A new merchant is unrelated to those before, and a release that takes effect comes within the
    lease, or when no lock of the key is live. -/
def InLease (s : RuleState) (_ : List CacheLock) : RuleStep → Prop
  | .spawn _ t => ∀ q pr, s.proc q = some pr → Unrelated pr.task.merchantId t.merchantId
  | .step p ch => ∀ key expiresAt, releasing (s.proc p) = some (key, expiresAt) →
      ch.fate.takesEffect = true → s.world.clock < expiresAt ∨
        RedisCall.lookup s.world.clock key s.world.redis = none
  | _ => True

/-- Nothing runs; Redis holds these entries. -/
structure LockStart (redis : List RedisEntry) (s : RuleState) (locks : List CacheLock) : Prop where
  idle : s.Idle
  redis : s.world.redis = redis
  locks : locks = []

/-- A lock within its lease is what stands under its key, and the only lock of the key. -/
structure Guarded (now : Time) (redis : List RedisEntry) (locks : List CacheLock) : Prop where
  stands : ∀ lock ∈ locks, now < lock.expiresAt →
      ∀ e, e.key = lock.key → (e ∈ redis ↔ e = lock.entry)
  alone : ∀ lock ∈ locks, ∀ lock' ∈ locks, now < lock.expiresAt → now < lock'.expiresAt →
    lock.key = lock'.key → lock = lock'

/-- Locks are removed by their owners and by the end of their leases alone. -/
structure LocksOwned (redis₀ : List RedisEntry) (s : RuleState)
    (locks : List CacheLock) : Prop where
  /-- a lock that its owner has not released stands until its lease ends -/
  stands : ∀ lock ∈ locks, s.world.clock < lock.expiresAt → ∀ e, e.key = lock.key →
    (e ∈ s.world.redis ↔ e = lock.entry)
  /-- what stands in the way of a lock is a lock of the merchant, or was there from the start -/
  unblocked : ∀ p pr, s.proc p = some pr → ∀ e ∈ s.world.redis,
    e.key = lockKey pr.task.merchantId → e ∈ redis₀ ∨
      ∃ lock ∈ locks, e = lock.entry ∧ ∃ pr', s.proc lock.owner = some pr' ∧
        pr'.task.merchantId = pr.task.merchantId
  /-- at most one caller holds a lock within its lease -/
  exclusive : ∀ p q pr pr', s.proc p = some pr → s.proc q = some pr' →
    ∀ key expiresAt expiresAt', History.holding pr.log = some (key, expiresAt) →
      History.holding pr'.log = some (key, expiresAt') → s.world.clock < expiresAt →
      s.world.clock < expiresAt' → p = q

/-! ## What one call does to the locks -/

section

variable {p : Pid} {now now' : Time} {redis : List RedisEntry} {locks : List CacheLock}
  {key : String} {lock : CacheLock}

/-- A live lock is found. -/
theorem Guarded.not_free (h : Guarded now redis locks) (hlock : lock ∈ locks)
    (hlive : now < lock.expiresAt) : RedisCall.lookup now lock.key redis ≠ none := by
  intro hnone
  have hmem : lock.entry ∈ redis := (h.stands lock hlock hlive lock.entry rfl).mpr rfl
  have hno := List.find?_eq_none.mp hnone _ hmem
  simp [CacheLock.entry, hlive] at hno

/-- Deleting a key leaves the others alone. -/
theorem mem_delete {k : String} {e : RedisEntry} :
    e ∈ RedisCall.delete k redis ↔ e ∈ redis ∧ e.key ≠ k := by
  simp [RedisCall.delete, List.mem_filter]

/-- Locks of other keys are kept by a call that changes the entries of one key. -/
theorem Guarded.keep {redis' : List RedisEntry} (h : Guarded now redis locks)
    {locks' : List CacheLock} (hsub : ∀ lock ∈ locks', lock ∈ locks)
    (hkey : ∀ lock ∈ locks', now < lock.expiresAt → lock.key ≠ key)
    (hredis : ∀ e, e.key ≠ key → (e ∈ redis' ↔ e ∈ redis)) : Guarded now redis' locks' where
  stands lock hlock hlive e he := by
    rw [hredis e (he ▸ hkey lock hlock hlive)]
    exact h.stands lock (hsub lock hlock) hlive e he
  alone lock hlock lock' hlock' := h.alone lock (hsub lock hlock) lock' (hsub lock' hlock')

theorem Guarded.later (h : Guarded now redis locks) (hle : now ≤ now') :
    Guarded now' redis locks where
  stands lock hlock hlive := h.stands lock hlock (Nat.lt_of_le_of_lt hle hlive)
  alone lock hlock lock' hlock' hlive hlive' :=
    h.alone lock hlock lock' hlock' (Nat.lt_of_le_of_lt hle hlive) (Nat.lt_of_le_of_lt hle hlive')

/-- A lock is set only where none is live. -/
theorem Guarded.setNx (h : Guarded now redis locks) (p : Pid) (key : String) (ms : Nat) :
    Guarded now ((RedisCall.setNx key ms).run now redis).1
      (locksAfter p now redis locks (.setNx key ms)) := by
  unfold RedisCall.run locksAfter
  dsimp only
  cases hlookup : RedisCall.lookup now key redis with
  | some e => exact h
  | none =>
    have hfree : ∀ lock ∈ locks, now < lock.expiresAt → lock.key ≠ key := by
      rintro lock hlock hlive rfl
      exact h.not_free hlock hlive hlookup
    have hold :
        Guarded now ((CacheLock.entry ⟨p, key, now + ms⟩) :: RedisCall.delete key redis) locks := by
      refine h.keep (fun _ hlock => hlock) hfree fun e he => ?_
      rw [List.mem_cons, mem_delete]
      constructor
      · rintro (rfl | ⟨hmem, -⟩)
        · exact absurd rfl he
        · exact hmem
      · exact fun hmem => Or.inr ⟨hmem, he⟩
    constructor
    · intro lock hlock hlive e he
      rcases List.mem_cons.mp hlock with rfl | hlock
      · rw [List.mem_cons, mem_delete]
        exact or_iff_left fun hmem => hmem.2 he
      · exact hold.stands lock hlock hlive e he
    · intro lock hlock lock' hlock' hlive hlive' hkey
      rcases List.mem_cons.mp hlock with rfl | hlock
      · rcases List.mem_cons.mp hlock' with rfl | hlock'
        · rfl
        · exact absurd hkey.symm (hfree lock' hlock' hlive')
      · rcases List.mem_cons.mp hlock' with rfl | hlock'
        · exact absurd hkey (hfree lock hlock hlive)
        · exact h.alone lock hlock lock' hlock' hlive hlive' hkey

/-- An entry of another key leaves the locks alone. -/
theorem Guarded.set (h : Guarded now redis locks) (hkey : ∀ lock ∈ locks, lock.key ≠ key)
    (value : JsonText) (seconds : Nat) :
    Guarded now ((RedisCall.set key value seconds).run now redis).1 locks := by
  refine h.keep (fun _ hlock => hlock) (fun lock hlock _ => hkey lock hlock) fun e he => ?_
  show e ∈ _ :: RedisCall.delete key redis ↔ _
  rw [List.mem_cons, mem_delete]
  constructor
  · rintro (rfl | ⟨hmem, -⟩)
    · exact absurd rfl he
    · exact hmem
  · exact fun hmem => Or.inr ⟨hmem, he⟩

/-- So does a deletion when the live locks of the key are the caller's own. -/
theorem Guarded.del (h : Guarded now redis locks)
    (hown : ∀ lock ∈ locks, now < lock.expiresAt → lock.key = key → lock.owner = p) :
    Guarded now ((RedisCall.del key).run now redis).1
      (locksAfter p now redis locks (.del key)) := by
  refine h.keep (fun lock hlock => (List.mem_filter.mp hlock).1)
    (fun lock hlock hlive (hkey : lock.key = key) => ?_) fun e he => ?_
  · obtain ⟨hlock, hother⟩ := List.mem_filter.mp hlock
    simp [hown lock hlock hlive hkey, hkey] at hother
  · show e ∈ RedisCall.delete key redis ↔ _
    rw [mem_delete]
    exact and_iff_left he

end

/-! ## Who releases -/

section

variable {env : Env} {m : String} {l : History} {c : Call} {r : Reply c}

/-- A call that acquires and releases nothing. -/
def LeavesLocks (_ : History) (c : Call) : Prop :=
  (∀ key ms, c ≠ .redis (.setNx key ms)) ∧ ∀ key, c ≠ .redis (.del key)

/-- What is deleted is the cache entry of the merchant, or the lock the process holds. -/
def Releases (m : String) (l : History) (c : Call) : Prop :=
  ∀ key, c = .redis (.del key) → key = ruleKey m ∨ ∃ expiresAt, l.holding = some (key, expiresAt)

theorem LeavesLocks.releases (h : LeavesLocks l c) : Releases m l c :=
  fun key hc => absurd hc (h.2 key)

theorem LeavesLocks.holding (h : LeavesLocks l c) :
    History.holding (⟨c, r⟩ :: l) = History.holding l := by
  cases c with
  | redis c =>
    cases c with
    | get key => rfl
    | set key value seconds => rfl
    | setNx key ms => exact absurd rfl (h.1 key ms)
    | del key => exact absurd rfl (h.2 key)
  | _ => rfl

/-- A process holds what it held before, or the lock it was just told it acquired. -/
theorem holding_cases {x : String × Time} (h : History.holding (⟨c, r⟩ :: l) = some x) :
    ((∀ key, c ≠ .redis (.del key)) ∧ History.holding l = some x) ∨ ∃ key ms now,
      (⟨c, r⟩ : Σ c, Reply c) = ⟨.redis (.setNx key ms), (.ok true, now)⟩ ∧
        x = (key, now + ms) := by
  unfold History.holding at h
  split at h
  · next heq =>
    cases heq
    exact Or.inr ⟨_, _, _, rfl, (Option.some_inj.mp h).symm⟩
  · cases h
  · next hdel heq =>
    cases heq
    exact Or.inl ⟨fun key hc => by subst hc; exact hdel key _ rfl, h⟩
  · next heq => cases heq

theorem sat_loadRule_leaves : Sat LeavesLocks (fun _ _ => True) l (loadRule env m).run :=
  sat_await_bind ⟨fun _ _ => nofun, fun _ => nofun⟩
    (fun _ _ => sat_tryAwait_bind ⟨fun _ _ => nofun, fun _ => nofun⟩
      fun _ _ => sat_ofExcept trivial)
    fun _ _ => trivial

theorem sat_readThrough_leaves (gotLock : Bool) :
    Sat LeavesLocks (fun _ _ => True) l (readThrough env m gotLock).run := by
  unfold readThrough
  cases gotLock with
  | true => exact sat_loadRule_leaves
  | false =>
    refine sat_tell_bind ⟨fun _ _ => nofun, fun _ => nofun⟩ fun _ _ => ?_
    refine sat_readCache_bind ⟨fun _ _ => nofun, fun _ => nofun⟩ fun _ retried => ?_
    cases retried with
    | none => exact sat_loadRule_leaves
    | some entry => exact sat_ofExcept trivial

theorem sat_loadSnapshot_leaves : Sat LeavesLocks (fun _ _ => True) l (loadSnapshot env m).run :=
  sat_await_bind ⟨fun _ _ => nofun, fun _ => nofun⟩
    (fun _ _ => sat_tryAwait_bind ⟨fun _ _ => nofun, fun _ => nofun⟩ fun _ _ => trivial)
    fun _ _ => trivial

theorem sat_snapshotThrough_leaves (gotLock : Bool) :
    Sat LeavesLocks (fun _ _ => True) l (snapshotThrough env m gotLock).run := by
  unfold snapshotThrough
  cases gotLock with
  | true => exact sat_loadSnapshot_leaves
  | false =>
    refine sat_tell_bind ⟨fun _ _ => nofun, fun _ => nofun⟩ fun _ _ => ?_
    refine sat_readCache_bind ⟨fun _ _ => nofun, fun _ => nofun⟩ fun _ retried => ?_
    cases retried with
    | none => exact sat_loadSnapshot_leaves
    | some entry => trivial

/-- A block under the lock releases the lock it acquired. -/
theorem sat_underLock {α : Type} {x : Bool → Async α}
    (hx : ∀ gotLock l, Sat LeavesLocks (fun _ _ => True) l (x gotLock).run) :
    Sat (Releases m) (fun _ _ => True) l
      (acquireLock env (lockKey m) >>= fun gotLock =>
        (x gotLock).finally (if gotLock then releaseLock (lockKey m) else pure ())).run := by
  have hwithout :
      ∀ l, Sat (Releases m) (fun _ _ => True) l ((x false).finally (pure ())).run := fun l =>
    sat_act_finally.mpr ((hx false l).mono (fun _ _ hc => hc.releases) fun _ _ _ => trivial)
  refine sat_act_bind.mpr (sat_act_tryCatch.mpr (sat_await (fun _ => nofun) (fun gotLock now => ?_)
    fun e now => hwithout _))
  cases gotLock with
  | false => exact hwithout _
  | true =>
    have hholds :=
      (hx true (⟨.redis (.setNx (lockKey m) env.lockTtlMs), (.ok true, now)⟩ :: l)).along
      (I := fun l => History.holding l = some (lockKey m, now + env.lockTtlMs)) rfl
      fun l' c r hl hc => hc.holding.trans hl
    refine sat_act_finally.mpr (hholds.mono (fun _ _ hc => hc.1.releases) fun l' _ hl => ?_)
    exact sat_tryAwait (c := .redis (.del _)) (fun key heq => by cases heq; exact Or.inr ⟨_, hl.2⟩)
      fun _ _ => trivial

/-- Every task deletes cache entries and locks it holds only. -/
theorem ruleTask_releases (env : Env) (t : RuleTask) :
    Sat (Releases t.merchantId) (fun _ _ => True) [] (t.program env).run := by
  cases t with
  | upsertRule m dto =>
    refine (ruleTask_sat env _).mono (fun l c hc key heq => Or.inl ?_) fun _ _ _ => trivial
    subst heq
    rcases hc with ⟨-, rate, cap, hc⟩ | ⟨hc, -⟩ <;> cases hc
    rfl
  | invalidate m =>
    refine (ruleTask_sat env _).mono (fun l c hc key heq => Or.inl ?_) fun _ _ _ => trivial
    subst heq
    cases hc
    rfl
  | getRule m =>
    refine sat_act_bind.mpr (Sat.post (Q := fun _ _ => True) ?_ fun l r _ => ?_)
    · refine sat_readCache_bind (fun _ => nofun) fun _ cached => ?_
      cases cached with
      | some entry => trivial
      | none => exact sat_underLock fun gotLock _ => sat_snapshotThrough_leaves gotLock
    · cases r <;> trivial
  | getCashbackRule m =>
    refine sat_await_bind (fun _ => nofun) (fun _ _ => ?_) fun _ _ => trivial
    refine sat_act_bind.mpr (Sat.post (Q := fun _ _ => True) ?_ fun l r _ => ?_)
    · refine sat_readCache_bind (fun _ => nofun) fun _ cached => ?_
      cases cached with
      | some entry => exact sat_ofExcept trivial
      | none => exact sat_underLock fun gotLock _ => sat_readThrough_leaves gotLock
    · cases r <;> trivial

end

/-! ## Runs -/

/-- All there is to know of locks, keys and entries. -/
structure LockInv (redis₀ : List RedisEntry) (s : RuleState) (locks : List CacheLock) : Prop where
  guarded : Guarded s.world.clock s.world.redis locks
  placed : ∀ lock ∈ locks, ∃ pr, s.proc lock.owner = some pr ∧ lock.key = lockKey pr.task.merchantId
  apart : ∀ p q pr pr', s.proc p = some pr → s.proc q = some pr' →
    lockKey pr.task.merchantId ≠ ruleKey pr'.task.merchantId
  held : ∀ p pr, s.proc p = some pr → ∀ key expiresAt,
    History.holding pr.log = some (key, expiresAt) → ⟨p, key, expiresAt⟩ ∈ locks
  entries : ∀ e ∈ s.world.redis, e ∈ redis₀ ∨ (∃ lock ∈ locks, e = lock.entry) ∨
    ∃ p pr, s.proc p = some pr ∧ e.key = ruleKey pr.task.merchantId

section

variable {env : Env} {redis₀ : List RedisEntry} {s : RuleState} {locks : List CacheLock} {p : Pid}
  {ch : Choice} {w w' : World} {t : RuleTask} {l : History} {c : Call} {rc : RedisCall}
  {r : Reply c}

theorem lockKey_inj {m m' : String} (h : lockKey m = lockKey m') : m = m' :=
  ruleKey_inj ((String.append_left_inj _).mp h)

theorem Unrelated.keys {m m' : String} (h : Unrelated m m') :
    lockKey m ≠ ruleKey m' ∧ lockKey m' ≠ ruleKey m := by
  have hkey : ∀ m m', lockKey m = ruleKey m' → m' = m ++ ":lock" := fun m m' heq =>
    ruleKey_inj (heq.symm.trans String.append_assoc)
  exact ⟨fun heq => h.2 (hkey _ _ heq), fun heq => h.1 (hkey _ _ heq)⟩

/-- A Redis call fails without effect, or takes effect and may tell so. -/
theorem exec_redis {r : Reply (.redis rc)} (hexec : exec env p (.redis rc) ch w = some (w', r)) :
    ch.fate.takesEffect = false ∧ w'.redis = w.redis ∧ (∀ x, r.1 ≠ .ok x) ∨
      ch.fate.takesEffect = true ∧ w'.redis = (rc.run w.clock w.redis).1 ∧
        ∀ x, r.1 = .ok x → (rc.run w.clock w.redis).2 = .ok x := by
  cases exec_served hexec with
  | ok fate run =>
    cases run
    exact Or.inr ⟨by rw [fate]; rfl, rfl, fun x hx => hx⟩
  | failed fate => exact Or.inl ⟨by rw [fate]; rfl, rfl, fun x => nofun⟩
  | lost fate run =>
    cases run
    exact Or.inr ⟨by rw [fate]; rfl, rfl, fun x => nofun⟩

/-- What every process is and was told stays known in the next state. -/
theorem LockInv.world {w : World} (h : LockInv redis₀ s locks) (hredis : w.redis = s.world.redis)
    (hclock : s.world.clock ≤ w.clock) : LockInv redis₀ { s with world := w } locks where
  guarded := by
    show Guarded w.clock w.redis locks
    rw [hredis]
    exact h.guarded.later hclock
  placed := h.placed
  apart := h.apart
  held := h.held
  entries := by
    show ∀ e ∈ w.redis, _
    rw [hredis]
    exact h.entries

/-- A process goes on: its own locks may change, and the entries under the keys of its merchant. -/
theorem LockInv.put {pr₀ pr : RuleProcess} {locks' : List CacheLock} (h : LockInv redis₀ s locks)
    (hp : s.proc p = some pr₀) (htask : pr.task = pr₀.task)
    (hguarded : Guarded w.clock w.redis locks')
    (hnew : ∀ lock ∈ locks', lock ∈ locks ∨ lock.owner = p ∧ lock.key = lockKey pr₀.task.merchantId)
    (hkept : ∀ lock ∈ locks, lock.owner ≠ p → lock ∈ locks')
    (hheld : ∀ key expiresAt, History.holding pr.log = some (key, expiresAt) →
      ⟨p, key, expiresAt⟩ ∈ locks')
    (hentries : ∀ e ∈ w.redis,
      (e ∈ s.world.redis ∧ ∀ lock ∈ locks, e = lock.entry → lock ∈ locks') ∨
      (∃ lock ∈ locks', e = lock.entry) ∨ e.key = ruleKey pr₀.task.merchantId) :
    LockInv redis₀ (s.put w p pr) locks' := by
  have hback : ∀ q pr', (s.put w p pr).proc q = some pr' →
      ∃ pr₁, s.proc q = some pr₁ ∧ pr₁.task = pr'.task := fun q pr' hq => by
    rw [Pool.put_proc] at hq
    split at hq
    · next heq =>
      cases hq
      exact ⟨pr₀, heq ▸ hp, htask.symm⟩
    · exact ⟨pr', hq, rfl⟩
  have hforth : ∀ q pr₁, s.proc q = some pr₁ →
      ∃ pr', (s.put w p pr).proc q = some pr' ∧ pr'.task = pr₁.task := fun q pr₁ hq => by
    rw [Pool.put_proc]
    split
    · next heq =>
      subst heq
      rw [hp] at hq
      cases hq
      exact ⟨pr, rfl, htask⟩
    · exact ⟨pr₁, hq, rfl⟩
  have hself : ∃ pr', (s.put w p pr).proc p = some pr' ∧ pr'.task = pr₀.task := hforth p pr₀ hp
  refine ⟨hguarded, fun lock hlock => ?_, fun q q' pr₁ pr₂ hq hq' => ?_, fun q pr₁ hq => ?_,
    fun e he => ?_⟩
  · rcases hnew lock hlock with hold | ⟨rfl, hkey⟩
    · obtain ⟨pr₁, hq, hkey⟩ := h.placed lock hold
      obtain ⟨pr', hq', ht⟩ := hforth _ _ hq
      exact ⟨pr', hq', ht ▸ hkey⟩
    · obtain ⟨pr', hq', ht⟩ := hself
      exact ⟨pr', hq', ht ▸ hkey⟩
  · obtain ⟨pr₁', hq₁, ht₁⟩ := hback _ _ hq
    obtain ⟨pr₂', hq₂, ht₂⟩ := hback _ _ hq'
    rw [← ht₁, ← ht₂]
    exact h.apart _ _ _ _ hq₁ hq₂
  · rw [Pool.put_proc] at hq
    split at hq
    · next heq =>
      cases hq
      exact heq ▸ hheld
    · next hne => exact fun key expiresAt hl => hkept _ (h.held _ _ hq _ _ hl) hne
  · rcases hentries e he with ⟨hold, hlocks⟩ | hlock | hkey
    · rcases h.entries e hold with hstart | ⟨lock, hlock, heq⟩ | ⟨q, pr₁, hq, hkey⟩
      · exact Or.inl hstart
      · exact Or.inr (Or.inl ⟨lock, hlocks lock hlock heq, heq⟩)
      · obtain ⟨pr', hq', ht⟩ := hforth _ _ hq
        exact Or.inr (Or.inr ⟨q, pr', hq', ht ▸ hkey⟩)
    · exact Or.inr (Or.inl hlock)
    · obtain ⟨pr', hq', ht⟩ := hself
      exact Or.inr (Or.inr ⟨p, pr', hq', ht ▸ hkey⟩)

/-- A process goes on without touching Redis. -/
theorem LockInv.same {pr₀ pr : RuleProcess} (h : LockInv redis₀ s locks) (hp : s.proc p = some pr₀)
    (htask : pr.task = pr₀.task) (hclock : w.clock = s.world.clock)
    (hredis : w.redis = s.world.redis)
    (hheld : ∀ x, History.holding pr.log = some x → History.holding pr₀.log = some x) :
    LockInv redis₀ (s.put w p pr) locks := by
  refine h.put hp htask ?_ (fun _ hlock => Or.inl hlock) (fun _ hlock _ => hlock)
    (fun key expiresAt hl => h.held p pr₀ hp key expiresAt (hheld _ hl)) fun e he =>
    Or.inl ⟨hredis ▸ he, fun _ hlock _ => hlock⟩
  rw [hclock, hredis]
  exact h.guarded

theorem LockInv.spawn (h : LockInv redis₀ s locks) (t : RuleTask) (hfree : s.proc p = none)
    (hmet : InLease s locks (.spawn p t)) :
    LockInv redis₀ (s.put s.world p ((ruleSystem env).start t)) locks := by
  have hforth : ∀ q pr, s.proc q = some pr →
      (s.put s.world p ((ruleSystem env).start t)).proc q = some pr := fun q pr hq => by
    rw [Pool.put_other]
    · exact hq
    · rintro rfl
      rw [hfree] at hq
      cases hq
  refine ⟨h.guarded, fun lock hlock => ?_, fun q q' pr pr' hq hq' => ?_, fun q pr hq => ?_,
    fun e he => ?_⟩
  · obtain ⟨pr, hq, hkey⟩ := h.placed lock hlock
    exact ⟨pr, hforth _ _ hq, hkey⟩
  · rw [Pool.put_proc] at hq hq'
    split at hq <;> split at hq'
    · cases hq
      cases hq'
      exact lockKey_ne _
    · cases hq
      exact (hmet _ _ hq').keys.2
    · cases hq'
      exact (hmet _ _ hq).keys.1
    · exact h.apart _ _ _ _ hq hq'
  · rw [Pool.put_proc] at hq
    split at hq
    · cases hq
      exact fun _ _ => nofun
    · exact h.held _ _ hq
  · rcases h.entries e he with hold | hlock | ⟨q, pr, hq, hkey⟩
    · exact Or.inl hold
    · exact Or.inr (Or.inl hlock)
    · exact Or.inr (Or.inr ⟨q, pr, hforth _ _ hq, hkey⟩)

/-- What is deleted within the lease, or when nothing is live, is no lock of another. -/
theorem LockInv.del_own {key : String} {k : Reply (.redis (.del key)) → Prog Call Reply RuleOutcome}
    (h : LockInv redis₀ s locks) (hp : s.proc p = some ⟨t, l, .call (.redis (.del key)) k, true⟩)
    (hrel : Releases t.merchantId l (.redis (.del key))) (hmet : InLease s locks (.step p ch))
    (heffect : ch.fate.takesEffect = true) :
    ∀ lock ∈ locks, s.world.clock < lock.expiresAt → lock.key = key → lock.owner = p := by
  rintro lock hlock hlive rfl
  rcases hrel lock.key rfl with hkey | ⟨expiresAt, hholds⟩
  · obtain ⟨pr, hq, hkey'⟩ := h.placed lock hlock
    exact absurd (hkey'.symm.trans hkey) (h.apart _ _ _ _ hq hp)
  · have hreleasing : releasing (s.proc p) = some (lock.key, expiresAt) := by
      rw [hp]
      show (History.holding l).filter _ = _
      rw [hholds]
      simp
    rcases hmet _ _ hreleasing heffect with hleft | hnone
    · have hmine := h.held p _ hp _ _ hholds
      rw [h.guarded.alone lock hlock _ hmine hlive hleft rfl]
    · exact absurd hnone (h.guarded.not_free hlock hlive)

theorem RuleTask.Calls.setNx {key : String} {ms : Nat}
    (h : t.Calls env l (.redis (.setNx key ms))) : key = lockKey t.merchantId := by
  cases t with
  | upsertRule m dto => rcases h with ⟨-, rate, cap, h⟩ | ⟨h, -⟩ <;> cases h
  | invalidate m => cases h
  | getRule m => exact h
  | getCashbackRule m =>
    rcases h with ⟨-, h⟩ | ⟨-, h⟩
    · cases h
    · exact h

theorem RuleTask.Calls.set {key : String} {value : JsonText} {seconds : Nat}
    (h : t.Calls env l (.redis (.set key value seconds))) : key = ruleKey t.merchantId := by
  cases t with
  | upsertRule m dto => rcases h with ⟨-, rate, cap, h⟩ | ⟨h, -⟩ <;> cases h
  | invalidate m => cases h
  | getRule m => exact h.1
  | getCashbackRule m =>
    rcases h with ⟨-, h⟩ | ⟨-, h⟩
    · cases h
    · exact h.1

/-- The entry is filled by a process whose key is no lock's. -/
theorem LockInv.set {key : String} {value : JsonText} {seconds : Nat}
    {k : Reply (.redis (.set key value seconds)) → Prog Call Reply RuleOutcome}
    {r : Reply (.redis (.set key value seconds))} (h : LockInv redis₀ s locks)
    (hp : s.proc p = some ⟨t, l, .call (.redis (.set key value seconds)) k, true⟩)
    (hc : t.Calls env l (.redis (.set key value seconds))) (hclock : w.clock = s.world.clock)
    (hredis : w.redis = (RedisCall.run s.world.clock s.world.redis (.set key value seconds)).1) :
    LockInv redis₀ (s.put w p ⟨t, ⟨.redis (.set key value seconds), r⟩ :: l, k r, true⟩) locks := by
  obtain rfl := hc.set
  have hfree : ∀ lock ∈ locks, lock.key ≠ ruleKey t.merchantId := fun lock hlock heq => by
    obtain ⟨pr, hq, hkey⟩ := h.placed lock hlock
    exact h.apart _ _ _ _ hq hp (hkey.symm.trans heq)
  have hheld : ∀ key expiresAt, History.holding l = some (key, expiresAt) →
      (⟨p, key, expiresAt⟩ : CacheLock) ∈ locks := h.held p _ hp
  refine h.put hp rfl ?_ (fun _ hlock => Or.inl hlock) (fun _ hlock _ => hlock) hheld fun e he => ?_
  · rw [hclock, hredis]
    exact h.guarded.set hfree value seconds
  · rw [hredis] at he
    rcases List.mem_cons.mp he with rfl | he
    · exact Or.inr (Or.inr rfl)
    · exact Or.inl ⟨mem_of_mem_delete he, fun _ hlock _ => hlock⟩

/-- A delete within the lease frees only locks of its own process. -/
theorem LockInv.del {key : String} {k : Reply (.redis (.del key)) → Prog Call Reply RuleOutcome}
    {r : Reply (.redis (.del key))} (h : LockInv redis₀ s locks)
    (hp : s.proc p = some ⟨t, l, .call (.redis (.del key)) k, true⟩)
    (hrel : Releases t.merchantId l (.redis (.del key))) (hmet : InLease s locks (.step p ch))
    (heffect : ch.fate.takesEffect = true) (hclock : w.clock = s.world.clock)
    (hredis : w.redis = (RedisCall.run s.world.clock s.world.redis (.del key)).1) :
    LockInv redis₀ (s.put w p ⟨t, ⟨.redis (.del key), r⟩ :: l, k r, true⟩)
      (locksAfter p s.world.clock s.world.redis locks (.del key)) := by
  refine h.put hp rfl ?_ (fun lock hlock => Or.inl (List.mem_filter.mp hlock).1)
    (fun lock hlock hne => List.mem_filter.mpr ⟨hlock, ?_⟩) (fun _ _ => nofun) fun e he => Or.inl ?_
  · rw [hclock, hredis]
    exact h.guarded.del (h.del_own hp hrel hmet heffect)
  · rw [bne_iff_ne.mpr hne, Bool.true_or]
  · rw [hredis] at he
    obtain ⟨hmem, hne⟩ := mem_delete.mp he
    refine ⟨hmem, fun lock hlock heq => List.mem_filter.mpr ⟨hlock, ?_⟩⟩
    have hkey : lock.key ≠ key := fun hkey => hne (by rw [heq]; exact hkey)
    rw [bne_iff_ne.mpr hkey, Bool.or_true]

/-- A lock is taken where no live entry stands, and otherwise stays as it was. -/
theorem LockInv.setNx {key : String} {ms : Nat}
    {k : Reply (.redis (.setNx key ms)) → Prog Call Reply RuleOutcome}
    {r : Reply (.redis (.setNx key ms))} (h : LockInv redis₀ s locks)
    (hp : s.proc p = some ⟨t, l, .call (.redis (.setNx key ms)) k, true⟩)
    (hc : t.Calls env l (.redis (.setNx key ms))) (hclock : w.clock = s.world.clock)
    (hnow : r.2 = s.world.clock)
    (hredis : w.redis = (RedisCall.run s.world.clock s.world.redis (.setNx key ms)).1)
    (hreply : ∀ x, r.1 = .ok x →
      (RedisCall.run s.world.clock s.world.redis (.setNx key ms)).2 = .ok x) :
    LockInv redis₀ (s.put w p ⟨t, ⟨.redis (.setNx key ms), r⟩ :: l, k r, true⟩)
      (locksAfter p s.world.clock s.world.redis locks (.setNx key ms)) := by
  obtain rfl := hc.setNx
  have hguarded : Guarded w.clock w.redis
      (locksAfter p s.world.clock s.world.redis locks (.setNx (lockKey t.merchantId) ms)) := by
    rw [hclock, hredis]
    exact h.guarded.setNx p (lockKey t.merchantId) ms
  have hholds : ∀ key expiresAt, History.holding (⟨_, r⟩ :: l) = some (key, expiresAt) →
      History.holding l = some (key, expiresAt) ∨ r.1 = .ok true ∧
        key = lockKey t.merchantId ∧ expiresAt = s.world.clock + ms := fun key expiresAt hx => by
    rcases holding_cases hx with ⟨-, hold⟩ | ⟨key', ms', now, heq, hx⟩
    · exact Or.inl hold
    · cases heq
      cases hx
      exact Or.inr ⟨rfl, rfl, congrArg (· + ms) hnow⟩
  unfold locksAfter at hguarded ⊢
  unfold RedisCall.run at hredis hreply
  dsimp only at hguarded hredis hreply ⊢
  cases hlookup : RedisCall.lookup s.world.clock (lockKey t.merchantId) s.world.redis with
  | some e =>
    rw [hlookup] at hguarded hredis hreply
    refine h.same hp rfl hclock hredis fun x hx => ?_
    rcases hholds _ _ hx with hold | ⟨htrue, -⟩
    · exact hold
    · cases hreply true htrue
  | none =>
    rw [hlookup] at hguarded hredis
    refine h.put hp rfl hguarded (fun lock hlock => ?_)
      (fun _ hlock _ => List.mem_cons_of_mem _ hlock)
      (fun key expiresAt hx => ?_) fun e he => ?_
    · rcases List.mem_cons.mp hlock with rfl | hlock
      · exact Or.inr ⟨rfl, rfl⟩
      · exact Or.inl hlock
    · rcases hholds key expiresAt hx with hold | ⟨-, rfl, rfl⟩
      · exact List.mem_cons_of_mem _ (h.held p _ hp key expiresAt hold)
      · exact List.mem_cons_self
    · rw [hredis] at he
      rcases List.mem_cons.mp he with rfl | he
      · exact Or.inr (Or.inl ⟨_, List.mem_cons_self, rfl⟩)
      · exact Or.inl ⟨mem_of_mem_delete he, fun _ hlock _ => List.mem_cons_of_mem _ hlock⟩

/-- A Redis call that takes effect. -/
theorem LockInv.effect {k : Reply (.redis rc) → Prog Call Reply RuleOutcome} {r : Reply (.redis rc)}
    (h : LockInv redis₀ s locks) (hp : s.proc p = some ⟨t, l, .call (.redis rc) k, true⟩)
    (hc : t.Calls env l (.redis rc)) (hrel : Releases t.merchantId l (.redis rc))
    (hmet : InLease s locks (.step p ch)) (heffect : ch.fate.takesEffect = true)
    (hclock : w.clock = s.world.clock) (hnow : r.2 = s.world.clock)
    (hredis : w.redis = (rc.run s.world.clock s.world.redis).1)
    (hreply : ∀ x, r.1 = .ok x → (rc.run s.world.clock s.world.redis).2 = .ok x) :
    LockInv redis₀ (s.put w p ⟨t, ⟨.redis rc, r⟩ :: l, k r, true⟩)
      (locksAfter p s.world.clock s.world.redis locks rc) := by
  cases rc with
  | get key => exact h.same hp rfl hclock hredis fun x hx => hx
  | set key value seconds => exact h.set hp hc hclock hredis
  | del key => exact h.del hp hrel hmet heffect hclock hredis
  | setNx key ms => exact h.setNx hp hc hclock hnow hredis hreply

/-- A served call of any fate keeps what is known of the locks. -/
theorem LockInv.call {k : Reply c → Prog Call Reply RuleOutcome} (h : LockInv redis₀ s locks)
    (hp : s.proc p = some ⟨t, l, .call c k, true⟩) (hc : t.Calls env l c)
    (hrel : Releases t.merchantId l c) (hmet : InLease s locks (.step p ch))
    (hexec : exec env p c ch s.world = some (w, r)) :
    LockInv redis₀ (s.put w p ⟨t, ⟨c, r⟩ :: l, k r, true⟩)
      (lockUpdates s (.step p ch) (s.put w p ⟨t, ⟨c, r⟩ :: l, k r, true⟩) locks) := by
  obtain ⟨hclock, hnow⟩ := exec_clock hexec
  have hnext : s.nextCall p = some c := Pool.nextCall_of hp
  by_cases hredis : ∃ rc, c = .redis rc
  · obtain ⟨rc, rfl⟩ := hredis
    have hlocks : lockUpdates s (.step p ch) (s.put w p ⟨t, ⟨.redis rc, r⟩ :: l, k r, true⟩) locks =
        if ch.fate.takesEffect then locksAfter p s.world.clock s.world.redis locks rc
          else locks := by
      unfold lockUpdates
      dsimp only
      rw [hnext]
    rw [hlocks]
    rcases exec_redis hexec with ⟨hnot, hsame, herr⟩ | ⟨heffect, hrun, hreply⟩
    · rw [hnot]
      refine h.same hp rfl hclock hsame fun x hx => ?_
      rcases holding_cases hx with ⟨-, hold⟩ | ⟨key, ms, now, heq, -⟩
      · exact hold
      · cases heq
        exact absurd rfl (herr true)
    · rw [heffect]
      exact h.effect hp hc hrel hmet heffect hclock hnow hrun hreply
  · have hother : ∀ rc, c ≠ .redis rc := fun rc heq => hredis ⟨rc, heq⟩
    have hsame : w.redis = s.world.redis := by
      obtain ⟨w₁, heff, rfl⟩ := exec_effect hc.shaped hexec
      rcases heff.redis_origin with hsame | ⟨rc, heq, -⟩
      · exact hsame
      · exact absurd heq (hother rc)
    have hlocks : lockUpdates s (.step p ch) (s.put w p ⟨t, ⟨c, r⟩ :: l, k r, true⟩) locks =
        locks := by
      unfold lockUpdates
      dsimp only
      rw [hnext]
      split
      · next heq => exact absurd (Option.some_inj.mp heq) (hother _)
      · rfl
    rw [hlocks]
    refine h.same hp rfl hclock hsame fun x hx => ?_
    rcases holding_cases hx with ⟨-, hold⟩ | ⟨key, ms, now, heq, -⟩
    · exact hold
    · exact absurd (congrArg Sigma.fst heq) (hother _)

theorem lockInv (h : Traced (ruleSystem env) lockUpdates InLease (LockStart redis₀) s locks) :
    LockInv redis₀ s locks := by
  refine h.invariant (fun t => (ruleTask_sat env t).and (ruleTask_releases env t))
    (fun s locks hs => hs.idle)
    (fun s locks hs => ?_) (fun s locks p t _ hi met hfree => hi.spawn t hfree met)
    (fun s locks p ch t l c k w r _ hi met hp hc hexec => hi.call hp hc.1 hc.2 met hexec)
    (fun s locks p t l x _ hi _ hp => ?_) fun s locks e w _ hi _ hmove => ?_
  · obtain ⟨hidle, hredis, rfl⟩ := hs
    have hnone : ∀ {p pr}, s.proc p ≠ some pr := fun {p pr} hp => by
      rw [hidle p] at hp
      cases hp
    refine ⟨⟨nofun, nofun⟩, nofun, fun _ _ _ _ hp => absurd hp hnone, fun _ _ hp => absurd hp hnone,
      fun e he => Or.inl ?_⟩
    rwa [hredis] at he
  · exact hi.same hp rfl rfl rfl fun x hx => hx
  · cases e with
    | tick ms =>
      cases hmove
      exact hi.world rfl (Nat.le_add_right _ _)
    | produce m =>
      cases hmove
      exact hi.world rfl (Nat.le_refl _)
    | rewind offset =>
      cases hmove
      exact hi.world rfl (Nat.le_refl _)

/-- In every run in which no merchant's id is another one followed by ":lock" and no release comes
    after the lease while a lock is live: a lock is removed by its owner or by the end of its lease
    alone, only locks of the merchant stand in its way, and one caller at most holds it. -/
theorem lock_kept_by_owner (env : Env) (redis₀ : List RedisEntry)
    (h : Traced (ruleSystem env) lockUpdates InLease (LockStart redis₀) s locks) :
    LocksOwned redis₀ s locks := by
  have hinv := lockInv h
  refine ⟨hinv.guarded.stands, fun p pr hp e he hkey => ?_,
    fun p q pr pr' hp hq key t t' hp' hq' hlive hlive' => ?_⟩
  · rcases hinv.entries e he with hstart | ⟨lock, hlock, rfl⟩ | ⟨q, pr', hq, hkey'⟩
    · exact Or.inl hstart
    · obtain ⟨pr', hq, hkey'⟩ := hinv.placed lock hlock
      exact Or.inr ⟨lock, hlock, rfl, pr', hq, lockKey_inj (hkey'.symm.trans hkey)⟩
    · exact absurd (hkey.symm.trans hkey') (hinv.apart _ _ _ _ hp hq)
  · have hsame := hinv.guarded.alone _ (hinv.held p pr hp _ _ hp') _
      (hinv.held q pr' hq _ _ hq') hlive hlive' rfl
    exact congrArg CacheLock.owner hsame

end

/-! ### Runs -/

/-- The lock a process holds. -/
def heldBy (pr : Option RuleProcess) : Option (String × Time) :=
  pr.bind fun pr => History.holding pr.log

/-- The first holder comes back after its lease has ended and deletes the lock of the second; the
    third then acquires it too. -/
def lateRelease : List RuleStep :=
  .spawn 0 (.getRule "shop-1") :: ruleServes 0 2 ++
    .spawn 2 (.getRule "shop-1") :: ruleServes 2 1 ++
    .move (.tick 300) :: .spawn 1 (.getRule "shop-1") ::
      ruleServes 1 2 ++ ruleServes 0 3 ++ ruleServes 2 1

/-- The rule of the merchant "shop-1:lock" is invalidated while "shop-1" is locked. -/
def sharedKey : List RuleStep :=
  .spawn 0 (.getRule "shop-1") :: ruleServes 0 2 ++
    .spawn 1 (.invalidate "shop-1:lock") :: ruleServes 1 1

/-- Two callers hold the lock of one merchant within their leases; the lock of a merchant is gone
    within its lease though its owner has not released it. -/
theorem lock_removed_by_other :
    (∃ s locks,
      Traced (ruleSystem (platform id)) lockUpdates (fun _ _ _ => True) (LockStart []) s locks ∧
      s.world.clock = 300 ∧ heldBy (s.proc 1) = some (lockKey "shop-1", 600) ∧
      heldBy (s.proc 2) = some (lockKey "shop-1", 600) ∧ ¬ LocksOwned [] s locks) ∧
    ∃ s locks,
      Traced (ruleSystem (platform id)) lockUpdates (fun _ _ _ => True) (LockStart []) s locks ∧
      s.world.clock = 0 ∧ ⟨0, lockKey "shop-1", 300⟩ ∈ locks ∧ s.world.redis = [] ∧
      ¬ LocksOwned [] s locks := by
  have h0 : Traced (ruleSystem (platform id)) lockUpdates
      (fun _ _ _ => True) (LockStart []) ruleInitial [] :=
    .start ⟨fun _ => rfl, rfl, rfl⟩
  constructor
  · have hrun : (((ruleSystem (platform id)).runTraced 3 lockUpdates (fun _ _ _ => true)
        ruleInitial [] lateRelease).map fun x =>
          (x.1.world.clock, heldBy (x.1.proc 1), heldBy (x.1.proc 2))) =
          some (300, some (lockKey "shop-1", 600), some (lockKey "shop-1", 600)) := by
      decide +kernel
    obtain ⟨⟨s, locks⟩, hs, heq⟩ := Option.map_eq_some_iff.mp hrun
    obtain ⟨hclock, hheld⟩ := Prod.mk.inj heq
    obtain ⟨h1, h2⟩ := Prod.mk.inj hheld
    have h := h0.of_runTraced (fun _ _ _ _ _ => trivial) (fun _ _ => rfl) hs
    refine ⟨s, locks, h, hclock, h1, h2, fun howned => ?_⟩
    obtain ⟨pr, hp, hl⟩ := Option.bind_eq_some_iff.mp h1
    obtain ⟨pr', hp', hl'⟩ := Option.bind_eq_some_iff.mp h2
    have hlive : s.world.clock < 600 := hclock ▸ (by decide : (300 : Time) < 600)
    have hsame := howned.exclusive 1 2 pr pr' hp hp' _ _ _ hl hl' hlive hlive
    cases hsame
  · have hrun : (((ruleSystem (platform id)).runTraced 2 lockUpdates (fun _ _ _ => true)
        ruleInitial [] sharedKey).map fun x =>
          (x.1.world.clock, decide (⟨0, lockKey "shop-1", 300⟩ ∈ x.2),
            x.1.world.redis.isEmpty)) = some (0, true, true) := by
      decide +kernel
    obtain ⟨⟨s, locks⟩, hs, heq⟩ := Option.map_eq_some_iff.mp hrun
    obtain ⟨hclock, hrest⟩ := Prod.mk.inj heq
    obtain ⟨hlock, hempty⟩ := Prod.mk.inj hrest
    have hlock := of_decide_eq_true hlock
    have hempty := List.isEmpty_iff.mp hempty
    have h := h0.of_runTraced (fun _ _ _ _ _ => trivial) (fun _ _ => rfl) hs
    refine ⟨s, locks, h, hclock, hlock, hempty, fun howned => ?_⟩
    have hlive : s.world.clock < 300 := hclock ▸ (by decide : (0 : Time) < 300)
    have hstands :=
      (howned.stands _ hlock hlive (CacheLock.entry ⟨0, lockKey "shop-1", 300⟩) rfl).mpr rfl
    rw [hempty] at hstands
    exact List.not_mem_nil hstands

/-- Does the process, if any, work on an unrelated merchant? -/
def unrelated (m : String) (pr : Option RuleProcess) : Bool :=
  pr.all fun pr => pr.task.merchantId != m ++ ":lock" && m != pr.task.merchantId ++ ":lock"

/-- The step does not start with a merchant to whom the process is related. -/
def startsUnrelated (pr : Option RuleProcess) : RuleStep → Bool
  | .spawn _ t => unrelated t.merchantId pr
  | _ => true

/-- A release comes within the lease. -/
def releasesInTime (s : RuleState) : RuleStep → Bool
  | .step p _ => (releasing (s.proc p)).all fun x => s.world.clock < x.2
  | _ => true

def inLeaseCheck (n : Nat) : Check n fun s lb => ∀ locks, InLease s locks lb :=
  ((Check.of releasesInTime).and
    (Check.each (fun _ lb _ pr => startsUnrelated pr lb) fun _ lb _ => by
    unfold startsUnrelated
    split <;> rfl)).imp fun s lb ⟨hreleases, hstarts⟩ locks => by
    cases lb with
    | spawn p t =>
      intro q pr hq
      have hpr : unrelated t.merchantId (s.proc q) = true := hstarts q
      rw [hq] at hpr
      exact (Bool.and_eq_true_iff.mp hpr).imp bne_iff_ne.mp bne_iff_ne.mp
    | step p ch =>
      intro key expiresAt hreleasing _
      have hall : ((releasing (s.proc p)).all fun x => s.world.clock < x.2) = true := hreleases
      rw [hreleasing] at hall
      exact Or.inl (of_decide_eq_true hall)
    | _ => trivial

/-- The second caller acquires the lock that the first has released in time. -/
def releasedInTime : List RuleStep :=
  .spawn 0 (.getRule "shop-1") :: ruleServes 0 2 ++
    .spawn 1 (.getRule "shop-1") :: ruleServes 1 1 ++
    .move (.tick 200) :: ruleServes 0 3 ++ ruleServes 1 1

theorem lock_kept_by_owner_run :
    ∃ s locks, Traced (ruleSystem (platform id)) lockUpdates InLease (LockStart []) s locks ∧
      heldBy (s.proc 1) = some (lockKey "shop-1", 500) ∧ LocksOwned [] s locks := by
  let check := inLeaseCheck 2
  have hrun : (((ruleSystem (platform id)).runTraced 2 lockUpdates (fun s _ lb => check.test s lb)
      ruleInitial [] releasedInTime).map fun x => heldBy (x.1.proc 1)) =
          some (some (lockKey "shop-1", 500)) := by
    decide +kernel
  obtain ⟨⟨s, locks⟩, hs, hheld⟩ := Option.map_eq_some_iff.mp hrun
  have h : Traced (ruleSystem (platform id)) lockUpdates InLease (LockStart []) s locks :=
    check.traced (fun _ locks _ h => h locks) hs (fun _ _ => rfl) ⟨fun _ => rfl, rfl, rfl⟩
  exact ⟨s, locks, h, hheld, lock_kept_by_owner (platform id) [] h⟩

end CashbackLedger
