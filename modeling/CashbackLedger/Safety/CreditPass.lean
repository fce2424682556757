import CashbackLedger.Safety.Pass

/-
  Crediting within a pass.

  What the handler comes to for an order is decided by the world at the start of the attempt:
  `creditFor` reads the rule as it is seen at the time of the read. An attempt whose calls go
  through up to the commit (`Setting.Credits`) ends as `creditFor` says; any other leaves the ledger
  as it was (`ends_processOrderConfirmed`).
-/

namespace CashbackLedger

open Lib

/-! ## What crediting comes to -/

/-- As the columns store it. -/
def LedgerData.stored (c : LedgerData) : Option LedgerData :=
  (storeNumeric 18 2 c.amount).map fun amount => { c with amount := amount }

/-- The CREDIT entry of an order, without its id. -/
def World.credited (w : World) (id : Uuid) : Option LedgerData :=
  (w.ledger.find? fun e => e.orderId == id && e.type == .CREDIT).map LedgerEntry.data

/-- What the order is to be credited when the rule is read at this time. -/
def dueCredit (env : Env) (w : World) (t : Time) (orderId : Option Json) :
    Except Fault LedgerData :=
  match readId env orderId with
  | none => .error .invalidValue
  | some _ =>
      match guardOrder env orderId (w.orderOf env orderId) with
      | .error e => .error e
      | .ok order =>
          match toDecimalRule env (w.seen env t order.merchantId) with
          | .error e => .error e
          | .ok rule => .ok (creditData order (cashbackOf order.amount rule))

/-- What the insert comes to where these orders are credited. On an order that is, the question for
    its entry meets the aborted transaction. -/
def insertFor (credited : Uuid → Option LedgerData) (c : LedgerData) : Except Fault LedgerData :=
  match c.stored with
  | none => .error .invalidValue
  | some stored => if (credited c.orderId).isSome then .error .transactionAborted else .ok stored

/-- What crediting the order comes to. -/
def creditFor (env : Env) (w : World) (credited : Uuid → Option LedgerData) (t : Time)
    (orderId : Option Json) : Except Fault LedgerData :=
  (dueCredit env w t orderId).bind (insertFor credited)

/-- Another transaction holds the key of the entry. -/
def Waits (env : Env) (p : Pid) (w : World) (t : Time) (orderId : Option Json) : Prop :=
  ∃ c, dueCredit env w t orderId = .ok c ∧ insertOutcome w p c = none

/-- The calls of the transaction go through up to the insert. The rule is asked for where the cache
    has none at the time `t`. -/
structure Setting.Prepares (env : Env) (d : Setting) (v : World) (t : Time) (x : Uuid)
    (orderId : Option Json) : Prop where
  findOrder : d.at x .findOrder = .ok
  findRule : ∀ o, v.orderOf env orderId = some o → d.at x .findRule = .ok ∨
    (entryAt t (ruleKey o.merchantId) v.redis).isSome = true
  createCredit : d.at x .createCredit = .ok

/-- The calls for the credit of the order go through, from `begin` to the commit. -/
structure Setting.Credits (env : Env) (d : Setting) (v : World) (x : Uuid)
    (orderId : Option Json) : Prop
    extends d.Prepares env v (d.time (some x) 3) x orderId where
  begin : d.at x .begin = .ok
  commit : (d.at x .commit).takesEffect = true

/-- `w'` has the entry, with an id for `x`. -/
inductive Adds (d : Setting) (x : Uuid) (w : World) : LedgerData → World → Prop where
  | intro {entry : LedgerEntry} {n : Nat} {t : Table LedgerEntry}
      (id : entry.id = d.newId (some x) n)
      (credit : entry.type = .CREDIT) (added : w.ledger.insert? entry = some t) :
      Adds d x w entry.data { w with ledger := t }

section

variable {env : Env} {p : Pid} {d : Setting} {w w' v : World} {tx : Option Tx} {t : Tx} {x : Uuid}
  {before : List Uuid} {n : Nat} {y : PassState} {S : Prop} {s : TxStmt} {orderId : Option Json}

theorem LedgerData.Makes.stored {c : LedgerData} {entry : LedgerEntry} (h : c.Makes entry) :
    c.stored = some entry.data := by
  obtain ⟨huser, horder, htype, hamount, hcurrency⟩ := h
  unfold LedgerData.stored LedgerEntry.data
  rw [hamount, Option.map_some, huser, horder, htype, hcurrency]

theorem credited_isSome (w : World) (id : Uuid) :
    (w.credited id).isSome = w.ledger.any fun e => e.orderId == id && e.type == .CREDIT := by
  unfold World.credited
  rw [Option.isSome_map]
  exact List.isSome_find?

/-- The insert comes to what the description without ids says, or waits. -/
theorem insertFor_of_outcome {c : LedgerData} (hcredit : c.type = .CREDIT)
    {o : Except Fault LedgerData} (h : insertOutcome w p c = some o) :
    insertFor w.credited c = match o with
      | .error e => .error e
      | .ok _ => match c.stored with
        | none => .error .invalidValue
        | some stored => .ok stored := by
  unfold insertFor
  rw [credited_isSome]
  unfold insertOutcome at h
  unfold LedgerData.stored
  cases hstored : storeNumeric 18 2 c.amount with
  | none =>
    rw [hstored] at h
    cases h
    rfl
  | some amount =>
    rw [hstored] at h
    dsimp only [Option.map_some] at h ⊢
    rw [hcredit] at h
    split at h
    · cases h
    split at h
    · next hany =>
      cases h
      rw [if_pos hany]
    · next hany =>
      cases h
      rw [if_neg hany]

/-! ## Calls that are answered -/

/-- The clock is later, Redis as it was. -/
structure Later (y y' : PassState) : Prop where
  clock : y.world.clock ≤ y'.world.clock
  redis : y'.world.redis = y.world.redis

theorem ends_answered {c : Call} (o : Option (Except Fault c.Result))
    (h : Ready env p d w tx x before n c y) (hlater : y.world.clock ≤ d.time (some x) n)
    (hrun : c.run env p (d.newId (some x) n) (y.world.atTime (d.time (some x) n)) =
      o.map fun res => (v, res))
    (hv : AsIn env p w' tx v) (hredis : v.redis = y.world.redis) :
    Ends (servePass env p d) (o = none)
      (fun y' r => Later y y' ∧ CallEnds env p d w w' tx x before n c o y' r) y
      (awaitAt c).run := by
  refine (ends_calls o h hrun hv).mono id ?_
  rintro y' r ⟨hclock, hstore, hr⟩
  exact ⟨⟨hclock ▸ hlater, hstore.elim id fun heq => heq.trans hredis⟩, hr⟩

theorem Within.later (h : Within env p d w tx x before n y) (hmono : Monotone (d.time (some x))) :
    y.world.clock ≤ d.time (some x) n := by
  obtain ⟨m, hm, hclock⟩ := h.clock
  rw [hclock]
  exact hmono hm

/-- How a call ends that leaves the tables and topics: it is answered, or it fails. -/
inductive QuietEnds (env : Env) (p : Pid) (d : Setting) (w : World) (tx : Option Tx) (x : Uuid)
    (before : List Uuid) (n : Nat) (c : Call) (o : Option (Except Fault c.Result))
    (y' : PassState) : Except Fault (c.Result × Time) → Prop where
  | ok {res : Except Fault c.Result} (hfate : d.fateOf x c = .ok) (h : o = some res)
      (within : Within env p d w (c.txAfter res tx) x before (n + 1) y') :
      QuietEnds env p d w tx x before n c o y' (res.map fun a => (a, d.time (some x) n))
  | failed {m : String} (hfate : d.fateOf x c ≠ .ok)
      (within : Within env p d w (c.txAfter (.error (.callFailed m)) tx) x before (n + 1) y') :
      QuietEnds env p d w tx x before n c o y' (.error (.callFailed m))

theorem CallEnds.quiet {c : Call} {o : Option (Except Fault c.Result)}
    {r : Except Fault (c.Result × Time)} (h : CallEnds env p d w w tx x before n c o y r) :
    QuietEnds env p d w tx x before n c o y r := by
  cases h with
  | ok hfate h within => exact .ok hfate h within
  | failed hfate within => exact .failed (hfate ▸ nofun) within
  | lost hfate within => exact .failed (hfate ▸ nofun) within

theorem ends_begin (hmono : Monotone (d.time (some x))) (h : Within env p d w tx x before n y) :
    Ends (servePass env p d) False (fun y' r => Later y y' ∧
      QuietEnds env p d w tx x before n (.tx .begin) (some (.ok ())) y' r) y
      (awaitAt (.tx .begin)).run := by
  have hready := h.ready hmono (c := .tx .begin) rfl
  exact (ends_answered (c := .tx .begin) (some (.ok ())) hready
    (h.later hmono) rfl hready.now rfl).mono nofun
    fun _ _ hr => ⟨hr.1, hr.2.quiet⟩

/-- A step of the process on its own. -/
theorem ends_tell {c : LocalCall} (hlater : y.world.clock ≤ d.time (some x) n)
    (h : Ready env p d w tx x before n (.proc c) y) :
    Ends (servePass env p d) False
      (fun y' r => Later y y' ∧ Within env p d w tx x before (n + 1) y' ∧
      ∃ t, r = .ok t) y (tell c).run := by
  refine ends_call.mpr ?_
  have hcall := ends_call.mp (ends_answered (c := .proc c) (some (.ok ())) h hlater rfl h.now rfl)
  split at hcall
  · cases hcall
  · obtain ⟨hlater, hr⟩ := hcall
    generalize Except.map _ _ = r at hr
    cases hr with
    | ok hfate h within => exact ⟨hlater, within, _, rfl⟩
    | failed hfate within => cases hfate.symm.trans (d.fateOf_none rfl)
    | lost hfate within => cases hfate.symm.trans (d.fateOf_none rfl)

/-- A statement of a sound transaction. -/
theorem ends_stmt {o : Option (Except Fault s.Result)} (hmono : Monotone (d.time (some x)))
    (h : Within env p d w (some t) x before n y) (hsound : t.aborted = false)
    (hrun : ∀ v, AsIn env p w (some t) v → s.run env p (d.newId (some x) n) v = o) :
    Ends (servePass env p d) (o = none) (fun y' r => Later y y' ∧
      QuietEnds env p d w (some t) x before n (.tx (.stmt s)) o y' r) y
      (awaitAt (.tx (.stmt s))).run := by
  have hready := h.ready hmono (c := .tx (.stmt s)) rfl
  refine (ends_answered (c := .tx (.stmt s)) o hready (h.later hmono) ?_ hready.now rfl).mono id
    fun _ _ hr => ⟨hr.1, hr.2.quiet⟩
  simp only [Call.run, TxCall.run, hready.now.tx,
    hsound, Bool.false_eq_true, if_false, hrun _ hready.now]

/-- A statement of an aborted transaction. -/
theorem ends_aborted (hmono : Monotone (d.time (some x)))
    (h : Within env p d w (some t) x before n y) (haborted : t.aborted = true) :
    Ends (servePass env p d) False (fun y' r => Later y y' ∧
      QuietEnds env p d w (some t) x before n (.tx (.stmt s))
        (some (.error .transactionAborted)) y' r) y
      (awaitAt (.tx (.stmt s))).run := by
  have hready := h.ready hmono (c := .tx (.stmt s)) rfl
  refine (ends_answered (c := .tx (.stmt s))
    (some (.error .transactionAborted)) hready (h.later hmono) ?_
    hready.now rfl).mono nofun fun _ _ hr => ⟨hr.1, hr.2.quiet⟩
  simp only [Call.run, TxCall.run, hready.now.tx, haborted, if_true, Option.map_some]

/-- The commit of an entry. -/
theorem ends_commit {entry : LedgerEntry} {table : Table LedgerEntry}
    (hmono : Monotone (d.time (some x)))
    (h : Within env p d w (some { writes := [.ledger entry] }) x before n y)
    (added : w.ledger.insert? entry = some table) :
    Ends (servePass env p d) False (fun y' r =>
      CallEnds env p d w { w with ledger := table }
        (some { writes := [.ledger entry] }) x before n (.tx .commit)
        (some (.ok ())) y' r) y (awaitAt (.tx .commit)).run := by
  have hready := h.ready hmono (c := .tx .commit) rfl
  have hnow := hready.now
  have happly : (y.world.atTime (d.time (some x) n)).applyWrites [.ledger entry] =
      some { y.world.atTime (d.time (some x) n) with ledger := table } := by
    simp only [World.applyWrites, List.foldlM_cons,
      List.foldlM_nil, World.applyWrite, hnow.ledger, added,
      Option.map_some, Option.bind_eq_bind, Option.bind_some]
    rfl
  refine (ends_answered (c := .tx .commit)
    (v := { y.world.atTime (d.time (some x) n) with ledger := table })
    (some (.ok ())) hready (h.later hmono) ?_ ?_ rfl).mono (fun h => by cases h) fun _ _ hr => hr.2
  · simp only [Call.run, TxCall.run, hnow.tx, happly, Bool.false_eq_true, if_false, Option.map_some]
  · exact ⟨⟨hnow.orders, hnow.rules, rfl, hnow.tx, hnow.locks⟩,
      hnow.outbox, hnow.inbox, hnow.broker, hnow.keys,
      hnow.seen⟩

theorem ends_rollback (hmono : Monotone (d.time (some x))) (h : Within env p d w tx x before n y) :
    Ends (servePass env p d) False (fun y' _ => Within env p d w none x before (n + 1) y') y
      (awaitAt (.tx .rollback)).run := by
  have hready := h.ready hmono (c := .tx .rollback) rfl
  refine (ends_answered (c := .tx .rollback)
    (some (.ok ())) hready (h.later hmono) rfl hready.now rfl).mono
    nofun ?_
  rintro y' r ⟨-, hr⟩
  cases hr with
  | ok _ _ within => exact within
  | failed _ within => exact within
  | lost _ within => exact within

/-! ## Redis calls -/

/-- How a Redis call ends, which none is made to fail. -/
structure RedisEnds (env : Env) (p : Pid) (d : Setting) (w : World) (tx : Option Tx) (x : Uuid)
    (before : List Uuid) (n : Nat) (c : RedisCall) (y y' : PassState)
    (r : Except Fault c.Result) : Prop where
  within : Within env p d w tx x before (n + 1) y'
  redis : y'.world.redis = (c.run (d.time (some x) n) y.world.redis).1
  clock : y'.world.clock = d.time (some x) n
  reply : r = (c.run (d.time (some x) n) y.world.redis).2

/-- The time of a reply is dropped. -/
theorem map_reply {α : Type} (r : Except Fault α) (t : Time) :
    (r.map fun a => (a, t)).map Prod.fst = r := by
  cases r <;> rfl

theorem ends_redis {c : RedisCall} (hmono : Monotone (d.time (some x)))
    (h : Within env p d w tx x before n y)
    (hseen : ∀ t, d.time (some x) n ≤ t → ∀ m,
      World.seen env { y.world with redis := (c.run (d.time (some x) n) y.world.redis).1 } t m =
        y.world.seen env t m) :
    Ends (servePass env p d) False (fun y' r => RedisEnds env p d w tx x before n c y y' r) y
      (await (.redis c)).run := by
  have hready := h.ready hmono (c := .redis c) rfl
  have hnow := hready.now
  have hafter : AsIn env p w tx { y.world.atTime (d.time (some x) n) with
      redis := (c.run (d.time (some x) n) y.world.redis).1 } :=
    ⟨⟨hnow.orders, hnow.rules, hnow.ledger, hnow.tx, hnow.locks⟩,
      hnow.outbox, hnow.inbox, hnow.broker,
      hnow.keys.run _ c, fun t ht m => (hseen t ht m).trans (hnow.seen t ht m)⟩
  refine ends_await_of_at (ends_ready hready (fun hwait => ?_) fun v' r hserved hclock _ => ?_)
  · unfold exec at hwait
    split at hwait <;> cases hwait
  have hfate : (d.choice (some x) n (.redis c)).fate = .ok := d.fateOf_none (c := .redis c) rfl
  cases hserved with
  | ok _ run =>
    cases run
    exact ⟨Within.next (hafter.settle (.redis c) _) hclock, rfl, hclock, map_reply _ _⟩
  | failed hfailed => cases hfate.symm.trans hfailed
  | lost hlost => cases hfate.symm.trans hlost

/-- Redis replies. -/
theorem redis_replies (c : RedisCall) (now : Time) (store : List RedisEntry) :
    ∃ a, (c.run now store).2 = .ok a := by
  cases c with
  | get key => exact ⟨_, rfl⟩
  | set key value seconds => exact ⟨_, rfl⟩
  | setNx key ms =>
    unfold RedisCall.run
    dsimp only
    split <;> exact ⟨_, rfl⟩
  | del key => exact ⟨_, rfl⟩

/-- With a default for a failure, which is not needed. -/
theorem ends_tryRedis {c : RedisCall} (dflt : c.Result) (hmono : Monotone (d.time (some x)))
    (h : Within env p d w tx x before n y)
    (hseen : ∀ t, d.time (some x) n ≤ t → ∀ m,
      World.seen env { y.world with redis := (c.run (d.time (some x) n) y.world.redis).1 } t m =
        y.world.seen env t m) :
    Ends (servePass env p d) False (fun y' r => RedisEnds env p d w tx x before n c y y' r) y
      (tryCatch (await (.redis c)) fun _ => pure dflt : Async c.Result).run := by
  refine ends_act_tryCatch.mpr ((ends_redis hmono h hseen).post fun y' r hr => ?_)
  obtain ⟨a, ha⟩ := redis_replies c (d.time (some x) n) y.world.redis
  obtain rfl := hr.reply.trans ha
  exact hr

/-! ## Reading the rule -/

variable {m : String}

/-- Nothing that is a rule is found under the key. -/
def Blank (key : String) (y : PassState) : Prop := BlankFrom y.world.clock key y.world.redis

theorem Blank.later {key : String} {y' : PassState} (h : Blank key y) (hlater : Later y y') :
    Blank key y' := by
  unfold Blank
  rw [hlater.redis]
  exact h.mono hlater.clock

theorem ends_cachedEntry (key : String) (hmono : Monotone (d.time (some x)))
    (h : Within env p d w tx x before n y) :
    Ends (servePass env p d) False (fun y' r => Within env p d w tx x before (n + 1) y' ∧
      y'.world.redis = y.world.redis ∧ y'.world.clock = d.time (some x) n ∧
      r = .ok (entryAt (d.time (some x) n) key y.world.redis)) y (readCache key).run := by
  refine ends_act_tryCatch.mpr (ends_act_bind.mpr
    ((ends_redis (c := .get key) hmono h fun _ _ _ => rfl).post fun y' r hr => ?_))
  obtain ⟨within, redis, clock, rfl⟩ := hr
  unfold entryAt
  dsimp only [RedisCall.run]
  cases RedisCall.lookup (d.time (some x) n) key y.world.redis with
  | none => exact ⟨within, redis, clock, rfl⟩
  | some e => exact ⟨within, redis, clock, rfl⟩

/-- What is seen is decided by what is found. -/
theorem seen_congr {store : List RedisEntry} {t t' : Time}
    (h : ∀ key, entryAt t key store = entryAt t' key v.redis) (m : String) :
    World.seen env { v with redis := store } t m = v.seen env t' m := by
  unfold World.seen
  rw [h]
  rfl

/-- What a read of a rule in the database ends with. -/
structure LoadEnds (env : Env) (p : Pid) (d : Setting) (w : World) (x : Uuid) (before : List Uuid)
    (m : String) (y y' : PassState) (r : Except Fault Rule) : Prop where
  within : ∃ n tx, Within env p d w tx x before n y' ∧ (∀ rule, r = .ok rule → tx = some {})
  blank : ∀ key, key ≠ ruleKey m → Blank key y → Blank key y'
  rule : d.at x .findRule = .ok → r = toDecimalRule env (w.payload env m)
  failed : d.at x .findRule ≠ .ok → ∃ f, r = .error f

theorem ends_loadRule (hmono : Monotone (d.time (some x)))
    (h : Within env p d w (some {}) x before n y) (hblank : Blank (ruleKey m) y) :
    Ends (servePass env p d) False (fun y' r => LoadEnds env p d w x before m y y' r) y
      (loadRule env m).run := by
  refine ends_act_bind.mpr (ends_await_of_at ((ends_stmt (s := .ruleFindUnique m)
    (o := some (.ok (w.rules.find? fun r => r.merchantId == m))) hmono h rfl ?_).mono nofun ?_))
  · intro v hv
    unfold TxStmt.run
    dsimp only
    rw [hv.rules]
  rintro y₁ r ⟨hlater, hr⟩
  have hblank₁ : Blank (ruleKey m) y₁ := hblank.later hlater
  cases hr with
  | failed hfate within =>
    rw [Setting.fateOf_site (s := .findRule) rfl] at hfate
    exact ⟨⟨_, _, within, nofun⟩, fun _ _ hb => hb.later hlater,
      fun hok => absurd hok hfate, fun _ => ⟨_, rfl⟩⟩
  | ok hfate ho within =>
    rw [Setting.fateOf_site (s := .findRule) rfl] at hfate
    cases ho
    have hwithin : Within env p d w (some {}) x before (n + 1) y₁ := within
    have hpayload : y₁.world.payload env m = w.payload env m := by
      unfold World.payload
      rw [hwithin.rules]
    have hset :=
      ends_tryRedis (c := .set (ruleKey m) (some (w.payload env m).json) env.cacheTtlSeconds) ()
      hmono hwithin fun t ht m' => by
        rw [← hpayload]
        exact seen_set (BlankFrom.mono hblank₁ (hwithin.later hmono)) ht _
    refine ends_act_bind.mpr (hset.post ?_)
    rintro y₂ r ⟨within₂, redis₂, clock₂, rfl⟩
    refine ends_ofExcept ⟨⟨_, _, within₂, fun _ _ => rfl⟩, fun key hkey hb => ?_, fun _ => rfl,
      fun hno => absurd hfate hno⟩
    intro t ht
    rw [redis₂]
    dsimp only [RedisCall.run]
    rw [entryAt_cons_ne (Ne.symm hkey), entryAt_delete_ne hkey]
    exact (hb.later hlater) t (Nat.le_trans (hwithin.later hmono) (clock₂ ▸ ht))

theorem ends_readThrough (hmono : Monotone (d.time (some x)))
    (h : Within env p d w (some {}) x before n y) (hblank : Blank (ruleKey m) y) (gotLock : Bool) :
    Ends (servePass env p d) False (fun y' r => LoadEnds env p d w x before m y y' r) y
      (readThrough env m gotLock).run := by
  unfold readThrough
  cases gotLock with
  | true => exact ends_loadRule hmono h hblank
  | false =>
    refine ends_act_bind.mpr ((ends_tell (h.later hmono) (h.ready hmono rfl)).post ?_)
    rintro y₁ r ⟨hlater, within, t, rfl⟩
    have hblank₁ := hblank.later hlater
    refine ends_act_bind.mpr ((ends_cachedEntry (ruleKey m) hmono within).post ?_)
    rintro y₂ r ⟨within₂, redis₂, clock₂, rfl⟩
    have hlater₂ : Later y₁ y₂ := ⟨clock₂ ▸ within.later hmono, redis₂⟩
    rw [hblank₁ _ (within.later hmono)]
    refine (ends_loadRule hmono within₂ (hblank₁.later hlater₂)).post fun y₃ r hr => ?_
    exact ⟨hr.within, fun key hkey hb => hr.blank key hkey ((hb.later hlater).later hlater₂),
      hr.rule, hr.failed⟩

/-- The rule is read as it is seen at the time of the first call, unless it is to be asked for and
    that fails. -/
structure RuleEnds (env : Env) (p : Pid) (d : Setting) (w : World) (x : Uuid) (before : List Uuid)
    (n : Nat) (m : String) (y y' : PassState) (r : Except Fault Rule) : Prop where
  within : ∃ n tx, Within env p d w tx x before n y' ∧ (∀ rule, r = .ok rule → tx = some {})
  rule : d.at x .findRule = .ok ∨
      (entryAt (d.time (some x) n) (ruleKey m) y.world.redis).isSome = true →
    r = toDecimalRule env (w.seen env (d.time (some x) n) m)
  failed : ¬ (d.at x .findRule = .ok ∨
    (entryAt (d.time (some x) n) (ruleKey m) y.world.redis).isSome = true) → ∃ f, r = .error f

theorem ends_getCashbackRule (hmono : Monotone (d.time (some x)))
    (h : Within env p d w (some {}) x before n y) :
    Ends (servePass env p d) False (fun y' r => RuleEnds env p d w x before n m y y' r) y
      (getCashbackRule env m).run := by
  have hseen := h.seen _ (h.later hmono) m
  unfold World.seen at hseen
  refine ends_act_bind.mpr ((ends_cachedEntry (ruleKey m) hmono h).post ?_)
  rintro y₁ r ⟨within, redis, clock, rfl⟩
  cases hentry : entryAt (d.time (some x) n) (ruleKey m) y.world.redis with
  | some cached =>
    rw [hentry] at hseen
    refine ends_ofExcept
      ⟨⟨_, _, within, fun _ _ => rfl⟩, fun _ => congrArg (toDecimalRule env) hseen,
      fun hno => absurd (Or.inr ?_) hno⟩
    rw [hentry]
    rfl
  | none =>
    rw [hentry] at hseen
    have hpayload : y.world.payload env m = w.payload env m := by
      unfold World.payload
      rw [h.rules]
    have hblank : Blank (ruleKey m) y₁ := by
      unfold Blank
      rw [redis, clock]
      exact blank_of_miss h.keys hentry
    -- the lock
    refine ends_act_bind.mpr
      ((ends_tryRedis (c := .setNx (ruleKey m ++ ":lock") env.lockTtlMs) false hmono within
      fun t ht m' => seen_congr (fun key => entryAt_setNx within.keys ht _ _) m').post ?_)
    rintro y₂ r ⟨within₂, redis₂, clock₂, hreply⟩
    obtain ⟨gotLock, hgot⟩ :=
      redis_replies (.setNx (ruleKey m ++ ":lock") env.lockTtlMs) (d.time (some x) (n + 1))
      y₁.world.redis
    obtain rfl := hreply.trans hgot
    have hblank₂ : Blank (ruleKey m) y₂ := by
      intro t ht
      rw [redis₂, entryAt_setNx within.keys (clock₂ ▸ ht)]
      exact hblank t (Nat.le_trans (within.later hmono) (clock₂ ▸ ht))
    refine ends_act_finally.mpr
      ((ends_readThrough hmono within₂ hblank₂ gotLock).post fun y₃ r hr => ?_)
    obtain ⟨⟨n₃, tx₃, within₃, hsound⟩, hlock, hrule, hfailed⟩ := hr
    have hends : ∀ {n₄ : Nat} {y₄ : PassState}, Within env p d w tx₃ x before n₄ y₄ →
        RuleEnds env p d w x before n m y y₄ r := fun within₄ => by
      refine ⟨⟨_, _, within₄, hsound⟩, ?_, ?_⟩
      · rintro (hok | hsome)
        · rw [hrule hok, ← hpayload]
          exact congrArg (toDecimalRule env) hseen
        · rw [hentry] at hsome
          cases hsome
      · exact fun hno => hfailed fun hok => hno (Or.inl hok)
    cases gotLock with
    | false => exact hends within₃
    | true =>
      have hheld : Blank (ruleKey m ++ ":lock") y₂ := by
        unfold Blank
        rw [redis₂, clock₂]
        exact blank_setNx hgot
      have hheld₃ := hlock _ (lockKey_ne (ruleKey m)) hheld
      refine (ends_tryRedis (c := .del (ruleKey m ++ ":lock")) () hmono within₃ fun t ht m' =>
        seen_congr (fun key => entryAt_del (hheld₃.mono (within₃.later hmono)) ht key) m').post ?_
      rintro y₄ r' ⟨within₄, -, -, rfl⟩
      exact hends within₄

/-! ## The insert -/

variable {c : LedgerData}

/-- How the insert of the credit ends. Where it is refused the text says why, unless the question
    for the entry failed. -/
inductive Inserts (env : Env) (p : Pid) (d : Setting) (w : World) (x : Uuid) (before : List Uuid)
    (c : LedgerData) (y' : PassState) : Except Fault CreditResult → Prop where
  | made {entry : LedgerEntry} {table : Table LedgerEntry} {k n : Nat} {res : CreditResult}
      (reached : d.at x .createCredit = .ok) (free : insertOutcome w p c ≠ none)
      (made : insertFor w.credited c = .ok entry.data) (id : entry.id = d.newId (some x) k)
      (credit : entry.type = .CREDIT) (added : w.ledger.insert? entry = some table)
      (within : Within env p d w (some { writes := [.ledger entry] }) x before n y') :
      Inserts env p d w x before c y' (.ok res)
  | refused {f : Fault} {n : Nat} {tx : Option Tx}
      (reached : d.at x .createCredit = .ok → ∃ g, insertFor w.credited c = .error g)
      (exact : x ≠ d.failing → insertOutcome w p c ≠ none ∧ insertFor w.credited c = .error f)
      (within : Within env p d w tx x before n y') :
      Inserts env p d w x before c y' (.error f)

theorem ledgerCreate_congr {newId : Uuid} {tx : Option Tx} (h : AsIn env p w tx v) :
    TxStmt.run env p newId v (.ledgerCreate c) = TxStmt.run env p newId w (.ledgerCreate c) := by
  unfold TxStmt.run
  dsimp only
  rw [h.orders, h.ledger, h.locks]

theorem ledgerCreate_id {newId : Uuid} {entry : LedgerEntry}
    (h : TxStmt.run env p newId w (.ledgerCreate c) = some (.ok entry)) : entry.id = newId := by
  unfold TxStmt.run at h
  dsimp only at h
  split at h
  · cases h
  repeat' split at h
  all_goals cases h
  rfl

theorem ends_insertCredit {order : Order} {cashback : Decimal} (hmono : Monotone (d.time (some x)))
    (hfresh : ∀ k, (w.ledger.any fun e => e.id == d.newId (some x) k) = false)
    (horder : w.orders.any (fun o => o.id == order.id) = true)
    (h : Within env p d w (some {}) x before n y) :
    Ends (servePass env p d) (insertOutcome w p (creditData order cashback) = none)
      (fun y' r => Inserts env p d w x before (creditData order cashback) y' r) y
      (createCredit order cashback).run := by
  have hself : Beside p w (w.txOf p) w := ⟨rfl, rfl, rfl, rfl, fun _ => rfl⟩
  have hcases := insert_ends env (hfresh n) hself (d := creditData order cashback) horder
  refine ends_act_tryCatch.mpr (ends_act_bind.mpr (ends_await_of_at
    ((ends_stmt (s := .ledgerCreate (creditData order cashback)) hmono h rfl
      fun v hv => ledgerCreate_congr hv).mono (fun hwait => ?_) ?_)))
  · rw [hwait] at hcases
    cases hcases with
    | waits hwaits => exact hwaits
  rintro y₁ r ⟨-, hr⟩
  cases hr with
  | failed hfate within =>
    rw [Setting.fateOf_site (s := .createCredit) rfl] at hfate
    dsimp only [Except.map]
    rw [if_neg nofun]
    exact .refused (fun hok => absurd hok hfate) (fun hx => absurd (d.at_of_ne hx _) hfate) within
  | ok hfate ho within =>
    rw [Setting.fateOf_site (s := .createCredit) rfl] at hfate
    have hrun := ho
    generalize TxStmt.run env p (d.newId (some x) n) w (.ledgerCreate (creditData order cashback)) =
      o at hcases ho
    cases hcases with
    | waits h => cases ho
    | overflow h =>
      cases ho
      have hinsert := insertFor_of_outcome rfl h
      exact .refused (fun _ => ⟨_, hinsert⟩) (fun _ => ⟨h ▸ nofun, hinsert⟩) within
    | made h makes added =>
      cases ho
      have hinsert := insertFor_of_outcome rfl h
      rw [makes.stored] at hinsert
      exact .made hfate (h ▸ nofun) hinsert (ledgerCreate_id hrun) makes.2.2.1 added within
    | refused h =>
      cases ho
      have hinsert := insertFor_of_outcome rfl h
      dsimp only [Except.map]
      rw [if_pos rfl]
      -- the question for the existing entry is put to an aborted transaction
      refine ends_act_bind.mpr (ends_await_of_at ((ends_aborted hmono within rfl).post ?_))
      rintro y₂ r ⟨-, hr⟩
      cases hr with
      | failed hfate' within' =>
        exact .refused (fun _ => ⟨_, hinsert⟩)
          (fun hx => absurd (Setting.fate_of_ne hx _) hfate') within'
      | ok _ ho' within' =>
        cases ho'
        exact .refused (fun _ => ⟨_, hinsert⟩) (fun _ => ⟨h ▸ nofun, hinsert⟩) within'

/-! ## The transaction -/

/-- How the body of the transaction ends, which began in `v` and reads the rule at the time `t`. -/
inductive CreditEnds (env : Env) (p : Pid) (d : Setting) (w v : World) (t : Time) (x : Uuid)
    (before : List Uuid) (orderId : Option Json) (y' : PassState) :
    Except Fault CreditResult → Prop where
  | made {entry : LedgerEntry} {table : Table LedgerEntry} {k n : Nat} {res : CreditResult}
      (reached : d.Prepares env v t x orderId) (free : ¬ Waits env p w t orderId)
      (made : creditFor env w w.credited t orderId = .ok entry.data)
      (id : entry.id = d.newId (some x) k)
      (credit : entry.type = .CREDIT) (added : w.ledger.insert? entry = some table)
      (within : Within env p d w (some { writes := [.ledger entry] }) x before n y') :
      CreditEnds env p d w v t x before orderId y' (.ok res)
  | refused {f : Fault} {n : Nat} {tx : Option Tx}
      (reached : d.Prepares env v t x orderId →
        ∃ g, creditFor env w w.credited t orderId = .error g)
      (exact : x ≠ d.failing → ¬ Waits env p w t orderId ∧
        creditFor env w w.credited t orderId = .error f)
      (within : Within env p d w tx x before n y') :
      CreditEnds env p d w v t x before orderId y' (.error f)

/-- What is not due is refused, and nothing is waited for. -/
theorem CreditEnds.undue {time : Time} {f : Fault} {tx : Option Tx}
    (hnot : dueCredit env w time orderId = .error f) (within : Within env p d w tx x before n y) :
    CreditEnds env p d w v time x before orderId y (.error f) := by
  have hcredit : creditFor env w w.credited time orderId = .error f := by
    unfold creditFor
    rw [hnot]
    rfl
  refine .refused (fun _ => ⟨f, hcredit⟩) (fun _ => ⟨?_, hcredit⟩) within
  rintro ⟨c, hc, -⟩
  cases hnot.symm.trans hc

theorem dueCredit_found {time : Time} {id : Uuid} {order : Order}
    (hid : readId env orderId = some id)
    (hguard : guardOrder env orderId (w.orderOf env orderId) = .ok order) :
    dueCredit env w time orderId =
      (toDecimalRule env (w.seen env time order.merchantId)).map fun rule =>
      creditData order (cashbackOf order.amount rule) := by
  unfold dueCredit
  rw [hid, hguard]
  dsimp only
  cases toDecimalRule env (w.seen env time order.merchantId) with
  | error e => rfl
  | ok rule => rfl

/-- From the read of the rule on, for the order that was found. -/
theorem ends_creditFound {id : Uuid} {order : Order} (hmono : Monotone (d.time (some x)))
    (hfresh : ∀ k, (w.ledger.any fun e => e.id == d.newId (some x) k) = false)
    (hid : readId env orderId = some id)
    (hguard : guardOrder env orderId (w.orderOf env orderId) = .ok order)
    (hfind : d.at x .findOrder = .ok) (horders : v.orders = w.orders)
    (hredis : y.world.redis = v.redis) (h : Within env p d w (some {}) x before n y) :
    Ends (servePass env p d) (Waits env p w (d.time (some x) n) orderId)
      (fun y' r => CreditEnds env p d w v (d.time (some x) n) x before orderId y' r) y
      (getCashbackRule env order.merchantId >>= fun rule =>
        createCredit order (cashbackOf order.amount rule)).run := by
  have hdue : dueCredit env w (d.time (some x) n) orderId = _ := dueCredit_found hid hguard
  obtain ⟨hfound, -⟩ := guardOrder_ok hguard
  have hfound' : v.orderOf env orderId = some order := by
    rw [← hfound]
    unfold World.orderOf
    rw [horders]
  have hmem : order ∈ w.orders := by
    unfold World.orderOf at hfound
    rw [hid, Option.bind_some] at hfound
    exact Table.mem_of_find? hfound
  have hany : w.orders.any (fun o => o.id == order.id) = true :=
    Table.any_iff.mpr ⟨order, hmem, beq_self_eq_true _⟩
  refine ends_act_bind.mpr ((ends_getCashbackRule (m := order.merchantId) hmono h).post ?_)
  rintro y₁ r ⟨⟨n₁, tx₁, within, hsound⟩, hrule, hfailed⟩
  rw [hredis] at hrule hfailed
  by_cases hreach : d.at x .findRule = .ok ∨
      (entryAt (d.time (some x) n) (ruleKey order.merchantId) v.redis).isSome = true
  · rw [← hrule hreach] at hdue
    cases r with
    | error f => exact .undue hdue within
    | ok rule =>
      obtain rfl := hsound rule rfl
      have hcredit : creditFor env w w.credited (d.time (some x) n) orderId =
          insertFor w.credited (creditData order (cashbackOf order.amount rule)) := by
        unfold creditFor
        rw [hdue]
        rfl
      have hfree : insertOutcome w p (creditData order (cashbackOf order.amount rule)) ≠ none →
          ¬ Waits env p w (d.time (some x) n) orderId := by
        rintro hsome ⟨c, hc, hwaits⟩
        cases hdue.symm.trans hc
        exact hsome hwaits
      refine (ends_insertCredit hmono hfresh hany within).mono
        (fun hwaits => ⟨_, hdue, hwaits⟩) fun y₂ r hr => ?_
      cases hr with
      | made reached free made id credit added within =>
        refine .made ⟨hfind, fun o ho => ?_, reached⟩
          (hfree free) (hcredit.trans made) id credit added within
        cases hfound'.symm.trans ho
        exact hreach
      | refused reached exact within =>
        refine .refused (fun hp => ?_)
          (fun hx => ⟨hfree (exact hx).1, hcredit.trans (exact hx).2⟩) within
        obtain ⟨g, hg⟩ := reached hp.createCredit
        exact ⟨g, hcredit.trans hg⟩
  · obtain ⟨f, rfl⟩ := hfailed hreach
    exact .refused (fun hp => absurd (hp.findRule order hfound') hreach)
      (fun hx => absurd (Or.inl (d.at_of_ne hx _)) hreach) within

theorem ends_creditBody (hmono : Monotone (d.time (some x)))
    (hfresh : ∀ k, (w.ledger.any fun e => e.id == d.newId (some x) k) = false)
    (h : Within env p d w (some {}) x before n y) :
    Ends (servePass env p d) (Waits env p w (d.time (some x) (n + 1)) orderId)
      (fun y' r => CreditEnds env p d w y.world (d.time (some x) (n + 1)) x before orderId y' r) y
      (creditOrder env (getCashbackRule env) orderId).run := by
  have hdue : dueCredit env w (d.time (some x) (n + 1)) orderId = _ := rfl
  conv_rhs at hdue => unfold dueCredit
  refine ends_act_bind.mpr (ends_await_of_at ((ends_stmt (s := .orderFindUnique orderId)
    (o := match readId env orderId with
      | none => some (.error .invalidValue)
      | some _ => some (.ok (w.orderOf env orderId))) hmono h rfl ?_).mono ?_ ?_))
  · intro v hv
    unfold TxStmt.run World.orderOf
    dsimp only
    rw [hv.orders]
    cases readId env orderId <;> rfl
  · intro hwait
    split at hwait <;> cases hwait
  rintro y₁ r ⟨hlater, hr⟩
  cases hr with
  | failed hfate within =>
    rw [Setting.fateOf_site (s := .findOrder) rfl] at hfate
    exact .refused (fun hp => absurd hp.findOrder hfate)
      (fun hx => absurd (d.at_of_ne hx _) hfate) within
  | ok hfate ho within =>
    rw [Setting.fateOf_site (s := .findOrder) rfl] at hfate
    cases hid : readId env orderId with
    | none =>
      rw [hid] at ho hdue
      cases ho
      exact .undue hdue within
    | some id =>
      rw [hid] at ho hdue
      cases ho
      dsimp only [Except.map] at hdue ⊢
      cases hguard : guardOrder env orderId (w.orderOf env orderId) with
      | error e =>
        rw [hguard] at hdue
        exact ends_act_bind.mpr (ends_ofExcept (.undue hdue within))
      | ok order =>
        exact ends_act_bind.mpr
          (ends_ofExcept (ends_creditFound hmono hfresh hid hguard hfate h.orders hlater.redis
          within))

theorem Setting.Prepares.congr {v' : World} {time : Time} (h : d.Prepares env v time x orderId)
    (horders : v'.orders = v.orders) (hredis : v'.redis = v.redis) :
    d.Prepares env v' time x orderId := by
  refine ⟨h.findOrder, fun o ho => ?_, h.createCredit⟩
  unfold World.orderOf at ho
  rw [horders] at ho
  rw [hredis]
  exact h.findRule o ho

/-- How the transaction ends that is begun in `v`, and what it makes of the world `w`. -/
inductive TransactionEnds (env : Env) (p : Pid) (d : Setting) (w v : World) (x : Uuid)
    (orderId : Option Json) : World → Except Fault (CreditResult × Time) → Prop where
  | credited {c : LedgerData} {w' : World} {res : CreditResult × Time}
      (calls : d.Credits env v x orderId)
      (replied : d.at x .commit = .ok) (free : ¬ Waits env p w (d.time (some x) 3) orderId)
      (due : creditFor env w w.credited (d.time (some x) 3) orderId = .ok c)
      (adds : Adds d x w c w') :
      TransactionEnds env p d w v x orderId w' (.ok res)
  | unseen {c : LedgerData} {w' : World} {f : Fault} (calls : d.Credits env v x orderId)
      (lost : d.at x .commit ≠ .ok)
      (due : creditFor env w w.credited (d.time (some x) 3) orderId = .ok c)
      (adds : Adds d x w c w') : TransactionEnds env p d w v x orderId w' (.error f)
  | refused {f : Fault}
      (calls : d.Credits env v x orderId →
        ∃ g, creditFor env w w.credited (d.time (some x) 3) orderId = .error g)
      (exact : x ≠ d.failing → ¬ Waits env p w (d.time (some x) 3) orderId ∧
        creditFor env w w.credited (d.time (some x) 3) orderId = .error f) :
      TransactionEnds env p d w v x orderId w (.error f)

/-- A transaction that failed is rolled back. -/
theorem ends_rolledBack {f : Fault} (hmono : Monotone (d.time (some x)))
    (within : Within env p d w' tx x before n y)
    (hends : TransactionEnds env p d w v x orderId w' (.error f)) :
    Ends (servePass env p d) S (fun y' r => ∃ w' n tx', Within env p d w' tx' x before n y' ∧
        TransactionEnds env p d w v x orderId w' r) y
      (do tryCatch (await (.tx .rollback)) fun _ => pure ()
          throw f : Async (CreditResult × Time)).run := by
  refine ends_act_bind.mpr (ends_act_tryCatch.mpr (ends_await_of_at
    ((ends_rollback hmono within).post fun y' r within' => ?_)))
  cases r with
  | ok a => exact ⟨w', _, _, within', hends⟩
  | error e => exact ⟨w', _, _, within', hends⟩

theorem ends_processOrderConfirmed (hmono : Monotone (d.time (some x)))
    (hfresh : ∀ k, (w.ledger.any fun e => e.id == d.newId (some x) k) = false)
    (h : Within env p d w tx x before 1 y) :
    Ends (servePass env p d) (Waits env p w (d.time (some x) 3) orderId)
      (fun y' r => ∃ w' n tx', Within env p d w' tx' x before n y' ∧
        TransactionEnds env p d w y.world x orderId w' r) y
      (processOrderConfirmed env orderId).run := by
  refine ends_act_bind.mpr (ends_await_of_at ((ends_begin hmono h).post ?_))
  rintro y₁ r ⟨hlater, hr⟩
  cases hr with
  | failed hfate within =>
    rw [Setting.fateOf_site (s := .begin) rfl] at hfate
    exact ⟨w, _, _, within, .refused (fun hc => absurd hc.begin hfate) fun hx => absurd
      (d.at_of_ne hx _) hfate⟩
  | ok hfate ho within =>
    rw [Setting.fateOf_site (s := .begin) rfl] at hfate
    cases ho
    have hbegun : Within env p d w (some {}) x before 2 y₁ := within
    have hprepares : d.Prepares env y.world (d.time (some x) 3) x orderId →
        d.Prepares env y₁.world (d.time (some x) 3) x orderId :=
      fun hp => hp.congr (hbegun.orders.trans h.orders.symm) hlater.redis
    refine ends_act_tryCatch.mpr
      (ends_act_bind.mpr ((ends_creditBody hmono hfresh hbegun).mono id ?_))
    intro y₂ r hr
    cases hr with
    | refused reached exact within₂ =>
      exact ends_rolledBack hmono within₂
        (.refused (fun hc => reached (hprepares hc.toPrepares)) exact)
    | made reached free made id credit added within₂ =>
      have hcalls : (d.at x .commit).takesEffect = true →
          d.Credits env y.world x orderId := fun hcommit =>
        ⟨reached.congr (h.orders.trans hbegun.orders.symm) hlater.redis.symm, hfate, hcommit⟩
      refine ends_act_bind.mpr ((ends_commit hmono within₂ added).post fun y₃ r hr => ?_)
      cases hr with
      | ok hcommit ho within₃ =>
        rw [Setting.fateOf_site (s := .commit) rfl] at hcommit
        cases ho
        exact ⟨_, _, _, within₃, .credited (hcalls (hcommit ▸ rfl)) hcommit free made
          (.intro id credit added)⟩
      | failed hcommit within₃ =>
        rw [Setting.fateOf_site (s := .commit) rfl] at hcommit
        refine ends_rolledBack hmono within₃ (.refused (fun hc => ?_) fun hx => ?_)
        · have htakes := hc.commit
          rw [hcommit] at htakes
          cases htakes
        · cases (d.at_of_ne hx .commit).symm.trans hcommit
      | lost hcommit within₃ =>
        rw [Setting.fateOf_site (s := .commit) rfl] at hcommit
        exact ends_rolledBack hmono within₃
          (.unseen (hcalls (hcommit ▸ rfl)) (hcommit ▸ nofun) made (.intro id credit added))

end

end CashbackLedger
