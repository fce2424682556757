import CashbackLedger.Lib.Alone
import CashbackLedger.Model.DecimalText
import CashbackLedger.Run.Rules

/-
  The two handlers side by side.

  The worker's handler reads the rule through the cache, the copy in `packages/domain` from the
  database. Both refine one description of what crediting comes to (`creditOutcome`), whatever
  becomes of the Redis calls and whatever other processes meanwhile make of Redis, as long as
  the cache holds nothing but the current rule of the merchant. So they fail alike or write the
  same entry (`handlers_agree`).
-/

namespace CashbackLedger

open Lib

/-! ## A run beside other processes -/

/-- What surrounds a run, by the number of the call: what becomes of it if it is a Redis call, the
    id it may use, and what others have made of Redis and how much time has passed before it. -/
structure Surroundings where
  fate : Nat → Fate
  newId : Nat → Uuid
  redis : Nat → List RedisEntry → List RedisEntry
  elapsed : Nat → Time

namespace Surroundings

/-- The world in which call `n` is served. -/
def before (sur : Surroundings) (n : Nat) (w : World) : World :=
  { w with redis := sur.redis n w.redis, clock := w.clock + sur.elapsed n }

/-- Only Redis fails. -/
def choice (sur : Surroundings) (n : Nat) : Call → Choice
  | .redis _ => { fate := sur.fate n, newId := sur.newId n }
  | _ => { fate := .ok, newId := sur.newId n }

/-- Others store nothing but `value` under `key`. -/
def StoreOnly (sur : Surroundings) (key : String) (value : JsonText) : Prop :=
  ∀ n store, ∀ e ∈ sur.redis n store, e.key = key → e ∈ store ∨ e.value = value

/-- The ids handed out are not in use in the ledger. -/
def Fresh (sur : Surroundings) (w : World) : Prop :=
  ∀ n, (w.ledger.any fun e => e.id == sur.newId n) = false

end Surroundings

/-- Serves a call of `p` beside others. -/
def serveBeside (env : Env) (p : Pid) (sur : Surroundings) (c : Call) (y : World × Nat) :
    Option ((World × Nat) × Reply c) :=
  (exec env p c (sur.choice y.2 c) (sur.before y.2 y.1)).map fun z => ((z.1, y.2 + 1), z.2)

/-- Runs an async function of `p` beside others, from the world `w`. -/
def runBeside {α : Type} (env : Env) (p : Pid) (sur : Surroundings) (w : World) (x : Async α) :
    Option ((World × Nat) × Except Fault α) :=
  Prog.eval (serveBeside env p sur) (w, 0) x.run

/-- Nothing but `value` is alive under `key`. -/
def World.HoldsOnly (w : World) (key : String) (value : JsonText) : Prop :=
  ∀ e ∈ w.redis, e.key = key → w.clock < e.expiresAt → e.value = value

/-! ## What crediting comes to -/

/-- The rule of a merchant in the database. -/
def World.ruleOf (w : World) (merchantId : String) : Rule :=
  CashbackLedger.ruleOf (w.rules.find? fun r => r.merchantId == merchantId)

/-- The order a client value names. -/
def World.orderOf (env : Env) (w : World) (x : Option Json) : Option Order :=
  (readId env x).bind fun id => w.orders.find? fun o => o.id == id

/-- What the insert of an entry comes to; `none` while another transaction holds its key. On an
    entry that exists the question for it meets the aborted transaction. -/
def insertOutcome (w : World) (p : Pid) (d : LedgerData) : Option (Except Fault LedgerData) :=
  match storeNumeric 18 2 d.amount with
  | none => some (.error .invalidValue)
  | some _ =>
      if w.lockedByOther p (fun
          | .ledger e => e.orderId == d.orderId && e.type == d.type
          | _ => false) then none
      else if w.ledger.any fun e => e.orderId == d.orderId && e.type == d.type then
        some (.error .transactionAborted)
      else some (.ok d)

/-- What crediting the order `x` comes to: an error, or the entry it makes. -/
def creditOutcome (env : Env) (p : Pid) (w : World) (x : Option Json) :
    Option (Except Fault LedgerData) :=
  match readId env x with
  | none => some (.error .invalidValue)
  | some _ =>
      match guardOrder env x (w.orderOf env x) with
      | .error e => some (.error e)
      | .ok order =>
          insertOutcome w p (creditData order (cashbackOf order.amount (w.ruleOf order.merchantId)))

/-- The entry is the one asked for, its amount as the column stores it. -/
def LedgerData.Makes (d : LedgerData) (e : LedgerEntry) : Prop :=
  e.userId = d.userId ∧ e.orderId = d.orderId ∧ e.type = d.type ∧
    storeNumeric 18 2 d.amount = some e.amount ∧ e.currency = d.currency

/-- The run ended as `outcome` says: it threw and the ledger is as it was, or one entry was added
    and the result reports it. -/
def EndsAs (w : World) (outcome : Except Fault LedgerData) (w' : World) :
    Except Fault (CreditResult × Time) → Prop
  | .error e => outcome = .error e ∧ w'.ledger = w.ledger
  | .ok (res, _) => ∃ d entry, outcome = .ok d ∧ d.Makes entry ∧
      w.ledger.insert? entry = some w'.ledger ∧
      res = { orderId := d.orderId, credited := true, ledgerEntryId := some entry.id,
              amount := d.amount, currency := d.currency }

/-! ## Calls beside others -/

section

variable {env : Env} {p : Pid} {sur : Surroundings} {w : World} {y : World × Nat} {tx : Option Tx}
  {key : String} {value : JsonText}

/-- Between two calls of `p`: its transaction is `tx`, the tables the handlers read and the other
    transactions are as in `w`. -/
structure Beside (p : Pid) (w : World) (tx : Option Tx) (v : World) : Prop where
  orders : v.orders = w.orders
  rules : v.rules = w.rules
  ledger : v.ledger = w.ledger
  tx : v.txOf p = tx
  locks : ∀ touches, v.lockedByOther p touches = w.lockedByOther p touches

theorem Beside.before {v : World} (h : Beside p w tx v) (sur : Surroundings) (n : Nat) :
    Beside p w tx (sur.before n v) :=
  ⟨h.orders, h.rules, h.ledger, h.tx, h.locks⟩

theorem lockedByOther_setTx (v : World) (t : Option Tx) (touches : TxWrite → Bool) :
    (v.setTx p t).lockedByOther p touches = v.lockedByOther p touches := by
  unfold World.lockedByOther World.setTx
  cases t <;> simp [List.any_filter]

theorem Beside.setTx {v : World} (h : Beside p w tx v) (t : Option Tx) :
    Beside p w t (v.setTx p t) := by
  refine ⟨h.orders, h.rules, h.ledger, ?_, fun touches => ?_⟩
  · rw [World.txOf_setTx, if_pos rfl]
  · rw [lockedByOther_setTx, h.locks]

theorem World.HoldsOnly.before {v : World} (h : v.HoldsOnly key value)
    (hsur : sur.StoreOnly key value) (n : Nat) : (sur.before n v).HoldsOnly key value := by
  intro e he hkey hlive
  rcases hsur n v.redis e he hkey with hold | hvalue
  · exact h e hold hkey (Nat.lt_of_le_of_lt (Nat.le_add_right _ _) hlive)
  · exact hvalue

/-- A Redis call that stores nothing else under `key`. -/
def RedisCall.Respects (key : String) (value : JsonText) : RedisCall → Prop
  | .set k v _ => k = key → v = value
  | .setNx k _ => k ≠ key
  | .get _ => True
  | .del _ => True

theorem RedisCall.Respects.run {c : RedisCall} (hc : c.Respects key value) {now : Time}
    {store : List RedisEntry} {e : RedisEntry} (he : e ∈ (c.run now store).1) (hkey : e.key = key) :
    e ∈ store ∨ e.value = value := by
  cases c with
  | get k => exact Or.inl he
  | set k v seconds =>
    rcases List.mem_cons.mp he with rfl | he
    · exact Or.inr (hc hkey)
    · exact Or.inl (mem_of_mem_delete he)
  | setNx k ms =>
    unfold RedisCall.run at he
    dsimp only at he
    split at he
    · exact Or.inl he
    · rcases List.mem_cons.mp he with rfl | he
      · exact absurd hkey hc
      · exact Or.inl (mem_of_mem_delete he)
  | del k => exact Or.inl (mem_of_mem_delete he)

/-- Between two calls of `p` while the cache holds nothing but `value` under `key`. -/
structure Caching (p : Pid) (w : World) (tx : Option Tx) (key : String) (value : JsonText)
    (v : World) : Prop extends Beside p w tx v where
  holds : v.HoldsOnly key value

/-- A Redis call is always served, with its reply or a failure. -/
theorem serve_redis (env : Env) {c : RedisCall} (hc : c.Respects key value)
    (hsur : sur.StoreOnly key value) (h : Caching p w tx key value y.1) :
    ∃ y' r, serveBeside env p sur (.redis c) y = some (y', r) ∧ Caching p w tx key value y'.1 ∧
      ∀ x, r.1 = .ok x → (c.run (sur.before y.2 y.1).clock (sur.before y.2 y.1).redis).2 =
        .ok x := by
  have hb := h.before sur y.2
  have hheld := h.holds.before hsur y.2
  have hkept :
      ∀ store, (∀ e ∈ store, e.key = key → e ∈ (sur.before y.2 y.1).redis ∨ e.value = value) →
      Caching p w tx key value
        (({ sur.before y.2 y.1 with redis := store } : World).setTx p
          ((sur.before y.2 y.1).txOf p)) := by
    intro store hstore
    have hmid : Beside p w tx { sur.before y.2 y.1 with redis := store } :=
      ⟨hb.orders, hb.rules, hb.ledger, hb.tx, hb.locks⟩
    refine ⟨hb.tx ▸ hmid.setTx _, fun e he hkey hlive => ?_⟩
    rcases hstore e he hkey with hold | hvalue
    · exact hheld e hold hkey hlive
    · exact hvalue
  have hrun := hkept (c.run (sur.before y.2 y.1).clock (sur.before y.2 y.1).redis).1
    fun e he hkey => hc.run he hkey
  unfold serveBeside exec Surroundings.choice
  dsimp only
  cases sur.fate y.2 with
  | ok => exact ⟨_, _, rfl, hrun, fun _ hx => hx⟩
  | fail m => exact ⟨_, _, rfl, hkept _ fun e he _ => Or.inl he, nofun⟩
  | lost m => exact ⟨_, _, rfl, hrun, nofun⟩

/-- What is found under `key` is `value`. -/
theorem World.HoldsOnly.get {v : World} (h : v.HoldsOnly key value) {raw : JsonText}
    (hget : (RedisCall.run v.clock v.redis (.get key)).2 = .ok (some raw)) : raw = value := by
  obtain ⟨e, he, rfl⟩ := Option.map_eq_some_iff.mp (Except.ok.inj hget)
  have hp := List.find?_some he
  obtain ⟨hkey, hlive⟩ := Bool.and_eq_true_iff.mp hp
  exact h e (List.mem_of_find?_eq_some he) (beq_iff_eq.mp hkey) (of_decide_eq_true hlive)

/-- A statement of a sound transaction. -/
theorem serve_stmt (env : Env) (sur : Surroundings) {tx : Tx} (s : TxStmt)
    (h : Beside p w (some tx) y.1) (hsound : tx.aborted = false) :
    serveBeside env p sur (.tx (.stmt s)) y =
      (s.run env p (sur.newId y.2) (sur.before y.2 y.1)).map fun r =>
        (((sur.before y.2 y.1).settle p (.tx (.stmt s)) r, y.2 + 1),
          (r, (sur.before y.2 y.1).clock)) := by
  have htx : (sur.before y.2 y.1).txOf p = some tx := h.tx
  simp only [serveBeside, exec, Surroundings.choice, Call.run, TxCall.run, htx, hsound,
    Bool.false_eq_true, if_false, Option.map_map]
  rfl

/-- A statement of an aborted transaction. -/
theorem serve_aborted (env : Env) (sur : Surroundings) {tx : Tx} (s : TxStmt)
    (h : Beside p w (some tx) y.1) (haborted : tx.aborted = true) :
    serveBeside env p sur (.tx (.stmt s)) y =
      some (((sur.before y.2 y.1).settle p (.tx (.stmt s)) (.error .transactionAborted), y.2 + 1),
        (.error .transactionAborted, (sur.before y.2 y.1).clock)) := by
  have htx : (sur.before y.2 y.1).txOf p = some tx := h.tx
  simp only [serveBeside, exec, Surroundings.choice, Call.run, TxCall.run, htx, haborted, if_true,
    Option.map_some]

/-- The transaction after a statement that was answered. -/
theorem Beside.settle {tx : Tx} {v : World} (h : Beside p w (some tx) v) (s : TxStmt)
    (x : s.Result) :
    Beside p w (some { tx with writes := tx.writes ++ s.write x })
      (v.settle p (.tx (.stmt s)) (.ok x)) := by
  unfold World.settle
  rw [h.tx]
  exact h.setTx _

/-- A statement that writes nothing leaves the transaction as it is. -/
theorem Beside.settle_read {tx : Tx} {v : World} (h : Beside p w (some tx) v) {s : TxStmt}
    {x : s.Result} (hread : s.write x = []) :
    Beside p w (some tx) (v.settle p (.tx (.stmt s)) (.ok x)) := by
  have hsettle := h.settle s x
  rwa [hread, List.append_nil] at hsettle

/-- A statement that failed aborts the transaction. -/
theorem Beside.settle_failed {tx : Tx} {v : World} (h : Beside p w (some tx) v) (s : TxStmt)
    (e : Fault) :
    Beside p w (some { tx with aborted := true }) (v.settle p (.tx (.stmt s)) (.error e)) := by
  unfold World.settle
  rw [h.tx]
  exact h.setTx _

/-! ## Reading the rule -/

variable {α : Type} {S : Prop}

theorem ends_await {c : Call} {y' : World × Nat} {r : Reply c}
    {Q : World × Nat → Except Fault c.Result → Prop}
    (h : serveBeside env p sur c y = some (y', r)) (hQ : Q y' r.1) :
    Ends (serveBeside env p sur) S Q y (await c).run := by
  refine ends_call.mpr ?_
  rw [h]
  exact hQ

/-- Without the time of the reply. -/
theorem ends_await_of_at {W : Type} {serve : (c : Call) → W → Option (W × Reply c)} {c : Call}
    {y : W} {Q : W → Except Fault c.Result → Prop}
    (h : Ends serve S (fun y' r => Q y' (r.map Prod.fst)) y (awaitAt c).run) :
    Ends serve S Q y (await c).run := by
  refine ends_call.mpr ?_
  have hcall := ends_call.mp h
  split at hcall
  · exact hcall
  · next y' r hserve =>
    obtain ⟨e | x, now⟩ := r
    · exact hcall
    · exact hcall

/-- A Redis call whose failure is replaced by a default. -/
theorem ends_tryAwait {c : RedisCall} {d : c.Result} (hc : c.Respects key value)
    (hsur : sur.StoreOnly key value) (h : Caching p w tx key value y.1) :
    Ends (serveBeside env p sur) False
      (fun y' r => Caching p w tx key value y'.1 ∧ ∃ x, r = .ok x) y
      (tryCatch (await (.redis c)) fun _ => pure d : Async c.Result).run := by
  obtain ⟨y', r, hserve, hcaching, -⟩ := serve_redis env hc hsur h
  refine ends_act_tryCatch.mpr (ends_await hserve ?_)
  cases r.1 with
  | ok x => exact ⟨hcaching, x, rfl⟩
  | error e => exact ⟨hcaching, d, rfl⟩

theorem ends_readCache {payload : CachedCashbackRule} (hsur : sur.StoreOnly key (some payload.json))
    (h : Caching p w tx key (some payload.json) y.1) :
    Ends (serveBeside env p sur) False
      (fun y' r => Caching p w tx key (some payload.json) y'.1 ∧
        (r = .ok none ∨ r = .ok (some payload)))
      y (readCache key).run := by
  obtain ⟨y', r, hserve, hcaching, hreply⟩ := serve_redis env (c := .get key) trivial hsur h
  refine ends_act_tryCatch.mpr (ends_act_bind.mpr (ends_await hserve ?_))
  cases hr : r.1 with
  | error e => exact ⟨hcaching, Or.inl rfl⟩
  | ok raw =>
    cases raw with
    | none => exact ⟨hcaching, Or.inl rfl⟩
    | some raw =>
      obtain rfl := (h.holds.before hsur y.2).get (hreply _ hr)
      exact ⟨hcaching, Or.inr (congrArg Except.ok (parseCached_json payload))⟩

/-- The entry for the rule of a merchant. -/
def World.payload (env : Env) (w : World) (merchantId : String) : CachedCashbackRule :=
  rulePayload env (w.rules.find? fun r => r.merchantId == merchantId)

/-- The cache holds nothing but the current rule of the merchant. -/
def World.CachesRule (env : Env) (w : World) (merchantId : String) : Prop :=
  w.HoldsOnly (ruleKey merchantId) (some (w.payload env merchantId).json)

theorem World.RulesFit.payload_read (henv : DecimalText env) (h : w.RulesFit) (m : String) :
    toDecimalRule env (w.payload env m) = .ok (w.ruleOf m) :=
  toDecimalRule_rulePayload henv fun _ hr => h _ (Table.mem_of_find? hr)

/-- The lock key of a merchant is not its cache key. -/
theorem lockKey_ne (key : String) : key ++ ":lock" ≠ key := by
  intro h
  have hlen := congrArg String.length h
  have hlock : ":lock".length = 5 := rfl
  rw [String.length_append, hlock] at hlen
  omega

section

variable {m : String} {t : Tx}

theorem ends_ruleFindUnique {Q : World × Nat → Except Fault (Option CashbackRule) → Prop}
    (hsound : t.aborted = false) (h : Beside p w (some t) y.1)
    (hQ : ∀ y' : World × Nat, y'.1.redis = (sur.before y.2 y.1).redis →
      y'.1.clock = (sur.before y.2 y.1).clock → Beside p w (some t) y'.1 →
      Q y' (.ok (w.rules.find? fun r => r.merchantId == m))) :
    Ends (serveBeside env p sur) S Q y (await (.tx (.stmt (.ruleFindUnique m)))).run := by
  have hb := h.before sur y.2
  have hrun : TxStmt.run env p (sur.newId y.2) (sur.before y.2 y.1) (.ruleFindUnique m) =
      some (.ok (w.rules.find? fun r => r.merchantId == m)) := by
    unfold TxStmt.run
    dsimp only
    rw [hb.rules]
  have hserve := serve_stmt env sur (.ruleFindUnique m) h hsound
  rw [hrun, Option.map_some] at hserve
  exact ends_await hserve (hQ _ rfl rfl (hb.settle_read rfl))

/-- The run reads the rule of `m` in the database and changes nothing else. -/
def Reads (env : Env) (p : Pid) (sur : Surroundings) (w : World) (t : Tx) (m : String)
    (y : World × Nat) (x : Async Rule) : Prop :=
  Ends (serveBeside env p sur) False
    (fun y' r => Caching p w (some t) (ruleKey m) (some (w.payload env m).json) y'.1 ∧
      r = .ok (w.ruleOf m)) y x.run

theorem reads_loadRule (henv : DecimalText env) (hfit : w.RulesFit) (hsound : t.aborted = false)
    (hsur : sur.StoreOnly (ruleKey m) (some (w.payload env m).json))
    (h : Caching p w (some t) (ruleKey m) (some (w.payload env m).json) y.1) :
    Reads env p sur w t m y (loadRule env m) := by
  refine ends_act_bind.mpr (ends_ruleFindUnique hsound h.toBeside fun y' hredis hclock hb => ?_)
  have hcaching : Caching p w (some t) (ruleKey m) (some (w.payload env m).json) y'.1 := by
    refine ⟨hb, fun e he hkey hlive => ?_⟩
    rw [hredis] at he
    rw [hclock] at hlive
    exact h.holds.before hsur y.2 e he hkey hlive
  have hset : RedisCall.Respects (ruleKey m) (some (w.payload env m).json)
      (.set (ruleKey m) (some (w.payload env m).json) env.cacheTtlSeconds) := fun _ => rfl
  refine Ends.act_bind (ends_tryAwait hset hsur hcaching) (fun y'' _ hy => ?_) ?_
  · exact ends_ofExcept ⟨hy.1, hfit.payload_read henv m⟩
  · rintro y'' e ⟨-, x, heq⟩
    cases heq

theorem reads_readThrough (henv : DecimalText env) (hfit : w.RulesFit) (hsound : t.aborted = false)
    (hsur : sur.StoreOnly (ruleKey m) (some (w.payload env m).json)) (gotLock : Bool)
    (h : Caching p w (some t) (ruleKey m) (some (w.payload env m).json) y.1) :
    Reads env p sur w t m y (readThrough env m gotLock) := by
  unfold readThrough
  cases gotLock with
  | true => exact reads_loadRule henv hfit hsound hsur h
  | false =>
    have hslept : Caching p w (some t) (ruleKey m) (some (w.payload env m).json)
        ((sur.before y.2 y.1).settle p (.proc (.sleep env.lockWaitMs)) (.ok ())) := by
      have hb := h.before sur y.2
      refine ⟨hb.tx ▸ hb.setTx _, h.holds.before hsur y.2⟩
    refine ends_act_bind.mpr (ends_call.mpr ?_)
    refine Ends.act_bind (ends_readCache hsur hslept) (fun y' cached hy => ?_) ?_
    · rcases hy.2 with hnone | hsome
      · cases hnone
        exact reads_loadRule henv hfit hsound hsur hy.1
      · cases hsome
        exact ends_ofExcept ⟨hy.1, hfit.payload_read henv m⟩
    · rintro y' e ⟨-, h | h⟩ <;> cases h

/-- Whatever becomes of its Redis calls, the cached way yields the rule in the database. -/
theorem reads_getCashbackRule (henv : DecimalText env) (hfit : w.RulesFit)
    (hsound : t.aborted = false) (hsur : sur.StoreOnly (ruleKey m) (some (w.payload env m).json))
    (h : Caching p w (some t) (ruleKey m) (some (w.payload env m).json) y.1) :
    Reads env p sur w t m y (getCashbackRule env m) := by
  refine Ends.act_bind (ends_readCache hsur h) (fun y' cached hy => ?_) ?_
  · rcases hy.2 with hnone | hsome
    · cases hnone
      refine Ends.act_bind (ends_tryAwait (c := .setNx _ _) (lockKey_ne _) hsur hy.1)
        (fun y₁ gotLock hy₁ => ?_) ?_
      · refine ends_act_finally.mpr
          ((reads_readThrough henv hfit hsound hsur gotLock hy₁.1).post ?_)
        rintro y₂ r ⟨hcaching, rfl⟩
        cases gotLock with
        | false => exact ⟨hcaching, rfl⟩
        | true =>
          refine (ends_tryAwait (c := .del _) trivial hsur hcaching).post ?_
          rintro y₃ r ⟨hcaching', x, rfl⟩
          exact ⟨hcaching', rfl⟩
      · rintro y₁ e ⟨-, x, heq⟩
        cases heq
    · cases hsome
      exact ends_ofExcept ⟨hy.1, hfit.payload_read henv m⟩
  · rintro y' e ⟨-, h | h⟩ <;> cases h

theorem ends_findRule (hsound : t.aborted = false) (h : Beside p w (some t) y.1) :
    Ends (serveBeside env p sur) False
      (fun y' r => Beside p w (some t) y'.1 ∧ r = .ok (w.ruleOf m)) y (findRule m).run :=
  ends_act_bind.mpr (ends_ruleFindUnique hsound h fun _ _ _ hb => ⟨hb, rfl⟩)

end

/-! ## Crediting -/

/-- The body of the transaction ended as the description says; the entry it made waits for the
    commit. -/
def BodyEnds (env : Env) (p : Pid) (w : World) (x : Option Json) (v : World) :
    Except Fault CreditResult → Prop
  | .error e => creditOutcome env p w x = some (.error e) ∧ v.ledger = w.ledger
  | .ok res => ∃ d entry t, creditOutcome env p w x = some (.ok d) ∧ d.Makes entry ∧
      w.ledger.insert? entry = some t ∧
      Beside p w (some { writes := [.ledger entry] }) v ∧
      res = { orderId := d.orderId, credited := true, ledgerEntryId := some entry.id,
              amount := d.amount, currency := d.currency }

section

variable {x : Option Json} {order : Order} {cashback : Decimal}

/-- What the insert of an entry can come to, next to its description. -/
inductive InsertEnds (w : World) (p : Pid) (d : LedgerData) :
    Option (Except Fault LedgerEntry) → Prop where
  | overflow (h : insertOutcome w p d = some (.error .invalidValue)) :
      InsertEnds w p d (some (.error .invalidValue))
  | waits (h : insertOutcome w p d = none) : InsertEnds w p d none
  | refused (h : insertOutcome w p d = some (.error .transactionAborted)) :
      InsertEnds w p d (some (.error .uniqueViolation))
  | made {entry : LedgerEntry} {t : Table LedgerEntry} (h : insertOutcome w p d = some (.ok d))
      (makes : d.Makes entry) (added : w.ledger.insert? entry = some t) :
      InsertEnds w p d (some (.ok entry))

theorem insert_ends (env : Env) {newId : Uuid}
    (hfresh : (w.ledger.any fun e => e.id == newId) = false) {d : LedgerData} {v : World}
    {tx : Option Tx} (hb : Beside p w tx v)
    (horder : w.orders.any (fun o => o.id == d.orderId) = true) :
    InsertEnds w p d (TxStmt.run env p newId v (.ledgerCreate d)) := by
  unfold TxStmt.run
  dsimp only
  rw [hb.orders, hb.ledger, hb.locks, horder, hfresh]
  cases hstored : storeNumeric 18 2 d.amount with
  | none =>
    refine .overflow ?_
    unfold insertOutcome
    rw [hstored]
  | some amount =>
    have hout : insertOutcome w p d = insertOutcome w p d := rfl
    conv_rhs at hout =>
      unfold insertOutcome
      rw [hstored]
    dsimp only at hout ⊢
    rw [if_neg (by decide), if_neg (by decide)]
    split
    · next hheld => exact .waits (hout.trans (if_pos hheld))
    next hfree =>
    replace hout := hout.trans (if_neg hfree)
    split
    · next hexists => exact .refused (hout.trans (if_pos hexists))
    · next hnew =>
      refine .made (hout.trans (if_neg hnew)) ⟨rfl, rfl, rfl, hstored, rfl⟩ (dif_pos fun b hb => ?_)
      have hid := Bool.eq_false_iff.mp hfresh
      have hkey : (b.orderId == d.orderId && b.type == d.type) = false :=
        Bool.eq_false_iff.mpr fun h => hnew (Table.any_iff.mpr ⟨b, hb, h⟩)
      have hid : (b.id == newId) = false :=
        Bool.eq_false_iff.mpr fun h => hid (Table.any_iff.mpr ⟨b, hb, h⟩)
      exact Bool.or_eq_false_iff.mpr ⟨hid, hkey⟩

/-- The insert with its handler for a duplicate. -/
theorem ends_createCredit (hfresh : sur.Fresh w) (hb : Beside p w (some {}) y.1)
    (horder : order ∈ w.orders) :
    Ends (serveBeside env p sur) (insertOutcome w p (creditData order cashback) = none)
      (fun y' r => match r with
        | .error e => insertOutcome w p (creditData order cashback) = some (.error e) ∧
            y'.1.ledger = w.ledger
        | .ok res => ∃ entry t,
            insertOutcome w p (creditData order cashback) = some (.ok (creditData order cashback)) ∧
            (creditData order cashback).Makes entry ∧ w.ledger.insert? entry = some t ∧
            Beside p w (some { writes := [.ledger entry] }) y'.1 ∧
            res = { orderId := order.id, credited := true, ledgerEntryId := some entry.id,
                    amount := cashback, currency := order.currency })
      y (createCredit order cashback).run := by
  have hbefore := hb.before sur y.2
  have hany : w.orders.any (fun o => o.id == (creditData order cashback).orderId) = true :=
    Table.any_iff.mpr ⟨order, horder, beq_self_eq_true _⟩
  have hserve := serve_stmt env sur (.ledgerCreate (creditData order cashback)) hb rfl
  have hcases := insert_ends env (hfresh y.2) hbefore hany
  refine ends_act_tryCatch.mpr (ends_act_bind.mpr (ends_call.mpr ?_))
  rw [hserve]
  generalize TxStmt.run env p (sur.newId y.2) (sur.before y.2 y.1)
    (.ledgerCreate (creditData order cashback)) = r at hcases
  cases hcases with
  | overflow h => exact ⟨h, hbefore.ledger⟩
  | waits h => exact h
  | made h makes added =>
    exact ⟨_, _, h, makes, added, hbefore.settle (.ledgerCreate (creditData order cashback)) _, rfl⟩
  | refused h =>
    -- the question for the existing entry is put to an aborted transaction
    have hfailed :=
      hbefore.settle_failed (.ledgerCreate (creditData order cashback)) .uniqueViolation
    have hquestion : Beside p w (some { aborted := true }) (_, y.2 + 1).1 := hfailed
    have hask := serve_aborted env sur (.ledgerFindUnique order.id .CREDIT) hquestion rfl
    refine ends_act_bind.mpr (ends_await hask ⟨h, ?_⟩)
    exact ((hquestion.before sur _).settle_failed (.ledgerFindUnique order.id .CREDIT) _).ledger

/-- A condition on Redis that others keep. -/
structure KeptBeside (sur : Surroundings) (I : World → Prop) : Prop where
  before : ∀ n v, I v → I (sur.before n v)
  setTx : ∀ v p tx, I v → I (v.setTx p tx)

/-- Where `I` holds, this way of reading yields the rule of `m` in the database. -/
def YieldsRule (env : Env) (p : Pid) (sur : Surroundings) (w : World) (I : World → Prop)
    (rule : String → Async Rule) (m : String) : Prop :=
  ∀ y : World × Nat, Beside p w (some {}) y.1 → I y.1 →
    Ends (serveBeside env p sur) False
      (fun y' r => Beside p w (some {}) y'.1 ∧ r = .ok (w.ruleOf m)) y (rule m).run

variable {I : World → Prop} {rule : String → Async Rule}

theorem ends_creditOrder (hfresh : sur.Fresh w) (hkept : KeptBeside sur I)
    (hrule : ∀ o, w.orderOf env x = some o → YieldsRule env p sur w I rule o.merchantId)
    (hb : Beside p w (some {}) y.1) (hI : I y.1) :
    Ends (serveBeside env p sur) (creditOutcome env p w x = none)
      (fun y' r => BodyEnds env p w x y'.1 r) y (creditOrder env rule x).run := by
  have hbefore := hb.before sur y.2
  have hserve := serve_stmt env sur (.orderFindUnique x) hb rfl
  have hout : creditOutcome env p w x = creditOutcome env p w x := rfl
  conv_rhs at hout => unfold creditOutcome
  have hfind : w.orderOf env x = w.orderOf env x := rfl
  conv_rhs at hfind => unfold World.orderOf
  unfold TxStmt.run at hserve
  dsimp only at hserve
  rw [hbefore.orders] at hserve
  cases hid : readId env x with
  | none =>
    rw [hid] at hserve hout
    refine ends_act_bind.mpr (ends_await hserve ⟨hout, ?_⟩)
    exact (hbefore.settle_failed (.orderFindUnique x) _).ledger
  | some id =>
    rw [hid, Option.bind_some] at hfind
    rw [hid] at hserve hout
    dsimp only at hserve hout
    rw [← hfind] at hserve
    refine ends_act_bind.mpr (ends_await hserve ?_)
    have hread : Beside p w (some {})
        (World.settle _ p (.tx (.stmt (.orderFindUnique x))) (.ok (w.orderOf env x))) :=
      hbefore.settle_read rfl
    dsimp only
    cases hguard : guardOrder env x (w.orderOf env x) with
    | error e =>
      rw [hguard] at hout
      exact ends_act_bind.mpr (ends_ofExcept ⟨hout, hread.ledger⟩)
    | ok order =>
      rw [hguard] at hout
      dsimp only at hout
      obtain ⟨hfound, -⟩ := guardOrder_ok hguard
      have hmem : order ∈ w.orders := Table.mem_of_find? (hfind.symm.trans hfound)
      refine ends_act_bind.mpr (ends_ofExcept ?_)
      have hruleEnds := hrule order hfound (_, y.2 + 1) hread
        (hkept.setTx _ _ _ (hkept.before y.2 _ hI))
      refine Ends.act_bind (hruleEnds.mono False.elim fun _ _ h => h) (fun y₁ r hy₁ => ?_) ?_
      · obtain ⟨hb₁, hr⟩ := hy₁
        cases hr
        refine (ends_createCredit hfresh hb₁ hmem).mono (fun h => hout.trans h) fun y₂ r hr => ?_
        cases r with
        | error e => exact ⟨hout.trans hr.1, hr.2⟩
        | ok res =>
          obtain ⟨entry, t, h, makes, added, hb₂, rfl⟩ := hr
          exact ⟨_, entry, t, hout.trans h, makes, added, hb₂, rfl⟩
      · rintro y₁ e ⟨-, heq⟩
        cases heq

/-- The commit adds the entry. -/
theorem serve_commit {entry : LedgerEntry} {t : Table LedgerEntry}
    (hb : Beside p w (some { writes := [.ledger entry] }) y.1)
    (added : w.ledger.insert? entry = some t) :
    serveBeside env p sur (.tx .commit) y =
      some ((({ sur.before y.2 y.1 with ledger := t } : World).setTx p none, y.2 + 1),
        (.ok (), (sur.before y.2 y.1).clock)) := by
  have htx : (sur.before y.2 y.1).txOf p = some { writes := [.ledger entry] } := hb.tx
  have happly : (sur.before y.2 y.1).applyWrites [.ledger entry] =
      some { sur.before y.2 y.1 with ledger := t } := by
    have hledger : (sur.before y.2 y.1).ledger = w.ledger := hb.ledger
    simp only [World.applyWrites, List.foldlM_cons,
      List.foldlM_nil, World.applyWrite, hledger, added,
      Option.map_some, Option.bind_eq_bind, Option.bind_some]
    rfl
  simp only [serveBeside, exec, Surroundings.choice, Call.run, TxCall.run, htx, happly,
    Bool.false_eq_true, if_false, Option.map_some]
  rfl

/-- A handler beside others: it waits where the description says so, and otherwise ends as it
    says. -/
theorem ends_credit (hfresh : sur.Fresh w) (hkept : KeptBeside sur I)
    (hrule : ∀ o, w.orderOf env x = some o → YieldsRule env p sur w I rule o.merchantId)
    (hI : I w) :
    Ends (serveBeside env p sur) (creditOutcome env p w x = none)
      (fun y' r => ∃ outcome, creditOutcome env p w x = some outcome ∧ EndsAs w outcome y'.1 r)
      (w, 0) (transaction (creditOrder env rule x)).run := by
  have hb : Beside p w (w.txOf p) w := ⟨rfl, rfl, rfl, rfl, fun _ => rfl⟩
  have hbegun := (hb.before sur 0).setTx (some {})
  have hI₀ := hkept.setTx _ p (some {}) (hkept.before 0 w hI)
  have hrolls : ∀ {y : World × Nat} {e : Fault}, y.1.ledger = w.ledger →
      creditOutcome env p w x = some (.error e) →
      Ends (serveBeside env p sur) (creditOutcome env p w x = none)
        (fun y' r => ∃ outcome, creditOutcome env p w x = some outcome ∧ EndsAs w outcome y'.1 r) y
        (do tryCatch (await (.tx .rollback)) fun _ => pure ()
            throw e : Async (CreditResult × Time)).run :=
    fun hledger hout => ⟨_, hout, rfl, hledger⟩
  refine ends_act_bind.mpr (ends_call.mpr ?_)
  refine ends_act_tryCatch.mpr (ends_act_bind.mpr
    ((ends_creditOrder hfresh hkept hrule (y := (_, 1)) hbegun hI₀).mono id fun y r hr => ?_))
  cases r with
  | error e => exact hrolls hr.2 hr.1
  | ok res =>
    obtain ⟨d, entry, t, hout, makes, added, hb, hres⟩ := hr
    refine ends_act_bind.mpr (ends_call.mpr ?_)
    rw [serve_commit hb added]
    exact ⟨_, hout, d, entry, rfl, makes, added, hres⟩

end

end

/-! ## The handlers -/

/-- The run is what the description says. -/
def Refines (w : World) (outcome : Option (Except Fault LedgerData))
    (run : Option ((World × Nat) × Except Fault (CreditResult × Time))) : Prop :=
  match outcome, run with
  | none, none => True
  | some outcome, some (y, r) => EndsAs w outcome y.1 r
  | _, _ => False

section

variable {env : Env} {p : Pid} {sur : Surroundings} {w : World} {x : Option Json}

theorem credit_refines {I : World → Prop} {rule : String → Async Rule} (hfresh : sur.Fresh w)
    (hkept : KeptBeside sur I)
    (hrule : ∀ o, w.orderOf env x = some o → YieldsRule env p sur w I rule o.merchantId)
    (hI : I w) :
    Refines w (creditOutcome env p w x)
      (runBeside env p sur w (transaction (creditOrder env rule x))) := by
  have hends := ends_credit (x := x) hfresh hkept hrule hI
  unfold Ends at hends
  unfold Refines runBeside
  split at hends
  · next hrun =>
    rw [hends, hrun]
    trivial
  · next y r hrun =>
    obtain ⟨outcome, hout, hr⟩ := hends
    rw [hout, hrun]
    exact hr

/-- The caches of the order's merchant hold nothing but its rule, before the run and through what
    others store meanwhile. -/
def CoherentFor (env : Env) (sur : Surroundings) (w : World) (x : Option Json) : Prop :=
  ∀ o, w.orderOf env x = some o → w.CachesRule env o.merchantId ∧
    sur.StoreOnly (ruleKey o.merchantId) (some (w.payload env o.merchantId).json)

theorem worker_refines (henv : DecimalText env) (hfit : w.RulesFit) (hfresh : sur.Fresh w)
    (hcache : CoherentFor env sur w x) :
    Refines w (creditOutcome env p w x) (runBeside env p sur w (processOrderConfirmed env x)) := by
  refine credit_refines (I := fun v => ∀ o, w.orderOf env x = some o →
      v.HoldsOnly (ruleKey o.merchantId) (some (w.payload env o.merchantId).json)) hfresh ?_ ?_
    fun o ho => (hcache o ho).1
  · exact ⟨fun n v hv o ho => (hv o ho).before (hcache o ho).2 n, fun v p tx hv => hv⟩
  · intro o ho y hb hI
    have hreads := reads_getCashbackRule henv hfit rfl (hcache o ho).2 ⟨hb, hI o ho⟩
    exact hreads.post fun y' r hr => ⟨hr.1.toBeside, hr.2⟩

theorem domain_refines (env : Env) (p : Pid) (x : Option Json) (hfresh : sur.Fresh w) :
    Refines w (creditOutcome env p w x)
      (runBeside env p sur w (domainProcessOrderConfirmed env x)) :=
  credit_refines (I := fun _ => True) hfresh ⟨fun _ _ _ => trivial, fun _ _ _ _ => trivial⟩
    (fun _ _ _ hb _ => ends_findRule rfl hb) trivial

/-- Two runs of a handler from `w` came to the same: both wait for another transaction that holds
    the key of the entry, both threw the same and left the ledger as it was, or both added the
    same entry and returned the same, each with its own id. -/
inductive SameEnd (w : World) :
    Option ((World × Nat) × Except Fault (CreditResult × Time)) →
    Option ((World × Nat) × Except Fault (CreditResult × Time)) → Prop where
  | wait : SameEnd w none none
  | fail {y y' : World × Nat} {e : Fault} (kept : y.1.ledger = w.ledger)
      (kept' : y'.1.ledger = w.ledger) : SameEnd w (some (y, .error e)) (some (y', .error e))
  | credit {y y' : World × Nat} {entry : LedgerEntry} {id : Uuid} {res : CreditResult}
      {now now' : Time} (added : w.ledger.insert? entry = some y.1.ledger)
      (added' : w.ledger.insert? { entry with id := id } = some y'.1.ledger)
      (reported : res.ledgerEntryId = some entry.id) :
      SameEnd w (some (y, .ok (res, now)))
        (some (y', .ok ({ res with ledgerEntryId := some id }, now')))

/-- An entry is determined by its data, up to its id. -/
theorem LedgerData.Makes.unique {d : LedgerData} {e e' : LedgerEntry} (h : d.Makes e)
    (h' : d.Makes e') : e' = { e with id := e'.id } := by
  obtain ⟨huser, horder, htype, hamount, hcurrency⟩ := h
  obtain ⟨huser', horder', htype', hamount', hcurrency'⟩ := h'
  have hstored := Option.some_inj.mp (hamount.symm.trans hamount')
  cases e
  cases e'
  simp only [LedgerEntry.mk.injEq] at *
  exact ⟨trivial, huser'.trans huser.symm, horder'.trans horder.symm,
    htype'.trans htype.symm, hstored.symm,
    hcurrency'.trans hcurrency.symm⟩

/-- Two runs that end as the description says. -/
theorem EndsAs.same {outcome : Except Fault LedgerData} {y y' : World × Nat}
    {r r' : Except Fault (CreditResult × Time)} (h : EndsAs w outcome y.1 r)
    (h' : EndsAs w outcome y'.1 r') : SameEnd w (some (y, r)) (some (y', r')) := by
  cases r with
  | error e =>
    cases r' with
    | error e' =>
      cases h.1.symm.trans h'.1
      exact .fail h.2 h'.2
    | ok res' =>
      obtain ⟨d', entry', heq, -⟩ := h'
      cases h.1.symm.trans heq
  | ok res =>
    obtain ⟨d, entry, hout, makes, added, hres⟩ := h
    cases r' with
    | error e' => cases h'.1.symm.trans hout
    | ok res' =>
      obtain ⟨d', entry', hout', makes', added', hres'⟩ := h'
      obtain ⟨credit, now⟩ := res
      obtain ⟨credit', now'⟩ := res'
      obtain rfl := hres
      obtain rfl := hres'
      cases hout.symm.trans hout'
      rw [makes.unique makes'] at added'
      exact SameEnd.credit added added' rfl

theorem Refines.same {outcome : Option (Except Fault LedgerData)}
    {run run' : Option ((World × Nat) × Except Fault (CreditResult × Time))}
    (h : Refines w outcome run) (h' : Refines w outcome run') : SameEnd w run run' := by
  cases outcome with
  | none =>
    cases run with
    | some z => exact h.elim
    | none =>
      cases run' with
      | some z' => exact h'.elim
      | none => exact .wait
  | some outcome =>
    cases run with
    | none => exact h.elim
    | some z =>
      cases run' with
      | none => exact h'.elim
      | some z' => exact EndsAs.same h h'

/-- Crediting waits for an entry of another open transaction only. -/
theorem creditOutcome_isSome (env : Env) (x : Option Json)
    (hfree : ∀ touches, w.lockedByOther p touches = false) :
    (creditOutcome env p w x).isSome = true := by
  unfold creditOutcome
  split
  · rfl
  split
  · rfl
  unfold insertOutcome
  split
  · rfl
  rw [hfree, if_neg (by decide)]
  split <;> rfl

theorem Refines.isSome {outcome : Option (Except Fault LedgerData)}
    {run : Option ((World × Nat) × Except Fault (CreditResult × Time))} (h : Refines w outcome run)
    (hsome : outcome.isSome = true) : run.isSome = true := by
  cases outcome with
  | none => cases hsome
  | some outcome =>
    cases run with
    | none => exact h.elim
    | some run => rfl

/-- The worker's handler and the handler of `packages/domain` come to the same, whatever becomes of
    the worker's Redis calls, and both end unless another open transaction holds the entry's key. -/
theorem handlers_agree (env : Env) (henv : DecimalText env) (p : Pid) (w : World)
    (hfit : w.RulesFit) (x : Option Json) (sur sur' : Surroundings) (hfresh : sur.Fresh w)
    (hfresh' : sur'.Fresh w) (hcache : CoherentFor env sur w x) :
    SameEnd w (runBeside env p sur w (processOrderConfirmed env x))
      (runBeside env p sur' w (domainProcessOrderConfirmed env x)) ∧
    ((∀ touches, w.lockedByOther p touches = false) →
      (runBeside env p sur w (processOrderConfirmed env x)).isSome = true ∧
      (runBeside env p sur' w (domainProcessOrderConfirmed env x)).isSome = true) := by
  have hworker := worker_refines (p := p) henv hfit hfresh hcache
  have hdomain := domain_refines env p x hfresh'
  refine ⟨hworker.same hdomain, fun hfree => ?_⟩
  have hsome := creditOutcome_isSome env x hfree
  exact ⟨hworker.isSome hsome, hdomain.isSome hsome⟩

end

/-! ## One merchant without cashback -/

def cappedOrder : Order :=
  { id := Platform.uuid 1, userId := "user-1", merchantId := "shop-1", amount := 100,
    currency := "USD", status := .CONFIRMED, createdAt := 0 }

/-- A confirmed order whose merchant pays 5 % up to a cap of 0. -/
def cappedWorld : World :=
  { World.empty with
    orders := ⟨[cappedOrder], List.pairwise_singleton _ _⟩
    rules :=
      ⟨[{ merchantId := "shop-1", rate := 5 / 100, cap := some 0 }], List.pairwise_singleton _ _⟩ }

/-- No one else is there; every other Redis call fails. -/
def failingRedis : Surroundings where
  fate n := if n % 2 = 0 then .ok else .fail "connection lost"
  newId n := Platform.uuid (100 + n)
  redis _ store := store
  elapsed _ := 0

theorem handlers_agree_capped :
    SameEnd cappedWorld
      (runBeside (platform id) 0 failingRedis cappedWorld
        (processOrderConfirmed (platform id) (some (.str (Platform.uuid 1).text))))
      (runBeside (platform id) 0 failingRedis cappedWorld
        (domainProcessOrderConfirmed (platform id) (some (.str (Platform.uuid 1).text)))) := by
  refine (handlers_agree (platform id) (platform_decimalText id) 0 cappedWorld ?_ _ failingRedis
    failingRedis (fun _ => rfl) (fun _ => rfl) ?_).1
  · intro r hr
    rw [List.mem_singleton.mp hr]
    refine ⟨⟨500, by norm_num⟩, ?_⟩
    rintro _ ⟨⟩
    exact ⟨0, by norm_num⟩
  · exact fun o _ => ⟨fun e he => absurd he List.not_mem_nil, fun n store e he _ => Or.inl he⟩

end CashbackLedger
