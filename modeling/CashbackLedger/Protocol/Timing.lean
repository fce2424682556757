import CashbackLedger.Protocol.Tasks

/-
  The times that the programs write.

  Code that runs on a reply reads the time of that reply (`History.now`). `TimedCall` says what this
  makes of the times in a call: a row is postponed from now, by at most half a minute, and marked
  with now; a key of a request lives for a day, a cached rule for its TTL and a lock for its own.
  Every task keeps to it (`timed_sat`).
-/

namespace CashbackLedger

open Lib History

/-- The time of the newest reply. -/
def History.now : History → Time
  | [] => 0
  | ⟨_, r⟩ :: _ => r.2

/-- An update by code that runs at this time. -/
structure OutboxUpdate.Timed (now : Time) (u : OutboxUpdate) : Prop where
  availableAt : ∀ t, u.availableAt = some t → now ≤ t ∧ t ≤ now + 30000
  sentAt : ∀ t, u.sentAt = some (some t) → t = now
  sent : u.status = some .SENT → u.sentAt = some (some now)
  unset : u.sentAt = some none → u.status = some .PENDING

structure InboxUpdate.Timed (now : Time) (u : InboxUpdate) : Prop where
  availableAt : ∀ t, u.availableAt = some t → now ≤ t ∧ t ≤ now + 30000
  processedAt : ∀ t, u.processedAt = some t → t = some now
  processed : u.status = some .PROCESSED → u.processedAt = some (some now)

def TimedCall (env : Env) (l : History) : Call → Prop
  | .outbox (.update _ u) => u.Timed l.now
  | .inbox (.update _ u) => u.Timed l.now
  | .idem (.upsert row) => row.expiresAt = some (l.now + 24 * 3600 * 1000)
  | .redis (.set key value seconds) => seconds = env.cacheTtlSeconds ∧
      ∃ m payload, key = ruleKey m ∧ value = some (CachedCashbackRule.json payload)
  | .redis (.setNx key ms) => ms = env.lockTtlMs ∧ ∃ m, key = ruleKey m ++ ":lock"
  | _ => True

/-- The value comes with the time of the newest reply. -/
def Dated {α : Type} (l : History) : Except Fault (α × Time) → Prop
  | .ok (_, now) => l.now = now
  | .error _ => True

section

variable {env : Env} {l : History} {α : Type}

theorem backoffMs_le (attempts : Nat) : backoffMs attempts ≤ 30000 := Nat.min_le_left _ _

theorem postponed {now d t : Time} (hd : d ≤ 30000) (h : some (now + d) = some t) :
    now ≤ t ∧ t ≤ now + 30000 := by
  cases h
  exact ⟨Nat.le_add_right _ _, Nat.add_le_add_left hd _⟩

/-- What an exception is replaced by keeps to the times too. -/
theorem timed_tryCatch {x : Async α} {handler : Fault → Async α}
    (hx : Sat (TimedCall env) (fun _ _ => True) l x.run)
    (hhandler : ∀ l e, Sat (TimedCall env) (fun _ _ => True) l (handler e).run) :
    Sat (TimedCall env) (fun _ _ => True) l (tryCatch x handler).run :=
  Sat.act_tryCatch hx (fun _ _ _ => trivial) fun l' e _ => hhandler l' e

/-! ## The handler -/

theorem timed_transaction {body : Async α}
    (h : ∀ l, Sat (TimedCall env) (fun _ _ => True) l body.run) :
    Sat (TimedCall env) Dated l (transaction body).run := by
  refine sat_transaction trivial (fun _ _ => trivial) fun now => (h _).post fun l' r _ => ?_
  cases r with
  | ok a => exact ⟨trivial, fun _ => rfl, fun _ _ => ⟨trivial, fun _ => trivial⟩⟩
  | error e => exact ⟨trivial, fun _ => trivial⟩

theorem timed_loadRule (merchantId : String) :
    Sat (TimedCall env) (fun _ _ => True) l (loadRule env merchantId).run := by
  refine sat_await_bind trivial (fun rule now => ?_) fun _ _ => trivial
  exact sat_tryAwait_bind ⟨rfl, _, _, rfl, rfl⟩ fun _ _ => sat_ofExcept trivial

theorem timed_readThrough (merchantId : String) (gotLock : Bool) :
    Sat (TimedCall env) (fun _ _ => True) l (readThrough env merchantId gotLock).run := by
  unfold readThrough
  split
  · exact timed_loadRule merchantId
  · refine sat_tell_bind trivial fun r now => sat_readCache_bind trivial fun r' raw => ?_
    cases raw with
    | none => exact timed_loadRule merchantId
    | some retried => exact sat_ofExcept trivial

theorem timed_getCashbackRule (merchantId : String) :
    Sat (TimedCall env) (fun _ _ => True) l (getCashbackRule env merchantId).run := by
  refine sat_readCache_bind trivial fun r raw => ?_
  cases raw with
  | some cached => exact sat_ofExcept trivial
  | none =>
    refine sat_tryAwait_bind ⟨rfl, _, rfl⟩ fun r' gotLock => sat_act_finally.mpr ?_
    refine (timed_readThrough merchantId gotLock).post fun l' rule _ => ?_
    cases gotLock with
    | false => cases rule <;> trivial
    | true =>
      rw [if_pos rfl]
      refine sat_tryAwait (c := .redis (.del _)) trivial fun r _ => ?_
      cases rule <;> trivial

theorem timed_createCredit (order : Order) (cashback : Decimal) :
    Sat (TimedCall env) (fun _ _ => True) l (createCredit order cashback).run := by
  refine sat_act_tryCatch.mpr (sat_await_bind trivial (fun entry now => trivial) fun e now => ?_)
  dsimp only
  split
  · exact sat_await_bind trivial (fun _ _ => trivial) fun _ _ => trivial
  · trivial

theorem timed_processOrderConfirmed (x : Option Json) :
    Sat (TimedCall env) Dated l (processOrderConfirmed env x).run := by
  refine timed_transaction fun l => sat_await_bind trivial (fun found now => ?_) fun _ _ => trivial
  refine sat_ofExcept_bind (fun order _ => ?_) fun _ _ => trivial
  refine Sat.act_bind (timed_getCashbackRule order.merchantId)
    (fun l' rule _ => ?_) fun _ _ _ => trivial
  exact timed_createCredit order _

/-! ## The API -/

theorem timed_saveResponse {key scope requestHash : String} {body : Json} {now : Time}
    (h : l.now = now) :
    Sat (TimedCall env) (fun _ _ => True) l
      (saveResponse key scope requestHash body (some (24 * 3600)) now).run := by
  subst h
  exact sat_await rfl (fun _ _ => trivial) fun _ _ => trivial

theorem timed_create (header : Option String) (dto : CreateOrderDto) :
    Sat (TimedCall env) (fun _ _ => True) l (create env header dto).run := by
  unfold create
  cases keyOf header with
  | none => exact sat_await_bind trivial (fun _ _ => trivial) fun _ _ => trivial
  | some key =>
    refine sat_await_bind (c := .idem (.findUnique key createScope)) trivial (fun cached now => ?_)
      fun _ _ => trivial
    cases cached with
    | none =>
      refine sat_awaitAt_bind trivial (fun created now => ?_) fun _ _ => trivial
      exact Sat.act_bind (timed_saveResponse rfl) (fun _ _ _ => trivial) fun _ _ _ => trivial
    | some cached =>
      dsimp only
      split <;> trivial

theorem timed_confirmAndOutbox (id : String) :
    Sat (TimedCall env) Dated l (confirmAndOutbox env id).run := by
  refine timed_transaction fun l => sat_await_bind trivial (fun found now => ?_) fun _ _ => trivial
  cases found with
  | none => trivial
  | some order =>
    dsimp only
    cases order.status with
    | CREATED =>
      refine sat_awaitAt_bind trivial (fun confirmed now => ?_) fun _ _ => trivial
      exact sat_await_bind trivial (fun _ _ => trivial) fun _ _ => trivial
    | CONFIRMED => trivial
    | CANCELLED => trivial

theorem timed_confirm (header : Option String) (id : String) :
    Sat (TimedCall env) (fun _ _ => True) l (confirm env header id).run := by
  unfold confirm
  cases keyOf header with
  | none =>
    exact Sat.act_bind (timed_confirmAndOutbox id) (fun _ _ _ => trivial) fun _ _ _ => trivial
  | some key =>
    refine sat_await_bind (c := .idem (.findUnique key (confirmScope id))) trivial
      (fun cached now => ?_)
      fun _ _ => trivial
    cases cached with
    | none =>
      refine Sat.act_bind (timed_confirmAndOutbox id) (fun l' r hdated => ?_) fun _ _ _ => trivial
      exact Sat.act_bind (timed_saveResponse hdated) (fun _ _ _ => trivial) fun _ _ _ => trivial
    | some cached =>
      dsimp only
      split <;> trivial

theorem timed_upsertRule (merchantId : String) (dto : UpsertCashbackRuleDto) :
    Sat (TimedCall env) (fun _ _ => True) l (upsertRule merchantId dto).run := by
  refine sat_ofExcept_bind (fun cap _ => ?_) fun _ _ => trivial
  refine sat_await_bind trivial (fun rule now => ?_) fun _ _ => trivial
  exact sat_tryAwait_bind (c := .redis (.del _)) trivial fun _ _ => trivial

/-! ## The worker -/

theorem timed_sendEvent (e : OutboxEvent) :
    Sat (TimedCall env) (fun _ _ => True) l (sendEvent env e).run := by
  refine sat_await_bind trivial (fun claimed now => ?_) fun _ _ => trivial
  dsimp only
  split
  · trivial
  · refine sat_awaitAt_bind trivial (fun _ now => ?_) fun _ _ => trivial
    refine sat_await_bind ⟨nofun, ?_, fun _ => rfl, nofun⟩ (fun _ _ => trivial) fun _ _ => trivial
    rintro t ⟨⟩
    rfl

theorem timed_sendFailed (e : OutboxEvent) :
    Sat (TimedCall env) (fun _ _ => True) l (sendFailed env e).run := by
  refine sat_awaitAt_bind trivial (fun refreshed now => ?_) fun _ _ => trivial
  dsimp only
  split
  · exact sat_await_bind ⟨nofun, nofun, nofun, nofun⟩ (fun _ _ => trivial) fun _ _ => trivial
  · refine sat_await_bind ⟨fun t ht => ?_, nofun, nofun, nofun⟩
      (fun _ _ => trivial) fun _ _ => trivial
    exact postponed (backoffMs_le _) ht

theorem timed_publishEvents (events : List OutboxEvent) :
    Sat (TimedCall env) (fun _ _ => True) l (publishEvents env events).run := by
  induction events generalizing l with
  | nil => trivial
  | cons e events ih =>
    have hone : Sat (TimedCall env) (fun _ _ => True) l
        (tryCatch (sendEvent env e) fun _ => sendFailed env e).run :=
      timed_tryCatch (timed_sendEvent e) fun _ _ => timed_sendFailed e
    exact Sat.act_bind hone (fun _ _ _ => ih) fun _ _ _ => trivial

theorem timed_publishOnce : Sat (TimedCall env) (fun _ _ => True) l (publishOnce env).run := by
  refine sat_tell_bind trivial fun r now =>
    sat_await_bind trivial (fun events now => ?_) fun _ _ => trivial
  exact timed_publishEvents events

/-- A row is marked as processed right after its order was handled. -/
theorem timed_processed (id : Uuid) {x : Option Json} :
    Sat (TimedCall env) (fun _ _ => True) l (do
      let (_, now) ← processOrderConfirmed env x
      let _ ← await (.inbox (.update id
        { status := some .PROCESSED, processedAt := some (some now), lastError := some none })) :
        Async Unit).run := by
  refine Sat.act_bind (timed_processOrderConfirmed x) ?_ fun _ _ _ => trivial
  rintro l' ⟨res, now⟩ hdated
  obtain rfl : History.now l' = now := hdated
  refine sat_await_bind ⟨nofun, ?_, fun _ => rfl⟩ (fun _ _ => trivial) fun _ _ => trivial
  rintro t ⟨⟩
  rfl

theorem timed_eachMessage (m : KafkaMessage) :
    Sat (TimedCall env) (fun _ _ => True) l (eachMessage env m).run := by
  refine timed_tryCatch ?_ fun _ _ => trivial
  cases m.value with
  | none => trivial
  | some evt =>
    dsimp only
    split
    · refine sat_ofExcept_bind (fun sid _ => ?_) fun _ _ => trivial
      exact sat_await_bind trivial (fun inbox now => timed_processed inbox.id) fun _ _ => trivial
    · trivial

theorem timed_consume (offset : Nat) :
    Sat (TimedCall env) (fun _ _ => True) l (consume env offset).run := by
  refine sat_await_bind trivial (fun m now => ?_) fun _ _ => trivial
  refine Sat.act_bind (timed_eachMessage m) (fun _ _ _ => ?_) fun _ _ _ => trivial
  exact sat_await trivial (fun _ _ => trivial) fun _ _ => trivial

theorem timed_attemptEvent (e : InboxEvent) :
    Sat (TimedCall env) (fun _ _ => True) l (attemptEvent env e).run := by
  unfold attemptEvent
  dsimp only
  split
  · trivial
  · exact timed_processed e.id

theorem timed_attemptFailed (e : InboxEvent) (err : Fault) :
    Sat (TimedCall env) (fun _ _ => True) l (attemptFailed env e err).run := by
  refine sat_awaitAt_bind ⟨nofun, nofun, nofun⟩ (fun updated now => ?_) fun _ _ => trivial
  dsimp only
  split
  · refine sat_awaitAt_bind ⟨nofun, nofun, nofun⟩ (fun _ now => ?_) fun _ _ => trivial
    exact sat_await_bind trivial (fun _ _ => trivial) fun _ _ => trivial
  · refine sat_await_bind ⟨fun t ht => ?_, nofun, nofun⟩ (fun _ _ => trivial) fun _ _ => trivial
    exact postponed (backoffMs_le _) ht

theorem timed_retryEvents (events : List InboxEvent) :
    Sat (TimedCall env) (fun _ _ => True) l (retryEvents env events).run := by
  induction events generalizing l with
  | nil => trivial
  | cons e events ih =>
    refine sat_tell_bind trivial fun r now => ?_
    have hone : Sat (TimedCall env) (fun _ _ => True) (⟨.proc (.inboxRetriesInc e), (r, now)⟩ :: l)
        (tryCatch (attemptEvent env e) fun err => attemptFailed env e err).run :=
      timed_tryCatch (timed_attemptEvent e) fun _ err => timed_attemptFailed e err
    exact Sat.act_bind hone (fun _ _ _ => ih) fun _ _ _ => trivial

theorem timed_retryInbox : Sat (TimedCall env) (fun _ _ => True) l (retryInbox env).run := by
  refine sat_tell_bind trivial fun r now =>
    sat_await_bind trivial (fun events now => ?_) fun _ _ => trivial
  exact timed_retryEvents events

/-! ## The replay CLI -/

theorem timed_replayInboxRows (reset : Bool) (rows : List InboxEvent) {now : Time}
    (h : l.now = now) :
    Sat (TimedCall env) (fun _ _ => True) l (replayInboxRows reset rows now).run := by
  induction rows generalizing l now with
  | nil => trivial
  | cons e rows ih =>
    subst h
    refine sat_awaitAt_bind ⟨fun t ht => ?_, nofun, nofun⟩ (fun _ _ => ih rfl) fun _ _ => trivial
    exact postponed (Nat.zero_le _) ht

theorem timed_replayOutboxRows (reset : Bool) (rows : List OutboxEvent) {now : Time}
    (h : l.now = now) :
    Sat (TimedCall env) (fun _ _ => True) l (replayOutboxRows reset rows now).run := by
  induction rows generalizing l now with
  | nil => trivial
  | cons e rows ih =>
    subst h
    refine sat_awaitAt_bind ⟨fun t ht => ?_, nofun, nofun, fun _ => rfl⟩
      (fun _ _ => ih rfl) fun _ _ => trivial
    exact postponed (Nat.zero_le _) ht

theorem timed_replay (argv : List String) :
    Sat (TimedCall env) (fun _ _ => True) l (replay env argv).run := by
  cases argv with
  | nil => trivial
  | cons cmd rest =>
    simp only [replay]
    split
    · trivial
    split
    · exact sat_awaitAt_bind trivial (fun rows now => timed_replayInboxRows _ rows rfl)
        fun _ _ => trivial
    split
    · exact sat_awaitAt_bind trivial (fun rows now => timed_replayOutboxRows _ rows rfl)
        fun _ _ => trivial
    · trivial

/-- Every task keeps to the times. -/
theorem timed_sat (env : Env) (t : Task) :
    Sat (TimedCall env) (fun _ _ => True) [] (t.program env).run := by
  cases t with
  | create header dto => exact timed_create header dto
  | confirm header id => exact timed_confirm header id
  | upsertRule merchantId dto => exact timed_upsertRule merchantId dto
  | publishOnce => exact sat_silent (q := fun _ => True) timed_publishOnce
  | consume offset => exact sat_silent (q := fun _ => True) (timed_consume offset)
  | retryInbox => exact sat_silent (q := fun _ => True) timed_retryInbox
  | replay argv => exact sat_silent (q := fun _ => True) (timed_replay argv)

end

end CashbackLedger
