import CashbackLedger.Protocol.Retry
import CashbackLedger.Safety.Standing

/-
  One pass of the retry loop, event by event.

  An attempt changes the row and the messages of its event and may credit its order (`Confined`,
  `Adds`). Where no call fails it changes the standing as `Standing.attempted` says
  (`ends_attemptAll`). Whatever fails, it ends without an exception exactly if the event is
  processed (`Setting.Processes`) or the failure is booked (`Setting.Books`).
-/

namespace CashbackLedger

open Lib

/-- The body of the loop in `retryInbox`. -/
def retryAttempt (env : Env) (e : InboxEvent) : Async Unit := do
  let _ ← tell (.inboxRetriesInc e)
  tryCatch (attemptEvent env e) fun err => attemptFailed env e err

/-- The message is put on the DLQ. -/
def World.park (w : World) (m : KafkaMessage) : World :=
  { w with broker := { w.broker with dlq := w.broker.dlq ++ [m] } }

/-- The failure is counted and the event put off or put on the DLQ. -/
structure Setting.Books (env : Env) (d : Setting) (e : InboxEvent) : Prop where
  countFailure : d.at e.id .countFailure = .ok
  settleFailure : d.at e.id .settleFailure = .ok
  deadLetter : env.maxAttempts ≤ e.attempts + 1 → d.at e.id .deadLetter = .ok

/-- Another transaction holds the key of the credit that the attempt is to make. -/
def AttemptWaits (env : Env) (p : Pid) (w : World) (t : Time) (e : InboxEvent) : Prop :=
  Json.truthy e.orderId = true ∧ Waits env p w t e.orderId

/-- An attempt begun in `v` leaves the credit `c`. -/
structure NewCredit (env : Env) (d : Setting) (v : World) (e : InboxEvent)
    (c : LedgerData) : Prop where
  calls : d.Credits env v e.id e.orderId
  due : attemptFor env v v.credited (d.time (some e.id) 3) e = .ok c

/-- The event is credited, and its row marked. -/
structure Setting.Processes (env : Env) (d : Setting) (v : World) (e : InboxEvent) : Prop where
  credit : ∃ c, NewCredit env d v e c
  commit : d.at e.id .commit = .ok
  markProcessed : d.at e.id .markProcessed = .ok

/-- What an attempt begun in `v` makes of the ledger. -/
inductive LedgerAfter (env : Env) (d : Setting) (v : World) (e : InboxEvent)
    (w w' : World) : Prop where
  | credited {c : LedgerData} {w₁ : World} (new : NewCredit env d v e c) (adds : Adds d e.id w c w₁)
      (ledger : w'.ledger = w₁.ledger)
  | kept (none : ∀ c, ¬ NewCredit env d v e c) (ledger : w'.ledger = w.ledger)

/-- What crediting depends on is as it was, but for the ledger. -/
structure Like (w w' : World) : Prop where
  orders : w'.orders = w.orders
  rules : w'.rules = w.rules
  redis : w'.redis = w.redis
  txs : w'.txs = w.txs

/-- Of the inbox and the DLQ only what belongs to `e` has changed. -/
structure Confined (e : InboxEvent) (w w' : World) : Prop extends Like w w' where
  inbox : ∀ id, id ≠ e.id → (w'.inbox.find? fun r => r.id == id) = w.inbox.find? fun r => r.id == id
  dlq : ∀ source, source ≠ e.sourceEventId →
    (w'.broker.dlq.filter fun m => m.key == some source) =
      w.broker.dlq.filter fun m => m.key == some source

section

variable {env : Env} {p : Pid} {d : Setting} {w w' w₁ v : World} {tx : Option Tx} {x id : Uuid}
  {before : List Uuid} {n : Nat} {y : PassState} {e row : InboxEvent} {f : Fault} {u : InboxUpdate}
  {m : KafkaMessage} {c : LedgerData}

theorem retryEvents_eq (env : Env) (events : List InboxEvent) :
    retryEvents env events = Act.forEach (retryAttempt env) events := by
  induction events with
  | nil => rfl
  | cons e events ih =>
    unfold retryEvents Act.forEach
    rw [ih]
    unfold retryAttempt
    rw [bind_assoc]

/-! ## What a call leaves of the others -/

theorem Like.refl (w : World) : Like w w := ⟨rfl, rfl, rfl, rfl⟩

theorem Like.trans (h : Like w w₁) (h' : Like w₁ w') : Like w w' :=
  ⟨h'.orders.trans h.orders, h'.rules.trans h.rules, h'.redis.trans h.redis, h'.txs.trans h.txs⟩

theorem Confined.refl (e : InboxEvent) (w : World) : Confined e w w :=
  ⟨.refl w, fun _ _ => rfl, fun _ _ => rfl⟩

theorem Confined.trans (h : Confined e w w₁) (h' : Confined e w₁ w') : Confined e w w' :=
  ⟨h.toLike.trans h'.toLike, fun id hid => (h'.inbox id hid).trans (h.inbox id hid),
    fun source hsource => (h'.dlq source hsource).trans (h.dlq source hsource)⟩

theorem updateInbox_find {t : Table InboxEvent} (h : t.find? (fun r => r.id == id) = some row) :
    (updateInbox id u t).find? (fun r => r.id == id) = some (u.apply row) := by
  have hid := Table.of_find? (p := fun r : InboxEvent => r.id == id) h
  unfold updateInbox
  rw [Table.find?_modify (by exact fun _ => rfl), h, Option.map_some, if_pos hid]

theorem updateInbox_find_ne {t : Table InboxEvent} {id' : Uuid} (h : id' ≠ id) :
    (updateInbox id u t).find? (fun r => r.id == id') = t.find? fun r => r.id == id' := by
  unfold updateInbox
  refine Table.find?_modify_of_not (fun _ => rfl) fun a ha => Bool.eq_false_iff.mpr fun hb => h ?_
  exact (beq_iff_eq.mp ha).symm.trans (beq_iff_eq.mp hb)

theorem confined_update (e : InboxEvent) (u : InboxUpdate) (w : World) :
    Confined e w (w.updateInbox e.id u) :=
  ⟨⟨rfl, rfl, rfl, rfl⟩, fun _ hid => updateInbox_find_ne hid, fun _ _ => rfl⟩

theorem confined_park (hkey : m.key = some e.sourceEventId) (w : World) :
    Confined e w (w.park m) := by
  refine ⟨⟨rfl, rfl, rfl, rfl⟩, fun _ _ => rfl, fun source hsource => ?_⟩
  show (w.broker.dlq ++ [m]).filter _ = _
  rw [List.filter_append, List.filter_cons_of_neg, List.filter_nil, List.append_nil]
  rw [hkey, beq_iff_eq]
  exact fun heq => hsource (Option.some_inj.mp heq).symm

theorem Adds.inbox (h : Adds d x w c w') : w'.inbox = w.inbox := by
  cases h with
  | intro _ _ _ => rfl

theorem confined_adds (e : InboxEvent) (h : Adds d x w c w') : Confined e w w' := by
  cases h with
  | intro _ _ _ => exact ⟨⟨rfl, rfl, rfl, rfl⟩, fun _ _ => rfl, fun _ _ => rfl⟩

/-! ## What a call makes of the standing -/

theorem standing_update (hrow : w.inbox.find? (fun r => r.id == id) = some row) :
    (w.updateInbox id u).standing =
      { w.standing with
        row := Function.update w.standing.row id (some (u.apply row).untimed) } := by
  unfold World.standing World.updateInbox
  congr 1
  funext id'
  by_cases hid : id' = id
  · subst hid
    rw [Function.update_self, updateInbox_find hrow]
    rfl
  · rw [Function.update_of_ne hid]
    exact congrArg _ (updateInbox_find_ne hid)

theorem standing_park {source : String} (hkey : m.key = some source) :
    (w.park m).standing =
      { w.standing with
        parked :=
          Function.update w.standing.parked source (w.standing.parked source ++ [m.untimed]) } := by
  unfold World.standing World.park
  congr 1
  funext source'
  show ((w.broker.dlq ++ [m]).filter _).map _ = _
  rw [List.filter_append, List.map_append]
  by_cases hsource : source' = source
  · subst hsource
    rw [Function.update_self, List.filter_cons_of_pos (by rw [hkey]; exact beq_self_eq_true _)]
    rfl
  · rw [Function.update_of_ne hsource, List.filter_cons_of_neg,
      List.filter_nil, List.map_nil, List.append_nil]
    rw [hkey, beq_iff_eq]
    exact fun heq => hsource (Option.some_inj.mp heq).symm

theorem Adds.fresh (h : Adds d x w c w') : w.credited c.orderId = none := by
  cases h with
  | @intro entry n t _ hcredit added =>
  unfold World.credited
  rw [Option.map_eq_none_iff]
  cases hfound : w.ledger.find? fun b => b.orderId == entry.data.orderId && b.type == .CREDIT with
  | none => rfl
  | some b =>
    have hkey :=
      Table.of_find?
        (p := fun b : LedgerEntry => b.orderId == entry.orderId && b.type == .CREDIT) hfound
    have hapart := Table.apart_of_insert added (Table.mem_of_find? hfound)
    rw [← hcredit] at hkey
    cases (Bool.or_eq_false_iff.mp hapart).2.symm.trans hkey

theorem Adds.credited (h : Adds d x w c w') :
    w'.credited = Function.update w.credited c.orderId (some c) := by
  have hfresh := h.fresh
  cases h with
  | @intro entry n t _ hcredit added =>
  rw [show entry.data.orderId = entry.orderId from rfl] at hfresh ⊢
  unfold World.credited at hfresh ⊢
  funext id
  dsimp only at hfresh ⊢
  rw [Table.find?_insert added, Option.map_or]
  by_cases hid : id = entry.orderId
  · subst hid
    rw [Function.update_self, hfresh, if_pos (by rw [hcredit]; simp)]
    rfl
  · have hother : ¬ (entry.orderId == id && entry.type == .CREDIT) = true := fun h =>
      hid (beq_iff_eq.mp (Bool.and_eq_true_iff.mp h).1).symm
    rw [Function.update_of_ne hid, if_neg hother, Option.map_none, Option.or_none]

theorem standing_adds (h : Adds d x w c w') :
    w'.standing =
      { w.standing with
        credited := Function.update w.standing.credited c.orderId (some c) } := by
  unfold World.standing
  rw [h.credited]
  cases h with
  | intro _ _ _ => rfl

/-- But for its time the message is decided by the event after the failure. -/
theorem dlqMessage_untimed (f : Fault) (now : Time) :
    (dlqMessage env ((countFailure f).apply e) now).untimed =
      (dlqMessage env (e.failed env f) 0).untimed := rfl

/-! ## The `catch` block -/

/-- Within the attempt on `e` that found the world `w`. -/
structure Tries (env : Env) (p : Pid) (d : Setting) (w : World) (tx : Option Tx) (e : InboxEvent)
    (before : List Uuid) (w' : World) (n : Nat) (y : PassState) : Prop where
  within : Within env p d w' tx e.id before n y
  confined : Confined e w w'
  ledger : w'.ledger = w.ledger

/-- How the `catch` block ends for the failure `f` of the attempt on `e`, whose row is `row`. -/
def CatchEnds (env : Env) (p : Pid) (d : Setting) (w : World) (tx : Option Tx) (e row : InboxEvent)
    (before : List Uuid) (f : Fault) (y : PassState) (r : Except Fault Unit) : Prop :=
  ∃ w' n, Tries env p d w tx e before w' n y ∧ (r = .ok () ↔ d.Books env e) ∧
    (row = e → d.Books env e → w'.standing = w.standing.failed env e f)

/-- A call on the way failed, and left `w'` or `w₁`: the failure is not booked. -/
theorem Tries.unbooked {f g : Fault} {w₂ : World} (within : Within env p d w₂ tx e.id before n y)
    (heither : ∀ P : World → Prop, P w' → P w₁ → P w₂)
    (hbefore : Confined e w w' ∧ w'.ledger = w.ledger)
    (hafter : Confined e w w₁ ∧ w₁.ledger = w.ledger) (hnot : ¬ d.Books env e) :
    CatchEnds env p d w tx e row before f y (.error g) := by
  obtain ⟨hconfined, hledger⟩ :=
    heither (fun v => Confined e w v ∧ v.ledger = w.ledger) hbefore hafter
  exact ⟨w₂, n, ⟨within, hconfined, hledger⟩,
    ⟨nofun, fun hb => absurd hb hnot⟩, fun _ hb => absurd hb hnot⟩

/-- The row is counted, marked FAILED and put on the DLQ: the failure of a last attempt. -/
theorem standing_parked {now : Time} (hrow : w.inbox.find? (fun r => r.id == e.id) = some e)
    (hlast : env.maxAttempts ≤ e.attempts + 1) :
    (((w.updateInbox e.id (countFailure f)).updateInbox e.id { status := some .FAILED }).park
      (dlqMessage env ((countFailure f).apply e) now)).standing = w.standing.failed env e f := by
  have hkey : (dlqMessage env ((countFailure f).apply e) now).key = some e.sourceEventId := rfl
  rw [standing_park hkey, standing_update (updateInbox_find hrow), standing_update hrow]
  unfold Standing.failed
  rw [if_pos hlast, dlqMessage_untimed]
  dsimp only
  rw [Function.update_idem]
  unfold InboxEvent.failed
  rw [if_pos hlast]
  rfl

/-- The row is counted and put off: the failure of an attempt that is not the last. -/
theorem standing_putOff {t : Time} (hrow : w.inbox.find? (fun r => r.id == e.id) = some e)
    (hmore : ¬ env.maxAttempts ≤ e.attempts + 1) :
    ((w.updateInbox e.id (countFailure f)).updateInbox e.id { availableAt := some t }).standing =
      w.standing.failed env e f := by
  rw [standing_update (updateInbox_find hrow), standing_update hrow]
  unfold Standing.failed
  rw [if_neg hmore]
  dsimp only
  rw [Function.update_idem]
  unfold InboxEvent.failed
  rw [if_neg hmore]
  rfl

theorem ends_attemptFailed (f : Fault) (hmono : Monotone (d.time (some e.id)))
    (h : Within env p d w tx e.id before n y)
    (hrow : w.inbox.find? (fun r => r.id == e.id) = some row)
    (hattempts : row.attempts = e.attempts) (hsource : row.sourceEventId = e.sourceEventId) :
    Ends (servePass env p d) False (CatchEnds env p d w tx e row before f) y
      (attemptFailed env e f).run := by
  refine ends_act_bind.mpr
    ((ends_updateInbox (u := countFailure f) (h.ready hmono rfl) hrow).post ?_)
  rintro y₁ r ⟨w₁, hanswer, hin⟩
  have hconfined := confined_update e (countFailure f) w
  have hrow₁ := updateInbox_find (u := countFailure f) hrow
  have hmax : ((countFailure f).apply row).attempts = e.attempts + 1 := congrArg (· + 1) hattempts
  rw [Setting.fateOf_site (s := .countFailure) rfl] at hanswer
  rcases hanswer.cases with ⟨hcount, rfl, rfl⟩ | ⟨hcount, heither, g, rfl⟩
  · dsimp only
    split
    · next hlast =>
      rw [hmax] at hlast
      refine ends_act_bind.mpr
        ((ends_updateInbox (u := { status := some .FAILED }) (hin.ready hmono rfl) hrow₁).post ?_)
      rintro y₂ r ⟨w₂, hanswer, hin₂⟩
      have hconfined₂ := hconfined.trans (confined_update e { status := some .FAILED } _)
      rw [Setting.fateOf_site (s := .settleFailure) rfl] at hanswer
      rcases hanswer.cases with ⟨hsettle, rfl, rfl⟩ | ⟨hsettle, heither, g, rfl⟩
      · have hkey : (dlqMessage env ((countFailure f).apply row) (d.time (some e.id) (n + 1))).key =
            some e.sourceEventId := congrArg some hsource
        refine ends_act_bind.mpr (ends_await_of_at ((ends_kafka
          (k := .send .dlq
            (dlqMessage env ((countFailure f).apply row) (d.time (some e.id) (n + 1))))
          (hin₂.ready hmono rfl) rfl).post ?_))
        rintro y₃ r ⟨w₃, hanswer, hin₃⟩
        have hconfined₃ := hconfined₂.trans (confined_park hkey _)
        rw [Setting.fateOf_site (s := .deadLetter) rfl] at hanswer
        rcases hanswer.cases with ⟨hdead, rfl, rfl⟩ | ⟨hdead, heither, g, rfl⟩
        · refine ⟨_, _, ⟨hin₃, hconfined₃, rfl⟩,
            ⟨fun _ => ⟨hcount, hsettle, fun _ => hdead⟩, fun _ => rfl⟩, ?_⟩
          rintro rfl -
          exact standing_parked hrow hlast
        · exact Tries.unbooked hin₃ heither ⟨hconfined₂, rfl⟩ ⟨hconfined₃, rfl⟩ fun hb =>
            hdead (hb.deadLetter hlast)
      · exact Tries.unbooked hin₂ heither ⟨hconfined, rfl⟩ ⟨hconfined₂, rfl⟩ fun hb =>
          hsettle hb.settleFailure
    · next hmore =>
      rw [hmax] at hmore
      refine ends_act_bind.mpr
        (ends_await_of_at ((ends_updateInbox (hin.ready hmono rfl) hrow₁).post ?_))
      rintro y₂ r ⟨w₂, hanswer, hin₂⟩
      rw [Setting.fateOf_site (s := .settleFailure) rfl] at hanswer
      rcases hanswer.cases with ⟨hsettle, rfl, rfl⟩ | ⟨hsettle, heither, g, rfl⟩
      · refine ⟨_, _, ⟨hin₂, hconfined.trans (confined_update e _ _), rfl⟩,
          ⟨fun _ => ⟨hcount, hsettle, fun hlast => absurd hlast hmore⟩, fun _ => rfl⟩, ?_⟩
        rintro rfl -
        exact standing_putOff hrow hmore
      · exact Tries.unbooked hin₂ heither ⟨hconfined, rfl⟩
          ⟨hconfined.trans (confined_update e _ _), rfl⟩
          fun hb => hsettle hb.settleFailure
  · exact Tries.unbooked hin heither ⟨.refl _ _, rfl⟩ ⟨hconfined, rfl⟩ fun hb =>
      hcount hb.countFailure

/-! ## The `try` block -/

theorem dueCredit_congr {t : Time} (horders : w'.orders = w.orders)
    (hseen : ∀ m, w'.seen env t m = w.seen env t m) (orderId : Option Json) :
    dueCredit env w' t orderId = dueCredit env w t orderId := by
  unfold dueCredit World.orderOf
  simp only [horders, hseen]

theorem AsIn.attemptFor {t : Time} (h : AsIn env p w tx v) (ht : v.clock ≤ t) (e : InboxEvent) :
    CashbackLedger.attemptFor env v v.credited t e =
      CashbackLedger.attemptFor env w w.credited t e := by
  unfold CashbackLedger.attemptFor creditFor World.credited
  rw [dueCredit_congr h.orders (h.seen t ht), h.ledger]

/-- How the `try` block ends, and what it makes of the world `w`. -/
inductive EventEnds (env : Env) (p : Pid) (d : Setting) (w v : World) (e : InboxEvent) :
    World → Except Fault Unit → Prop where
  | processed {c : LedgerData} {w₁ : World} {t : Time} (processes : d.Processes env v e)
      (free : ¬ AttemptWaits env p w (d.time (some e.id) 3) e) (new : NewCredit env d v e c)
      (adds : Adds d e.id w c w₁) :
      EventEnds env p d w v e (w₁.updateInbox e.id (markProcessed t)) (.ok ())
  | failed {w' : World} {f : Fault} {row : InboxEvent} (not : ¬ d.Processes env v e)
      (exact : e.id ≠ d.failing → ¬ AttemptWaits env p w (d.time (some e.id) 3) e ∧
        attemptFor env w w.credited (d.time (some e.id) 3) e = .error f ∧ w' = w)
      (confined : Confined e w w') (ledger : LedgerAfter env d v e w w')
      (found : w'.inbox.find? (fun r => r.id == e.id) = some row)
        (attempts : row.attempts = e.attempts)
      (source : row.sourceEventId = e.sourceEventId) :
      EventEnds env p d w v e w' (.error f)

theorem ends_attemptEvent (hmono : Monotone (d.time (some e.id)))
    (hfresh : ∀ k, (w.ledger.any fun r => r.id == d.newId (some e.id) k) = false)
    (hrow : w.inbox.find? (fun r => r.id == e.id) = some e)
    (h : Within env p d w tx e.id before 1 y) :
    Ends (servePass env p d) (AttemptWaits env p w (d.time (some e.id) 3) e)
      (fun y' r => ∃ w' n tx', Within env p d w' tx' e.id before n y' ∧
        EventEnds env p d w y.world e w' r) y
      (attemptEvent env e).run := by
  have hattempt := h.attemptFor (Nat.le_trans (h.later hmono) (hmono (by decide : 1 ≤ 3))) e
  -- nothing is credited
  have hkept : ∀ {f : Fault} {y' : PassState} {tx' : Option Tx} {n : Nat},
      Within env p d w tx' e.id before n y' → (∀ c, ¬ NewCredit env d y.world e c) →
      (e.id ≠ d.failing → ¬ AttemptWaits env p w (d.time (some e.id) 3) e ∧
        attemptFor env w w.credited (d.time (some e.id) 3) e = .error f) →
      ∃ w' n tx', Within env p d w' tx' e.id before n y' ∧
        EventEnds env p d w y.world e w' (.error f) :=
    fun within hnone hexact => ⟨w, _, _, within, .failed (fun hp => hp.credit.elim hnone)
      (fun hx => ⟨(hexact hx).1, (hexact hx).2, rfl⟩) (.refl e w) (.kept hnone rfl) hrow rfl rfl⟩
  unfold attemptEvent
  dsimp only
  split
  · next hmissing =>
    have hfalse : Json.truthy e.orderId = false := Bool.not_eq_true' _ ▸ hmissing
    have herror : attemptFor env w w.credited (d.time (some e.id) 3) e =
        .error (.error ("Missing orderId in inbox payload for event " ++ e.id.text)) := by
      unfold attemptFor
      rw [hfalse]
      rfl
    refine hkept h (fun c hc => ?_) fun _ => ⟨fun hw => ?_, herror⟩
    · cases herror.symm.trans (hattempt.symm.trans hc.due)
    · cases hfalse.symm.trans hw.1
  · next hnamed =>
    have htruthy : Json.truthy e.orderId = true := by
      rw [Bool.not_eq_true', Bool.not_eq_false] at hnamed
      exact hnamed
    have hdue : attemptFor env w w.credited (d.time (some e.id) 3) e =
        creditFor env w w.credited (d.time (some e.id) 3) e.orderId := if_pos htruthy
    refine ends_act_bind.mpr ((ends_processOrderConfirmed hmono hfresh h).mono
      (fun hw => ⟨htruthy, hw⟩) ?_)
    rintro y₁ r ⟨w₁, n₁, tx₁, within, hends⟩
    cases hends with
    | @credited c _ res calls replied free due adds =>
      have hnew : NewCredit env d y.world e c := ⟨calls, hattempt.trans (hdue.trans due)⟩
      have hrow₁ :=
        (congrArg (fun t : Table InboxEvent => t.find? fun r => r.id == e.id) adds.inbox).trans hrow
      refine ends_act_bind.mpr (ends_await_of_at ((ends_updateInbox (u := markProcessed res.2)
        (within.ready hmono rfl) hrow₁).post ?_))
      rintro y₂ r ⟨w₂, hanswer, within₂⟩
      rw [Setting.fateOf_site (s := .markProcessed) rfl] at hanswer
      rcases hanswer.cases with ⟨hmark, rfl, rfl⟩ | ⟨hmark, heither, f, rfl⟩
      · exact ⟨_, _, _, within₂, .processed ⟨⟨c, hnew⟩, replied, hmark⟩
          (fun hw => free hw.2) hnew adds⟩
      · have hfails : ∀ {w' : World} {row : InboxEvent}, Confined e w w' → w'.ledger = w₁.ledger →
            w'.inbox.find? (fun r => r.id == e.id) = some row → row.attempts = e.attempts →
            row.sourceEventId = e.sourceEventId → EventEnds env p d w y.world e w' (.error f) :=
          fun hconfined hledger hfound hattempts hsource =>
            .failed (fun hp => hmark hp.markProcessed)
            (fun hx => absurd (d.at_of_ne hx _) hmark) hconfined
              (.credited hnew adds hledger) hfound hattempts hsource
        exact ⟨_, _, _, within₂, heither (EventEnds env p d w y.world e · (.error f))
          (hfails (confined_adds e adds) rfl hrow₁ rfl rfl)
          (hfails ((confined_adds e adds).trans (confined_update e _ _)) rfl
            (updateInbox_find hrow₁) rfl rfl)⟩
    | unseen calls lost due adds =>
      have hnew := NewCredit.mk calls (hattempt.trans (hdue.trans due))
      have hrow₁ :=
        (congrArg (fun t : Table InboxEvent => t.find? fun r => r.id == e.id) adds.inbox).trans hrow
      exact ⟨_, _, _, within, .failed (fun hp => lost hp.commit)
        (fun hx => absurd (d.at_of_ne hx _) lost)
        (confined_adds e adds) (.credited hnew adds rfl) hrow₁ rfl rfl⟩
    | refused calls exact =>
      refine hkept within (fun c hc => ?_) fun hx =>
        ⟨fun hw => (exact hx).1 hw.2, hdue.trans (exact hx).2⟩
      obtain ⟨g, hg⟩ := calls hc.calls
      cases (hattempt.trans (hdue.trans hg)).symm.trans hc.due

/-! ## An attempt -/

theorem LedgerAfter.congr {v' : World} (h : LedgerAfter env d v e w w')
    (hnew : ∀ c, NewCredit env d v e c ↔ NewCredit env d v' e c) : LedgerAfter env d v' e w w' := by
  cases h with
  | credited new adds ledger => exact .credited ((hnew _).mp new) adds ledger
  | kept none ledger => exact .kept (fun c hc => none c ((hnew c).mpr hc)) ledger

theorem LedgerAfter.trans (h : LedgerAfter env d v e w w₁) (hledger : w'.ledger = w₁.ledger) :
    LedgerAfter env d v e w w' := by
  cases h with
  | credited new adds ledger => exact .credited new adds (hledger.trans ledger)
  | kept none ledger => exact .kept none (hledger.trans ledger)

theorem Setting.processes_congr {v' : World}
    (hnew : ∀ c, NewCredit env d v e c ↔ NewCredit env d v' e c) :
    d.Processes env v e ↔ d.Processes env v' e :=
  ⟨fun h => ⟨h.credit.imp fun c => (hnew c).mp, h.commit, h.markProcessed⟩,
    fun h => ⟨h.credit.imp fun c => (hnew c).mpr, h.commit, h.markProcessed⟩⟩

theorem Setting.books_of_ne (hx : e.id ≠ d.failing) (env : Env) : d.Books env e :=
  ⟨d.at_of_ne hx _, d.at_of_ne hx _, fun _ => d.at_of_ne hx _⟩

/-- What is new is decided before the attempt is told of. -/
theorem newCredit_later {y' : PassState} {tx' : Option Tx} (h : AsIn env p w tx y.world)
    (h' : AsIn env p w tx' y'.world) (hlater : Later y y')
    (hclock : y'.world.clock ≤ d.time (some e.id) 3) (c : LedgerData) :
    NewCredit env d y'.world e c ↔ NewCredit env d y.world e c := by
  have horders : y'.world.orders = y.world.orders := h'.orders.trans h.orders.symm
  have hattempt :=
    (h'.attemptFor hclock e).trans (h.attemptFor (Nat.le_trans hlater.clock hclock) e).symm
  constructor
  · rintro ⟨hcalls, hdue⟩
    exact ⟨⟨hcalls.toPrepares.congr horders.symm hlater.redis.symm, hcalls.begin, hcalls.commit⟩,
      hattempt.symm.trans hdue⟩
  · rintro ⟨hcalls, hdue⟩
    exact ⟨⟨hcalls.toPrepares.congr horders hlater.redis, hcalls.begin, hcalls.commit⟩,
      hattempt.trans hdue⟩

/-- How an attempt on `e` ends that was begun in `v`. -/
structure AttemptEnds (env : Env) (p : Pid) (d : Setting) (w v : World) (e : InboxEvent)
    (w' : World) (r : Except Fault Unit) : Prop where
  confined : Confined e w w'
  ledger : LedgerAfter env d v e w w'
  went_on : r = .ok () ↔ d.Processes env v e ∨ d.Books env e
  exact : e.id ≠ d.failing → ¬ AttemptWaits env p w (d.time (some e.id) 3) e ∧
    w'.standing = w.standing.attempted env w (d.time (some e.id) 3) e

theorem ends_retryAttempt (hmono : Monotone (d.time (some e.id)))
    (hfresh : ∀ k, (w.ledger.any fun r => r.id == d.newId (some e.id) k) = false)
    (hrow : w.inbox.find? (fun r => r.id == e.id) = some e) (h : AsIn env p w tx y.world)
    (hclock : y.world.clock ≤ d.time (some e.id) 0) :
    Ends (servePass env p d) (AttemptWaits env p w (d.time (some e.id) 3) e)
      (fun y' r => ∃ w' n tx', Within env p d w' tx' e.id y.begun n y' ∧
        AttemptEnds env p d w y.world e w' r) y
      (retryAttempt env e).run := by
  refine ends_act_bind.mpr
    ((ends_tell (c := .inboxRetriesInc e) hclock (h.ready hclock rfl)).post ?_)
  rintro y₁ r ⟨hlater, hin, t, rfl⟩
  have hnew := newCredit_later h hin.toAsIn hlater
    (Nat.le_trans (hin.later hmono) (hmono (by decide : 1 ≤ 3)))
  refine ends_act_tryCatch.mpr ((ends_attemptEvent hmono hfresh hrow hin).mono id ?_)
  rintro y₂ r ⟨w', n, tx', within, hends⟩
  cases hends with
  | @processed c w₁ t processes free new adds =>
    refine ⟨_, n, tx', within, (confined_adds e adds).trans (confined_update e _ _),
      LedgerAfter.congr (.credited new adds rfl) hnew, ?_, fun _ => ⟨free, ?_⟩⟩
    · exact ⟨fun _ => Or.inl ((Setting.processes_congr hnew).mp processes), fun _ => rfl⟩
    · have hattempt : attemptFor env w w.standing.credited (d.time (some e.id) 3) e = .ok c :=
        (hin.attemptFor
          (Nat.le_trans (hin.later hmono) (hmono (by decide : 1 ≤ 3))) e).symm.trans new.due
      have hrow₁ :=
        (congrArg (fun t : Table InboxEvent => t.find? fun r => r.id == e.id) adds.inbox).trans hrow
      unfold Standing.attempted
      rw [hattempt, standing_update hrow₁, standing_adds adds]
      rfl
  | @failed _ f row not exact confined ledger found attempts source =>
    refine (ends_attemptFailed f hmono within found attempts source).post ?_
    rintro y₃ r ⟨w'', n', htries, hwent, hstanding⟩
    refine ⟨w'', n', tx', htries.within, confined.trans htries.confined,
      (ledger.trans htries.ledger).congr hnew, ?_, fun hx => ?_⟩
    · rw [hwent, or_iff_right ((not_congr (Setting.processes_congr hnew)).mp not)]
    · obtain ⟨hfree, hattempt, rfl⟩ := exact hx
      cases hrow.symm.trans found
      refine ⟨hfree, (hstanding rfl (d.books_of_ne hx env)).trans ?_⟩
      unfold Standing.attempted
      rw [show attemptFor env w' w'.standing.credited (d.time (some e.id) 3) e =
        .error f from hattempt]

/-! ## The batch -/

variable {w₀ : World} {s : Standing} {events later : List InboxEvent}

/-- The events are there as they were selected, and their ids for entries are free. -/
structure Awaits (d : Setting) (w : World) (events : List InboxEvent) : Prop where
  rows : ∀ e ∈ events, w.inbox.find? (fun r => r.id == e.id) = some e
  unused : ∀ e ∈ events, ∀ k, (w.ledger.any fun r => r.id == d.newId (some e.id) k) = false

/-- When an attempt on the event reads the rule. -/
def Setting.readAt (d : Setting) (id : Uuid) : Time := d.time (some id) 3

/-- Between two attempts of a pass begun in `w₀`, with these left. -/
structure Amid (env : Env) (p : Pid) (d : Setting) (w₀ : World) (s : Standing)
    (later : List InboxEvent) (w : World) (tx : Option Tx) (y : PassState) : Prop
    extends AsIn env p w tx y.world, Awaits d w later where
  like : Like w₀ w
  standing : w.standing = s
  ahead : d.Ahead (later.map InboxEvent.id) y

theorem Like.attemptFor {t : Time} (h : Like w₀ w) (credited : Uuid → Option LedgerData)
    (e : InboxEvent) :
    CashbackLedger.attemptFor env w credited t e =
      CashbackLedger.attemptFor env w₀ credited t e := by
  have hseen : ∀ m, w.seen env t m = w₀.seen env t m := fun m => by
    unfold World.seen World.payload
    rw [h.redis, h.rules]
  unfold CashbackLedger.attemptFor creditFor
  rw [dueCredit_congr h.orders hseen]

/-- Waiting is decided by the locks of others. -/
theorem insertOutcome_none :
    insertOutcome w p c = none ↔ (storeNumeric 18 2 c.amount).isSome = true ∧
    w.lockedByOther p (fun
      | .ledger e => e.orderId == c.orderId && e.type == c.type
      | _ => false) = true := by
  unfold insertOutcome
  cases hstored : storeNumeric 18 2 c.amount with
  | none => exact ⟨nofun, fun h => nomatch h.1⟩
  | some amount =>
    dsimp only
    split
    · next hlocked => exact ⟨fun _ => ⟨rfl, hlocked⟩, fun _ => rfl⟩
    · next hfree =>
      refine ⟨fun h => ?_, fun h => absurd h.2 hfree⟩
      split at h <;> cases h

theorem Like.waits {t : Time} (h : Like w₀ w) :
    AttemptWaits env p w t e ↔ AttemptWaits env p w₀ t e := by
  have hseen : ∀ m, w.seen env t m = w₀.seen env t m := fun m => by
    unfold World.seen World.payload
    rw [h.redis, h.rules]
  unfold AttemptWaits Waits
  simp only [dueCredit_congr h.orders hseen, insertOutcome_none, World.lockedByOther, h.txs]

theorem ApartFrom.symm {e e' : InboxEvent} (h : ApartFrom e e') : ApartFrom e' e :=
  ⟨Ne.symm h.id, Ne.symm h.source⟩

/-- What is left of the batch after an attempt is as it was. -/
theorem Awaits.after {r : Except Fault Unit} (h : Awaits d w events)
    (hends : AttemptEnds env p d w v e w' r) (hids : d.NewIds w₀)
    (hapart : ∀ x ∈ events, ApartFrom x e) : Awaits d w' events := by
  refine ⟨fun x hx => (hends.confined.inbox _ (hapart x hx).id).trans (h.rows x hx),
    fun x hx k => ?_⟩
  cases hends.ledger with
  | kept _ ledger =>
    rw [ledger]
    exact h.unused x hx k
  | credited _ adds ledger =>
    rw [ledger]
    cases adds with
    | @intro entry n t hid _ added =>
      refine Bool.eq_false_iff.mpr fun hany => ?_
      obtain ⟨r, hr, heq⟩ := Table.any_iff.mp hany
      rcases (Table.mem_insert added).mp hr with hold | rfl
      · exact Bool.eq_false_iff.mp (h.unused x hx k) (Table.any_iff.mpr ⟨r, hold, heq⟩)
      · exact (hapart x hx).id (hids.apart _ _ _ _ ((beq_iff_eq.mp heq).symm.trans hid))

theorem Like.attempted {t : Time} (h : Like w₀ w) (s : Standing) (e : InboxEvent) :
    s.attempted env w t e = s.attempted env w₀ t e := by
  unfold Standing.attempted
  rw [h.attemptFor]

theorem Amid.after {tx' : Option Tx} {y' : PassState} {r : Except Fault Unit}
    (h : Amid env p d w₀ s (e :: later) w tx y) (hapart : ∀ x ∈ later, ApartFrom e x)
    (horder : d.InOrder ((e :: later).map InboxEvent.id)) (hids : d.NewIds w₀)
    (within : Within env p d w' tx' e.id before n y')
    (hends : AttemptEnds env p d w y.world e w' r) :
    Amid env p d w₀ w'.standing later w' tx' y' := by
  have hlater : Awaits d w later :=
    ⟨fun x hx => h.rows x (List.mem_cons_of_mem e hx),
      fun x hx => h.unused x (List.mem_cons_of_mem e hx)⟩
  exact ⟨within.toAsIn, hlater.after hends hids fun x hx => (hapart x hx).symm,
    h.like.trans hends.confined.toLike, rfl, within.ahead horder⟩

/-- The next attempt of a pass. -/
theorem Amid.attempt (h : Amid env p d w₀ s (e :: later) w tx y)
    (horder : d.InOrder ((e :: later).map InboxEvent.id)) :
    Ends (servePass env p d) (AttemptWaits env p w₀ (d.readAt e.id) e)
      (fun y' r => ∃ w' n tx', Within env p d w' tx' e.id y.begun n y' ∧
        AttemptEnds env p d w y.world e w' r) y
      (retryAttempt env e).run :=
  (ends_retryAttempt (horder.within e.id List.mem_cons_self) (h.unused e List.mem_cons_self)
    (h.rows e List.mem_cons_self) h.toAsIn (h.ahead e.id List.mem_cons_self 0)).mono h.like.waits.mp
    fun _ _ hr => hr

/-- A batch without the failing event. -/
theorem ends_attemptAll (events later : List InboxEvent) (hfine : ∀ e ∈ events, e.id ≠ d.failing)
    (hpair : (events ++ later).Pairwise ApartFrom)
    (horder : d.InOrder ((events ++ later).map InboxEvent.id)) (hids : d.NewIds w₀)
    (h : Amid env p d w₀ s (events ++ later) w tx y) :
    Ends (servePass env p d) (∃ e ∈ events, AttemptWaits env p w₀ (d.readAt e.id) e)
      (fun y' r => r = .ok () ∧
        (∃ w' tx', Amid env p d w₀ (s.attemptAll env w₀ d.readAt events) later w' tx' y') ∧
        (∀ e ∈ events, ¬ AttemptWaits env p w₀ (d.readAt e.id) e) ∧
        y'.begun = (events.map InboxEvent.id).reverse ++ y.begun) y
      (Act.forEach (retryAttempt env) events).run := by
  induction events generalizing s w tx y with
  | nil => exact ⟨rfl, ⟨w, tx, h⟩, nofun, rfl⟩
  | cons e events ih =>
    obtain ⟨hhead, hrest⟩ := List.pairwise_cons.mp hpair
    have hfailing := hfine e List.mem_cons_self
    refine ends_act_bind.mpr
      ((Amid.attempt h horder).mono (fun hw => ⟨e, List.mem_cons_self, hw⟩) ?_)
    rintro y₁ r ⟨w₁, n, tx₁, within, hends⟩
    obtain rfl := hends.went_on.mpr (Or.inr (d.books_of_ne hfailing env))
    have hafter := h.after hhead horder hids within hends
    obtain ⟨hfree, hstanding⟩ := hends.exact hfailing
    rw [hstanding, h.standing, h.like.attempted] at hafter
    refine (ih (fun x hx => hfine x (List.mem_cons_of_mem e hx)) hrest
      (horder.sublist (List.sublist_cons_self _ _)) hafter).mono ?_ ?_
    · rintro ⟨x, hx, hw⟩
      exact ⟨x, List.mem_cons_of_mem e hx, hw⟩
    · rintro y₂ r ⟨hr, hamid, hfrees, hbegun⟩
      refine ⟨hr, hamid, List.forall_mem_cons.mpr
        ⟨fun hw => hfree (h.like.waits.mpr hw), hfrees⟩, ?_⟩
      rw [hbegun, within.begun, List.map_cons, List.reverse_cons, List.append_assoc]
      rfl

/-- The attempt is one event more: besides its own row and messages it changes only the credit it
    leaves. -/
theorem AttemptEnds.beyond {r : Except Fault Unit} (h : AttemptEnds env p d w v e w' r) :
    ∃ new, Beyond e new w.standing w'.standing ∧ ∀ id, new = some id ↔
      ∃ c, NewCredit env d v e c ∧ c.orderId = id := by
  have hrow : ∀ id, id ≠ e.id → w'.standing.row id = w.standing.row id :=
    fun id hid => congrArg (Option.map InboxEvent.untimed) (h.confined.inbox id hid)
  have hparked : ∀ source, source ≠ e.sourceEventId →
      w'.standing.parked source = w.standing.parked source :=
    fun source hsource => congrArg (List.map KafkaMessage.untimed) (h.confined.dlq source hsource)
  cases h.ledger with
  | kept none ledger =>
    refine ⟨Option.none, ⟨hrow, hparked, fun id _ => ?_, nofun⟩,
      fun id => ⟨nofun, fun ⟨c, hc, _⟩ => absurd hc (none c)⟩⟩
    unfold World.standing World.credited
    rw [ledger]
  | @credited c w₁ new adds ledger =>
    have hcredited : w'.standing.credited = Function.update w.credited c.orderId (some c) := by
      rw [← adds.credited]
      unfold World.standing World.credited
      rw [ledger]
    refine ⟨some c.orderId, ⟨hrow, hparked, fun id hid => ?_, fun id hid => ?_⟩, fun id => ⟨?_, ?_⟩⟩
    · rw [hcredited, Function.update_of_ne fun heq => hid (congrArg some heq.symm)]
      rfl
    · cases hid
      rw [hcredited, Function.update_self]
      exact ⟨rfl, adds.fresh⟩
    · rintro ⟨⟩
      exact ⟨c, new, rfl⟩
    · rintro ⟨c', hc', rfl⟩
      cases new.due.symm.trans hc'.due
      rfl

end

end CashbackLedger
