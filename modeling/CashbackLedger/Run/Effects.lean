import CashbackLedger.Model.System

/-
  What a call does to the world.

  `Effect` lists every change a call makes to the stored data, one constructor a change, and
  `exec_effect` shows there is no other. A transaction of the programs commits nothing, one
  confirmation with its event, or one ledger entry (`Tx.Shaped`); that the programs keep to it
  is shown in `Run.Protocol`, here it is an assumption on the open transaction.

  `World.Extends` is what every step keeps: rows stay, with everything but their status fields,
  a confirmed order stays confirmed, ledger entries stay as they are, the topics only grow.
-/

namespace CashbackLedger

open Lib

/-! ## The part of a row that never changes -/

/-- An order as it was created. -/
def Order.core (o : Order) : Order := { o with status := .CREATED }

/-- An outbox row without its delivery state. -/
def OutboxEvent.core (e : OutboxEvent) : OutboxEvent :=
  { e with lastError := none, status := .PENDING, attempts := 0, availableAt := 0, sentAt := none }

/-- An inbox row without its processing state. -/
def InboxEvent.core (e : InboxEvent) : InboxEvent :=
  { e with status := .PENDING, attempts := 0, availableAt := 0, lastError := none,
           processedAt := none }

/-- The status of an updated row is its own or comes with the update. -/
theorem OutboxUpdate.status_apply {u : OutboxUpdate} {e : OutboxEvent} {st : OutboxStatus}
    (h : (u.apply e).status = st) : e.status = st ∨ u.status = some st := by
  change u.status.getD e.status = st at h
  cases hu : u.status with
  | none => exact Or.inl (by rw [hu] at h; exact h)
  | some st' => exact Or.inr (by rw [hu] at h; exact congrArg some h)

theorem InboxUpdate.status_apply {u : InboxUpdate} {e : InboxEvent} {st : InboxStatus}
    (h : (u.apply e).status = st) : e.status = st ∨ u.status = some st := by
  change u.status.getD e.status = st at h
  cases hu : u.status with
  | none => exact Or.inl (by rw [hu] at h; exact h)
  | some st' => exact Or.inr (by rw [hu] at h; exact congrArg some h)

theorem Order.id_of_core {o o' : Order} (h : o.core = o'.core) : o.id = o'.id := by
  have hid : o.core.id = o'.core.id := by rw [h]
  exact hid

theorem Order.of_core {o o' : Order} (h : o.core = o'.core) :
    o.id = o'.id ∧ o.userId = o'.userId ∧ o.merchantId = o'.merchantId ∧ o.amount = o'.amount ∧
      o.currency = o'.currency ∧ o.createdAt = o'.createdAt := by
  simpa only [Order.core, Order.mk.injEq, true_and] using h

theorem OutboxEvent.id_of_core {e e' : OutboxEvent} (h : e.core = e'.core) : e.id = e'.id := by
  have hid : e.core.id = e'.core.id := by rw [h]
  exact hid

theorem OutboxEvent.of_core {e e' : OutboxEvent} (h : e.core = e'.core) :
    e.id = e'.id ∧ e.aggregateId = e'.aggregateId ∧ e.type = e'.type ∧ e.payload = e'.payload ∧
      e.createdAt = e'.createdAt := by
  simpa only [OutboxEvent.core, OutboxEvent.mk.injEq, and_true, true_and] using h

theorem InboxEvent.of_core {e e' : InboxEvent} (h : e.core = e'.core) :
    e.id = e'.id ∧ e.sourceEventId = e'.sourceEventId ∧ e.type = e'.type ∧
      e.payload = e'.payload ∧ e.createdAt = e'.createdAt := by
  simpa only [InboxEvent.core, InboxEvent.mk.injEq, and_true, true_and] using h

theorem InboxEvent.id_of_core {e e' : InboxEvent} (h : e.core = e'.core) : e.id = e'.id := by
  have hid : e.core.id = e'.core.id := by rw [h]
  exact hid

namespace World

/-! ## What every step keeps -/

/-- The order is stored, and confirmed if `o` is. -/
def HasOrder (w : World) (o : Order) : Prop :=
  ∃ o' ∈ w.orders, o'.core = o.core ∧ (o.status = .CONFIRMED → o'.status = .CONFIRMED)

def HasOutbox (w : World) (e : OutboxEvent) : Prop := ∃ e' ∈ w.outbox, e'.core = e.core

def HasInbox (w : World) (e : InboxEvent) : Prop := ∃ e' ∈ w.inbox, e'.core = e.core

structure Extends (w w' : World) : Prop where
  orders : ∀ o ∈ w.orders, w'.HasOrder o
  ledger : ∀ e ∈ w.ledger, e ∈ w'.ledger
  outbox : ∀ e ∈ w.outbox, w'.HasOutbox e
  inbox : ∀ e ∈ w.inbox, w'.HasInbox e
  events : w.broker.events <+: w'.broker.events
  dlq : w.broker.dlq <+: w'.broker.dlq
  committed : w.broker.committed ⊆ w'.broker.committed
  clock : w.clock ≤ w'.clock

theorem hasOrder_of_mem {w : World} {o : Order} (h : o ∈ w.orders) : w.HasOrder o :=
  ⟨o, h, rfl, id⟩

theorem hasOutbox_of_mem {w : World} {e : OutboxEvent} (h : e ∈ w.outbox) : w.HasOutbox e :=
  ⟨e, h, rfl⟩

theorem hasInbox_of_mem {w : World} {e : InboxEvent} (h : e ∈ w.inbox) : w.HasInbox e :=
  ⟨e, h, rfl⟩

theorem HasOrder.mono {w w' : World} {o : Order} (h : w.HasOrder o) (hw : w.Extends w') :
    w'.HasOrder o := by
  obtain ⟨o₁, hm, hc, hs⟩ := h
  obtain ⟨o₂, hm₂, hc₂, hs₂⟩ := hw.orders o₁ hm
  exact ⟨o₂, hm₂, hc₂.trans hc, fun h => hs₂ (hs h)⟩

theorem HasOutbox.mono {w w' : World} {e : OutboxEvent} (h : w.HasOutbox e)
    (hw : w.Extends w') : w'.HasOutbox e := by
  obtain ⟨e₁, hm, hc⟩ := h
  obtain ⟨e₂, hm₂, hc₂⟩ := hw.outbox e₁ hm
  exact ⟨e₂, hm₂, hc₂.trans hc⟩

theorem HasInbox.mono {w w' : World} {e : InboxEvent} (h : w.HasInbox e)
    (hw : w.Extends w') : w'.HasInbox e := by
  obtain ⟨e₁, hm, hc⟩ := h
  obtain ⟨e₂, hm₂, hc₂⟩ := hw.inbox e₁ hm
  exact ⟨e₂, hm₂, hc₂.trans hc⟩

theorem Extends.refl (w : World) : w.Extends w where
  orders _ h := hasOrder_of_mem h
  ledger _ h := h
  outbox _ h := hasOutbox_of_mem h
  inbox _ h := hasInbox_of_mem h
  events := List.prefix_refl _
  dlq := List.prefix_refl _
  committed := List.Subset.refl _
  clock := le_refl _

theorem Extends.trans {w w' w'' : World} (h : w.Extends w') (h' : w'.Extends w'') :
    w.Extends w'' where
  orders o ho := (h.orders o ho).mono h'
  ledger e he := h'.ledger e (h.ledger e he)
  outbox e he := (h.outbox e he).mono h'
  inbox e he := (h.inbox e he).mono h'
  events := h.events.trans h'.events
  dlq := h.dlq.trans h'.dlq
  committed := List.Subset.trans h.committed h'.committed
  clock := h.clock.trans h'.clock

/-! ## Open transactions -/

theorem lookup_cons_ne {p q : Pid} (h : q ≠ p) (tx : Tx) (l : List (Pid × Tx)) :
    ((p, tx) :: l).lookup q = l.lookup q := by
  rw [List.lookup_cons, beq_false_of_ne h]

theorem lookup_filter_ne (l : List (Pid × Tx)) (p q : Pid) :
    (l.filter fun x => x.1 != p).lookup q = if q = p then none else l.lookup q := by
  induction l with
  | nil => simp
  | cons x l ih =>
    obtain ⟨r, tx⟩ := x
    by_cases hrp : r = p
    · subst hrp
      rw [List.filter_cons_of_neg (by simp), ih]
      by_cases hq : q = r
      · rw [if_pos hq, if_pos hq]
      · rw [if_neg hq, if_neg hq, lookup_cons_ne hq]
    · rw [List.filter_cons_of_pos (by simpa using hrp)]
      by_cases hqr : q = r
      · subst hqr
        rw [List.lookup_cons_self, List.lookup_cons_self, if_neg hrp]
      · rw [lookup_cons_ne hqr, lookup_cons_ne hqr, ih]

@[simp] theorem txOf_setTx (w : World) (p q : Pid) (tx : Option Tx) :
    (w.setTx p tx).txOf q = if q = p then tx else w.txOf q := by
  have hf := lookup_filter_ne w.txs p q
  cases tx with
  | none => exact hf
  | some t =>
    show List.lookup q ((p, t) :: w.txs.filter fun x => x.1 != p) = _
    by_cases hq : q = p
    · rw [if_pos hq, hq, List.lookup_cons_self]
    · rw [lookup_cons_ne hq, hf, if_neg hq, if_neg hq]
      rfl

/-- `settle` and `kill` touch open transactions only. -/
theorem Extends.setTx {w w' : World} (h : w.Extends w') (p : Pid) (tx : Option Tx) :
    w.Extends (w'.setTx p tx) :=
  ⟨h.orders, h.ledger, h.outbox, h.inbox, h.events, h.dlq, h.committed, h.clock⟩

end World

/-! ## The effects of calls -/

/-- What a transaction of the programs writes. -/
inductive Tx.Shaped : List TxWrite → Prop where
  | nothing : Tx.Shaped []
  | confirm (id : Uuid) (e : OutboxEvent) : Tx.Shaped [.orderStatus id .CONFIRMED, .outbox e]
  | credit (e : LedgerEntry) : Tx.Shaped [.ledger e]

/-- Every change a call of `p` can make to the stored data. -/
inductive Effect (p : Pid) (newId : Uuid) (w : World) : Call → World → Prop where
  | nothing (c : Call) : Effect p newId w c w
  | order {d : OrderData} {amount : Decimal} {t : Table Order}
      (fits : storeNumeric 18 2 d.amount = some amount)
      (ins : w.orders.insert? ⟨newId, d.userId, d.merchantId, amount, d.currency, d.status, w.clock⟩
        = some t) :
      Effect p newId w (.orders (.create d)) { w with orders := t }
  | rule {c : RuleCall} {t : Table CashbackRule} {x : Except Fault c.Result}
      (run : c.run w.rules = some (t, x)) : Effect p newId w (.rules c) { w with rules := t }
  | idemInsert {row : IdempotencyKey} {t : Table IdempotencyKey}
      (ins : w.idem.insert? row = some t) :
      Effect p newId w (.idem (.upsert row)) { w with idem := t }
  | idemUpdate (row : IdempotencyKey) :
      Effect p newId w (.idem (.upsert row))
        { w with
          idem := w.idem.modify (fun r => r.key == row.key && r.scope == row.scope)
            (fun r => { r with requestHash := row.requestHash, responseBody := row.responseBody,
                               expiresAt := row.expiresAt }) ⟨fun _ _ => rfl⟩ }
  | claim (id : Uuid) :
      Effect p newId w (.outbox (.claim id))
        { w with
          outbox := w.outbox.modify (fun e => e.id == id && e.status == .PENDING)
            (fun e => { e with attempts := e.attempts + 1 }) ⟨fun _ _ => rfl⟩ }
  | outboxUpdate (id : Uuid) (u : OutboxUpdate) :
      Effect p newId w (.outbox (.update id u))
        { w with outbox := w.outbox.modify (fun e => e.id == id) u.apply ⟨fun _ _ => rfl⟩ }
  | inboxInsert {sid type : String} {payload : Json} {t : Table InboxEvent}
      (fresh : w.inbox.find? (fun e => e.sourceEventId == sid) = none)
      (ins : w.inbox.insert? (InboxCall.created newId w.clock sid type payload) = some t) :
      Effect p newId w (.inbox (.upsert sid type payload)) { w with inbox := t }
  | inboxUpdate (id : Uuid) (u : InboxUpdate) :
      Effect p newId w (.inbox (.update id u))
        { w with inbox := w.inbox.modify (fun e => e.id == id) u.apply ⟨fun _ _ => rfl⟩ }
  | redis (c : RedisCall) :
      Effect p newId w (.redis c) { w with redis := (c.run w.clock w.redis).1 }
  | publish (m : KafkaMessage) :
      Effect p newId w (.kafka (.send .events m))
        { w with broker := { w.broker with events := w.broker.events ++ [m] } }
  | deadLetter (m : KafkaMessage) :
      Effect p newId w (.kafka (.send .dlq m))
        { w with broker := { w.broker with dlq := w.broker.dlq ++ [m] } }
  | commitOffset (offset : Nat) :
      Effect p newId w (.kafka (.commitOffset offset))
        { w with
          broker := { w.broker with
            committed := offset :: w.broker.committed
            again := w.broker.again.filter (· != offset) } }
  | confirm {id : Uuid} {e : OutboxEvent} {tx : Tx} {t : Table OutboxEvent}
      (mine : w.txOf p = some tx) (sound : tx.aborted = false)
      (writes : tx.writes = [.orderStatus id .CONFIRMED, .outbox e])
      (ins : w.outbox.insert? e = some t) :
      Effect p newId w (.tx .commit)
        { w with
          orders := w.orders.modify (fun o => o.id == id)
            (fun o => { o with status := .CONFIRMED }) ⟨fun _ _ => rfl⟩
          outbox := t }
  | credit {e : LedgerEntry} {tx : Tx} {t : Table LedgerEntry}
      (mine : w.txOf p = some tx) (sound : tx.aborted = false) (writes : tx.writes = [.ledger e])
      (ins : w.ledger.insert? e = some t) :
      Effect p newId w (.tx .commit) { w with ledger := t }

section

variable {env : Env} {p : Pid} {ch : Choice} {newId : Uuid} {w w' w₁ : World} {c : Call}

/-- The open transaction of `p` can be committed with `c` only in one of the shapes. -/
def CommitsShaped (p : Pid) (w : World) (c : Call) : Prop :=
  c = .tx .commit → ∀ tx, w.txOf p = some tx → tx.aborted = false → Tx.Shaped tx.writes

theorem commit_effect {tx : Tx} (mine : w.txOf p = some tx) (sound : tx.aborted = false)
    (shaped : Tx.Shaped tx.writes) (h : w.applyWrites tx.writes = some w₁) :
    Effect p newId w (.tx .commit) w₁ := by
  generalize hws : tx.writes = ws at shaped h
  cases shaped with
  | nothing => cases h; exact .nothing _
  | confirm id e =>
    simp only [World.applyWrites, World.applyWrite, List.foldlM_cons, List.foldlM_nil,
      Option.bind_eq_bind, Option.bind_some] at h
    obtain ⟨w₂, hw₂, he⟩ := Option.bind_eq_some_iff.mp h
    obtain ⟨t, ht, rfl⟩ := Option.map_eq_some_iff.mp hw₂
    cases he
    exact .confirm mine sound hws ht
  | credit e =>
    simp only [World.applyWrites, World.applyWrite, List.foldlM_cons, List.foldlM_nil,
      Option.bind_eq_bind] at h
    obtain ⟨w₂, hw₂, he⟩ := Option.bind_eq_some_iff.mp h
    obtain ⟨t, ht, rfl⟩ := Option.map_eq_some_iff.mp hw₂
    cases he
    exact .credit mine sound hws ht

theorem run_effect {x : Except Fault c.Result} (hs : CommitsShaped p w c)
    (h : c.run env p newId w = some (w₁, x)) : Effect p newId w c w₁ := by
  cases c with
  | orders c =>
    obtain ⟨⟨t, y⟩, hy, he⟩ := Option.map_eq_some_iff.mp h
    cases he
    cases c with
    | create d =>
      simp only [OrderCall.run] at hy
      split at hy
      · split at hy
        · cases hy; exact .nothing _
        · obtain ⟨t', ht, he⟩ := Option.map_eq_some_iff.mp hy
          cases he
          exact .order ‹_› ht
      · cases hy; exact .nothing _
  | rules c =>
    obtain ⟨⟨t, y⟩, hy, he⟩ := Option.map_eq_some_iff.mp h
    cases he
    exact .rule hy
  | idem c =>
    obtain ⟨⟨t, y⟩, hy, he⟩ := Option.map_eq_some_iff.mp h
    cases he
    cases c with
    | findUnique key scope => cases hy; exact .nothing _
    | upsert row =>
      simp only [IdemCall.run] at hy
      split at hy
      · split at hy
        · cases hy; exact .idemUpdate row
        · obtain ⟨t', ht, he⟩ := Option.map_eq_some_iff.mp hy
          cases he
          exact .idemInsert ht
      · cases hy; exact .nothing _
  | outbox c =>
    obtain ⟨⟨t, y⟩, hy, he⟩ := Option.map_eq_some_iff.mp h
    cases he
    cases c with
    | findMany sel take =>
      rcases sel with now | (_ | status) <;> cases take <;> cases hy <;> exact .nothing _
    | claim id => cases hy; exact .claim id
    | findUnique id => cases hy; exact .nothing _
    | update id u =>
      simp only [OutboxCall.run] at hy
      split at hy
      · cases hy; exact .nothing _
      · cases hy; exact .outboxUpdate id u
  | inbox c =>
    obtain ⟨⟨t, y⟩, hy, he⟩ := Option.map_eq_some_iff.mp h
    cases he
    cases c with
    | upsert sid type payload =>
      simp only [InboxCall.run] at hy
      split at hy
      · split at hy
        · cases hy; exact .nothing _
        · obtain ⟨t', ht, he⟩ := Option.map_eq_some_iff.mp hy
          cases he
          exact .inboxInsert ‹_› ht
      · cases hy; exact .nothing _
    | findMany sel take =>
      rcases sel with now | (_ | status) | id <;> cases take <;> cases hy <;> exact .nothing _
    | update id u =>
      simp only [InboxCall.run] at hy
      split at hy
      · cases hy; exact .nothing _
      · cases hy; exact .inboxUpdate id u
  | redis c => cases h; exact .redis c
  | kafka c =>
    obtain ⟨⟨b, y⟩, hy, he⟩ := Option.map_eq_some_iff.mp h
    cases he
    cases c with
    | send topic m =>
      cases topic with
      | events => cases hy; exact .publish m
      | dlq => cases hy; exact .deadLetter m
    | fetch offset =>
      obtain ⟨m, hm, he⟩ := KafkaCall.run_fetch hy
      cases he
      exact .nothing _
    | commitOffset offset => cases hy; exact .commitOffset offset
  | tx c =>
    cases c with
    | begin => cases h; exact .nothing _
    | stmt s =>
      simp only [Call.run, TxCall.run] at h
      split at h
      · cases h; exact .nothing _
      · split at h
        · cases h; exact .nothing _
        · obtain ⟨y, hy, he⟩ := Option.map_eq_some_iff.mp h
          cases he
          exact .nothing _
    | commit =>
      simp only [Call.run, TxCall.run] at h
      split at h
      · cases h; exact .nothing _
      · rename_i tx htx
        split at h
        · cases h; exact .nothing _
        · rename_i hab
          have hab' : tx.aborted = false := by simpa using hab
          split at h
          · cases h; exact .nothing _
          · rename_i w₂ hw₂
            cases h
            exact commit_effect htx hab' (hs rfl tx htx hab') hw₂
    | rollback => cases h; exact .nothing _
  | proc c => cases h; exact .nothing _

/-- An update of a stored row is answered with the row. -/
theorem inboxUpdate_found {id : Uuid} {u : InboxUpdate} {e : InboxEvent}
    {x : Except Fault InboxEvent} (he : e ∈ w.inbox) (hid : e.id = id)
    (h : Call.run env p newId w (.inbox (.update id u)) = some (w₁, x)) : ∃ row, x = .ok row := by
  obtain ⟨⟨t, y⟩, hy, heq⟩ := Option.map_eq_some_iff.mp h
  cases heq
  simp only [InboxCall.run] at hy
  split at hy
  · next hnone =>
    have hne := Table.find?_none hnone he
    rw [hid, beq_self_eq_true] at hne
    cases hne
  · cases hy
    exact ⟨_, rfl⟩

/-- How a call was served: the three fates. -/
inductive Served (env : Env) (p : Pid) (c : Call) (ch : Choice) (w : World) :
    World → Reply c → Prop where
  | ok {w₁ : World} {x : Except Fault c.Result} (fate : ch.fate = .ok)
      (run : c.run env p ch.newId w = some (w₁, x)) :
      Served env p c ch w (w₁.settle p c x) (x, w.clock)
  | failed {m : String} (fate : ch.fate = .fail m) :
      Served env p c ch w (w.settle p c (.error (.callFailed m))) (.error (.callFailed m), w.clock)
  | lost {w₁ : World} {x : Except Fault c.Result} {m : String} (fate : ch.fate = .lost m)
      (run : c.run env p ch.newId w = some (w₁, x)) :
      Served env p c ch w (w₁.settle p c (.error (.callFailed m)))
        (.error (.callFailed m), w.clock)

theorem exec_served {r : Reply c} (h : exec env p c ch w = some (w', r)) :
    Served env p c ch w w' r := by
  unfold exec at h
  split at h
  · obtain ⟨⟨w₁, x⟩, hx, he⟩ := Option.map_eq_some_iff.mp h
    cases he
    exact .ok ‹_› hx
  · cases h
    exact .failed ‹_›
  · obtain ⟨⟨w₁, x⟩, hx, he⟩ := Option.map_eq_some_iff.mp h
    cases he
    exact .lost ‹_› hx

theorem applyWrites_clock {writes : List TxWrite} (h : w.applyWrites writes = some w') :
    w'.clock = w.clock := by
  induction writes generalizing w with
  | nil =>
    cases h
    rfl
  | cons x writes ih =>
    obtain ⟨w₁, hx, hrest⟩ := Option.bind_eq_some_iff.mp h
    refine (ih hrest).trans ?_
    cases x with
    | orderStatus id status =>
      cases hx
      rfl
    | outbox row =>
      obtain ⟨t, -, rfl⟩ := Option.map_eq_some_iff.mp hx
      rfl
    | ledger row =>
      obtain ⟨t, -, rfl⟩ := Option.map_eq_some_iff.mp hx
      rfl

theorem run_clock {newId : Uuid} {x : Except Fault c.Result}
    (h : c.run env p newId w = some (w₁, x)) : w₁.clock = w.clock := by
  cases c with
  | redis c =>
    cases h
    rfl
  | proc c =>
    cases h
    rfl
  | tx c =>
    cases c with
    | commit =>
      simp only [Call.run, TxCall.run] at h
      split at h
      · cases h
        rfl
      split at h
      · cases h
        rfl
      split at h
      · cases h
        rfl
      · next happly =>
        cases h
        exact applyWrites_clock happly
    | stmt s =>
      simp only [Call.run, TxCall.run] at h
      split at h
      · cases h
        rfl
      split at h
      · cases h
        rfl
      · obtain ⟨r, -, heq⟩ := Option.map_eq_some_iff.mp h
        cases heq
        rfl
    | begin =>
      cases h
      rfl
    | rollback =>
      cases h
      rfl
  | _ =>
    obtain ⟨y, -, heq⟩ := Option.map_eq_some_iff.mp h
    cases heq
    rfl

/-- Serving a call takes no time of its own. -/
theorem exec_clock {ch : Choice} {res : Reply c} (h : exec env p c ch w = some (w', res)) :
    w'.clock = w.clock ∧ res.2 = w.clock := by
  cases exec_served h with
  | ok _ run =>
    have hclock := run_clock run
    exact ⟨hclock, rfl⟩
  | failed _ => exact ⟨rfl, rfl⟩
  | lost _ run =>
    have hclock := run_clock run
    exact ⟨hclock, rfl⟩

/-- A reply that is no failure of the call is the one the component gave. -/
theorem exec_reply {r : Reply c} (h : exec env p c ch w = some (w', r)) :
    (∃ m, r.1 = .error (.callFailed m)) ∨
      ∃ w₁, c.run env p ch.newId w = some (w₁, r.1) ∧ w' = w₁.settle p c r.1 := by
  cases exec_served h with
  | ok fate run => exact Or.inr ⟨_, run, rfl⟩
  | failed fate => exact Or.inl ⟨_, rfl⟩
  | lost fate run => exact Or.inl ⟨_, rfl⟩

/-- A call that succeeds is answered by the component. -/
theorem exec_run {r : Reply c} (hfate : ch.fate = .ok) (h : exec env p c ch w = some (w', r)) :
    ∃ w₁, c.run env p ch.newId w = some (w₁, r.1) ∧ w' = w₁.settle p c r.1 := by
  cases exec_served h with
  | ok _ run => exact ⟨_, run, rfl⟩
  | failed fate =>
    rw [fate] at hfate
    cases hfate
  | lost fate run =>
    rw [fate] at hfate
    cases hfate

/-- Only a call that succeeds answers with a value. -/
theorem exec_ok {a : c.Result} {now : Time} (h : exec env p c ch w = some (w', (.ok a, now))) :
    ch.fate = .ok := by
  cases exec_served h with
  | ok fate _ => exact fate

/-- A call without effect is booked in the caller's transaction only. -/
theorem exec_untaken {r : Reply c} (hfate : ch.fate.takesEffect = false)
    (h : exec env p c ch w = some (w', r)) : w' = w.settle p c r.1 := by
  cases exec_served h with
  | failed _ => rfl
  | ok fate run =>
    rw [fate] at hfate
    cases hfate
  | lost fate run =>
    rw [fate] at hfate
    cases hfate

/-- A served call has one of the effects, then its reply is booked in the caller's transaction. -/
theorem exec_effect {r : Reply c} (hs : CommitsShaped p w c)
    (h : exec env p c ch w = some (w', r)) :
    ∃ w₁, Effect p ch.newId w c w₁ ∧ w' = w₁.settle p c r.1 := by
  cases exec_served h with
  | ok fate run => exact ⟨_, run_effect hs run, rfl⟩
  | failed fate => exact ⟨w, .nothing c, rfl⟩
  | lost fate run => exact ⟨_, run_effect hs run, rfl⟩

namespace Effect

/-- Only the booking of a reply changes open transactions. -/
theorem txs (h : Effect p newId w c w₁) : w₁.txs = w.txs := by
  cases h <;> rfl

theorem grows (h : Effect p newId w c w₁) : w.Extends w₁ := by
  have hr := World.Extends.refl w
  cases h with
  | nothing => exact hr
  | order fits ins =>
    exact { hr with orders := fun o ho => World.hasOrder_of_mem (Table.mem_of_insert ins ho) }
  | rule run => exact { hr with }
  | idemInsert ins => exact { hr with }
  | idemUpdate row => exact { hr with }
  | claim id =>
    refine { hr with outbox := fun e he => ?_ }
    simp only [World.HasOutbox, Table.mem_modify]
    refine ⟨_, ⟨e, he, rfl⟩, ?_⟩
    split <;> rfl
  | outboxUpdate id u =>
    refine { hr with outbox := fun e he => ?_ }
    simp only [World.HasOutbox, Table.mem_modify]
    refine ⟨_, ⟨e, he, rfl⟩, ?_⟩
    split <;> rfl
  | inboxInsert fresh ins =>
    exact { hr with inbox := fun e he => World.hasInbox_of_mem (Table.mem_of_insert ins he) }
  | inboxUpdate id u =>
    refine { hr with inbox := fun e he => ?_ }
    simp only [World.HasInbox, Table.mem_modify]
    refine ⟨_, ⟨e, he, rfl⟩, ?_⟩
    split <;> rfl
  | redis c => exact { hr with }
  | publish m => exact { hr with events := List.prefix_append _ _ }
  | deadLetter m => exact { hr with dlq := List.prefix_append _ _ }
  | commitOffset offset => exact { hr with committed := List.subset_cons_self _ _ }
  | confirm mine sound writes ins =>
    refine { hr with
      orders := fun o ho => ?_
      outbox := fun e he => World.hasOutbox_of_mem (Table.mem_of_insert ins he) }
    simp only [World.HasOrder, Table.mem_modify]
    refine ⟨_, ⟨o, ho, rfl⟩, by split <;> rfl, ?_⟩
    intro hc
    split
    · rfl
    · exact hc
  | credit mine sound writes ins =>
    exact { hr with ledger := fun e he => Table.mem_of_insert ins he }

/-! ### Where the rows of the changed world come from -/

theorem order_origin (h : Effect p newId w c w₁) {o' : Order} (ho : o' ∈ w₁.orders) :
    (∃ o ∈ w.orders, o'.core = o.core ∧ (o' = o ∨
      c = .tx .commit ∧ o'.status = .CONFIRMED ∧ ∃ tx e, w.txOf p = some tx ∧ tx.aborted = false ∧
        tx.writes = [.orderStatus o'.id .CONFIRMED, .outbox e] ∧ e ∈ w₁.outbox)) ∨
    ∃ d amount, c = .orders (.create d) ∧ storeNumeric 18 2 d.amount = some amount ∧
      o' = ⟨newId, d.userId, d.merchantId, amount, d.currency, d.status, w.clock⟩ := by
  have hsame : o' ∈ w.orders → ∃ o ∈ w.orders, o'.core = o.core ∧ (o' = o ∨
      c = .tx .commit ∧ o'.status = .CONFIRMED ∧ ∃ tx e, w.txOf p = some tx ∧ tx.aborted = false ∧
        tx.writes = [.orderStatus o'.id .CONFIRMED, .outbox e] ∧ e ∈ w₁.outbox) :=
    fun ho => ⟨o', ho, rfl, Or.inl rfl⟩
  cases h with
  | order fits ins =>
    rcases (Table.mem_insert ins).mp ho with ho | rfl
    · exact Or.inl (hsame ho)
    · exact Or.inr ⟨_, _, rfl, fits, rfl⟩
  | @confirm id e tx t mine sound writes ins =>
    simp only [Table.mem_modify] at ho
    obtain ⟨o, hm, rfl⟩ := ho
    refine Or.inl ⟨o, hm, by split <;> rfl, ?_⟩
    by_cases hid : o.id = id
    · subst hid
      rw [if_pos (by simp)]
      exact Or.inr ⟨rfl, rfl, tx, e, mine, sound, writes, Table.self_mem_insert ins⟩
    · rw [if_neg (by simpa using hid)]
      exact Or.inl rfl
  | _ => exact Or.inl (hsame ho)

theorem outbox_origin (h : Effect p newId w c w₁) {e' : OutboxEvent} (he : e' ∈ w₁.outbox) :
    (∃ e ∈ w.outbox, e'.core = e.core ∧ (e' = e ∨
      (c = .outbox (.claim e.id) ∧ e'.status = e.status) ∨
      ∃ u, c = .outbox (.update e.id u) ∧ e' = u.apply e)) ∨
    c = .tx .commit ∧ ∃ tx id, w.txOf p = some tx ∧ tx.aborted = false ∧
      tx.writes = [.orderStatus id .CONFIRMED, .outbox e'] ∧
      ∀ o ∈ w₁.orders, o.id = id → o.status = .CONFIRMED := by
  have hsame : e' ∈ w.outbox → ∃ e ∈ w.outbox, e'.core = e.core ∧ (e' = e ∨
      (c = .outbox (.claim e.id) ∧ e'.status = e.status) ∨
      ∃ u, c = .outbox (.update e.id u) ∧ e' = u.apply e) :=
    fun he => ⟨e', he, rfl, Or.inl rfl⟩
  cases h with
  | claim id =>
    simp only [Table.mem_modify] at he
    obtain ⟨e, hm, rfl⟩ := he
    refine Or.inl ⟨e, hm, by split <;> rfl, ?_⟩
    by_cases hid : (e.id == id && e.status == .PENDING) = true
    · have hid' : e.id = id := by simpa using (Bool.and_eq_true_iff.mp hid).1
      rw [if_pos hid, hid']
      exact Or.inr (Or.inl ⟨rfl, rfl⟩)
    · rw [if_neg hid]
      exact Or.inl rfl
  | outboxUpdate id u =>
    simp only [Table.mem_modify] at he
    obtain ⟨e, hm, rfl⟩ := he
    refine Or.inl ⟨e, hm, by split <;> rfl, ?_⟩
    by_cases hid : e.id = id
    · subst hid
      rw [if_pos (by simp)]
      exact Or.inr (Or.inr ⟨u, rfl, rfl⟩)
    · rw [if_neg (by simpa using hid)]
      exact Or.inl rfl
  | @confirm id e tx t mine sound writes ins =>
    rcases (Table.mem_insert ins).mp he with he | rfl
    · exact Or.inl (hsame he)
    · refine Or.inr ⟨rfl, tx, id, mine, sound, writes, fun o ho hid => ?_⟩
      simp only [Table.mem_modify] at ho
      obtain ⟨o, -, rfl⟩ := ho
      by_cases hid' : o.id = id
      · rw [if_pos (by simpa using hid')]
      · rw [if_neg (by simpa using hid')] at hid
        exact absurd hid hid'
  | _ => exact Or.inl (hsame he)

/-- What becomes of an outbox row. -/
theorem outbox_kept (h : Effect p newId w c w₁) {e : OutboxEvent} (he : e ∈ w.outbox) :
    e ∈ w₁.outbox ∨
    (c = .outbox (.claim e.id) ∧ e.status = .PENDING ∧
      { e with attempts := e.attempts + 1 } ∈ w₁.outbox) ∨
    ∃ u, c = .outbox (.update e.id u) ∧ u.apply e ∈ w₁.outbox := by
  cases h with
  | claim id =>
    simp only [Table.mem_modify]
    by_cases hid : (e.id == id && e.status == .PENDING) = true
    · obtain ⟨hid', hst⟩ := Bool.and_eq_true_iff.mp hid
      refine Or.inr (Or.inl ⟨?_, by simpa using hst, e, he, (if_pos hid).symm⟩)
      rw [show e.id = id by simpa using hid']
    · exact Or.inl ⟨e, he, (if_neg hid).symm⟩
  | outboxUpdate id u =>
    simp only [Table.mem_modify]
    by_cases hid : e.id = id
    · exact Or.inr (Or.inr ⟨u, by rw [hid], e, he, (if_pos (by simpa using hid)).symm⟩)
    · exact Or.inl ⟨e, he, (if_neg (by simpa using hid)).symm⟩
  | confirm mine sound writes ins => exact Or.inl (Table.mem_of_insert ins he)
  | _ => exact Or.inl he

/-- A call adds at most one outbox row, by the commit of a confirmation. -/
theorem outbox_cases (h : Effect p newId w c w₁) :
    (∀ e' ∈ w₁.outbox, ∃ e ∈ w.outbox, e'.core = e.core) ∨
    c = .tx .commit ∧ ∃ tx id e₁, w.txOf p = some tx ∧ tx.aborted = false ∧
      tx.writes = [.orderStatus id .CONFIRMED, .outbox e₁] ∧
      ∀ e' ∈ w₁.outbox, (∃ e ∈ w.outbox, e'.core = e.core) ∨ e' = e₁ := by
  by_cases hold : ∀ e' ∈ w₁.outbox, ∃ e ∈ w.outbox, e'.core = e.core
  · exact Or.inl hold
  · simp only [not_forall] at hold
    obtain ⟨e₁, he₁, hnew⟩ := hold
    rcases h.outbox_origin he₁ with ⟨e, he, hcore, -⟩ | ⟨hc, tx, id, hmine, hab, hw, -⟩
    · exact absurd ⟨e, he, hcore⟩ hnew
    · refine Or.inr ⟨hc, tx, id, e₁, hmine, hab, hw, fun e' he' => ?_⟩
      rcases h.outbox_origin he' with ⟨e, he, hcore, -⟩ | ⟨-, tx', id', hmine', -, hw', -⟩
      · exact Or.inl ⟨e, he, hcore⟩
      · rw [hmine] at hmine'
        cases hmine'
        rw [hw] at hw'
        cases hw'
        exact Or.inr rfl

/-- What becomes of an inbox row. -/
theorem inbox_kept (h : Effect p newId w c w₁) {e : InboxEvent} (he : e ∈ w.inbox) :
    e ∈ w₁.inbox ∨ ∃ u, c = .inbox (.update e.id u) ∧ u.apply e ∈ w₁.inbox := by
  cases h with
  | inboxInsert fresh ins => exact Or.inl (Table.mem_of_insert ins he)
  | inboxUpdate id u =>
    simp only [Table.mem_modify]
    by_cases hid : e.id = id
    · exact Or.inr ⟨u, by rw [hid], e, he, (if_pos (by simpa using hid)).symm⟩
    · exact Or.inl ⟨e, he, (if_neg (by simpa using hid)).symm⟩
  | _ => exact Or.inl he

theorem inbox_origin (h : Effect p newId w c w₁) {e' : InboxEvent} (he : e' ∈ w₁.inbox) :
    (∃ e ∈ w.inbox, e'.core = e.core ∧
      (e' = e ∨ ∃ u, c = .inbox (.update e.id u) ∧ e' = u.apply e)) ∨
    ∃ sid type payload, c = .inbox (.upsert sid type payload) ∧
      e' = InboxCall.created newId w.clock sid type payload ∧
      ∀ e ∈ w.inbox, e.sourceEventId ≠ sid := by
  have hsame : e' ∈ w.inbox → ∃ e ∈ w.inbox, e'.core = e.core ∧ (e' = e ∨
      ∃ u, c = .inbox (.update e.id u) ∧ e' = u.apply e) :=
    fun he => ⟨e', he, rfl, Or.inl rfl⟩
  cases h with
  | inboxInsert fresh ins =>
    rcases (Table.mem_insert ins).mp he with he | rfl
    · exact Or.inl (hsame he)
    · refine Or.inr ⟨_, _, _, rfl, rfl, fun e hm => ?_⟩
      simpa using Table.find?_none fresh hm
  | inboxUpdate id u =>
    simp only [Table.mem_modify] at he
    obtain ⟨e, hm, rfl⟩ := he
    refine Or.inl ⟨e, hm, by split <;> rfl, ?_⟩
    by_cases hid : e.id = id
    · subst hid
      rw [if_pos (by simp)]
      exact Or.inr ⟨u, rfl, rfl⟩
    · rw [if_neg (by simpa using hid)]
      exact Or.inl rfl
  | _ => exact Or.inl (hsame he)

/-- A row stored under a key was there before or is saved by this call. -/
theorem idem_origin (h : Effect p newId w c w₁) {row' : IdempotencyKey} (hr : row' ∈ w₁.idem) :
    row' ∈ w.idem ∨ ∃ row, c = .idem (.upsert row) ∧
      row'.key = row.key ∧ row'.scope = row.scope := by
  cases h with
  | idemInsert ins =>
    rcases (Table.mem_insert ins).mp hr with hr | rfl
    · exact Or.inl hr
    · exact Or.inr ⟨_, rfl, rfl, rfl⟩
  | idemUpdate row =>
    simp only [Table.mem_modify] at hr
    obtain ⟨row₀, hm, rfl⟩ := hr
    split
    · next hk =>
      obtain ⟨hkey, hscope⟩ := Bool.and_eq_true_iff.mp hk
      exact Or.inr ⟨row, rfl, by simpa using hkey, by simpa using hscope⟩
    · exact Or.inl hm
  | _ => exact Or.inl hr

/-- A stored row stays unless this call saves its key. -/
theorem idem_kept (h : Effect p newId w c w₁) {row : IdempotencyKey} (hr : row ∈ w.idem) :
    row ∈ w₁.idem ∨ ∃ row', c = .idem (.upsert row') ∧
      row.key = row'.key ∧ row.scope = row'.scope := by
  cases h with
  | idemInsert ins => exact Or.inl (Table.mem_of_insert ins hr)
  | idemUpdate row' =>
    by_cases hk : (row.key == row'.key && row.scope == row'.scope) = true
    · obtain ⟨hkey, hscope⟩ := Bool.and_eq_true_iff.mp hk
      exact Or.inr ⟨row', rfl, by simpa using hkey, by simpa using hscope⟩
    · refine Or.inl ?_
      simp only [Table.mem_modify]
      exact ⟨row, hr, (if_neg hk).symm⟩
  | _ => exact Or.inl hr

/-- The calls that change the orders or the outbox. -/
theorem orders_outbox (h : Effect p newId w c w₁) : (w₁.orders = w.orders ∧ w₁.outbox = w.outbox) ∨
    (∃ d, c = .orders (.create d)) ∨ (∃ id, c = .outbox (.claim id)) ∨
    (∃ id u, c = .outbox (.update id u)) ∨
    c = .tx .commit ∧ ∃ tx id e, w.txOf p = some tx ∧ tx.aborted = false ∧
      tx.writes = [.orderStatus id .CONFIRMED, .outbox e] := by
  cases h with
  | order fits ins => exact Or.inr (Or.inl ⟨_, rfl⟩)
  | claim id => exact Or.inr (Or.inr (Or.inl ⟨id, rfl⟩))
  | outboxUpdate id u => exact Or.inr (Or.inr (Or.inr (Or.inl ⟨id, u, rfl⟩)))
  | confirm mine sound writes ins =>
    exact Or.inr (Or.inr (Or.inr (Or.inr ⟨rfl, _, _, _, mine, sound, writes⟩)))
  | _ => exact Or.inl ⟨rfl, rfl⟩

/-- The ledger changes only by a commit that adds one entry. -/
theorem ledger_eq (h : Effect p newId w c w₁) :
    w₁.ledger = w.ledger ∨ c = .tx .commit ∧ ∃ tx e, w.txOf p = some tx ∧ tx.aborted = false ∧
      tx.writes = [.ledger e] := by
  cases h with
  | credit mine sound writes ins => exact Or.inr ⟨rfl, _, _, mine, sound, writes⟩
  | _ => exact Or.inl rfl

theorem ledger_origin (h : Effect p newId w c w₁) {e : LedgerEntry} (he : e ∈ w₁.ledger) :
    e ∈ w.ledger ∨ c = .tx .commit ∧ ∃ tx, w.txOf p = some tx ∧ tx.aborted = false ∧
      tx.writes = [.ledger e] := by
  cases h with
  | credit mine sound writes ins =>
    rcases (Table.mem_insert ins).mp he with he | rfl
    · exact Or.inl he
    · exact Or.inr ⟨rfl, _, mine, sound, writes⟩
  | _ => exact Or.inl he

/-- A message new on `order.events` was sent by this call. -/
theorem events_origin (h : Effect p newId w c w₁) :
    w₁.broker.events = w.broker.events ∨
      ∃ m, c = .kafka (.send .events m) ∧ w₁.broker.events = w.broker.events ++ [m] := by
  cases h with
  | publish m => exact Or.inr ⟨m, rfl, rfl⟩
  | _ => exact Or.inl rfl

theorem dlq_origin (h : Effect p newId w c w₁) :
    w₁.broker.dlq = w.broker.dlq ∨
      ∃ m, c = .kafka (.send .dlq m) ∧ w₁.broker.dlq = w.broker.dlq ++ [m] := by
  cases h with
  | deadLetter m => exact Or.inr ⟨m, rfl, rfl⟩
  | _ => exact Or.inl rfl

theorem committed_origin (h : Effect p newId w c w₁) :
    w₁.broker.committed = w.broker.committed ∨
      ∃ offset, c = .kafka (.commitOffset offset) ∧
        w₁.broker.committed = offset :: w.broker.committed := by
  cases h with
  | commitOffset offset => exact Or.inr ⟨offset, rfl, rfl⟩
  | _ => exact Or.inl rfl

/-- Redis changes only by its own calls. -/
theorem redis_origin (h : Effect p newId w c w₁) :
    w₁.redis = w.redis ∨ ∃ c', c = .redis c' ∧ w₁.redis = (c'.run w.clock w.redis).1 := by
  cases h with
  | redis c' => exact Or.inr ⟨c', rfl, rfl⟩
  | _ => exact Or.inl rfl

/-- The rules change only by their own calls. -/
theorem rules_origin (h : Effect p newId w c w₁) :
    w₁.rules = w.rules ∨ ∃ (c' : RuleCall) (x : Except Fault c'.Result),
      c = .rules c' ∧ c'.run w.rules = some (w₁.rules, x) := by
  cases h with
  | @rule c' t x run => exact Or.inr ⟨c', x, rfl, run⟩
  | _ => exact Or.inl rfl

end Effect

/-- A served call extends the world. -/
theorem exec_extends {r : Reply c} (hs : CommitsShaped p w c)
    (h : exec env p c ch w = some (w', r)) : w.Extends w' := by
  obtain ⟨w₁, he, rfl⟩ := exec_effect hs h
  exact he.grows.setTx _ _

theorem exec_txOf {r : Reply c} (hs : CommitsShaped p w c)
    (h : exec env p c ch w = some (w', r)) (q : Pid) :
    w'.txOf q = if q = p then c.txAfter r.1 (w.txOf p) else w.txOf q := by
  obtain ⟨w₁, he, rfl⟩ := exec_effect hs h
  have htx : ∀ q, w₁.txOf q = w.txOf q := fun q => by unfold World.txOf; rw [he.txs]
  rw [World.settle, World.txOf_setTx, htx, htx]

theorem kill_extends (p : Pid) (w : World) : w.Extends (kill p w) :=
  (World.Extends.refl w).setTx p none

theorem outside_extends {e : Outside} (h : outside e w = some w') : w.Extends w' := by
  have hr := World.Extends.refl w
  cases e with
  | tick ms =>
    cases h
    exact { hr with clock := Nat.le_add_right _ _ }
  | produce m =>
    cases h
    exact { hr with events := List.prefix_append _ _ }
  | rewind offset =>
    cases h
    exact { hr with }

theorem outside_txOf {e : Outside} (h : outside e w = some w') (q : Pid) :
    w'.txOf q = w.txOf q := by
  cases e <;> cases h <;> rfl

end

end CashbackLedger
