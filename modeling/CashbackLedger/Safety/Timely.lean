import CashbackLedger.Protocol.Timing
import CashbackLedger.Run.Writes
import CashbackLedger.Safety.Delivery
import CashbackLedger.Safety.Ledger
import CashbackLedger.Safety.Runs

/-
  Times are in order.

  Whatever calls fail and however the processes are interleaved: nothing is dated before it was
  created or after now, a SENT or PROCESSED row says when it was, no row waits for more than half a
  minute from now, no key of a request for more than a day, no cached rule for more than its TTL and
  no lock for more than its own (`times_in_order`). A process postpones a row by the time of its
  last reply, and that is not before the row was created, because it has read the row (`Seen`). All
  processes, the database and Redis read one clock.

  Nor is anything dated before its cause: an event follows its order, the inbox row its event, the
  mark PROCESSED its row (`effects_follow_causes`).
-/

namespace CashbackLedger

open Lib History

/-- The times of an outbox row. -/
structure OutboxEvent.InOrder (now : Time) (e : OutboxEvent) : Prop where
  created : e.createdAt ≤ now
  waits : e.createdAt ≤ e.availableAt ∧ e.availableAt ≤ now + 30000
  sentAt : ∀ t, e.sentAt = some t → e.createdAt ≤ t ∧ t ≤ now
  sent : e.status = .SENT → e.sentAt.isSome = true

/-- The times of an inbox row. -/
structure InboxEvent.InOrder (now : Time) (e : InboxEvent) : Prop where
  created : e.createdAt ≤ now
  waits : e.createdAt ≤ e.availableAt ∧ e.availableAt ≤ now + 30000
  processedAt : ∀ t, e.processedAt = some t → e.createdAt ≤ t ∧ t ≤ now
  processed : e.status = .PROCESSED → e.processedAt.isSome = true

/-- An entry of Redis is a cached rule or the lock of a merchant, and expires by the time that it
    was given. -/
inductive RedisEntry.InOrder (env : Env) (now : Time) (e : RedisEntry) : Prop where
  | rule (m : String) (payload : CachedCashbackRule) (key : e.key = ruleKey m)
      (value : e.value = some payload.json)
      (expires : e.expiresAt ≤ now + env.cacheTtlSeconds * 1000)
  | lock (m : String) (key : e.key = ruleKey m ++ ":lock") (value : e.value = some (.num 1))
      (expires : e.expiresAt ≤ now + env.lockTtlMs)

/-- The times of all stores. -/
structure World.InOrder (env : Env) (w : World) : Prop where
  orders : ∀ o ∈ w.orders, o.createdAt ≤ w.clock
  outbox : ∀ e ∈ w.outbox, e.InOrder w.clock
  inbox : ∀ e ∈ w.inbox, e.InOrder w.clock
  idem : ∀ k ∈ w.idem, ∃ t, k.expiresAt = some t ∧ t ≤ w.clock + 24 * 3600 * 1000
  redis : ∀ e ∈ w.redis, e.InOrder env w.clock

/-- The order of the event was created before it. -/
def OutboxEvent.Follows (w : World) (e : OutboxEvent) : Prop :=
  ∃ o ∈ w.orders, e.aggregateId = o.id.text ∧ o.createdAt ≤ e.createdAt

/-- The event of the inbox row was created before it. -/
def InboxEvent.Follows (w : World) (i : InboxEvent) : Prop :=
  ∃ e ∈ w.outbox, i.sourceEventId = e.id.text ∧ e.createdAt ≤ i.createdAt

/-- The rows a process has read were created before its newest reply. -/
structure Seen (l : History) : Prop where
  outbox : ∀ e, OutboxBatch l e → e.createdAt ≤ l.now
  inbox : ∀ e, InboxBatch l e → e.createdAt ≤ l.now
  upserted : ∀ sid type payload e, Got l (.inbox (.upsert sid type payload)) e → e.createdAt ≤ l.now

/-- The stores, what is about to be written, and what the processes have read. -/
structure TimesInOrder (env : Env) (s : State) : Prop where
  stores : s.world.InOrder env
  events : ∀ e ∈ s.world.outbox, e.Follows s.world
  writes : ∀ p e, s.world.Writes p (.outbox e) → e.InOrder s.world.clock ∧ e.Follows s.world
  seen : ∀ p pr, s.proc p = some pr → Seen pr.log ∧ History.now pr.log ≤ s.world.clock

section

variable {env : Env} {p : Pid} {newId : Uuid} {w w' w₁ : World} {l : History} {c : Call} {t : Task}
  {now now' time : Time}

/-! ## Rows -/

theorem OutboxEvent.InOrder.mono {e : OutboxEvent} (h : e.InOrder now) (hle : now ≤ now') :
    e.InOrder now' where
  created := Nat.le_trans h.created hle
  waits := ⟨h.waits.1, Nat.le_trans h.waits.2 (Nat.add_le_add_right hle _)⟩
  sentAt t ht := ⟨(h.sentAt t ht).1, Nat.le_trans (h.sentAt t ht).2 hle⟩
  sent := h.sent

theorem InboxEvent.InOrder.mono {e : InboxEvent} (h : e.InOrder now) (hle : now ≤ now') :
    e.InOrder now' where
  created := Nat.le_trans h.created hle
  waits := ⟨h.waits.1, Nat.le_trans h.waits.2 (Nat.add_le_add_right hle _)⟩
  processedAt t ht := ⟨(h.processedAt t ht).1, Nat.le_trans (h.processedAt t ht).2 hle⟩
  processed := h.processed

theorem RedisEntry.InOrder.mono {e : RedisEntry} (h : e.InOrder env now) (hle : now ≤ now') :
    e.InOrder env now' := by
  cases h with
  | rule m payload key value expires =>
    exact .rule m payload key value (Nat.le_trans expires (Nat.add_le_add_right hle _))
  | lock m key value expires =>
    exact .lock m key value (Nat.le_trans expires (Nat.add_le_add_right hle _))

/-- An update at a time between the creation and now. -/
theorem OutboxEvent.InOrder.apply {e : OutboxEvent} {u : OutboxUpdate} (h : e.InOrder now)
    (hu : u.Timed time) (hcreated : e.createdAt ≤ time) (hnow : time ≤ now) :
    (u.apply e).InOrder now where
  created := h.created
  waits := by
    show e.createdAt ≤ u.availableAt.getD e.availableAt ∧
      u.availableAt.getD e.availableAt ≤ now + 30000
    cases hav : u.availableAt with
    | none => exact h.waits
    | some t =>
      obtain ⟨hfrom, hto⟩ := hu.availableAt t hav
      exact ⟨Nat.le_trans hcreated hfrom, Nat.le_trans hto (Nat.add_le_add_right hnow _)⟩
  sentAt t ht := by
    change u.sentAt.getD e.sentAt = some t at ht
    cases hsent : u.sentAt with
    | none =>
      rw [hsent] at ht
      exact h.sentAt t ht
    | some at? =>
      rw [hsent] at ht
      obtain rfl : at? = some t := ht
      obtain rfl := hu.sentAt t hsent
      exact ⟨hcreated, hnow⟩
  sent hstatus := by
    show (u.sentAt.getD e.sentAt).isSome = true
    rcases OutboxUpdate.status_apply hstatus with hold | hnew
    · cases hsent : u.sentAt with
      | none => exact h.sent hold
      | some at? =>
        cases at? with
        | some t => rfl
        | none =>
          have hpending : (u.apply e).status = .PENDING := by
            unfold OutboxUpdate.apply
            rw [hu.unset hsent]
            rfl
          rw [hstatus] at hpending
          cases hpending
    · rw [hu.sent hnew]
      rfl

theorem InboxEvent.InOrder.apply {e : InboxEvent} {u : InboxUpdate} (h : e.InOrder now)
    (hu : u.Timed time) (hcreated : e.createdAt ≤ time) (hnow : time ≤ now) :
    (u.apply e).InOrder now where
  created := h.created
  waits := by
    show e.createdAt ≤ u.availableAt.getD e.availableAt ∧
      u.availableAt.getD e.availableAt ≤ now + 30000
    cases hav : u.availableAt with
    | none => exact h.waits
    | some t =>
      obtain ⟨hfrom, hto⟩ := hu.availableAt t hav
      exact ⟨Nat.le_trans hcreated hfrom, Nat.le_trans hto (Nat.add_le_add_right hnow _)⟩
  processedAt t ht := by
    change u.processedAt.getD e.processedAt = some t at ht
    cases hprocessed : u.processedAt with
    | none =>
      rw [hprocessed] at ht
      exact h.processedAt t ht
    | some at? =>
      rw [hprocessed] at ht
      obtain rfl : at? = some t := ht
      cases hu.processedAt _ hprocessed
      exact ⟨hcreated, hnow⟩
  processed hstatus := by
    show (u.processedAt.getD e.processedAt).isSome = true
    rcases InboxUpdate.status_apply hstatus with hold | hnew
    · cases hprocessed : u.processedAt with
      | none => exact h.processed hold
      | some at? =>
        cases hu.processedAt at? hprocessed
        rfl
    · rw [hu.processed hnew]
      rfl

/-! ## Calls -/

/-- An entry of Redis was there before, or lives for the time it was given. -/
theorem RedisCall.expires {rc : RedisCall} (htimed : TimedCall env l (.redis rc))
    {store : List RedisEntry} {e : RedisEntry} (he : e ∈ (rc.run now store).1) :
    e ∈ store ∨ e.InOrder env now := by
  have hdelete : ∀ {key}, e ∈ RedisCall.delete key store → e ∈ store :=
    fun h => (List.mem_filter.mp h).1
  cases rc with
  | get key => exact Or.inl he
  | del key => exact Or.inl (hdelete he)
  | set key value seconds =>
    obtain ⟨rfl, m, payload, hkey, hvalue⟩ := htimed
    rcases List.mem_cons.mp he with rfl | he
    · exact Or.inr (.rule m payload hkey hvalue (Nat.le_refl _))
    · exact Or.inl (hdelete he)
  | setNx key ms =>
    obtain ⟨rfl, m, hkey⟩ := htimed
    unfold RedisCall.run at he
    dsimp only at he
    split at he
    · exact Or.inl he
    · rcases List.mem_cons.mp he with rfl | he
      · exact Or.inr (.lock m hkey rfl (Nat.le_refl _))
      · exact Or.inl (hdelete he)

/-- The row that an outbox update is for was created before the newest reply. -/
theorem Seen.outboxUpdate {id : Uuid} {u : OutboxUpdate} {e : OutboxEvent} (h : Seen l)
    (hl : LogSound env w l) (hc : t.Calls env l (.outbox (.update id u))) (he : e ∈ w.outbox)
    (hid : e.id = id) : e.createdAt ≤ l.now := by
  have hbatch : ∃ e₀, OutboxBatch l e₀ ∧ e₀.id = id := by
    rcases hc.outboxUpdate with ⟨-, -, -, e₀, hb, hid₀, -⟩ | ⟨argv, -, -, e₀, hb, hid₀⟩
    · exact ⟨e₀, hb, hid₀⟩
    · exact ⟨e₀, hb, hid₀⟩
  obtain ⟨e₀, hb, hid₀⟩ := hbatch
  have hcore := (hb.row hl).core_eq he (hid₀.trans hid.symm)
  rw [(OutboxEvent.of_core hcore).2.2.2.2]
  exact h.outbox e₀ hb

/-- The row that an inbox update is for was created before the newest reply. -/
theorem Seen.inboxUpdate {id : Uuid} {u : InboxUpdate} {e : InboxEvent} (h : Seen l)
    (hl : LogSound env w l) (hc : t.Calls env l (.inbox (.update id u))) (he : e ∈ w.inbox)
    (hid : e.id = id) : e.createdAt ≤ l.now := by
  have hread : ∃ e₀, w.HasInbox e₀ ∧ e₀.createdAt ≤ l.now ∧ e₀.id = id := by
    have hbatch : ∀ {e₀}, InboxBatch l e₀ → e₀.id = id →
        ∃ e₀, w.HasInbox e₀ ∧ e₀.createdAt ≤ l.now ∧ e₀.id = id := by
      intro e₀ hb hid₀
      exact ⟨e₀, hb.row hl, h.inbox e₀ hb, hid₀⟩
    cases t with
    | consume offset =>
      obtain ⟨-, sid, payload, row, -, hgot, hrow, -⟩ := hc
      obtain ⟨_, hstored, -⟩ := hl.got hgot
      exact ⟨row, hstored, h.upserted _ _ _ row hgot, hrow⟩
    | retryInbox =>
      obtain ⟨-, e₀, hattempt, hid₀, -⟩ := hc
      exact hbatch hattempt.2 hid₀
    | replay argv =>
      obtain ⟨-, e₀, hb, hid₀⟩ := hc
      exact hbatch hb hid₀
    | _ => exact hc.uses.elim
  obtain ⟨e₀, hstored, hcreated, hid₀⟩ := hread
  have hcore := hstored.core_eq he (hid₀.trans hid.symm)
  rw [(InboxEvent.of_core hcore).2.2.2.2]
  exact hcreated

/-- What a process has read by now was created by now. -/
theorem seen_of_sound (hl : LogSound env w l) (hw : w.InOrder env)
    (hnow : l.now = w.clock) : Seen l where
  outbox e hb := by
    obtain ⟨e', he', hcore⟩ := hb.row hl
    rw [hnow, ← (OutboxEvent.of_core hcore).2.2.2.2]
    exact (hw.outbox e' he').created
  inbox e hb := by
    obtain ⟨e', he', hcore⟩ := hb.row hl
    rw [hnow, ← (InboxEvent.of_core hcore).2.2.2.2]
    exact (hw.inbox e' he').created
  upserted sid type payload e hgot := by
    obtain ⟨_, ⟨e', he', hcore⟩, -⟩ := hl.got hgot
    rw [hnow, ← (InboxEvent.of_core hcore).2.2.2.2]
    exact (hw.inbox e' he').created

/-- A call leaves the times in order. -/
theorem World.InOrder.effect (h : w.InOrder env) (hl : LogSound env w l) (hc : t.Calls env l c)
    (htimed : TimedCall env l c) (hseen : Seen l) (hnow : l.now ≤ w.clock)
    (hwrites : ∀ e, w.Writes p (.outbox e) → e.InOrder w.clock ∧ e.Follows w)
    (heff : Effect p newId w c w₁) : w₁.InOrder env := by
  cases heff with
  | order fits ins =>
    refine { h with orders := fun o ho => ?_ }
    rcases (Table.mem_insert ins).mp ho with ho | rfl
    · exact h.orders o ho
    · exact Nat.le_refl _
  | idemInsert ins =>
    refine { h with idem := fun k hk => ?_ }
    rcases (Table.mem_insert ins).mp hk with hk | rfl
    · exact h.idem k hk
    · exact ⟨_, htimed, Nat.add_le_add_right hnow _⟩
  | idemUpdate row =>
    refine { h with idem := fun k hk => ?_ }
    simp only [Table.mem_modify] at hk
    obtain ⟨k₀, hk₀, rfl⟩ := hk
    split
    · exact ⟨_, htimed, Nat.add_le_add_right hnow _⟩
    · exact h.idem k₀ hk₀
  | claim id =>
    refine { h with outbox := fun e he => ?_ }
    simp only [Table.mem_modify] at he
    obtain ⟨e₀, he₀, rfl⟩ := he
    have hold := h.outbox e₀ he₀
    split
    · exact ⟨hold.created, hold.waits, hold.sentAt, hold.sent⟩
    · exact hold
  | outboxUpdate id u =>
    refine { h with outbox := fun e he => ?_ }
    simp only [Table.mem_modify] at he
    obtain ⟨e₀, he₀, rfl⟩ := he
    split
    · next hid =>
      exact (h.outbox e₀ he₀).apply htimed (hseen.outboxUpdate hl hc he₀ (beq_iff_eq.mp hid)) hnow
    · exact h.outbox e₀ he₀
  | inboxInsert fresh ins =>
    refine { h with inbox := fun e he => ?_ }
    rcases (Table.mem_insert ins).mp he with he | rfl
    · exact h.inbox e he
    · exact ⟨Nat.le_refl _, ⟨Nat.le_refl _, Nat.le_add_right _ _⟩,
        (fun t ht => by cases ht), (fun hst => by cases hst)⟩
  | inboxUpdate id u =>
    refine { h with inbox := fun e he => ?_ }
    simp only [Table.mem_modify] at he
    obtain ⟨e₀, he₀, rfl⟩ := he
    split
    · next hid =>
      exact (h.inbox e₀ he₀).apply htimed (hseen.inboxUpdate hl hc he₀ (beq_iff_eq.mp hid)) hnow
    · exact h.inbox e₀ he₀
  | redis rc =>
    exact { h with redis := fun e he => (RedisCall.expires htimed he).elim (h.redis e) id }
  | confirm mine sound writes ins =>
    refine { h with orders := fun o ho => ?_, outbox := fun e he => ?_ }
    · simp only [Table.mem_modify] at ho
      obtain ⟨o₀, ho₀, rfl⟩ := ho
      split
      · exact h.orders o₀ ho₀
      · exact h.orders o₀ ho₀
    · rcases (Table.mem_insert ins).mp he with he | rfl
      · exact h.outbox e he
      · exact (hwrites _
          ⟨_, mine, by rw [writes]; exact List.mem_cons_of_mem _ List.mem_cons_self⟩).1
  | _ => exact { h with }

/-! ## Causes -/

theorem OutboxEvent.Follows.mono {e : OutboxEvent} (h : e.Follows w) (hw : w.Extends w') :
    e.Follows w' := by
  obtain ⟨o, ho, hid, hcreated⟩ := h
  obtain ⟨o', ho', hcore, -⟩ := hw.orders o ho
  obtain ⟨hid', -, -, -, -, hcreated'⟩ := Order.of_core hcore
  exact ⟨o', ho', by rw [hid, hid'], by rw [hcreated']; exact hcreated⟩

theorem InboxEvent.Follows.mono {i : InboxEvent} (h : i.Follows w) (hw : w.Extends w') :
    i.Follows w' := by
  obtain ⟨e, he, hid, hcreated⟩ := h
  obtain ⟨e', he', hcore⟩ := hw.outbox e he
  obtain ⟨hid', -, -, -, hcreated'⟩ := OutboxEvent.of_core hcore
  exact ⟨e', he', by rw [hid, hid'], by rw [hcreated']; exact hcreated⟩

theorem Wrote.inOrder {e : OutboxEvent} {r : Reply c} {ch : Choice} (hx : Wrote c r (.outbox e))
    (h : exec env p c ch w = some (w', r)) : e.InOrder w.clock := by
  obtain ⟨-, hcreated, havailable, hsent, hstatus⟩ := hx.outbox h
  refine ⟨hcreated.le, ⟨(hcreated.trans havailable.symm).le, ?_⟩, fun t ht => ?_, fun hst => ?_⟩
  · rw [havailable]
    exact Nat.le_add_right _ _
  · rw [hsent] at ht
    cases ht
  · rw [hstatus] at hst
    cases hst

/-- An event that is written names the order that its transaction has confirmed. -/
theorem Wrote.follows {e : OutboxEvent} {r : Reply c} {ch : Choice} (hc : t.Calls env l c)
    (hl : LogSound env w l) (hw : w.InOrder env) (hx : Wrote c r (.outbox e))
    (h : exec env p c ch w = some (w', r)) : e.Follows w := by
  have hcreated := (hx.outbox h).2.1
  cases hx with
  | @intro st a now _ written =>
    cases st with
    | outboxCreate d =>
      cases List.mem_singleton.mp written
      obtain ⟨hagg, -⟩ := stmt_fact (l := l) (stmt_run h)
      cases t with
      | confirm header id =>
        obtain ⟨o, now', hgot, rfl⟩ := hc
        obtain ⟨_, -, -, o', ho', hcore⟩ := hl.got hgot
        refine ⟨o', ho', ?_, hcreated ▸ hw.orders o' ho'⟩
        rw [hagg, Order.id_of_core hcore]
        rfl
      | consume offset =>
        obtain ⟨_, _, -, hcall⟩ := hc
        exact hcall.elim
      | retryInbox =>
        obtain ⟨-, _, -, hcall⟩ := hc
        exact hcall.elim
      | _ => exact hc.uses.elim
    | orderUpdate id status => cases List.mem_singleton.mp written
    | ledgerCreate d => cases List.mem_singleton.mp written
    | _ => exact absurd written List.not_mem_nil

/-- The events follow their orders after a call, too. -/
theorem Effect.events (h : ∀ e ∈ w.outbox, e.Follows w)
    (hwrites : ∀ e, w.Writes p (.outbox e) → e.Follows w) (heff : Effect p newId w c w₁) :
    ∀ e ∈ w₁.outbox, e.Follows w₁ := by
  intro e he
  rcases heff.outbox_origin he with ⟨e₀, he₀, hcore, -⟩ | ⟨-, tx, id, mine, -, hw, -⟩
  · obtain ⟨-, hagg, -, -, hcreated⟩ := OutboxEvent.of_core hcore
    obtain ⟨o, ho, hid, hle⟩ := (h e₀ he₀).mono heff.grows
    exact ⟨o, ho, hagg.trans hid, by rw [hcreated]; exact hle⟩
  · exact (hwrites e
      ⟨tx, mine, by rw [hw]; exact List.mem_cons_of_mem _ List.mem_cons_self⟩).mono heff.grows

/-- An inbox row that is added follows the event that was delivered. -/
theorem Effect.inboxFollows (h : ∀ i ∈ w.inbox, i.Follows w) (hw : w.InOrder env)
    (hI : Stores env w) (hconf : Confirmations env w) (hl : LogSound env w l) (hc : t.Calls env l c)
    (heff : Effect p newId w c w₁) : ∀ i ∈ w₁.inbox, i.Follows w₁ := by
  intro i hi
  rcases heff.inbox_origin hi with ⟨i₀, hi₀, hcore, -⟩ | ⟨sid, type, payload, rfl, rfl, -⟩
  · obtain ⟨-, hsid, -, -, hcreated⟩ := InboxEvent.of_core hcore
    obtain ⟨e, he, hid, hle⟩ := (h i₀ hi₀).mono heff.grows
    exact ⟨e, he, hsid.trans hid, by rw [hcreated]; exact hle⟩
  · obtain ⟨offset, rfl, rfl, hd⟩ := hc.inboxUpsert
    obtain ⟨e, he, hsid, -⟩ := hd.genuine hI hconf hl
    have hfollows : (InboxCall.created newId w.clock sid "OrderConfirmed" payload).Follows w :=
      ⟨e, he, hsid, (hw.outbox e he).created⟩
    exact hfollows.mono heff.grows

/-! ## Every run -/

theorem World.InOrder.setTx (h : w.InOrder env) (p : Pid) (tx : Option Tx) :
    (w.setTx p tx).InOrder env :=
  ⟨h.orders, h.outbox, h.inbox, h.idem, h.redis⟩

theorem World.InOrder.tick (h : w.InOrder env) (ms : Nat) :
    ({ w with clock := w.clock + ms } : World).InOrder env where
  orders o ho := Nat.le_trans (h.orders o ho) (Nat.le_add_right _ _)
  outbox e he := (h.outbox e he).mono (Nat.le_add_right _ _)
  inbox e he := (h.inbox e he).mono (Nat.le_add_right _ _)
  idem k hk := by
    obtain ⟨t, ht, hle⟩ := h.idem k hk
    exact ⟨t, ht, Nat.le_trans hle (Nat.add_le_add_right (Nat.le_add_right _ _) _)⟩
  redis e he := (h.redis e he).mono (Nat.le_add_right _ _)

theorem initial_inOrder (env : Env) : initial.world.InOrder env :=
  ⟨fun o ho => absurd ho (Table.not_mem_empty o), fun e he => absurd he (Table.not_mem_empty e),
    fun e he => absurd he (Table.not_mem_empty e), fun k hk => absurd hk (Table.not_mem_empty k),
    fun _ he => absurd he List.not_mem_nil⟩

theorem seen_nil : Seen [] where
  outbox e hb := by
    obtain ⟨sel, take, es, ⟨now, hm⟩, -⟩ := hb
    exact absurd hm List.not_mem_nil
  inbox e hb := by
    obtain ⟨sel, take, es, ⟨now, hm⟩, -⟩ := hb
    exact absurd hm List.not_mem_nil
  upserted sid type payload e hgot := by
    obtain ⟨now, hm⟩ := hgot
    exact absurd hm List.not_mem_nil

theorem timesInOrder {ok : State → Step → Prop} {s : State}
    (h : Reach (system env) ok (· = initial) s) : TimesInOrder env s := by
  induction h with
  | start heq =>
    subst heq
    refine ⟨initial_inOrder env, fun e he => absurd he (Table.not_mem_empty e),
      ?_, fun p pr hp => by cases hp⟩
    rintro p e ⟨tx, htx, -⟩
    cases htx
  | @next s s' lb hr hmet hstep ih =>
    have hsound := sound fresh_of_initial (Reach.next hr hmet hstep)
    cases Machine.step_cases hstep with
    | spawn free =>
      exact ⟨ih.stores, ih.events, ih.writes,
        Pool.forall_put ⟨seen_nil, Nat.zero_le _⟩ fun q pr _ => ih.seen q pr⟩
    | crash alive =>
      have hseen := ih.seen _ _ alive
      exact ⟨ih.stores.setTx _ _, ih.events, fun q e he => ih.writes q e he.of_killed,
        Pool.forall_put hseen fun q pr _ => ih.seen q pr⟩
    | @move x w moved =>
      cases x with
      | tick ms =>
        cases moved
        refine ⟨ih.stores.tick ms, ih.events, fun q e he => ?_, fun q pr hq => ?_⟩
        · exact ⟨(ih.writes q e he).1.mono (Nat.le_add_right _ _), (ih.writes q e he).2⟩
        · exact ⟨(ih.seen q pr hq).1, Nat.le_trans (ih.seen q pr hq).2 (Nat.le_add_right _ _)⟩
      | produce m =>
        cases moved
        exact ⟨⟨ih.stores.orders, ih.stores.outbox,
          ih.stores.inbox, ih.stores.idem, ih.stores.redis⟩,
          ih.events, ih.writes, ih.seen⟩
      | rewind offset =>
        cases moved
        exact ⟨⟨ih.stores.orders, ih.stores.outbox,
          ih.stores.inbox, ih.stores.idem, ih.stores.redis⟩,
          ih.events, ih.writes, ih.seen⟩
    | @call p ch t l c k w r at_call served =>
      have hs := sound fresh_of_initial hr
      have hc := (hr.sat (task_sat env) (fun s hs => (fresh_of_initial s hs).1) at_call).1
      have htimed := (hr.sat (timed_sat env) (fun s hs => (fresh_of_initial s hs).1) at_call).1
      have hl := hs.logs p _ at_call
      have hshaped := hs.shaped at_call hc
      obtain ⟨hseen, hnow⟩ := ih.seen p _ at_call
      obtain ⟨hclock, htime⟩ := exec_clock served
      obtain ⟨w₁, heff, heq⟩ := exec_effect hshaped served
      have hstores : w.InOrder env := by
        rw [heq]
        exact (ih.stores.effect hl hc htimed hseen hnow (ih.writes p) heff).setTx _ _
      have hevents := heff.events ih.events fun e he => (ih.writes p e he).2
      have hgrows : s.world.Extends w := by
        rw [heq]
        exact heff.grows.setTx _ _
      refine ⟨hstores, by rw [heq]; exact hevents,
        fun q e he => ?_, Pool.forall_put ?_ fun q pr _ hq => ?_⟩
      · show e.InOrder w.clock ∧ e.Follows w
        rw [hclock]
        rcases writes_exec hshaped served he with hold | ⟨-, hnew⟩
        · exact ⟨(ih.writes q e hold).1, (ih.writes q e hold).2.mono hgrows⟩
        · exact ⟨hnew.inOrder served, (hnew.follows hc hl ih.stores served).mono hgrows⟩
      · have hnow' : History.now (⟨c, r⟩ :: l) = w.clock := htime.trans hclock.symm
        have hlog := hsound.logs p _ (Pool.put_self s w p _)
        exact ⟨seen_of_sound hlog hstores hnow', hnow'.le⟩
      · exact ⟨(ih.seen q pr hq).1, Nat.le_trans (ih.seen q pr hq).2 hclock.ge⟩

theorem inboxFollows {ok : State → Step → Prop} (hown : ∀ s lb, ok s lb → ownTopic lb = true)
    {s : State} (h : Reach (system env) ok (· = initial) s) :
    ∀ i ∈ s.world.inbox, i.Follows s.world := by
  refine world_invariant (I := fun w => ∀ i ∈ w.inbox, i.Follows w) fresh_of_initial ?_ ?_ ?_ ?_ h
  · rintro s rfl i hi
    exact absurd hi (Table.not_mem_empty i)
  · exact fun w p tx hI => hI
  · intro s p ch t l c k w hr hI _ _ hl _ hc heff
    exact heff.inboxFollows hI (timesInOrder hr).stores (stores hown hr) (confirmations hr) hl hc
  · intro s e w hI hmet hw
    cases e with
    | tick ms =>
      cases hw
      exact hI
    | produce m => cases hown _ _ hmet
    | rewind offset =>
      cases hw
      exact hI

/-- In every reachable state the times of the stores are in order. -/
theorem times_in_order (env : Env) {s : State} (h : Reach (system env) anyStep (· = initial) s) :
    s.world.InOrder env := (timesInOrder h).stores

open Platform in
/-- The consumer cannot handle its event: the row waits for half a minute. -/
def postponedEvent : List Step := createAndConfirm ++ publishEvent ++ storeEvent ++ failedAttempt 4

/-- A row that waits beyond now, after its event was sent. -/
theorem times_in_order_run : ∃ s e i,
    (system (platform id)).run initial postponedEvent = some s ∧ s.world.InOrder (platform id) ∧
    e ∈ s.world.outbox ∧ e.status = .SENT ∧ i ∈ s.world.inbox ∧ s.world.clock < i.availableAt := by
  have hrun : (((system (platform id)).run initial postponedEvent).map fun s =>
      s.world.outbox.any (fun e => e.status == .SENT) &&
        s.world.inbox.any fun i => decide (s.world.clock < i.availableAt)) =
        some true := by decide +kernel
  obtain ⟨s, hs, hany⟩ := Option.map_eq_some_iff.mp hrun
  obtain ⟨hsent, hwaits⟩ := Bool.and_eq_true_iff.mp hany
  obtain ⟨e, he, hst⟩ := Table.any_iff.mp hsent
  obtain ⟨i, hi, hlt⟩ := Table.any_iff.mp hwaits
  exact ⟨s, e, i, hs, times_in_order (platform id) (reach_of_run hs), he, beq_iff_eq.mp hst, hi,
    of_decide_eq_true hlt⟩

/-- Where nobody else writes to the topic, behind every inbox row stand its event and the confirmed
    order of the event, created in this order; a PROCESSED row was processed after it was created,
    and its order is credited. -/
theorem effects_follow_causes (env : Env) {s : State}
    (h : Reach (system env) (fun _ lb => ownTopic lb = true) (· = initial) s) {i : InboxEvent}
    (hi : i ∈ s.world.inbox) :
    ∃ e ∈ s.world.outbox, ∃ o ∈ s.world.orders, i.sourceEventId = e.id.text ∧ EventOf e o ∧
      o.status = .CONFIRMED ∧ o.createdAt ≤ e.createdAt ∧ e.createdAt ≤ i.createdAt ∧
      (i.status = .PROCESSED → s.world.HasCredit o.id ∧
        ∃ t, i.processedAt = some t ∧ i.createdAt ≤ t ∧ t ≤ s.world.clock) := by
  have hown : ∀ (s : State) lb, ownTopic lb = true → ownTopic lb = true := fun _ _ hmet => hmet
  have hI := stores hown h
  obtain ⟨e, he, hsid, hcreated⟩ := inboxFollows hown h i hi
  obtain ⟨o, ho, hagg, horder⟩ := (timesInOrder h).events e he
  obtain ⟨htype, -, o', ho', hstatus, hagg', now, hpayload⟩ := (confirmations h).order e he
  have hoo : o' = o := Table.eq_of_clash ho' ho (by
    simp [Indexed.clash, Uuid.text_inj (hagg'.symm.trans hagg)])
  subst hoo
  refine ⟨e, he, o', ho, hsid, ⟨htype, hagg⟩, hstatus, horder, hcreated, fun hprocessed => ⟨?_, ?_⟩⟩
  · obtain ⟨id, hid, hcredit⟩ := hI.processed i hi hprocessed
    obtain ⟨e', he', hsid', hp⟩ := hI.stored i hi
    have hee : e' = e := Table.eq_of_clash he' he (by
      simp [Indexed.clash, Uuid.text_inj (hsid'.symm.trans hsid)])
    rw [hp, hee, hpayload, (confirmedPayload_of env o' now).orderId] at hid
    have hsame : o'.id = id := Option.some_inj.mp ((env.readUuid_text o'.id).symm.trans hid)
    exact hsame ▸ hcredit
  · have horder := (timesInOrder h).stores.inbox i hi
    obtain ⟨t, ht⟩ := Option.isSome_iff_exists.mp (horder.processed hprocessed)
    exact ⟨t, ht, horder.processedAt t ht⟩

/-- The chain behind a PROCESSED row. -/
theorem effects_follow_causes_run :
    ∃ s i e o, (system (platform id)).run initial creditOnce = some s ∧
    i ∈ s.world.inbox ∧ e ∈ s.world.outbox ∧ o ∈ s.world.orders ∧ EventOf e o ∧
    o.createdAt ≤ e.createdAt ∧ e.createdAt ≤ i.createdAt ∧
    ∃ t, i.processedAt = some t ∧ i.createdAt ≤ t ∧ t ≤ s.world.clock := by
  have hrun : (((system (platform id)).run initial creditOnce).map fun s =>
      s.world.inbox.any fun i => i.status == .PROCESSED) = some true := by decide +kernel
  obtain ⟨s, hs, hany⟩ := Option.map_eq_some_iff.mp hrun
  obtain ⟨i, hi, hst⟩ := Table.any_iff.mp hany
  have h0 : Reach (system (platform id)) (fun _ lb => ownTopic lb = true) (· = initial) initial :=
    .start rfl
  have hown : ∀ lb ∈ creditOnce, ownTopic lb = true := by decide +kernel
  have hreach := h0.of_run creditOnce (fun lb hm _ => hown lb hm) hs
  obtain ⟨e, he, o, ho, -, hevent, -, horder, hcreated, hprocessed⟩ :=
    effects_follow_causes (platform id) hreach hi
  exact ⟨s, i, e, o, hs, hi, he, ho, hevent, horder, hcreated, (hprocessed (beq_iff_eq.mp hst)).2⟩

end

end CashbackLedger
