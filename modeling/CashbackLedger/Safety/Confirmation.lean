import CashbackLedger.Safety.Runs

/-
  Confirmation and its event.

  `Confirmations` is the invariant that ties order status to outbox rows: a confirmed order has
  an event, and an event announces a confirmed order with the order's own fields. Both are
  written by one commit, so no interleaving, failure or crash separates them.

  A genuine event therefore never meets the guards of the handler
  (`confirmation_is_atomic`, last part).
-/

namespace CashbackLedger

open Lib History

/-- The outbox row is the confirmation event of the order. -/
def EventOf (e : OutboxEvent) (o : Order) : Prop :=
  e.type = "OrderConfirmed" ∧ e.aggregateId = o.id.text

/-- The payload names the order and repeats its fields. -/
structure PayloadOf (env : Env) (payload : Json) (o : Order) : Prop where
  orderId : payload.field "orderId" = some (.str o.id.text)
  userId : payload.field "userId" = some (.str o.userId)
  merchantId : payload.field "merchantId" = some (.str o.merchantId)
  amount : payload.field "amount" = some (.str (env.decimalText o.amount))
  currency : payload.field "currency" = some (.str o.currency)

/-- The outbox row announces a confirmed order. -/
def Announces (env : Env) (w : World) (e : OutboxEvent) : Prop :=
  e.type = "OrderConfirmed" ∧ e.payload.storable = true ∧ ∃ o ∈ w.orders, o.status = .CONFIRMED ∧
    e.aggregateId = o.id.text ∧ ∃ now, e.payload = confirmedPayload env o now

structure Confirmations (env : Env) (w : World) : Prop where
  event : ∀ o ∈ w.orders, o.status = .CONFIRMED → ∃ e ∈ w.outbox, EventOf e o
  order : ∀ e ∈ w.outbox, Announces env w e

theorem confirmedPayload_of (env : Env) (o : Order) (now : Time) :
    PayloadOf env (confirmedPayload env o now) o := by
  constructor <;> rfl

theorem confirmedPayload_core {env : Env} {o o' : Order} (h : o'.core = o.core) (now : Time) :
    confirmedPayload env o' now = confirmedPayload env o now := by
  have hcore : ∀ o : Order, confirmedPayload env o now = confirmedPayload env o.core now :=
    fun _ => rfl
  rw [hcore, hcore o, h]

section

variable {env : Env} {w w' : World} {e e' : OutboxEvent}

theorem Announces.mono (h : Announces env w e) (hw : w.Extends w') : Announces env w' e := by
  obtain ⟨htype, hst, o, ho, hstatus, hid, now, hp⟩ := h
  obtain ⟨o', ho', hcore, hstatus'⟩ := hw.orders o ho
  refine ⟨htype, hst, o', ho', hstatus' hstatus, ?_, now, ?_⟩
  · rw [hid, Order.id_of_core hcore]
  · rw [hp, confirmedPayload_core hcore]

theorem Announces.of_core (h : Announces env w e) (hc : e'.core = e.core) :
    Announces env w e' := by
  have hcore : ∀ e : OutboxEvent, Announces env w e.core ↔ Announces env w e := fun _ => Iff.rfl
  rw [← hcore, hc, hcore]
  exact h

/-- The event a confirming transaction commits announces the order it confirms. -/
theorem Confirming.announces {l : History} {id : String} {o : Order} (hl : LogSound env w l)
    (h : Confirming env l id o e) (hw : w.Extends w')
    (hdone : ∀ o' ∈ w'.orders, o'.id = o.id → o'.status = .CONFIRMED) : Announces env w' e := by
  obtain ⟨hu, now, hc⟩ := h
  obtain ⟨_, -, -, o', ho', hcore⟩ := hl.got hu
  obtain ⟨_, hagg, htype, hpayload, -, -, hst⟩ := hl.got hc
  obtain ⟨o'', ho'', hcore', -⟩ := hw.orders o' ho'
  have hcore'' := hcore'.trans hcore
  refine ⟨htype, hpayload ▸ hst, o'', ho'', hdone o'' ho'' (Order.id_of_core hcore''), ?_, now, ?_⟩
  · rw [hagg, Order.id_of_core hcore'']
    rfl
  · rw [hpayload, confirmedPayload_core hcore'']
    rfl

/-- Every effect keeps the invariant. -/
theorem Effect.confirmations {p : Pid} {t : Task} {l : History} {c : Call} {newId : Uuid}
    {w₁ : World} (hI : Confirmations env w) (hl : LogSound env w l) (htx : w.txOf p = l.tx)
    (hc : t.Calls env l c) (h : Effect p newId w c w₁) : Confirmations env w₁ := by
  have hkind : ∀ tx, c = .tx .commit → w.txOf p = some tx → tx.aborted = false →
      CommitKind env l tx.writes := by
    rintro tx rfl hmine hab
    exact hc.commit (htx ▸ hmine) hab
  constructor
  · intro o' ho' hstatus
    rcases h.order_origin ho' with ⟨o, ho, hcore, rfl | ⟨rfl, -, tx, e, hmine, hab, hw, he⟩⟩ |
      ⟨d, amount, rfl, -, rfl⟩
    · obtain ⟨e, he, htype, hid⟩ := hI.event o' ho hstatus
      obtain ⟨e', he', hc'⟩ := h.grows.outbox e he
      obtain ⟨-, hagg', htype', -, -⟩ := OutboxEvent.of_core hc'
      exact ⟨e', he', htype'.trans htype, hagg'.trans hid⟩
    · -- the commit that confirms the order stores its event
      have hk := hkind tx rfl hmine hab
      rw [hw] at hk
      generalize hid : o'.id = id at hk
      generalize hst : OrderStatus.CONFIRMED = st at hk
      cases hk with
      | confirm made =>
        obtain ⟨_, now, hout⟩ := made
        obtain ⟨_, hagg, htype, -⟩ := hl.got hout
        exact ⟨e, he, htype, by rw [hagg, hid]; rfl⟩
    · rw [show d.status = .CREATED from hc.orderCreated] at hstatus
      cases hstatus
  · intro e' he'
    rcases h.outbox_origin he' with ⟨e, he, hcore, -⟩ | ⟨rfl, tx, id, hmine, hab, hw, hdone⟩
    · exact ((hI.order e he).mono h.grows).of_core hcore
    · have hk := hkind tx rfl hmine hab
      rw [hw] at hk
      generalize hst : OrderStatus.CONFIRMED = st at hk
      cases hk with
      | @confirm _ o _ made =>
        exact made.announces hl h.grows hdone

end

section

variable {env : Env} {ok : State → Step → Prop} {s : State}

theorem initial_confirmations (env : Env) : Confirmations env initial.world :=
  ⟨fun o ho => absurd ho (Table.not_mem_empty o), fun e he => absurd he (Table.not_mem_empty e)⟩

theorem confirmations (h : Reach (system env) ok (· = initial) s) : Confirmations env s.world := by
  refine world_invariant fresh_of_initial ?_ ?_ ?_ ?_ h
  · rintro s rfl
    exact initial_confirmations env
  · exact fun w p tx hI => ⟨hI.event, hI.order⟩
  · exact fun s p ch t l c k w _ hI _ _ hl htx hc he => he.confirmations hI hl htx hc
  · intro s e w hI _ hw
    cases e <;> cases hw <;> exact ⟨hI.event, hI.order⟩

/-! ## Genuine events at the handler -/

/-- The event at hand comes from an outbox row: the consumer was handed the row's message, the
    retry loop works on an inbox row with the row's payload. -/
inductive Genuine (env : Env) (w : World) (l : History) : Task → Prop where
  | consume {offset : Nat} {e : OutboxEvent} (row : e ∈ w.outbox)
      (fetched : Got l (.kafka (.fetch offset)) (outboxMessage env e)) :
      Genuine env w l (.consume offset)
  | retry {e : OutboxEvent} {inbox : InboxEvent} (row : e ∈ w.outbox)
      (attempting : l.attempting = some inbox) (same : inbox.payload = e.payload) :
      Genuine env w l .retryInbox

/-- The message of an announcing row carries the row's id and payload. -/
theorem carries_outboxMessage {e : OutboxEvent} {sid : String} {payload : Json}
    {w : World} (he : Announces env w e) (h : Carries env (outboxMessage env e) sid payload) :
    sid = e.id.text ∧ payload = e.payload := by
  obtain ⟨-, -, o, -, -, -, now, hp⟩ := he
  obtain ⟨evt, hv, -, hsid, rfl⟩ := h
  cases hv
  exact ⟨(Option.some_inj.mp hsid).symm, by rw [hp]; rfl⟩

/-- The handler asks for the order that a genuine event announces. -/
theorem Genuine.asks {w : World} {t : Task} {l : History} {x : Option Json}
    (hI : Confirmations env w) (hl : LogSound env w l) (h : Genuine env w l t)
    (hc : t.Calls env l (.stmt (.orderFindUnique x))) :
    ∃ o ∈ w.orders, o.status = .CONFIRMED ∧ x = some (.str o.id.text) := by
  rcases hc.orderFindUnique with
    ⟨header, id, rfl, -⟩ | ⟨offset, sid, payload, rfl, ⟨m, hm, hcar⟩, rfl⟩ |
    ⟨inbox, rfl, ⟨hatt, -⟩, rfl⟩
  · cases h
  · cases h with
    | @consume _ e row fetched =>
      obtain ⟨_, hm'⟩ := hl.got hm
      obtain ⟨_, hm''⟩ := hl.got fetched
      have heq : m = outboxMessage env e := Option.some_inj.mp (hm'.symm.trans hm'')
      subst heq
      have he := hI.order e row
      obtain ⟨-, rfl⟩ := carries_outboxMessage he hcar
      obtain ⟨-, -, o, ho, hstatus, -, now, hp⟩ := he
      exact ⟨o, ho, hstatus, by rw [hp]; exact (confirmedPayload_of env o now).orderId⟩
  · cases h with
    | @retry e inbox' row attempting same =>
      have heq : inbox = inbox' := Option.some_inj.mp (hatt.symm.trans attempting)
      subst heq
      obtain ⟨-, -, o, ho, hstatus, -, now, hp⟩ := hI.order e row
      refine ⟨o, ho, hstatus, ?_⟩
      rw [same, hp]
      exact (confirmedPayload_of env o now).orderId

/-- A stored order is found by the text of its id. -/
theorem orderFindUnique_reply {p : Pid} {ch : Choice} {w w' : World} {o : Order} {r : Option Order}
    {now : Time} (ho : o ∈ w.orders)
    (h : exec env p (.stmt (.orderFindUnique (some (.str o.id.text)))) ch w =
      some (w', (.ok r, now))) : r = some o := by
  rcases exec_reply h with ⟨m, hm⟩ | ⟨w₁, hrun, -⟩
  · cases hm
  simp only [Call.run, TxCall.run] at hrun
  split at hrun
  · cases hrun
  split at hrun
  · cases hrun
  · obtain ⟨x, hx, he⟩ := Option.map_eq_some_iff.mp hrun
    cases he
    unfold TxStmt.run at hx
    simp only [readId, env.readUuid_text, Option.some.injEq, Except.ok.injEq] at hx
    rw [← hx]
    refine Table.find?_of_mem ho (by simp) fun b _ hb => ?_
    have hid : b.id = o.id := by simpa using hb
    simp [Indexed.clash, hid]

/-- Confirmation and event are atomic: in every reachable state an order is confirmed exactly
    when it has an event, each of its events repeats its fields, it stays confirmed, and the
    order a genuine event names passes the handler's guards. -/
theorem confirmation_is_atomic (env : Env) {s : State}
    (h : Reach (system env) anyStep (· = initial) s) :
    (∀ o ∈ s.world.orders, o.status = .CONFIRMED ↔ ∃ e ∈ s.world.outbox, EventOf e o) ∧
    (∀ o ∈ s.world.orders, ∀ e ∈ s.world.outbox, EventOf e o → PayloadOf env e.payload o) ∧
    (∀ s', Reach (system env) anyStep (· = s) s' → ∀ o ∈ s.world.orders, o.status = .CONFIRMED →
      ∃ o' ∈ s'.world.orders, o'.id = o.id ∧ o'.status = .CONFIRMED) ∧
    ∀ p ch t l x k w r now, s.proc p = some ⟨t, l, .call (.stmt (.orderFindUnique x)) k, true⟩ →
      exec env p (.stmt (.orderFindUnique x)) ch s.world = some (w, (.ok r, now)) →
      Genuine env s.world l t → ∃ o, guardOrder env x r = .ok o := by
  have hI := confirmations h
  have hone : ∀ o ∈ s.world.orders, ∀ e ∈ s.world.outbox, EventOf e o →
      o.status = .CONFIRMED ∧ PayloadOf env e.payload o := by
    rintro o ho e he ⟨-, hid⟩
    obtain ⟨-, -, o', ho', hstatus, hid', now, hp⟩ := hI.order e he
    have hoid : o'.id = o.id := Uuid.text_inj (hid'.symm.trans hid)
    have heq : o' = o := Table.eq_of_clash ho' ho (by simp [Indexed.clash, hoid])
    subst heq
    exact ⟨hstatus, by rw [hp]; exact confirmedPayload_of env o' now⟩
  refine ⟨fun o ho => ⟨hI.event o ho, fun ⟨e, he, heo⟩ => (hone o ho e he heo).1⟩,
    fun o ho e he heo => (hone o ho e he heo).2, ?_, ?_⟩
  · intro s' hrun o ho hstatus
    obtain ⟨o', ho', hcore, hs'⟩ := (run_extends fresh_of_initial h hrun).orders o ho
    exact ⟨o', ho', Order.id_of_core hcore, hs' hstatus⟩
  · intro p ch t l x k w r now hp hx hg
    have hs := sound fresh_of_initial h
    have hc := (obeys fresh_of_initial h hp).1
    obtain ⟨o, ho, hstatus, rfl⟩ := hg.asks hI (hs.logs p _ hp) hc
    rw [orderFindUnique_reply ho hx]
    exact ⟨o, guardOrder_confirmed hstatus⟩

theorem confirmation_is_atomic_run :
    ∃ s, (system (platform id)).run initial createAndConfirm = some s ∧
      ∃ o ∈ s.world.orders, o.status = .CONFIRMED ∧
        ∃ e ∈ s.world.outbox, EventOf e o ∧ PayloadOf (platform id) e.payload o := by
  have hrun : (((system (platform id)).run initial createAndConfirm).map fun s =>
      s.world.orders.rows.any fun o => o.status == .CONFIRMED) = some true := by decide +kernel
  obtain ⟨s, hs, hany⟩ := Option.map_eq_some_iff.mp hrun
  obtain ⟨o, ho, hstatus⟩ := List.any_eq_true.mp hany
  have hstatus : o.status = .CONFIRMED := by simpa using hstatus
  obtain ⟨hiff, hpayload, -, -⟩ := confirmation_is_atomic (platform id) (reach_of_run hs)
  obtain ⟨e, he, heo⟩ := (hiff o ho).mp hstatus
  exact ⟨s, hs, o, ho, hstatus, e, he, heo, hpayload o ho e he heo⟩

end

end CashbackLedger
