import CashbackLedger.Safety.Delivery
import CashbackLedger.Safety.Ledger

/-
  What SENT and PROCESSED promise.

  A SENT outbox row has its message on the topic (`sent_is_published`), whoever else writes there.
  When nobody does, an inbox row repeats the one outbox row it is named after, and a PROCESSED
  row names an order that is credited (`processed_is_credited`).
-/

namespace CashbackLedger

open Lib History

/-- The message carries the row: its key and the fields of its value. -/
structure Announced (m : KafkaMessage) (e : OutboxEvent) (evt : Json) : Prop where
  key : m.key = some e.aggregateId
  value : m.value = some evt
  id : evt.field "id" = some (.str e.id.text)
  type : evt.field "type" = some (.str e.type)
  aggregateId : evt.field "aggregateId" = some (.str e.aggregateId)
  payload : evt.field "payload" = some e.payload

section

variable {env : Env} {s : State}

theorem announced_outboxMessage (e : OutboxEvent) :
    ∃ evt, Announced (outboxMessage env e) e evt := by
  refine ⟨_, rfl, rfl, ?_, ?_, ?_, ?_⟩ <;> rfl

theorem sentPublished {ok : State → Step → Prop} (h : Reach (system env) ok (· = initial) s) :
    SentPublished env s.world := by
  refine world_invariant fresh_of_initial ?_ ?_ ?_ ?_ h
  · rintro s rfl
    exact nofun
  · exact fun w p tx hI => hI
  · exact fun s p ch t l c k w _ hI _ _ hl htx hc he => he.sent hI hl htx hc
  · intro s o w hI _ hw
    cases o with
    | tick ms =>
      cases hw
      exact hI
    | produce m =>
      cases hw
      exact fun e he hst => List.mem_append_left _ (hI e he hst)
    | rewind offset =>
      cases hw
      exact hI

/-- A committed offset is one of the topic's. -/
theorem committedBelow {ok : State → Step → Prop} (h : Reach (system env) ok (· = initial) s) :
    ∀ offset ∈ s.world.broker.committed, offset < s.world.broker.events.length := by
  refine world_invariant
    (I := fun w => ∀ offset ∈ w.broker.committed, offset < w.broker.events.length)
    fresh_of_initial ?_ (fun _ _ _ hI => hI) ?_ ?_ h
  · rintro s rfl
    exact nofun
  · intro s p ch t l c k w _ hI _ _ hl _ hc heff offset hoff
    have hlen := heff.grows.events.length_le
    rcases heff.committed_origin with heq | ⟨offset', rfl, heq⟩
    · exact Nat.lt_of_lt_of_le (hI offset (heq ▸ hoff)) hlen
    · rw [heq] at hoff
      rcases List.mem_cons.mp hoff with rfl | hoff
      · obtain ⟨-, m, hgot, -⟩ := hc.commitOffset
        obtain ⟨_, hm⟩ := hl.got hgot
        exact Nat.lt_of_lt_of_le (List.getElem?_eq_some_iff.mp hm).1 hlen
      · exact Nat.lt_of_lt_of_le (hI offset hoff) hlen
  · intro s x w hI _ hw offset hoff
    have hlen := (outside_extends hw).events.length_le
    have hcommitted : w.broker.committed = s.world.broker.committed := by
      cases x <;> cases hw <;> rfl
    exact Nat.lt_of_lt_of_le (hI offset (hcommitted ▸ hoff)) hlen

/-- SENT means published: in every reachable state a SENT row has a message on the topic under its
    aggregate id that carries its id, type, aggregate id and payload. -/
theorem sent_is_published (env : Env) {s : State}
    (h : Reach (system env) anyStep (· = initial) s) :
    ∀ e ∈ s.world.outbox, e.status = .SENT →
      ∃ m ∈ s.world.broker.events, ∃ evt, Announced m e evt :=
  fun e he hst => ⟨outboxMessage env e, sentPublished h e he hst, announced_outboxMessage e⟩

/-- The order an inbox row names. -/
theorem Stores.names (hI : Stores env s.world) (hconf : Confirmations env s.world) {i : InboxEvent}
    (hi : i ∈ s.world.inbox) : ∃ id : Uuid, i.payload.field "orderId" = some (.str id.text) := by
  obtain ⟨e, he, -, hpayload⟩ := hI.stored i hi
  obtain ⟨-, -, o, -, -, -, now, hp⟩ := hconf.order e he
  refine ⟨o.id, ?_⟩
  rw [hpayload, hp]
  exact (confirmedPayload_of env o now).orderId

/-- PROCESSED means credited: when only the publisher writes to the topic, a PROCESSED row names an
    order with a CREDIT entry, and an outbox row has at most one inbox row, with its payload. -/
theorem processed_is_credited (env : Env) {s : State}
    (h : Reach (system env) (fun _ lb => ownTopic lb = true) (· = initial) s) :
    (∀ i ∈ s.world.inbox, i.status = .PROCESSED →
      ∃ id : Uuid, i.payload.field "orderId" = some (.str id.text) ∧ s.world.HasCredit id) ∧
    ∀ e ∈ s.world.outbox,
      (s.world.inbox.rows.filter fun i => i.sourceEventId == e.id.text).length ≤ 1 ∧
      ∀ i ∈ s.world.inbox, i.sourceEventId = e.id.text → i.payload = e.payload := by
  have hconf := confirmations h
  have hI := stores (fun _ _ hmet => hmet) h
  refine ⟨fun i hi hst => ?_, fun e he => ⟨?_, fun i hi hsid => ?_⟩⟩
  · obtain ⟨id, hnames⟩ := hI.names hconf hi
    obtain ⟨id', hread, hcredit⟩ := hI.processed i hi hst
    have hsame : id = id' := by
      rw [hnames] at hread
      exact Option.some_inj.mp ((env.readUuid_text id).symm.trans hread)
    exact ⟨id, hnames, hsame ▸ hcredit⟩
  · refine s.world.inbox.length_filter_le_one fun a b ha hb => ?_
    simp only [beq_iff_eq] at ha hb
    simp [Indexed.clash, ha, hb]
  · obtain ⟨e', he', hsid', hpayload⟩ := hI.stored i hi
    have hid : e'.id = e.id := Uuid.text_inj (hsid'.symm.trans hsid)
    have heq : e' = e := Table.eq_of_clash he' he (by simp [Indexed.clash, hid])
    rw [hpayload, heq]

/-- After one delivery the outbox row is SENT and its message is on the topic. -/
theorem sent_is_published_run :
    ∃ s, (system (platform id)).run initial creditOnce = some s ∧
      ∃ e ∈ s.world.outbox, e.status = .SENT ∧
        ∃ m ∈ s.world.broker.events, ∃ evt, Announced m e evt := by
  have hrun : (((system (platform id)).run initial creditOnce).map fun s =>
      s.world.outbox.rows.any fun e => e.status == .SENT) = some true := by decide +kernel
  obtain ⟨s, hs, hany⟩ := Option.map_eq_some_iff.mp hrun
  obtain ⟨e, he, hst⟩ := List.any_eq_true.mp hany
  have hsent : e.status = .SENT := by simpa using hst
  exact ⟨s, hs, e, he, hsent, sent_is_published (platform id) (reach_of_run hs) e he hsent⟩

/-- After one delivery the inbox row is PROCESSED and the order it names is credited. -/
theorem processed_is_credited_run :
    ∃ s, (system (platform id)).run initial creditOnce = some s ∧
      ∃ i ∈ s.world.inbox, i.status = .PROCESSED ∧
        ∃ id : Uuid, i.payload.field "orderId" = some (.str id.text) ∧ s.world.HasCredit id := by
  have hrun : (((system (platform id)).run initial creditOnce).map fun s =>
      s.world.inbox.rows.any fun i => i.status == .PROCESSED) = some true := by decide +kernel
  obtain ⟨s, hs, hany⟩ := Option.map_eq_some_iff.mp hrun
  obtain ⟨i, hi, hst⟩ := List.any_eq_true.mp hany
  have hdone : i.status = .PROCESSED := by simpa using hst
  have h0 : Reach (system (platform id)) (fun _ lb => ownTopic lb = true) (· = initial) initial :=
    .start rfl
  have hown : ∀ lb ∈ creditOnce, ownTopic lb = true := by decide +kernel
  have hreach := h0.of_run creditOnce (fun lb hm _ => hown lb hm) hs
  exact ⟨s, hs, i, hi, hdone, (processed_is_credited (platform id) hreach).1 i hi hdone⟩

end

end CashbackLedger
