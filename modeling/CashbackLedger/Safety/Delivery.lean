import CashbackLedger.Safety.Confirmation

/-
  From a confirmed order to its credit.

  The event of a confirmed order is handed on three times: the publisher marks its outbox row SENT
  after the message is on the topic, kafkajs commits the offset after `eachMessage` has resolved,
  the inbox row becomes PROCESSED after the order is credited. `Stores` and `CommittedStored` say of
  each store what the next one then holds. The second hand-over has a gap: `eachMessage` swallows a
  failed inbox upsert, and the offset is committed all the same. In runs in which no offset is
  committed over that gap, every confirmed order without a credit still has a carrier
  (`confirmed_order_carried`).
-/

namespace CashbackLedger

open Lib History

/-- The events whose inbox upsert has failed. -/
def unrecorded : History → List String
  | [] => []
  | ⟨.inbox (.upsert sid _ _), (.error _, _)⟩ :: l => sid :: unrecorded l
  | _ :: l => unrecorded l

/-- The inbox has a row for the event. -/
def World.recorded (w : World) (sid : String) : Bool := w.inbox.any fun e => e.sourceEventId == sid

/-- No offset is committed after the event's inbox upsert has failed, unless the inbox has a row
    for the event by then. -/
def commitsRecorded (s : State) : Step → Bool
  | .step p _ =>
      match s.proc p with
      | some ⟨_, l, .call (.kafka (.commitOffset _)) _, true⟩ => (unrecorded l).all s.world.recorded
      | _ => true
  | _ => true

/-- Nobody else writes to the topic. -/
def ownTopic : Step → Bool
  | .move (.produce _) => false
  | _ => true

/-- What still carries the event of the order to the ledger. -/
inductive Carried (env : Env) (w : World) (o : Order) : Prop where
  | outbox {e : OutboxEvent} (row : e ∈ w.outbox) (event : EventOf e o)
      (waiting : e.status = .PENDING ∨ e.status = .FAILED)
  | topic {offset : Nat} {e : OutboxEvent} (row : e ∈ w.outbox) (event : EventOf e o)
      (message : w.broker.events[offset]? = some (outboxMessage env e))
      (uncommitted : offset ∉ w.broker.committed)
  | inbox {e : InboxEvent} (row : e ∈ w.inbox)
      (event : e.payload.field "orderId" = some (.str o.id.text))
      (waiting : e.status = .PENDING ∨ e.status = .FAILED)

/-- The message of a SENT row is on the topic. -/
def SentPublished (env : Env) (w : World) : Prop :=
  ∀ e ∈ w.outbox, e.status = .SENT → outboxMessage env e ∈ w.broker.events

/-- What the stores say of each other: messages and inbox rows repeat outbox rows, a SENT row has
    its message, the order of a PROCESSED row is credited. -/
structure Stores (env : Env) (w : World) : Prop where
  topic : ∀ m ∈ w.broker.events, ∃ e ∈ w.outbox, m = outboxMessage env e
  sent : SentPublished env w
  stored : ∀ i ∈ w.inbox, ∃ e ∈ w.outbox, i.sourceEventId = e.id.text ∧ i.payload = e.payload
  processed : ∀ i ∈ w.inbox, i.status = .PROCESSED →
    ∃ id, readId env (i.payload.field "orderId") = some id ∧ w.HasCredit id

/-- A committed message has its inbox row. -/
def CommittedStored (env : Env) (w : World) : Prop :=
  ∀ offset ∈ w.broker.committed, ∃ e ∈ w.outbox,
    w.broker.events[offset]? = some (outboxMessage env e) ∧
      ∃ i ∈ w.inbox, i.sourceEventId = e.id.text

section

variable {env : Env} {p : Pid} {newId : Uuid} {w w₁ : World} {t : Task} {l : History} {c : Call}

theorem outboxMessage_core {e e' : OutboxEvent} (h : e'.core = e.core) :
    outboxMessage env e' = outboxMessage env e := by
  have hcore : ∀ e : OutboxEvent, outboxMessage env e = outboxMessage env e.core := fun _ => rfl
  rw [hcore, h, ← hcore]

/-- A message names its row. -/
theorem id_of_outboxMessage {e e' : OutboxEvent} (h : outboxMessage env e' = outboxMessage env e) :
    e'.id = e.id := by
  simp only [outboxMessage, KafkaMessage.mk.injEq,
    Option.some.injEq, Json.obj.injEq, List.cons.injEq,
    Prod.mk.injEq, Json.str.injEq, true_and] at h
  exact Uuid.text_inj h.2.1

/-- The message of an announcing row is one the consumer handles. -/
theorem Announces.carries {e : OutboxEvent} (h : Announces env w e) :
    Carries env (outboxMessage env e) e.id.text e.payload := by
  obtain ⟨htype, -, o, -, -, -, now, hp⟩ := h
  refine ⟨_, rfl, ?_, rfl, ?_⟩
  · show Json.isStr (some (.str e.type)) "OrderConfirmed" = true
    rw [htype]
    rfl
  · rw [hp]
    rfl

/-- The stored version of a row that is known by its id. -/
theorem World.HasOutbox.core_eq {e e' : OutboxEvent} (h : w.HasOutbox e) (he' : e' ∈ w.outbox)
    (hid : e.id = e'.id) : e'.core = e.core := by
  obtain ⟨e₁, he₁, hcore⟩ := h
  have heq : e₁ = e' := Table.eq_of_clash he₁ he' (by
    simp [Indexed.clash, (OutboxEvent.id_of_core hcore).trans hid])
  rw [← heq]
  exact hcore

theorem World.HasInbox.core_eq {e e' : InboxEvent} (h : w.HasInbox e) (he' : e' ∈ w.inbox)
    (hid : e.id = e'.id) : e'.core = e.core := by
  obtain ⟨e₁, he₁, hcore⟩ := h
  have heq : e₁ = e' := Table.eq_of_clash he₁ he' (by
    simp [Indexed.clash, (InboxEvent.id_of_core hcore).trans hid])
  rw [← heq]
  exact hcore

/-- What the consumer reads in a delivered message comes from an outbox row. -/
theorem Delivered.genuine {offset : Nat} {sid : String} {payload : Json} (hI : Stores env w)
    (hconf : Confirmations env w) (hl : LogSound env w l) (h : Delivered env offset l sid payload) :
    ∃ e ∈ w.outbox, sid = e.id.text ∧ payload = e.payload := by
  obtain ⟨m, hg, hcar⟩ := h
  obtain ⟨_, hm⟩ := hl.got hg
  obtain ⟨e, he, rfl⟩ := hI.topic m (List.mem_of_getElem? hm)
  obtain ⟨hsid, hpayload⟩ := carries_outboxMessage (hconf.order e he) hcar
  exact ⟨e, he, hsid, hpayload⟩

/-- The payload a process handles is the one its inbox row holds. -/
theorem Task.Calls.Handles.payload {id : Uuid} {payload : Json} {i : InboxEvent}
    (hI : Stores env w) (hconf : Confirmations env w) (hl : LogSound env w l)
    (h : Task.Calls.Handles env l id payload t) (hi : i ∈ w.inbox) (hid : i.id = id) :
    i.payload = payload := by
  cases h with
  | @consume offset sid row delivered stored same =>
    obtain ⟨e, he, hsid, rfl⟩ := delivered.genuine hI hconf hl
    obtain ⟨_, hrow, hrsid⟩ := hl.got stored
    have hcore := World.HasInbox.core_eq hrow hi (same.trans hid.symm)
    obtain ⟨e', he', hsid', hpayload⟩ := hI.stored i hi
    have htext : e'.id.text = e.id.text := by
      rw [← hsid', (InboxEvent.of_core hcore).2.1, hrsid, hsid]
    have heq : e' = e := Table.eq_of_clash he' he (by simp [Indexed.clash, Uuid.text_inj htext])
    rw [hpayload, heq]
  | @retry e attempting same stored =>
    have hcore := World.HasInbox.core_eq (attempting.2.row hl) hi (same.trans hid.symm)
    rw [← stored]
    exact (InboxEvent.of_core hcore).2.2.2.1

/-- Rows keep what their messages and inbox rows repeat. -/
theorem World.Extends.outbox_row (env : Env) (hw : w.Extends w₁) {e : OutboxEvent}
    (he : e ∈ w.outbox) :
    ∃ e' ∈ w₁.outbox, e'.id = e.id ∧ e'.payload = e.payload ∧
      outboxMessage env e' = outboxMessage env e := by
  obtain ⟨e', he', hcore⟩ := hw.outbox e he
  obtain ⟨hid, -, -, hpayload, -⟩ := OutboxEvent.of_core hcore
  exact ⟨e', he', hid, hpayload, outboxMessage_core hcore⟩

theorem World.Extends.event_at (hw : w.Extends w₁) {offset : Nat} {m : KafkaMessage}
    (h : w.broker.events[offset]? = some m) : w₁.broker.events[offset]? = some m := by
  obtain ⟨hlt, -⟩ := List.getElem?_eq_some_iff.mp h
  obtain ⟨tail, htail⟩ := hw.events
  rw [← htail, List.getElem?_append_left hlt]
  exact h

theorem World.Extends.recorded_row (hw : w.Extends w₁) {sid : String}
    (h : ∃ i ∈ w.inbox, i.sourceEventId = sid) : ∃ i ∈ w₁.inbox, i.sourceEventId = sid := by
  obtain ⟨i, hi, rfl⟩ := h
  obtain ⟨i', hi', hcore⟩ := hw.inbox i hi
  exact ⟨i', hi', (InboxEvent.of_core hcore).2.1⟩

namespace Effect

theorem topic (hI : Stores env w) (hl : LogSound env w l) (hc : t.Calls env l c)
    (h : Effect p newId w c w₁) :
    ∀ m ∈ w₁.broker.events, ∃ e ∈ w₁.outbox, m = outboxMessage env e := by
  intro m hm
  have hold : m ∈ w.broker.events → ∃ e ∈ w₁.outbox, m = outboxMessage env e := by
    intro hm
    obtain ⟨e, he, rfl⟩ := hI.topic m hm
    obtain ⟨e', he', -, -, hmsg⟩ := h.grows.outbox_row env he
    exact ⟨e', he', hmsg.symm⟩
  rcases h.events_origin with heq | ⟨m', rfl, heq⟩
  · exact hold (heq ▸ hm)
  · rw [heq] at hm
    rcases List.mem_append.mp hm with hm | hm
    · exact hold hm
    · rw [List.mem_singleton.mp hm]
      obtain ⟨-, e, hbatch, rfl, -⟩ := hc.publish
      obtain ⟨e', he', hcore⟩ := (hbatch.row hl).mono h.grows
      exact ⟨e', he', (outboxMessage_core hcore).symm⟩

/-- A row is updated to SENT only after its own message was sent. -/
theorem sent_of_update {id : Uuid} {u : OutboxUpdate} {e : OutboxEvent} (hl : LogSound env w l)
    (hc : t.Calls env l (.outbox (.update id u))) (he : e ∈ w.outbox) (hid : e.id = id)
    (hu : u.status = some .SENT) : outboxMessage env e ∈ w.broker.events := by
  rcases hc.outboxUpdate with ⟨rfl, -, -, e₀, hbatch, hid₀, hu₀⟩ | ⟨argv, rfl, hu₀, -⟩
  · rcases hu₀ with ⟨-, hgot⟩ | hu₀ | hu₀
    · obtain ⟨_, hsent⟩ := hl.got hgot
      have hcore := World.HasOutbox.core_eq (hbatch.row hl) he (hid₀.trans hid.symm)
      rw [outboxMessage_core hcore]
      exact hsent
    · rw [hu] at hu₀
      cases hu₀
    · rw [hu] at hu₀
      cases hu₀
  · rw [hu] at hu₀
    cases hu₀

theorem sent (hI : SentPublished env w) (hl : LogSound env w l) (htx : w.txOf p = l.tx)
    (hc : t.Calls env l c) (h : Effect p newId w c w₁) : SentPublished env w₁ := by
  intro e' he' hst
  rcases h.outbox_origin he' with ⟨e, he, hcore, heq⟩ | ⟨rfl, tx, id, hmine, hab, hw, -⟩
  · have hkeep : outboxMessage env e ∈ w.broker.events →
        outboxMessage env e' ∈ w₁.broker.events := by
      intro hm
      rw [outboxMessage_core hcore]
      exact h.grows.events.subset hm
    rcases heq with rfl | ⟨-, hsame⟩ | ⟨u, rfl, rfl⟩
    · exact hkeep (hI e' he hst)
    · exact hkeep (hI e he (hsame ▸ hst))
    · rcases OutboxUpdate.status_apply hst with hold | hu
      · exact hkeep (hI e he hold)
      · exact hkeep (sent_of_update hl hc he rfl hu)
  · -- a new row is PENDING
    have hk := hc.commit (htx ▸ hmine) hab
    rw [hw] at hk
    rw [(hk.event hl).1] at hst
    cases hst

theorem stored (hI : Stores env w) (hconf : Confirmations env w) (hl : LogSound env w l)
    (hc : t.Calls env l c) (h : Effect p newId w c w₁) :
    ∀ i ∈ w₁.inbox, ∃ e ∈ w₁.outbox, i.sourceEventId = e.id.text ∧ i.payload = e.payload := by
  intro i' hi'
  have hfrom : ∀ {sid : String} {payload : Json},
      (∃ e ∈ w.outbox, sid = e.id.text ∧ payload = e.payload) →
      ∃ e ∈ w₁.outbox, sid = e.id.text ∧ payload = e.payload := by
    rintro sid payload ⟨e, he, hsid, hpayload⟩
    obtain ⟨e', he', hid, hp, -⟩ := h.grows.outbox_row env he
    exact ⟨e', he', by rw [hsid, hid], by rw [hpayload, hp]⟩
  rcases h.inbox_origin hi' with ⟨i, hi, hcore, -⟩ | ⟨sid, type, payload, rfl, rfl, -⟩
  · obtain ⟨-, hsid, -, hpayload, -⟩ := InboxEvent.of_core hcore
    rw [hsid, hpayload]
    exact hfrom (hI.stored i hi)
  · obtain ⟨offset, rfl, rfl, hd⟩ := hc.inboxUpsert
    exact hfrom (hd.genuine hI hconf hl)

theorem processed (hI : Stores env w) (hconf : Confirmations env w) (hl : LogSound env w l)
    (hc : t.Calls env l c) (h : Effect p newId w c w₁) :
    ∀ i ∈ w₁.inbox, i.status = .PROCESSED →
      ∃ id, readId env (i.payload.field "orderId") = some id ∧ w₁.HasCredit id := by
  intro i' hi' hst
  rcases h.inbox_origin hi' with ⟨i, hi, hcore, heq⟩ | ⟨sid, type, payload, -, rfl, -⟩
  · have hold : i.status = .PROCESSED → ∃ id, readId env (i'.payload.field "orderId") = some id ∧
        w₁.HasCredit id := by
      intro hst
      obtain ⟨id, hid, hcredit⟩ := hI.processed i hi hst
      rw [(InboxEvent.of_core hcore).2.2.2.1]
      exact ⟨id, hid, hcredit.mono h.grows⟩
    rcases heq with rfl | ⟨u, rfl, rfl⟩
    · exact hold hst
    · rcases InboxUpdate.status_apply hst with hsame | hproc
      · exact hold hsame
      · obtain ⟨payload, hh, hcredited⟩ := hc.processed hproc
        obtain ⟨o, hfound, hcom⟩ := Credited.committed hl hcredited
        obtain ⟨_, -, hid⟩ := hl.got hfound.1
        have hpayload := hh.payload hI hconf hl hi rfl
        refine ⟨o.id, ?_, (hcom.hasCredit hl).mono h.grows⟩
        rw [(InboxEvent.of_core hcore).2.2.2.1, hpayload]
        exact hid
  · cases hst

/-- Every call keeps what the stores say of each other. -/
theorem stores (hI : Stores env w) (hconf : Confirmations env w) (hl : LogSound env w l)
    (htx : w.txOf p = l.tx) (hc : t.Calls env l c) (h : Effect p newId w c w₁) : Stores env w₁ :=
  ⟨h.topic hI hl hc, h.sent hI.sent hl htx hc, h.stored hI hconf hl hc, h.processed hI hconf hl hc⟩

/-- Committed messages keep their rows, and a message that is committed now has one. -/
theorem committedStored (hI : CommittedStored env w) (hS : Stores env w)
    (hconf : Confirmations env w) (hl : LogSound env w l) (hc : t.Calls env l c)
    (hcommit : ∀ offset sid payload, c = .kafka (.commitOffset offset) → Recorded l sid payload →
      ∃ i ∈ w.inbox, i.sourceEventId = sid)
    (h : Effect p newId w c w₁) : CommittedStored env w₁ := by
  have hkeep : ∀ (offset : Nat) e, e ∈ w.outbox →
      w.broker.events[offset]? = some (outboxMessage env e) →
      (∃ i ∈ w.inbox, i.sourceEventId = e.id.text) → ∃ e ∈ w₁.outbox,
        w₁.broker.events[offset]? = some (outboxMessage env e) ∧
          ∃ i ∈ w₁.inbox, i.sourceEventId = e.id.text := by
    intro offset e he hm hi
    obtain ⟨e', he', hid, -, hmsg⟩ := h.grows.outbox_row env he
    exact ⟨e',
      he', by rw [hmsg]; exact h.grows.event_at hm, by rw [hid]; exact h.grows.recorded_row hi⟩
  intro offset hoff
  have hold : offset ∈ w.broker.committed → ∃ e ∈ w₁.outbox,
      w₁.broker.events[offset]? = some (outboxMessage env e) ∧
        ∃ i ∈ w₁.inbox, i.sourceEventId = e.id.text := by
    intro hoff
    obtain ⟨e, he, hm, hi⟩ := hI offset hoff
    exact hkeep offset e he hm hi
  rcases h.committed_origin with heq | ⟨offset', rfl, heq⟩
  · exact hold (heq ▸ hoff)
  · rw [heq] at hoff
    rcases List.mem_cons.mp hoff with rfl | hoff
    · obtain ⟨-, m, hgot, hrec⟩ := hc.commitOffset
      obtain ⟨_, hm⟩ := hl.got hgot
      obtain ⟨e, he, rfl⟩ := hS.topic m (List.mem_of_getElem? hm)
      exact hkeep offset e he hm (hcommit offset _ _ rfl (hrec _ _ (hconf.order e he).carries))
    · exact hold hoff

end Effect

theorem unrecorded_subset_cons (x : Σ c, Reply c) (l : History) :
    unrecorded l ⊆ unrecorded (x :: l) := by
  obtain ⟨c, y, now⟩ := x
  cases c with
  | inbox c =>
    cases c with
    | upsert sid type payload =>
      cases y with
      | ok row => exact List.Subset.refl _
      | error err => exact List.subset_cons_self _ _
    | _ => exact List.Subset.refl _
  | _ => exact List.Subset.refl _

theorem mem_unrecorded {sid type : String} {payload : Json} {err : Fault}
    (h : Failed l (.inbox (.upsert sid type payload)) err) : sid ∈ unrecorded l := by
  obtain ⟨now, hm⟩ := h
  induction l with
  | nil => exact absurd hm List.not_mem_nil
  | cons x l ih =>
    rcases List.mem_cons.mp hm with rfl | hm
    · exact List.mem_cons_self
    · exact unrecorded_subset_cons x l (ih hm)

/-- An event whose upsert was answered has a row. -/
theorem Recorded.row {sid : String} {payload : Json} (hl : LogSound env w l)
    (h : Recorded l sid payload) (hfailed : (unrecorded l).all w.recorded = true) :
    ∃ i ∈ w.inbox, i.sourceEventId = sid := by
  obtain ⟨⟨x, now⟩, hm⟩ := h
  cases x with
  | ok row =>
    obtain ⟨_, ⟨i, hi, hcore⟩, hsid⟩ := hl.of_mem hm
    exact ⟨i, hi, (InboxEvent.of_core hcore).2.1.trans hsid⟩
  | error err =>
    have hrecorded := List.all_eq_true.mp hfailed sid (mem_unrecorded ⟨now, hm⟩)
    obtain ⟨i, hi, hsid⟩ := Table.any_iff.mp hrecorded
    exact ⟨i, hi, by simpa using hsid⟩

end

section

variable {env : Env} {s : State}

theorem stores {ok : State → Step → Prop} (hown : ∀ s lb, ok s lb → ownTopic lb = true)
    (h : Reach (system env) ok (· = initial) s) : Stores env s.world := by
  refine world_invariant fresh_of_initial ?_ ?_ ?_ ?_ h
  · rintro s rfl
    exact ⟨nofun, nofun, nofun, nofun⟩
  · exact fun w p tx hI => ⟨hI.topic, hI.sent, hI.stored, hI.processed⟩
  · intro s p ch t l c k w hr hI _ _ hl htx hc he
    exact he.stores hI (confirmations hr) hl htx hc
  · intro s e w hI hmet hw
    cases e with
    | tick ms =>
      cases hw
      exact ⟨hI.topic, hI.sent, hI.stored, hI.processed⟩
    | produce m => cases hown _ _ hmet
    | rewind offset =>
      cases hw
      exact ⟨hI.topic, hI.sent, hI.stored, hI.processed⟩

theorem committedStored
    (h : Reach (system env) (fun s lb => ownTopic lb = true ∧ commitsRecorded s lb = true)
      (· = initial) s) : CommittedStored env s.world := by
  refine world_invariant fresh_of_initial ?_ ?_ ?_ ?_ h
  · rintro s rfl
    exact nofun
  · exact fun w p tx hI => hI
  · intro s p ch t l c k w hr hI hmet hp hl _ hc he
    refine he.committedStored hI (stores (fun _ _ hmet => hmet.1) hr) (confirmations hr) hl hc ?_
    rintro offset sid payload rfl hrec
    have hall := hmet.2
    simp only [commitsRecorded, hp] at hall
    exact hrec.row hl hall
  · intro s e w hI hmet hw
    cases e with
    | tick ms =>
      cases hw
      exact hI
    | produce m => cases hmet.1
    | rewind offset =>
      cases hw
      exact hI

/-- In runs in which no offset is committed after a failed inbox upsert without a row, the event of
    a confirmed order without a credit is waiting in the outbox, on the topic or in the inbox. -/
theorem confirmed_order_carried (env : Env)
    (h : Reach (system env) (fun s lb => ownTopic lb = true ∧ commitsRecorded s lb = true)
      (· = initial) s) :
    ∀ o ∈ s.world.orders, o.status = .CONFIRMED →
      ¬ s.world.HasCredit o.id → Carried env s.world o := by
  intro o ho hst hnone
  have hconf := confirmations h
  have hI := stores (fun _ _ hmet => hmet.1) h
  obtain ⟨e, he, hevent⟩ := hconf.event o ho hst
  cases hes : e.status with
  | PENDING => exact .outbox he hevent (Or.inl hes)
  | FAILED => exact .outbox he hevent (Or.inr hes)
  | SENT =>
    obtain ⟨offset, hm⟩ := List.getElem?_of_mem (hI.sent e he hes)
    by_cases hoff : offset ∈ s.world.broker.committed
    · obtain ⟨e', he', hm', i, hi, hsid⟩ := committedStored h offset hoff
      have heq : e' = e := by
        have hid := id_of_outboxMessage (Option.some_inj.mp (hm'.symm.trans hm))
        exact Table.eq_of_clash he' he (by simp [Indexed.clash, hid])
      obtain ⟨e'', he'', hsid'', hpayload⟩ := hI.stored i hi
      have heq' : e'' = e := by
        have hid := Uuid.text_inj (hsid''.symm.trans (heq ▸ hsid))
        exact Table.eq_of_clash he'' he (by simp [Indexed.clash, hid])
      obtain ⟨-, -, o', ho', -, hagg, now, hp⟩ := hconf.order e he
      have hoid : o'.id = o.id := Uuid.text_inj (hagg.symm.trans hevent.2)
      have hnames : i.payload.field "orderId" = some (.str o.id.text) := by
        rw [hpayload, heq', hp, ← hoid]
        exact (confirmedPayload_of env o' now).orderId
      cases his : i.status with
      | PENDING => exact .inbox hi hnames (Or.inl his)
      | FAILED => exact .inbox hi hnames (Or.inr his)
      | PROCESSED =>
        obtain ⟨id, hid, hcredit⟩ := hI.processed i hi his
        rw [hnames] at hid
        have hsame : o.id = id := Option.some_inj.mp ((env.readUuid_text o.id).symm.trans hid)
        exact absurd (hsame ▸ hcredit) hnone
    · exact .topic he hevent hm hoff

end

/-! ## A lost event -/

open Platform in
/-- The consumer is handed the event, its inbox upsert fails, the offset is committed. -/
def dropEvent : List Step := [.spawn 3 (.consume 0), serve 3, fail 3, serve 3]

/-- A confirmed order without a credit whose event is nowhere. -/
theorem confirmed_order_lost :
    ∃ s, Reach (system (platform id)) (fun _ lb => ownTopic lb = true) (· = initial) s ∧
      ∃ o ∈ s.world.orders, o.status = .CONFIRMED ∧ ¬ s.world.HasCredit o.id ∧
        ¬ Carried (platform id) s.world o := by
  have hrun : (((system (platform id)).runChecked 4 (fun _ lb => ownTopic lb) initial
      (createAndConfirm ++ publishEvent ++ dropEvent)).map fun s =>
        ((s.world.orders.rows.any fun o => o.status == .CONFIRMED, s.world.ledger.rows.isEmpty),
          (s.world.outbox.rows.all fun e => e.status == .SENT, s.world.inbox.rows.isEmpty),
          (s.world.broker.events.length, s.world.broker.committed))) =
      some ((true, true), (true, true), (1, [0])) := by decide +kernel
  obtain ⟨s, hs, heq⟩ := Option.map_eq_some_iff.mp hrun
  simp only [Prod.mk.injEq, List.isEmpty_iff] at heq
  obtain ⟨⟨hany, hledger⟩, ⟨hsent, hinbox⟩, hlength, hcommitted⟩ := heq
  obtain ⟨o, ho, hst⟩ := List.any_eq_true.mp hany
  refine ⟨s, (Check.of fun _ lb => ownTopic lb).reach hs (initial_below 4),
    o, ho, by simpa using hst, ?_, ?_⟩
  · rintro ⟨entry, he, -⟩
    rw [Table.mem_rows, hledger] at he
    exact absurd he List.not_mem_nil
  · intro hcarried
    cases hcarried with
    | @outbox e row event waiting =>
      have hstatus : e.status = .SENT := by simpa using List.all_eq_true.mp hsent e row
      rw [hstatus] at waiting
      rcases waiting with hw | hw <;> cases hw
    | @topic offset e row event message uncommitted =>
      obtain ⟨hlt, -⟩ := List.getElem?_eq_some_iff.mp message
      have hzero : offset = 0 := by omega
      rw [hcommitted, hzero] at uncommitted
      exact uncommitted (List.mem_singleton_self 0)
    | inbox row event waiting =>
      rw [Table.mem_rows, hinbox] at row
      exact absurd row List.not_mem_nil

theorem confirmed_order_carried_run :
    ∃ s, Reach (system (platform id)) (fun s lb => ownTopic lb = true ∧ commitsRecorded s lb = true)
        (· = initial) s ∧
      ∃ o ∈ s.world.orders, o.status = .CONFIRMED ∧ Carried (platform id) s.world o := by
  let check : Check 4 fun (s : State) lb => ownTopic lb = true ∧ commitsRecorded s lb = true :=
    (Check.of fun _ lb => ownTopic lb).and (Check.of commitsRecorded)
  have hrun : (((system (platform id)).runChecked 4 check.test initial
      (createAndConfirm ++ publishEvent ++ storeEvent)).map fun s =>
        (s.world.orders.rows.any fun o => o.status == .CONFIRMED, s.world.ledger.rows.isEmpty)) =
      some (true, true) := by decide +kernel
  obtain ⟨s, hs, heq⟩ := Option.map_eq_some_iff.mp hrun
  obtain ⟨hany, hledger⟩ := Prod.mk.inj heq
  obtain ⟨o, ho, hst⟩ := List.any_eq_true.mp hany
  have hreach := check.reach hs (initial_below 4)
  have hstatus : o.status = .CONFIRMED := by simpa using hst
  refine ⟨s, hreach, o, ho, hstatus, confirmed_order_carried (platform id) hreach o ho hstatus ?_⟩
  rintro ⟨entry, he, -⟩
  rw [Table.mem_rows, List.isEmpty_iff.mp hledger] at he
  exact absurd he List.not_mem_nil

end CashbackLedger
