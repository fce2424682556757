import CashbackLedger.Run.Effects

/-
  The part of an event payload that the programs use.

  `mask` reduces a payload that the inbox can store to its `orderId`; a payload that is no
  object, or that the inbox refuses, stays as it is. It extends to messages, inbox rows, calls,
  replies and worlds. Serving a call commutes with it (`exec_mask`): what the system does with
  masked data is what it does with the data, masked.
-/

namespace CashbackLedger

open Lib

/-! ## Payloads and messages -/

namespace Json

/-- A storable object with its `orderId` as the only field. -/
def mask : Json → Json
  | .obj fields =>
      if storableFields fields then
        .obj ((fields.lookup "orderId").toList.map fun x => ("orderId", x))
      else .obj fields
  | j => j

/-- An event with its payload masked. -/
def maskEvent : Json → Json
  | .obj fields => .obj (fields.map fun x => (x.1, if x.1 = "payload" then x.2.mask else x.2))
  | evt => evt

theorem mask_obj {fields : List (String × Json)} (h : storableFields fields = true) :
    (obj fields).mask = .obj ((fields.lookup "orderId").toList.map fun x => ("orderId", x)) :=
  if_pos h

theorem mask_unstorable {fields : List (String × Json)} (h : ¬ storableFields fields = true) :
    (obj fields).mask = .obj fields :=
  if_neg h

theorem storable_of_lookup {fields : List (String × Json)} {name : String} {x : Json}
    (h : storableFields fields = true) (hx : fields.lookup name = some x) : x.storable = true := by
  induction fields with
  | nil => cases hx
  | cons f fields ih =>
    obtain ⟨name', y⟩ := f
    simp only [storableFields, Bool.and_eq_true] at h
    rw [List.lookup_cons] at hx
    split at hx
    · cases hx
      exact h.1.2
    · exact ih h.2 hx

@[simp] theorem field_mask (j : Json) : j.mask.field "orderId" = j.field "orderId" := by
  cases j with
  | obj fields =>
    by_cases h : storableFields fields = true
    · rw [mask_obj h]
      show List.lookup "orderId" _ = fields.lookup "orderId"
      cases fields.lookup "orderId" with
      | none => rfl
      | some x => rw [Option.toList_some, List.map_singleton, List.lookup_cons_self]
    · rw [mask_unstorable h]
  | _ => rfl

@[simp] theorem storable_mask (j : Json) : j.mask.storable = j.storable := by
  cases j with
  | obj fields =>
    by_cases h : storableFields fields = true
    · rw [mask_obj h, storable, storable, h]
      cases hx : fields.lookup "orderId" with
      | none => rfl
      | some x =>
        have hname : storableText "orderId" = true := by decide
        rw [Option.toList_some, List.map_singleton, storableFields, storableFields, hname,
          storable_of_lookup h hx]
        rfl
    · rw [mask_unstorable h]
  | _ => rfl

@[simp] theorem mask_mask (j : Json) : j.mask.mask = j.mask := by
  cases j with
  | obj fields =>
    by_cases h : storableFields fields = true
    · have hst : (obj fields).mask.storable = true := by
        rw [storable_mask, storable]
        exact h
      have hfield : (obj fields).mask.field "orderId" = fields.lookup "orderId" := field_mask _
      rw [mask_obj h] at hst hfield ⊢
      rw [mask_obj hst]
      exact congrArg (fun o : Option Json => obj (o.toList.map fun x => ("orderId", x))) hfield
    · rw [mask_unstorable h, mask_unstorable h]
  | _ => rfl

theorem maskEvent_mask (evt : Json) : evt.maskEvent.maskEvent = evt.maskEvent := by
  cases evt with
  | obj fields =>
    simp only [maskEvent, List.map_map, obj.injEq, List.map_inj_left, Function.comp_apply]
    intro x _
    split <;> simp
  | _ => rfl

theorem lookup_maskEvent (fields : List (String × Json)) (name : String) :
    (fields.map fun x => (x.1, if x.1 = "payload" then x.2.mask else x.2)).lookup name =
      if name = "payload" then (fields.lookup name).map mask else fields.lookup name := by
  induction fields with
  | nil => split <;> rfl
  | cons f fields ih =>
    obtain ⟨name', x⟩ := f
    rw [List.map_cons, List.lookup_cons, List.lookup_cons]
    by_cases h : name = name'
    · subst h
      simp only [beq_self_eq_true]
      split <;> rfl
    · simp only [beq_false_of_ne h]
      exact ih

/-- Masking an event touches its payload only. -/
theorem field_maskEvent (evt : Json) (name : String) : evt.maskEvent.field name =
    if name = "payload" then (evt.field name).map mask else evt.field name := by
  cases evt with
  | obj fields => exact lookup_maskEvent fields name
  | _ => split <;> rfl

/-- A missing payload stands for the empty object. -/
theorem mask_orElse (p : Option Json) :
    (orElse p (.obj [])).mask = orElse (p.map mask) (.obj []) := by
  cases p with
  | none => rfl
  | some x =>
    cases x with
    | obj fields =>
      by_cases h : storableFields fields = true
      · rw [Option.map_some, mask_obj h]
        exact mask_obj h
      · rw [Option.map_some, mask_unstorable h]
        exact mask_unstorable h
    | _ => rfl

end Json

namespace KafkaMessage

def mask (m : KafkaMessage) : KafkaMessage := { m with value := m.value.map Json.maskEvent }

@[simp] theorem mask_mask (m : KafkaMessage) : m.mask.mask = m.mask := by
  obtain ⟨key, value⟩ := m
  cases value with
  | none => rfl
  | some evt => simp [mask, Json.maskEvent_mask]

/-- Nobody reads the DLQ: its messages count only. -/
def maskFor : Topic → KafkaMessage → KafkaMessage
  | .events, m => m.mask
  | .dlq, _ => { key := none, value := none }

end KafkaMessage

/-! ## Worlds -/

def InboxEvent.mask (e : InboxEvent) : InboxEvent := { e with payload := e.payload.mask }

theorem InboxEvent.mask_keys : KeepsKeys InboxEvent.mask := ⟨fun _ _ => rfl⟩

def Broker.mask (b : Broker) : Broker where
  events := b.events.map (KafkaMessage.maskFor .events)
  dlq := b.dlq.map (KafkaMessage.maskFor .dlq)
  committed := b.committed
  again := b.again

def maskInbox (t : Table InboxEvent) : Table InboxEvent :=
  t.mapRows InboxEvent.mask InboxEvent.mask_keys

def World.mask (w : World) : World := { w with inbox := maskInbox w.inbox, broker := w.broker.mask }

/-! ## Calls and replies -/

def InboxCall.mask : InboxCall → InboxCall
  | .upsert sourceEventId type payload => .upsert sourceEventId type payload.mask
  | .findMany sel take => .findMany sel take
  | .update id data => .update id data

def InboxCall.maskResult : (c : InboxCall) → c.Result → c.mask.Result
  | .upsert _ _ _, e => e.mask
  | .findMany _ _, es => es.map InboxEvent.mask
  | .update _ _, e => e.mask

def KafkaCall.mask : KafkaCall → KafkaCall
  | .send topic m => .send topic (m.maskFor topic)
  | .fetch offset => .fetch offset
  | .commitOffset offset => .commitOffset offset

def KafkaCall.maskResult : (c : KafkaCall) → c.Result → c.mask.Result
  | .send _ _, x => x
  | .fetch _, m => m.mask
  | .commitOffset _, x => x

def LocalCall.mask : LocalCall → LocalCall
  | .now => .now
  | .sleep ms => .sleep ms
  | .inboxRetriesInc e => .inboxRetriesInc e.mask

namespace Call

def mask : Call → Call
  | .orders c => .orders c
  | .rules c => .rules c
  | .idem c => .idem c
  | .outbox c => .outbox c
  | .inbox c => .inbox c.mask
  | .redis c => .redis c
  | .kafka c => .kafka c.mask
  | .tx c => .tx c
  | .proc c => .proc c.mask

def maskResult : (c : Call) → c.Result → c.mask.Result
  | .orders _ => id
  | .rules _ => id
  | .idem _ => id
  | .outbox _ => id
  | .inbox c => c.maskResult
  | .redis _ => id
  | .kafka c => c.maskResult
  | .tx _ => id
  | .proc _ => id

/-- The reply with what it returns masked. -/
def maskReply (c : Call) (r : Reply c) : Reply c.mask := (r.1.map c.maskResult, r.2)

end Call

/-! ## Serving a call commutes with masking -/

section

variable {env : Env} {p : Pid} {newId : Uuid} {ch : Choice} {w : World}

theorem orderByCreatedAt_mask (take : Int) (rows : List InboxEvent) :
    (orderByCreatedAt InboxEvent.createdAt take rows).map InboxEvent.mask =
      orderByCreatedAt InboxEvent.createdAt take (rows.map InboxEvent.mask) := by
  have hsort := List.map_insertionSort (fun a b : InboxEvent => a.createdAt ≤ b.createdAt)
    (fun a b : InboxEvent => a.createdAt ≤ b.createdAt) InboxEvent.mask rows fun _ _ _ _ => Iff.rfl
  unfold orderByCreatedAt
  rw [← hsort]
  split
  · exact List.map_take
  · dsimp only
    rw [List.map_drop, List.length_map]

section

variable (t : Table InboxEvent)

theorem rows_maskInbox : (maskInbox t).rows = t.rows.map InboxEvent.mask := Table.rows_mapRows

theorem find?_maskInbox {p : InboxEvent → Bool} (hp : ∀ e, p e.mask = p e) :
    (maskInbox t).find? p = (t.find? p).map InboxEvent.mask :=
  Table.find?_mapRows hp

theorem insert?_maskInbox (e : InboxEvent) :
    (maskInbox t).insert? e.mask = (t.insert? e).map maskInbox :=
  Table.insert?_mapRows e

theorem update_maskInbox (id : Uuid) (u : InboxUpdate) :
    (maskInbox t).modify (fun e => e.id == id) u.apply ⟨fun _ _ => rfl⟩ =
      maskInbox (t.modify (fun e => e.id == id) u.apply ⟨fun _ _ => rfl⟩) :=
  Table.modify_mapRows (fun _ => rfl) fun _ => rfl

theorem filter_maskInbox {p : InboxEvent → Bool} (hp : ∀ e, p e.mask = p e) :
    (maskInbox t).rows.filter p = (t.rows.filter p).map InboxEvent.mask := by
  rw [rows_maskInbox, List.filter_map, show p ∘ InboxEvent.mask = p from funext hp]

end

theorem inbox_run_mask (now : Time) (t : Table InboxEvent) (c : InboxCall) :
    c.mask.run newId now (maskInbox t) =
      (c.run newId now t).map fun x => (maskInbox x.1, x.2.map c.maskResult) := by
  cases c with
  | upsert sid type payload =>
    simp only [InboxCall.mask, InboxCall.run, Json.storable_mask]
    split
    · rw [find?_maskInbox t fun _ => rfl]
      cases t.find? fun e => e.sourceEventId == sid with
      | some e => rfl
      | none =>
        have hins := insert?_maskInbox t (InboxCall.created newId now sid type payload)
        dsimp only [Option.map_none]
        rw [show InboxCall.created newId now sid type payload.mask =
          (InboxCall.created newId now sid type payload).mask from rfl, hins, Option.map_map,
          Option.map_map]
        rfl
    · rfl
  | findMany sel take =>
    rcases sel with now | (_ | status) | id <;> cases take <;> try rfl
    all_goals
      simp only [InboxCall.mask, InboxCall.run, Option.map_some]
      rw [filter_maskInbox t fun _ => rfl, ← orderByCreatedAt_mask]
      rfl
  | update id u =>
    simp only [InboxCall.mask, InboxCall.run]
    rw [find?_maskInbox t fun _ => rfl]
    cases t.find? fun e => e.id == id with
    | none => rfl
    | some e =>
      exact congrArg (fun t => some (t, Except.ok (u.apply e).mask)) (update_maskInbox t id u)

theorem kafka_run_mask (b : Broker) (c : KafkaCall) :
    c.mask.run b.mask = (c.run b).map fun x => (x.1.mask, x.2.map c.maskResult) := by
  cases c with
  | send topic m =>
    cases topic <;>
    · simp only [KafkaCall.mask, KafkaCall.run, Broker.mask, Option.map_some, List.map_append,
        List.map_singleton]
      rfl
  | fetch offset =>
    have hdelivers : b.mask.delivers offset = b.delivers offset := rfl
    simp only [KafkaCall.mask, KafkaCall.run, hdelivers]
    split
    · simp only [Broker.mask, List.getElem?_map, Option.map_map]
      rfl
    · rfl
  | commitOffset offset => rfl

theorem applyWrites_mask (writes : List TxWrite) :
    w.mask.applyWrites writes = (w.applyWrites writes).map World.mask := by
  induction writes generalizing w with
  | nil => rfl
  | cons x writes ih =>
    have hone : w.mask.applyWrite x = (w.applyWrite x).map World.mask := by
      cases x with
      | orderStatus id status => rfl
      | outbox row =>
        simp only [World.applyWrite, Option.map_map]
        rfl
      | ledger row =>
        simp only [World.applyWrite, Option.map_map]
        rfl
    simp only [World.applyWrites, List.foldlM_cons, hone]
    cases w.applyWrite x with
    | none => rfl
    | some w₁ => exact ih

theorem tx_run_mask (c : TxCall) :
    c.run env p newId w.mask = (c.run env p newId w).map fun x => (x.1.mask, x.2) := by
  cases c with
  | begin => rfl
  | rollback => rfl
  | stmt s =>
    have hs : s.run env p newId w.mask = s.run env p newId w := by cases s <;> rfl
    simp only [TxCall.run, show w.mask.txOf p = w.txOf p from rfl, hs]
    cases w.txOf p with
    | none => rfl
    | some tx =>
      dsimp only
      split
      · rfl
      · rw [Option.map_map]
        rfl
  | commit =>
    simp only [TxCall.run, show w.mask.txOf p = w.txOf p from rfl, applyWrites_mask]
    cases w.txOf p with
    | none => rfl
    | some tx =>
      dsimp only
      split
      · rfl
      · cases w.applyWrites tx.writes <;> rfl

theorem run_mask (c : Call) : c.mask.run env p newId w.mask =
    (c.run env p newId w).map fun x => (x.1.mask, x.2.map c.maskResult) := by
  cases c with
  | inbox c =>
    simp only [Call.mask, Call.run, Option.map_map]
    rw [show w.mask.inbox = maskInbox w.inbox from rfl,
      show w.mask.clock = w.clock from rfl, inbox_run_mask, Option.map_map]
    rfl
  | kafka c =>
    simp only [Call.mask, Call.run, Option.map_map]
    rw [show w.mask.broker = w.broker.mask from rfl, kafka_run_mask, Option.map_map]
    rfl
  | tx c =>
    simp only [Call.mask, Call.run, Call.maskResult, Except.map_id, tx_run_mask]
    rfl
  | proc c =>
    cases c <;> rfl
  | redis c =>
    simp only [Call.mask, Call.run, Call.maskResult, Except.map_id]
    rfl
  | _ c =>
    simp only [Call.mask, Call.run, Call.maskResult, Option.map_map, Except.map_id]
    rfl

theorem settle_mask (c : Call) (r : Except Fault c.Result) :
    (w.settle p c r).mask = w.mask.settle p c.mask (r.map c.maskResult) := by
  cases c with
  | tx c => cases r <;> rfl
  | _ c => rfl

theorem exec_mask (c : Call) : exec env p c.mask ch w.mask =
    (exec env p c ch w).map fun x => (x.1.mask, c.maskReply x.2) := by
  unfold exec
  cases ch.fate with
  | ok =>
    simp only [run_mask, Option.map_map, Function.comp_def, settle_mask]
    rfl
  | fail m =>
    simp only [Option.map_some, settle_mask]
    rfl
  | lost m =>
    simp only [run_mask, Option.map_map, Function.comp_def, settle_mask]
    rfl

/-- What happens outside, with the payload of a produced message masked. -/
def Outside.mask : Outside → Outside
  | .tick ms => .tick ms
  | .produce m => .produce m.mask
  | .rewind offset => .rewind offset

theorem outside_mask (e : Outside) : outside e.mask w.mask = (outside e w).map World.mask := by
  cases e with
  | tick ms => rfl
  | produce m =>
    simp only [Outside.mask, outside, World.mask, Broker.mask, Option.map_some, List.map_append,
      List.map_singleton]
    rfl
  | rewind offset => rfl

end

end CashbackLedger
