import CashbackLedger.Safety.Pass

/-
  One pass of the publisher, event by event.

  An attempt on an event changes its own row and sends its own messages (`Spares`). It goes through
  as `published` says when the claim, the message and the mark go through (`Setting.Delivers`), and
  it ends without an exception exactly if it does, or the two calls of the `catch` block succeed
  (`Setting.Reschedules`).
-/

namespace CashbackLedger

open Lib

/-- The body of the loop in `publishOnce`. -/
def publishAttempt (env : Env) (e : OutboxEvent) : Async Unit :=
  tryCatch (sendEvent env e) fun _ => sendFailed env e

/-- The message of an outbox row with this id. -/
def IsMessageOf (id : Uuid) (m : KafkaMessage) : Bool :=
  Json.isStr (m.value.bind fun j => j.field "id") id.text

/-- What has come of an outbox event: its row and its messages on the topic. -/
structure OutboxOutcome where
  row : Option OutboxEvent
  messages : List KafkaMessage

def World.outboxOutcome (w : World) (id : Uuid) : OutboxOutcome where
  row := w.outbox.find? fun e => e.id == id
  messages := w.broker.events.filter (IsMessageOf id)

/-- The row is claimed, its message sent and the row marked. -/
structure Setting.Delivers (d : Setting) (x : Uuid) : Prop where
  claim : d.at x .claim = .ok
  send : d.at x .send = .ok
  markSent : d.at x .markSent = .ok

/-- The row is read again and put off, or given up. -/
structure Setting.Reschedules (d : Setting) (x : Uuid) : Prop where
  reread : d.at x .reread = .ok
  reschedule : d.at x .reschedule = .ok

theorem OutboxUpdate.keepsKeys (u : OutboxUpdate) : KeepsKeys u.apply := ⟨fun _ _ => rfl⟩

theorem keepsKeys_attempt :
    KeepsKeys fun e : OutboxEvent => { e with attempts := e.attempts + 1 } := ⟨fun _ _ => rfl⟩

def claimRow (id : Uuid) (t : Table OutboxEvent) : Table OutboxEvent :=
  t.modify (fun e => e.id == id && e.status == .PENDING)
    (fun e => { e with attempts := e.attempts + 1 }) keepsKeys_attempt

def updateRow (id : Uuid) (u : OutboxUpdate) (t : Table OutboxEvent) : Table OutboxEvent :=
  t.modify (fun e => e.id == id) u.apply u.keepsKeys

def Broker.publish (b : Broker) (m : KafkaMessage) : Broker := { b with events := b.events ++ [m] }

/-- The world after an event was delivered. -/
def published (env : Env) (d : Setting) (w : World) (e : OutboxEvent) : World :=
  { w with
    outbox := updateRow e.id { status := some .SENT, sentAt := some (some (d.time (some e.id) 1)) }
      (claimRow e.id w.outbox)
    broker := w.broker.publish (outboxMessage env e) }

/-- Nothing has come of other events, and the row of this one is still there. -/
structure Spares (id : Uuid) (w w' : World) : Prop where
  others : ∀ id', id' ≠ id → w'.outboxOutcome id' = w.outboxOutcome id'
  row : (w'.outboxOutcome id).row.isSome = (w.outboxOutcome id).row.isSome

section

variable {env : Env} {p : Pid} {d : Setting} {w w' w₁ : World} {tx : Option Tx} {x id : Uuid}
  {before : List Uuid} {n : Nat} {y : PassState} {e : OutboxEvent}
  {t : Table OutboxEvent} {r : OutboxEvent} {S : Prop}

theorem publishEvents_eq (env : Env) (events : List OutboxEvent) :
    publishEvents env events = Act.forEach (publishAttempt env) events := by
  induction events with
  | nil => rfl
  | cons e events ih =>
    unfold publishEvents Act.forEach
    rw [ih]
    rfl

theorem Setting.delivers_of_ne (hx : x ≠ d.failing) : d.Delivers x :=
  ⟨d.at_of_ne hx _, d.at_of_ne hx _, d.at_of_ne hx _⟩

/-! ## What a call spares -/

theorem Spares.refl (id : Uuid) (w : World) : Spares id w w := ⟨fun _ _ => rfl, rfl⟩

theorem Spares.trans (h : Spares id w w₁) (h' : Spares id w₁ w') : Spares id w w' :=
  ⟨fun id' hne => (h'.others id' hne).trans (h.others id' hne), h'.row.trans h.row⟩

/-- A change of the row. -/
theorem spares_modify {q : OutboxEvent → Bool} {f : OutboxEvent → OutboxEvent} {hf : KeepsKeys f}
    (hq : ∀ a, q a = true → a.id = id) (hid : ∀ a, (f a).id = a.id) (w : World) :
    Spares id w { w with outbox := w.outbox.modify q f hf } := by
  refine ⟨fun id' hne => ?_, ?_⟩
  · have hrow : (w.outbox.modify q f hf).find? (fun e => e.id == id') =
        w.outbox.find? fun e => e.id == id' := by
      refine Table.find?_modify_of_not
        (fun a => by rw [hid]) fun a ha => Bool.eq_false_iff.mpr fun hqa => ?_
      exact hne ((beq_iff_eq.mp ha).symm.trans (hq a hqa))
    unfold World.outboxOutcome
    rw [hrow]
  · show ((w.outbox.modify q f hf).find? _).isSome = (w.outbox.find? _).isSome
    rw [Table.find?_modify (fun a => by rw [hid]), Option.isSome_map]

theorem spares_claim (id : Uuid) (w : World) :
    Spares id w { w with outbox := claimRow id w.outbox } :=
  spares_modify (f := fun e => { e with attempts := e.attempts + 1 })
    (fun _ h => beq_iff_eq.mp (Bool.and_eq_true_iff.mp h).1) (fun _ => rfl) w

theorem spares_update (id : Uuid) (u : OutboxUpdate) (w : World) :
    Spares id w { w with outbox := updateRow id u w.outbox } :=
  spares_modify (f := u.apply) (fun _ h => beq_iff_eq.mp h) (fun _ => rfl) w

theorem isMessageOf_outboxMessage (id : Uuid) (e : OutboxEvent) :
    IsMessageOf id (outboxMessage env e) = decide (e.id = id) := by
  refine Bool.eq_iff_iff.mpr ?_
  show (e.id.text == id.text) = true ↔ _
  rw [beq_iff_eq, decide_eq_true_eq]
  exact ⟨Uuid.text_inj, congrArg Uuid.text⟩

theorem spares_publish (env : Env) (e : OutboxEvent) (w : World) :
    Spares e.id w { w with broker := w.broker.publish (outboxMessage env e) } := by
  refine ⟨fun id' hne => ?_, rfl⟩
  have hmessages : (w.broker.publish (outboxMessage env e)).events.filter (IsMessageOf id') =
      w.broker.events.filter (IsMessageOf id') := by
    unfold Broker.publish
    rw [List.filter_append, List.filter_cons_of_neg, List.filter_nil, List.append_nil]
    rw [isMessageOf_outboxMessage, decide_eq_true_eq]
    exact Ne.symm hne
  unfold World.outboxOutcome
  rw [hmessages]

/-! ## An attempt -/

/-- Within the attempt on `e` that was begun in `w`. -/
structure Sending (env : Env) (p : Pid) (d : Setting) (w : World) (tx : Option Tx) (e : OutboxEvent)
    (before : List Uuid) (w' : World) (n : Nat) (y : PassState) : Prop where
  within : Within env p d w' tx e.id before n y
  spares : Spares e.id w w'

theorem claimRow_find (h : t.find? (fun r => r.id == e.id) = some e)
    (hpending : e.status = .PENDING) :
    (claimRow e.id t).find? (fun r => r.id == e.id) =
      some { e with attempts := e.attempts + 1 } := by
  unfold claimRow
  rw [Table.find?_modify (by exact fun _ => rfl), h]
  simp [hpending]

theorem claim_run (h : t.find? (fun r => r.id == e.id) = some e) (hpending : e.status = .PENDING) :
    OutboxCall.run t (.claim e.id) = some (claimRow e.id t, .ok 1) := by
  have hany : (t.any fun r => r.id == e.id && r.status == .PENDING) = true := by
    refine Table.any_iff.mpr ⟨e, Table.mem_of_find? h, ?_⟩
    rw [hpending]
    simp
  unfold OutboxCall.run
  dsimp only
  rw [hany]
  rfl

theorem update_run (u : OutboxUpdate) (h : t.find? (fun r => r.id == id) = some r) :
    OutboxCall.run t (.update id u) = some (updateRow id u t, .ok (u.apply r)) := by
  unfold OutboxCall.run
  dsimp only
  rw [h]
  rfl

/-- The `try` block. -/
theorem ends_sendEvent (hmono : Monotone (d.time (some e.id)))
    (h : Ready env p d w tx e.id before 0 (.outbox (.claim e.id)) y)
    (hrow : w.outbox.find? (fun r => r.id == e.id) = some e) (hpending : e.status = .PENDING) :
    Ends (servePass env p d) False (fun y' r => ∃ w' n, Sending env p d w tx e before w' n y' ∧
      match r with
      | .ok _ => d.Delivers e.id ∧ w' = published env d w e
      | .error _ => ¬ d.Delivers e.id) y (sendEvent env e).run := by
  have hclaim := claim_run hrow hpending
  have hclaimed := claimRow_find hrow hpending
  refine ends_act_bind.mpr (ends_await_of_at ((ends_outbox h hclaim).post ?_))
  rintro y₁ r ⟨w₁, hanswer, hin⟩
  have hspares := spares_claim e.id w
  rw [Setting.fateOf_site (s := .claim) rfl] at hanswer
  rcases hanswer.cases with ⟨hfate, rfl, rfl⟩ | ⟨hfate, heither, f, rfl⟩
  · -- claimed
    refine ends_act_bind.mpr ((ends_kafka (k := .send .events (outboxMessage env e))
      (b := w.broker.publish (outboxMessage env e)) (hin.ready hmono rfl) rfl).post ?_)
    rintro y₂ r ⟨w₂, hanswer, hin⟩
    have hspares₂ := hspares.trans (spares_publish env e _)
    rw [Setting.fateOf_site (s := .send) rfl] at hanswer
    rcases hanswer.cases with ⟨hfate₂, rfl, rfl⟩ | ⟨hfate₂, heither, f, rfl⟩
    · -- sent
      have hmark :=
        update_run { status := some .SENT, sentAt := some (some (d.time (some e.id) 1)) } hclaimed
      refine ends_act_bind.mpr
        (ends_await_of_at ((ends_outbox (hin.ready hmono rfl) hmark).post ?_))
      rintro y₃ r ⟨w₃, hanswer, hin⟩
      have hspares₃ := hspares₂.trans (spares_update e.id
        { status := some .SENT, sentAt := some (some (d.time (some e.id) 1)) } _)
      rw [Setting.fateOf_site (s := .markSent) rfl] at hanswer
      rcases hanswer.cases with ⟨hfate₃, rfl, rfl⟩ | ⟨hfate₃, heither, f, rfl⟩
      · exact ⟨_, 3, ⟨hin, hspares₃⟩, ⟨hfate, hfate₂, hfate₃⟩, rfl⟩
      · exact ⟨_, 3, ⟨hin, heither _ hspares₂ hspares₃⟩, fun hd => hfate₃ hd.markSent⟩
    · exact ⟨_, 2, ⟨hin, heither _ hspares hspares₂⟩, fun hd => hfate₂ hd.send⟩
  · exact ⟨_, 1, ⟨hin, heither _ (.refl _ _) hspares⟩, fun hd => hfate hd.claim⟩

/-- The `catch` block. -/
theorem ends_sendFailed (hmono : Monotone (d.time (some e.id)))
    (h : Sending env p d w tx e before w' n y) (hrow : (w.outboxOutcome e.id).row.isSome = true) :
    Ends (servePass env p d) False (fun y' r => ∃ w' n, Sending env p d w tx e before w' n y' ∧
      (r = .ok () ↔ d.Reschedules e.id)) y (sendFailed env e).run := by
  obtain ⟨row, hrow⟩ := Option.isSome_iff_exists.mp (h.spares.row.trans hrow)
  have hfind : OutboxCall.run w'.outbox (.findUnique e.id) = some (w'.outbox, .ok (some row)) := by
    unfold OutboxCall.run
    dsimp only
    rw [show w'.outbox.find? _ = _ from hrow]
  refine ends_act_bind.mpr ((ends_outbox (h.within.ready hmono rfl) hfind).post ?_)
  rintro y₁ r ⟨w₁, hanswer, hin⟩
  rw [Setting.fateOf_site (s := .reread) rfl] at hanswer
  rcases hanswer.cases with ⟨hfate, rfl, rfl⟩ | ⟨hfate, heither, f, rfl⟩
  · have hupdate : ∀ u : OutboxUpdate, u.status ≠ some .SENT →
        Ends (servePass env p d) False (fun y' r => ∃ w' n, Sending env p d w tx e before w' n y' ∧
          (r = .ok () ↔ d.Reschedules e.id)) y₁
          (do let _ ← await (.outbox (.update e.id u)) : Async Unit).run := by
      intro u hu
      have hsite : (Call.outbox (.update e.id u)).site = some .reschedule :=
        congrArg some (if_neg hu)
      refine ends_act_bind.mpr (ends_await_of_at
        ((ends_outbox (hin.ready hmono rfl) (update_run u hrow)).post ?_))
      rintro y₂ r ⟨w₂, hanswer, hin⟩
      rw [Setting.fateOf_site hsite] at hanswer
      rcases hanswer.cases with ⟨hfate₂, rfl, rfl⟩ | ⟨hfate₂, heither, f, rfl⟩
      · exact ⟨_, _, ⟨hin, h.spares.trans (spares_update e.id u w')⟩,
          fun _ => ⟨hfate, hfate₂⟩, fun _ => rfl⟩
      · exact ⟨_, _, ⟨hin, heither _ h.spares (h.spares.trans (spares_update e.id u w'))⟩, nofun,
          fun hr => absurd hr.reschedule hfate₂⟩
    dsimp only
    split
    · exact hupdate _ nofun
    · exact hupdate _ nofun
  · exact ⟨_, _, ⟨hin, heither _ h.spares h.spares⟩, nofun, fun hr => absurd hr.reread hfate⟩

/-- An attempt: it ends without an exception if the event is delivered or rescheduled, and only
    then. -/
theorem ends_publishAttempt (hmono : Monotone (d.time (some e.id))) (h : AsIn env p w tx y.world)
    (hclock : y.world.clock ≤ d.time (some e.id) 0) (hrow : (w.outboxOutcome e.id).row = some e)
    (hpending : e.status = .PENDING) :
    Ends (servePass env p d) False (fun y' r => ∃ w' n, Sending env p d w tx e y.begun w' n y' ∧
      (d.Delivers e.id → w' = published env d w e) ∧
      (r = .ok () ↔ d.Delivers e.id ∨ d.Reschedules e.id)) y (publishAttempt env e).run := by
  refine ends_act_tryCatch.mpr ((ends_sendEvent hmono (h.ready hclock rfl) hrow hpending).post ?_)
  rintro y' r ⟨w', n, hsending, hr⟩
  cases r with
  | ok u => exact ⟨w', n, hsending, fun _ => hr.2, fun _ => Or.inl hr.1, fun _ => rfl⟩
  | error f =>
    refine (ends_sendFailed hmono hsending ?_).post ?_
    · rw [hrow]
      rfl
    · rintro y'' r ⟨w'', n', hsending', hiff⟩
      exact ⟨w'', n', hsending', fun hd => absurd hd hr, hiff.trans (or_iff_right hr).symm⟩

/-! ## The batch -/

/-- The rows are there as they were selected. -/
def Waiting (w : World) (events : List OutboxEvent) : Prop :=
  ∀ e ∈ events, (w.outboxOutcome e.id).row = some e ∧ e.status = .PENDING

/-- The worlds agree on what has come of all events but one. -/
def AgreeBut (id : Uuid) (w w' : World) : Prop :=
  ∀ id', id' ≠ id → w.outboxOutcome id' = w'.outboxOutcome id'

theorem spares_published (env : Env) (d : Setting) (w : World) (e : OutboxEvent) :
    Spares e.id w (published env d w e) :=
  ((spares_claim e.id w).trans (spares_update e.id _ _)).trans (spares_publish env e _)

/-- What comes of a delivered event depends on what had come of it. -/
theorem published_self (h : w.outboxOutcome e.id = w'.outboxOutcome e.id) :
    (published env d w e).outboxOutcome e.id = (published env d w' e).outboxOutcome e.id := by
  simp only [World.outboxOutcome, OutboxOutcome.mk.injEq] at h
  obtain ⟨hrow, hmessages⟩ := h
  simp only [World.outboxOutcome, published,
    updateRow, claimRow, Broker.publish, List.filter_append,
    hmessages, OutboxOutcome.mk.injEq, and_true]
  rw [Table.find?_modify (by exact fun _ => rfl), Table.find?_modify (by exact fun _ => rfl), hrow,
    Table.find?_modify (by exact fun _ => rfl), Table.find?_modify (by exact fun _ => rfl)]

theorem AgreeBut.published (h : AgreeBut id w w') (e : OutboxEvent) :
    AgreeBut id (published env d w e) (published env d w' e) := by
  intro id' hne
  by_cases he : id' = e.id
  · subst he
    exact published_self (h _ hne)
  · rw [(spares_published env d w e).others id' he, (spares_published env d w' e).others id' he]
    exact h id' hne

theorem AgreeBut.foldl (h : AgreeBut id w w') (events : List OutboxEvent) :
    AgreeBut id (events.foldl (CashbackLedger.published env d) w)
      (events.foldl (CashbackLedger.published env d) w') := by
  induction events generalizing w w' with
  | nil => exact h
  | cons e events ih => exact ih (h.published e)

/-- Other events are spared by a batch. -/
theorem foldl_published_other (events : List OutboxEvent) (h : id ∉ events.map OutboxEvent.id) :
    (events.foldl (published env d) w).outboxOutcome id = w.outboxOutcome id := by
  induction events generalizing w with
  | nil => rfl
  | cons e events ih =>
    obtain ⟨hne, hrest⟩ := not_or.mp (List.mem_cons.not.mp h)
    exact (ih hrest).trans ((spares_published env d w e).others id hne)

theorem Waiting.published {events : List OutboxEvent} (h : Waiting w (e :: events))
    (hnodup : ((e :: events).map OutboxEvent.id).Nodup) :
    Waiting (CashbackLedger.published env d w e) events := by
  intro e' he'
  obtain ⟨hrow, hpending⟩ := h e' (List.mem_cons_of_mem e he')
  have hne : e'.id ≠ e.id := fun heq => by
    have hmem := List.mem_map_of_mem (f := OutboxEvent.id) he'
    rw [heq] at hmem
    exact (List.nodup_cons.mp hnodup).1 hmem
  rw [(spares_published env d w e).others e'.id hne]
  exact ⟨hrow, hpending⟩

/-- A batch without the failing event. -/
theorem ends_deliverAll (events : List OutboxEvent) (later : List Uuid)
    (hfine : ∀ e ∈ events, e.id ≠ d.failing) (hnodup : (events.map OutboxEvent.id).Nodup)
    (horder : d.InOrder (events.map OutboxEvent.id ++ later))
    (hahead : d.Ahead (events.map OutboxEvent.id ++ later) y) (hwaiting : Waiting w events)
    (h : AsIn env p w tx y.world) :
    Ends (servePass env p d) False (fun y' r => r = .ok () ∧
        AsIn env p (events.foldl (published env d) w) tx y'.world ∧ d.Ahead later y' ∧
        y'.begun = (events.map OutboxEvent.id).reverse ++ y.begun) y
      (Act.forEach (publishAttempt env) events).run := by
  induction events generalizing w y with
  | nil => exact ⟨rfl, h, hahead, rfl⟩
  | cons e events ih =>
    have hmem := List.mem_cons_self (a := e) (l := events)
    obtain ⟨hrow, hpending⟩ := hwaiting e hmem
    have hmono := horder.within e.id List.mem_cons_self
    have hclock := hahead e.id List.mem_cons_self 0
    have hdelivers := d.delivers_of_ne (hfine e hmem)
    refine ends_act_bind.mpr ((ends_publishAttempt hmono h hclock hrow hpending).post ?_)
    rintro y' r ⟨w', n, hsending, hworld, hr⟩
    obtain rfl := hr.mpr (Or.inl hdelivers)
    obtain rfl := hworld hdelivers
    refine (ih (fun x hx => hfine x (List.mem_cons_of_mem e hx)) (List.nodup_cons.mp hnodup).2
      (horder.sublist (List.sublist_cons_self _ _)) (hsending.within.ahead horder)
      (hwaiting.published hnodup) hsending.within.toAsIn).post ?_
    rintro y'' r ⟨hr, hin, hlater, hbegun⟩
    refine ⟨hr, hin, hlater, ?_⟩
    rw [hbegun, hsending.within.begun, List.map_cons, List.reverse_cons, List.append_assoc]
    rfl

/-- The batch a pass selects. -/
def dueOutbox (env : Env) (d : Setting) (w : World) : List OutboxEvent :=
  orderByCreatedAt OutboxEvent.createdAt env.batchSize
    (w.outbox.rows.filter (OutboxCall.selects (.due (d.time none 0))))

theorem dueOutbox_nodup : ((dueOutbox env d w).map OutboxEvent.id).Nodup := by
  refine List.pairwise_map.mpr ((apart_orderByCreatedAt w.outbox _ _ _).imp fun {a b} hab heq => ?_)
  simp [Indexed.clash, heq] at hab

theorem dueOutbox_waiting : Waiting w (dueOutbox env d w) := by
  intro e he
  obtain ⟨hmem, hdue⟩ := List.mem_filter.mp (mem_of_orderByCreatedAt he)
  refine ⟨Table.find?_of_mem hmem (beq_self_eq_true _) fun b _ hb => ?_, ?_⟩
  · exact beq_iff_eq.mpr (beq_iff_eq.mp hb).symm
  · exact beq_iff_eq.mp (Bool.and_eq_true_iff.mp hdue).1

/-- The selection, and then the events. -/
theorem ends_publishOnce {Q : PassState → Except Fault Unit → Prop} (hmono : Monotone (d.time none))
    (h : Selecting env p d w tx 0 y)
    (hQ : ∀ y', Selecting env p d w tx 2 y' →
      Ends (servePass env p d) S Q y' (Act.forEach (publishAttempt env) (dueOutbox env d w)).run) :
    Ends (servePass env p d) S Q y (publishOnce env).run := by
  obtain ⟨y₁, hserve₁, h₁⟩ :=
    serve_selecting (c := .proc .now) rfl (fun _ _ => rfl) hmono h fun _ _ => rfl
  obtain ⟨y₂, hserve₂, h₂⟩ := serve_selecting
    (c := .outbox (.findMany (.due (d.time none 0)) (some env.batchSize))) (a := dueOutbox env d w)
    rfl (fun _ _ => rfl) hmono h₁ fun v hv => by
      show some ({ v with outbox := v.outbox }, _) = _
      rw [hv.outbox]
      rfl
  refine ends_act_bind.mpr (ends_call.mpr ?_)
  rw [hserve₁]
  refine ends_act_bind.mpr (ends_call.mpr ?_)
  dsimp only
  rw [hserve₂]
  show Ends (servePass env p d) S Q y₂ (publishEvents env (dueOutbox env d w)).run
  rw [publishEvents_eq]
  exact hQ y₂ h₂

/-! ## With the failing event and without -/

variable {pre post : List OutboxEvent}

/-- What the events of a batch need to be attempted in turn. -/
structure Deliverable (d : Setting) (w : World) (events : List OutboxEvent) : Prop where
  nodup : (events.map OutboxEvent.id).Nodup
  waiting : Waiting w events
  order : d.InOrder (events.map OutboxEvent.id)

/-- How the loop ends over a batch with the failing event: it was attempted in `w₀`, which had the
    events before it delivered, and left the world at `w₁`. -/
structure LoopEnds (env : Env) (p : Pid) (d : Setting) (w : World) (tx : Option Tx)
    (pre : List OutboxEvent) (e : OutboxEvent) (post : List OutboxEvent) (w₁ : World)
    (y : PassState) (r : Except Fault Unit) : Prop where
  spares : Spares e.id (pre.foldl (published env d) w) w₁
  went_on : d.Delivers e.id ∨ d.Reschedules e.id → r = .ok () ∧
    AsIn env p (post.foldl (published env d) w₁) tx y.world ∧
    y.begun = (post.map OutboxEvent.id).reverse ++ e.id :: (pre.map OutboxEvent.id).reverse
  stopped : ¬ (d.Delivers e.id ∨ d.Reschedules e.id) → AsIn env p w₁ tx y.world ∧
    y.begun = e.id :: (pre.map OutboxEvent.id).reverse

theorem ends_loop (hfailing : d.failing = e.id) (hbatch : Deliverable d w (pre ++ e :: post))
    (hahead : d.Ahead ((pre ++ e :: post).map OutboxEvent.id) y) (hbegun : y.begun = [])
    (h : AsIn env p w tx y.world) :
    Ends (servePass env p d) False (fun y' r => ∃ w₁, LoopEnds env p d w tx pre e post w₁ y' r) y
      (Act.forEach (publishAttempt env) (pre ++ e :: post)).run := by
  obtain ⟨hnodup, hwaiting, horder⟩ := hbatch
  rw [List.map_append, List.map_cons] at hnodup horder hahead
  obtain ⟨hpre, hrest, hapart⟩ := List.nodup_append.mp hnodup
  obtain ⟨he, hpost⟩ := List.nodup_cons.mp hrest
  have hnotpre : ∀ {id : Uuid}, id ∈ e.id :: post.map OutboxEvent.id →
      id ∉ pre.map OutboxEvent.id :=
    fun hid hmem => hapart _ hmem _ hid rfl
  have horder' := horder.sublist (List.sublist_append_right (pre.map OutboxEvent.id) _)
  refine ends_forEach_append.mpr
    ((ends_deliverAll pre (e.id :: post.map OutboxEvent.id) ?_ hpre horder
    hahead (fun x hx => hwaiting x (List.mem_append_left _ hx)) h).post ?_)
  · intro x hx heq
    exact hnotpre List.mem_cons_self ((heq.trans hfailing) ▸ List.mem_map_of_mem hx)
  rintro y₁ r ⟨rfl, hin, hlater, hbegun₁⟩
  rw [hbegun, List.append_nil] at hbegun₁
  have hrow := hwaiting e (List.mem_append_right _ List.mem_cons_self)
  have hkept : ∀ {id : Uuid}, id ∈ e.id :: post.map OutboxEvent.id →
      (pre.foldl (published env d) w).outboxOutcome id = w.outboxOutcome id :=
    fun hid => foldl_published_other pre (hnotpre hid)
  refine ends_act_bind.mpr ((ends_publishAttempt (horder'.within e.id List.mem_cons_self) hin
    (hlater e.id List.mem_cons_self 0) ?_ hrow.2).post ?_)
  · rw [hkept List.mem_cons_self]
    exact hrow.1
  rintro y₂ r ⟨w₁, n, hsending, -, hiff⟩
  have hbegun₂ := hsending.within.begun
  rw [hbegun₁] at hbegun₂
  cases r with
  | error f =>
    have hstopped : ¬ (d.Delivers e.id ∨ d.Reschedules e.id) := fun h => nomatch hiff.mpr h
    exact ⟨w₁, hsending.spares, fun h => absurd h hstopped,
      fun _ => ⟨hsending.within.toAsIn, hbegun₂⟩⟩
  | ok u =>
    have hwent := hiff.mp rfl
    have hmem : ∀ {x : OutboxEvent}, x ∈ post → x.id ∈ post.map OutboxEvent.id :=
      List.mem_map_of_mem
    refine (ends_deliverAll post [] ?_ hpost ?_ ?_ ?_ hsending.within.toAsIn).post ?_
    · intro x hx heq
      exact he ((heq.trans hfailing) ▸ hmem hx)
    · rw [List.append_nil]
      exact horder'.sublist (List.sublist_cons_self _ _)
    · rw [List.append_nil]
      exact hsending.within.ahead horder'
    · intro x hx
      have hne : x.id ≠ e.id := fun heq => he (heq ▸ hmem hx)
      rw [hsending.spares.others x.id hne, hkept (List.mem_cons_of_mem _ (hmem hx))]
      exact hwaiting x (List.mem_append_right _ (List.mem_cons_of_mem _ hx))
    · rintro y₃ r ⟨rfl, hin₃, -, hbegun₃⟩
      rw [hbegun₂] at hbegun₃
      exact ⟨w₁, hsending.spares, fun _ => ⟨rfl, hin₃, hbegun₃⟩, fun h => absurd hwent h⟩

theorem AsIn.outboxOutcome {v : World} (h : AsIn env p w tx v) (id : Uuid) :
    v.outboxOutcome id = w.outboxOutcome id := by
  unfold World.outboxOutcome
  rw [h.outbox, h.broker]

theorem updateRow_find {u : OutboxUpdate} (h : t.find? (fun r => r.id == id) = some r) :
    (updateRow id u t).find? (fun r => r.id == id) = some (u.apply r) := by
  have hid := Table.of_find? (p := fun r : OutboxEvent => r.id == id) h
  unfold updateRow
  rw [Table.find?_modify (by exact fun _ => rfl), h, Option.map_some, if_pos hid]

theorem published_sent (h : (w.outboxOutcome e.id).row = some r) :
    ∃ row, ((published env d w e).outboxOutcome e.id).row = some row ∧ row.status = .SENT := by
  have hclaimed := (spares_claim e.id w).row
  rw [h] at hclaimed
  obtain ⟨row, hrow⟩ := Option.isSome_iff_exists.mp hclaimed
  exact ⟨_, updateRow_find hrow, rfl⟩

/-- A batch without the failing event is delivered. -/
theorem foldl_published_sent (env : Env) (d : Setting) (events : List OutboxEvent)
    (hnodup : (events.map OutboxEvent.id).Nodup) (hwaiting : Waiting w events) (he : e ∈ events) :
    ∃ row, ((events.foldl (published env d) w).outboxOutcome e.id).row = some row ∧
      row.status = .SENT := by
  induction events generalizing w with
  | nil => cases he
  | cons x events ih =>
    obtain ⟨hx, hrest⟩ := List.nodup_cons.mp hnodup
    rcases List.mem_cons.mp he with rfl | he
    · show ∃ row, ((events.foldl (published env d) (published env d w e)).outboxOutcome e.id).row =
        some row ∧ _
      rw [foldl_published_other events hx]
      exact published_sent (hwaiting e List.mem_cons_self).1
    · exact ih hrest (hwaiting.published hnodup) he

theorem Deliverable.ne_others (h : Deliverable d w (pre ++ e :: post)) :
    ∀ x ∈ pre ++ post, x.id ≠ e.id := by
  intro x hx heq
  have hnodup := h.nodup
  rw [List.map_append, List.map_cons, List.nodup_middle, ← List.map_append] at hnodup
  exact (List.nodup_cons.mp hnodup).1 (heq ▸ List.mem_map_of_mem hx)

theorem Deliverable.others (h : Deliverable d w (pre ++ e :: post)) :
    Deliverable d w (pre ++ post) := by
  have hsub : List.Sublist (pre ++ post) (pre ++ e :: post) :=
    (List.Sublist.refl pre).append (List.sublist_cons_self e post)
  exact ⟨h.nodup.sublist (hsub.map _), fun x hx => h.waiting x (hsub.subset hx),
    h.order.sublist (hsub.map _)⟩

/-- A pass of the publisher with the failing event. What the loop throws is caught. -/
theorem ends_publishRound (hkeys : OneEntry w.redis) (hbatch : dueOutbox env d w = pre ++ e :: post)
    (hforward : d.Forward w.clock ((pre ++ e :: post).map OutboxEvent.id))
    (hfailing : d.failing = e.id) (hall : Deliverable d w (pre ++ e :: post)) :
    Ends (servePass env p d) False (fun y r => r = .ok () ∧ ∃ w₁ r₁,
      LoopEnds env p d w (w.txOf p) pre e post w₁ y r₁) (.start w) (publishRound env).run := by
  have hself : AsIn env p w (w.txOf p) w := .self hkeys
  refine ends_act_tryCatch.mpr
    (ends_publishOnce hforward.selection ⟨hself, rfl, rfl, hforward.first⟩
    fun y hy => ?_)
  rw [hbatch]
  have hlater : d.Ahead ((pre ++ e :: post).map OutboxEvent.id) y := fun id hid n =>
    Nat.le_trans hy.clock (hforward.lasting id hid 2 n)
  refine (ends_loop hfailing hall hlater hy.begun hy.toAsIn).post ?_
  rintro y' r ⟨w₁, hends⟩
  cases r with
  | ok u => exact ⟨rfl, w₁, _, hends⟩
  | error f => exact ⟨rfl, w₁, _, hends⟩

/-- A pass over the other events alone. -/
theorem deliver_others (hkeys : OneEntry w.redis) (hfailing : d.failing = e.id)
    (hforward : d.Forward w.clock ((pre ++ e :: post).map OutboxEvent.id))
    (hall : Deliverable d w (pre ++ e :: post)) :
    ∃ y, runPass env p d (.start w) (publishEvents env (pre ++ post)) = some (y, .ok ()) ∧
      ∀ id, y.world.outboxOutcome id =
        ((pre ++ post).foldl (published env d) w).outboxOutcome id := by
  have hself : AsIn env p w (w.txOf p) w := .self hkeys
  have hsub : List.Sublist (pre ++ post) (pre ++ e :: post) :=
    (List.Sublist.refl pre).append (List.sublist_cons_self e post)
  have hfine : ∀ x ∈ pre ++ post, x.id ≠ d.failing :=
    fun x hx heq => hall.ne_others x hx (heq.trans hfailing)
  have hahead : d.Ahead ((pre ++ post).map OutboxEvent.id) (.start w) := fun id hid n =>
    Nat.le_trans hforward.first (hforward.lasting id ((hsub.map OutboxEvent.id).subset hid) 0 n)
  have hdelivered := ends_deliverAll (y := .start w) (pre ++ post) [] hfine hall.others.nodup
    (by rw [List.append_nil]; exact hall.others.order) (by rw [List.append_nil]; exact hahead)
    hall.others.waiting hself
  rw [← publishEvents_eq] at hdelivered
  obtain ⟨y, r, hrun, rfl, hin, -, -⟩ := hdelivered.exists
  exact ⟨y, hrun, hin.outboxOutcome⟩

/-- The loop stopped: an event after the failing one is not delivered as it would have been. -/
theorem LoopEnds.cut_off {x : OutboxEvent} {f : Except Fault Unit}
    (h : LoopEnds env p d w tx pre e post w₁ y f) (hall : Deliverable d w (pre ++ e :: post))
    (hstop : ¬ (d.Delivers e.id ∨ d.Reschedules e.id)) (hx : x ∈ post) :
    y.world.outboxOutcome x.id ≠ ((pre ++ post).foldl (published env d) w).outboxOutcome x.id := by
  have hmem := List.mem_append_right pre hx
  obtain ⟨hrow, hpending⟩ := hall.others.waiting x hmem
  obtain ⟨row, hsent, hstatus⟩ :=
    foldl_published_sent env d (pre ++ post) hall.others.nodup hall.others.waiting hmem
  have hnotpre : x.id ∉ pre.map OutboxEvent.id := fun hpre => by
    have hnodup := hall.others.nodup
    rw [List.map_append] at hnodup
    exact (List.nodup_append.mp hnodup).2.2 x.id hpre x.id (List.mem_map_of_mem hx) rfl
  intro heq
  rw [(h.stopped hstop).1.outboxOutcome, h.spares.others x.id (hall.ne_others x hmem),
    foldl_published_other pre hnotpre] at heq
  rw [← heq, hrow] at hsent
  cases hsent
  rw [hpending] at hstatus
  cases hstatus

/-- Otherwise the other events are attempted and come to the same. -/
theorem LoopEnds.others {f : Except Fault Unit} (h : LoopEnds env p d w tx pre e post w₁ y f)
    (hall : Deliverable d w (pre ++ e :: post))
    (hcond : post = [] ∨ d.Delivers e.id ∨ d.Reschedules e.id) :
    ∀ x ∈ pre ++ post, x.id ∈ y.begun ∧
      y.world.outboxOutcome x.id =
        ((pre ++ post).foldl (published env d) w).outboxOutcome x.id := by
  intro x hx
  have hagree : AgreeBut e.id w₁ (pre.foldl (published env d) w) := h.spares.others
  have hne := hall.ne_others x hx
  have hbegun : ∀ ids : List Uuid, (∀ x ∈ post, x.id ∈ ids) →
      x.id ∈ ids ++ e.id :: (pre.map OutboxEvent.id).reverse := by
    intro ids hids
    rcases List.mem_append.mp hx with hpre | hpost
    · exact List.mem_append_right _
        (List.mem_cons_of_mem _ (List.mem_reverse.mpr (List.mem_map_of_mem hpre)))
    · exact List.mem_append_left _ (hids x hpost)
  rw [List.foldl_append]
  by_cases hwent : d.Delivers e.id ∨ d.Reschedules e.id
  · obtain ⟨-, hin, hy⟩ := h.went_on hwent
    rw [hy, hin.outboxOutcome]
    exact ⟨hbegun _ fun x hx => List.mem_reverse.mpr (List.mem_map_of_mem hx),
      hagree.foldl post _ hne⟩
  · obtain rfl := hcond.resolve_right hwent
    obtain ⟨hin, hy⟩ := h.stopped hwent
    rw [hy, hin.outboxOutcome]
    exact ⟨hbegun [] nofun, hagree _ hne⟩

/-- A pass with the failing event and one without come to the same for all other events, unless an
    event follows it and one of its calls fails as well as one of its `catch` block. -/
theorem publish_unhindered (hkeys : OneEntry w.redis)
    (hbatch : dueOutbox env d w = pre ++ e :: post)
    (hforward : d.Forward w.clock ((pre ++ e :: post).map OutboxEvent.id))
    (hfailing : d.failing = e.id) :
    Unhindered (pre ++ post) OutboxEvent.id (fun w x => w.outboxOutcome x.id)
      (runPass env p d (.start w) (publishRound env))
      (runPass env p d (.start w) (publishEvents env (pre ++ post))) ↔
        post = [] ∨ d.Delivers e.id ∨ d.Reschedules e.id := by
  have hall : Deliverable d w (pre ++ e :: post) :=
    ⟨hbatch ▸ dueOutbox_nodup, hbatch ▸ dueOutbox_waiting, hforward.toInOrder⟩
  obtain ⟨y, r, hrun, rfl, w₁, r₁, hends⟩ :=
    (ends_publishRound (p := p) hkeys hbatch hforward hfailing hall).exists
  obtain ⟨y', hrun', houtcome⟩ := deliver_others hkeys hfailing hforward hall
  constructor
  · rintro ⟨z, z', hz, hz', hothers⟩
    cases hrun.symm.trans hz
    cases hrun'.symm.trans hz'
    by_contra hnot
    obtain ⟨hpost, hstop⟩ := not_or.mp hnot
    obtain ⟨x, hx⟩ := List.exists_mem_of_ne_nil post hpost
    refine hends.cut_off hall hstop hx ((hothers x (List.mem_append_right pre hx)).2.trans ?_)
    exact houtcome x.id
  · intro hcond
    refine ⟨y, y', hrun, hrun', fun x hx => ?_⟩
    obtain ⟨hbegun, hsame⟩ := hends.others hall hcond x hx
    exact ⟨hbegun, hsame.trans (houtcome x.id).symm⟩

end

end CashbackLedger
