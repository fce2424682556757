import CashbackLedger.Lib.Solo
import CashbackLedger.Safety.CreditAmount
import CashbackLedger.Safety.Delivery
import CashbackLedger.Safety.PublishPass
import CashbackLedger.Safety.ValidRules

/-
  The tasks of the worker on their own, with no call failing.

  A pass of the publisher sends the batch it selects and marks it SENT, a run of the replay CLI on
  the outbox makes the FAILED or the SENT rows it selects PENDING again, and the consumer credits
  the order that the event it is handed names, where the cache has no rule that is alive under the
  rule of the database (`ends_publish`, `ends_replay`, `ends_consume`).
-/

namespace CashbackLedger

open Lib

/-- The call succeeds; a row it creates gets this id. -/
def succeeds (u : Uuid) : Choice := { fate := .ok, newId := u }

/-- The id is in use nowhere. -/
structure World.Unused (w : World) (u : Uuid) : Prop where
  ledger : ∀ e ∈ w.ledger, e.id ≠ u
  inbox : ∀ e ∈ w.inbox, e.id ≠ u
  outbox : ∀ e ∈ w.outbox, e.id ≠ u

/-- No failure, and no time passes. -/
def calm (u : Uuid) (now : Time) : Setting where
  failing := u
  fate _ := .ok
  newId _ _ := u
  time _ _ := now

/-- Nobody interferes, nothing fails, and no time passes. -/
def unattended (u : Uuid) : Surroundings where
  fate _ := .ok
  newId _ := u
  redis _ store := store
  elapsed _ := 0

section

variable {env : Env} {p : Pid} {u : Uuid} {w w' v : World} {α : Type}

/-! ## Serving calls alone -/

/-- A pass in which nothing fails is served so. -/
theorem ends_of_pass {Q : PassState → α → Prop} {Q' : World → α → Prop} {x : Prog Call Reply α}
    (h : Ends (servePass env p (calm u w.clock)) False Q (.start w) x)
    (hQ : ∀ y a, y.world.clock = w.clock → Q y a → Q' y.world a) :
    Ends ((system env).serve p (succeeds u)) False Q' w x := by
  refine Ends.view PassState.world (fun y => y.world.clock = w.clock) ?_ rfl h hQ
  intro y c y' r hclock hserve
  obtain ⟨z, hz, heq⟩ := Option.map_eq_some_iff.mp hserve
  cases heq
  have htime : y.world.atTime w.clock = y.world := by rw [← hclock]; rfl
  have hchoice : (calm u w.clock).choice (y.enter c).begun.head? (y.enter c).calls c =
      succeeds u := by
    unfold Setting.choice calm succeeds
    cases c.site <;> simp
  rw [hchoice] at hz
  change exec env p c (succeeds u) (y.world.atTime w.clock) = some z at hz
  rw [htime] at hz
  obtain ⟨hkept, -⟩ := exec_clock hz
  exact ⟨hkept.trans hclock, hz⟩

/-- So is a run beside others that do nothing. -/
theorem ends_of_beside {n : Nat} {Q : World × Nat → α → Prop} {Q' : World → α → Prop}
    {x : Prog Call Reply α} (h : Ends (serveBeside env p (unattended u)) False Q (w, n) x)
    (hQ : ∀ y a, Q y a → Q' y.1 a) : Ends ((system env).serve p (succeeds u)) False Q' w x := by
  refine Ends.view Prod.fst (fun _ => True) ?_ trivial h fun y a _ => hQ y a
  intro y c y' r _ hserve
  obtain ⟨z, hz, heq⟩ := Option.map_eq_some_iff.mp hserve
  cases heq
  have hchoice : (unattended u).choice y.2 c = succeeds u := by cases c <;> rfl
  have hbefore : (unattended u).before y.2 y.1 = y.1 := rfl
  rw [hchoice, hbefore] at hz
  exact ⟨trivial, hz⟩

/-- One call. -/
theorem ends_served_alone {S : Prop} {c : Call} {y : World} {x : Except Fault c.Result}
    {Q : World → Except Fault (c.Result × Time) → Prop} (hrun : c.run env p u w = some (y, x))
    (hQ : Q (y.settle p c x) (x.map fun a => (a, w.clock))) :
    Ends ((system env).serve p (succeeds u)) S Q w (awaitAt c).run := by
  refine ends_call.mpr ?_
  have hserve : (system env).serve p (succeeds u) c w = some (y.settle p c x, (x, w.clock)) := by
    show exec env p c (succeeds u) w = _
    unfold exec succeeds
    dsimp only
    rw [hrun]
    rfl
  rw [hserve]
  exact hQ

/-- The worlds differ in open transactions only. -/
def SameData (w v : World) : Prop := v = { w with txs := v.txs }

theorem SameData.refl (w : World) : SameData w w := rfl

theorem SameData.setTx (h : SameData w v) (p : Pid) (tx : Option Tx) :
    SameData w (v.setTx p tx) := by
  unfold SameData at h ⊢
  rw [h]
  rfl

theorem SameData.settle (h : SameData w v) (c : Call) (r : Except Fault c.Result) :
    SameData w (v.settle p c r) := h.setTx p _

end

/-! ## A pass of the publisher -/

/-- How many outbox rows have this status. -/
def World.rowsWith (w : World) (status : OutboxStatus) : Nat :=
  w.outbox.count fun e => e.status == status

/-- The batch of a pass that begins now. -/
def World.due (env : Env) (w : World) : List OutboxEvent :=
  orderByCreatedAt OutboxEvent.createdAt env.batchSize
    (w.outbox.rows.filter (OutboxCall.selects (.due w.clock)))

/-- A row that was delivered at this time. -/
def OutboxEvent.delivered (e : OutboxEvent) (now : Time) : OutboxEvent :=
  { e with status := .SENT, attempts := e.attempts + 1, sentAt := some now }

theorem outbox_row {e : OutboxEvent} {t : Table OutboxEvent} (he : e ∈ t) :
    t.find? (fun r => r.id == e.id) = some e :=
  Table.find?_of_mem he (beq_self_eq_true _) fun _ _ hb => beq_iff_eq.mpr (beq_iff_eq.mp hb).symm

/-- Of the tables that crediting has to do with, only outbox rows have changed. -/
structure OutboxOnly (w w' : World) : Prop where
  orders : w'.orders = w.orders
  rules : w'.rules = w.rules
  ledger : w'.ledger = w.ledger
  inbox : w'.inbox = w.inbox
  ids : w'.outbox.rows.map OutboxEvent.id = w.outbox.rows.map OutboxEvent.id

/-- The batch is sent, in its order, and marked; the other rows stay as they are. -/
structure BatchSent (env : Env) (w w' : World) : Prop extends OutboxOnly w w' where
  clock : w'.clock = w.clock
  committed : w'.broker.committed = w.broker.committed
  events : w'.broker.events = w.broker.events ++ (w.due env).map (outboxMessage env)
  delivered : ∀ e ∈ w.due env, e.delivered w.clock ∈ w'.outbox
  kept : ∀ e ∈ w.outbox, e ∉ w.due env → e ∈ w'.outbox
  fewer : w.due env ≠ [] → w'.rowsWith .PENDING < w.rowsWith .PENDING

section

variable {env : Env} {p : Pid} {u : Uuid} {w w' v : World} {d : Setting} {e : OutboxEvent}
  {events : List OutboxEvent}

theorem OutboxOnly.refl (w : World) : OutboxOnly w w := ⟨rfl, rfl, rfl, rfl, rfl⟩

theorem OutboxOnly.trans (h : OutboxOnly w w') (h' : OutboxOnly w' v) : OutboxOnly w v :=
  ⟨h'.orders.trans h.orders, h'.rules.trans h.rules,
    h'.ledger.trans h.ledger, h'.inbox.trans h.inbox,
    h'.ids.trans h.ids⟩

theorem OutboxOnly.unused (h : OutboxOnly w w') (hw : w.Unused u) : w'.Unused u where
  ledger := h.ledger ▸ hw.ledger
  inbox := h.inbox ▸ hw.inbox
  outbox e' he' heq := by
    have hmem : e'.id ∈ w'.outbox.rows.map OutboxEvent.id := List.mem_map_of_mem he'
    rw [h.ids] at hmem
    obtain ⟨e, he, hid⟩ := List.mem_map.mp hmem
    exact hw.outbox e he (hid.trans heq)

/-- A change of rows that keeps their ids. -/
theorem ids_modify {q : OutboxEvent → Bool} {f : OutboxEvent → OutboxEvent} {hf : KeepsKeys f}
    (hid : ∀ e, (f e).id = e.id) (t : Table OutboxEvent) :
    (t.modify q f hf).rows.map OutboxEvent.id = t.rows.map OutboxEvent.id := by
  unfold Table.modify
  rw [List.map_map]
  refine List.map_congr_left fun e _ => ?_
  show (if q e then f e else e).id = e.id
  split
  · exact hid e
  · rfl

theorem ids_updateRow (id : Uuid) (change : OutboxUpdate) (t : Table OutboxEvent) :
    (updateRow id change t).rows.map OutboxEvent.id = t.rows.map OutboxEvent.id :=
  ids_modify (f := change.apply) (fun _ => rfl) t

theorem published_outboxOnly (env : Env) (d : Setting) (w : World) (events : List OutboxEvent) :
    OutboxOnly w (events.foldl (published env d) w) := by
  induction events generalizing w with
  | nil => exact .refl w
  | cons e events ih =>
    have hone : OutboxOnly w (published env d w e) :=
      ⟨rfl, rfl, rfl, rfl, (ids_updateRow _ _ _).trans
        (ids_modify (f := fun e => { e with attempts := e.attempts + 1 }) (fun _ => rfl) w.outbox)⟩
    exact hone.trans (ih (published env d w e))

theorem published_events (env : Env) (d : Setting) (w : World) (events : List OutboxEvent) :
    (events.foldl (published env d) w).broker.events =
      w.broker.events ++ events.map (outboxMessage env) := by
  induction events generalizing w with
  | nil => exact (List.append_nil _).symm
  | cons e events ih =>
    refine (ih (published env d w e)).trans ?_
    show (w.broker.events ++ [outboxMessage env e]) ++ _ = _
    rw [List.append_assoc]
    rfl

theorem published_committed (env : Env) (d : Setting) (w : World) (events : List OutboxEvent) :
    (events.foldl (published env d) w).broker.committed = w.broker.committed := by
  induction events generalizing w with
  | nil => rfl
  | cons e events ih => exact ih (published env d w e)

/-- A delivered row. -/
theorem published_row (h : (w.outboxOutcome e.id).row = some e) (hpending : e.status = .PENDING) :
    ((published env d w e).outboxOutcome e.id).row = some (e.delivered (d.time (some e.id) 1)) :=
  updateRow_find (claimRow_find h hpending)

theorem published_delivered {t : Time} (htime : ∀ id n, d.time id n = t)
    (hnodup : (events.map OutboxEvent.id).Nodup) (hwaiting : Waiting w events) (he : e ∈ events) :
    e.delivered t ∈ (events.foldl (published env d) w).outbox := by
  induction events generalizing w with
  | nil => cases he
  | cons x events ih =>
    obtain ⟨hx, hrest⟩ := List.nodup_cons.mp hnodup
    rcases List.mem_cons.mp he with rfl | he
    · have hother : (events.foldl (published env d) (published env d w e)).outboxOutcome e.id = _ :=
        foldl_published_other events hx
      obtain ⟨hrow, hpending⟩ := hwaiting e List.mem_cons_self
      have hrow' := (congrArg OutboxOutcome.row hother).trans (published_row hrow hpending)
      rw [htime] at hrow'
      exact Table.mem_of_find? hrow'
    · exact ih hrest (hwaiting.published hnodup) he

/-- A row that is not in the batch stays. -/
theorem published_kept (he : e ∈ w.outbox) (hnot : e.id ∉ events.map OutboxEvent.id) :
    e ∈ (events.foldl (published env d) w).outbox := by
  have hother : (events.foldl (published env d) w).outboxOutcome e.id = w.outboxOutcome e.id :=
    foldl_published_other events hnot
  exact Table.mem_of_find? ((congrArg OutboxOutcome.row hother).trans (outbox_row he))

theorem claimRow_count (id : Uuid) (t : Table OutboxEvent) (status : OutboxStatus) :
    (claimRow id t).count (fun e => e.status == status) ≤ t.count fun e => e.status == status :=
  Table.count_modify_le fun _ _ h => h

/-- An update that sets another status does not raise the count of this one. -/
theorem updateRow_count_le {id : Uuid} {change : OutboxUpdate} {set status : OutboxStatus}
    (hset : change.status = some set) (hne : set ≠ status) (t : Table OutboxEvent) :
    (updateRow id change t).count (fun e => e.status == status) ≤
      t.count fun e => e.status == status := by
  unfold updateRow
  refine Table.count_modify_le fun a _ h => ?_
  simp [OutboxUpdate.apply, hset, hne] at h

/-- It lowers it where the row had this status. -/
theorem updateRow_count_lt {id : Uuid} {change : OutboxUpdate} {set status : OutboxStatus}
    {t : Table OutboxEvent} (hset : change.status = some set) (hne : set ≠ status) (he : e ∈ t)
    (hid : e.id = id) (hstatus : e.status = status) :
    (updateRow id change t).count (fun e => e.status == status) <
    t.count fun e => e.status == status := by
  unfold updateRow
  refine Table.count_modify_lt (fun a _ h => ?_) he (by simp [hid]) (by simp [hstatus]) ?_
  · simp [OutboxUpdate.apply, hset, hne] at h
  · simp [OutboxUpdate.apply, hset, hne]

theorem published_le (w : World) (e : OutboxEvent) :
    (published env d w e).rowsWith .PENDING ≤ w.rowsWith .PENDING :=
  Nat.le_trans (updateRow_count_le rfl (by decide) _) (claimRow_count e.id w.outbox .PENDING)

theorem foldl_published_le (w : World) (events : List OutboxEvent) :
    (events.foldl (published env d) w).rowsWith .PENDING ≤ w.rowsWith .PENDING := by
  induction events generalizing w with
  | nil => exact Nat.le_refl _
  | cons e events ih => exact Nat.le_trans (ih (published env d w e)) (published_le w e)

/-- A batch leaves fewer rows waiting. -/
theorem published_fewer (hwaiting : Waiting w events) (hne : events ≠ []) :
    (events.foldl (published env d) w).rowsWith .PENDING < w.rowsWith .PENDING := by
  cases events with
  | nil => exact absurd rfl hne
  | cons e events =>
    obtain ⟨hrow, hpending⟩ := hwaiting e List.mem_cons_self
    have hclaimed := Table.mem_of_find? (claimRow_find hrow hpending)
    refine Nat.lt_of_le_of_lt (foldl_published_le _ events) ?_
    exact Nat.lt_of_lt_of_le (updateRow_count_lt rfl (by decide) hclaimed rfl hpending)
      (claimRow_count e.id w.outbox .PENDING)

/-- A pass on its own sends its batch. -/
theorem ends_publish (hkeys : OneEntry w.redis) (hunused : w.Unused u) :
    Ends ((system env).serve p (succeeds u)) False (fun w' _ => BatchSent env w (kill p w')) w
      (Task.program env .publishOnce).run := by
  have hself : AsIn env p w (w.txOf p) w := .self hkeys
  have hwaiting : Waiting w (w.due env) := dueOutbox_waiting (d := calm u w.clock)
  have hnodup : ((w.due env).map OutboxEvent.id).Nodup := dueOutbox_nodup (d := calm u w.clock)
  have hfine : ∀ e ∈ w.due env, e.id ≠ (calm u w.clock).failing := fun e he =>
    hunused.outbox e (List.mem_of_mem_filter (mem_of_orderByCreatedAt he))
  have horder : (calm u w.clock).InOrder ((w.due env).map OutboxEvent.id ++ []) :=
    ⟨fun _ _ _ _ _ => Nat.le_refl _, List.pairwise_of_forall fun _ _ _ _ => Nat.le_refl _⟩
  refine ends_of_pass
    (Q := fun y _ => AsIn env p ((w.due env).foldl (published env (calm u w.clock)) w)
    (w.txOf p) y.world) ?_ ?_
  · refine ends_act_bind.mpr ((ends_publishOnce (Q := fun y r => r = .ok () ∧
      AsIn env p ((w.due env).foldl (published env (calm u w.clock)) w) (w.txOf p) y.world)
      (fun _ _ _ => Nat.le_refl _) ⟨hself, rfl, rfl, Nat.le_refl _⟩ fun y hy => ?_).mono id ?_)
    · exact (ends_deliverAll (w.due env) [] hfine hnodup horder (fun _ _ _ => hy.clock) hwaiting
        hy.toAsIn).post fun y' r hr => ⟨hr.1, hr.2.1⟩
    · rintro y r ⟨rfl, hin⟩
      exact hin
  · intro y a hclock hin
    have honly := published_outboxOnly env (calm u w.clock) w (w.due env)
    refine ⟨⟨hin.orders.trans honly.orders, hin.rules.trans honly.rules,
      hin.ledger.trans honly.ledger,
      hin.inbox.trans honly.inbox, ?_⟩, hclock, ?_,
      ?_, fun e he => ?_, fun e he hnot => ?_, fun hne => ?_⟩
    · show y.world.outbox.rows.map _ = _
      rw [hin.outbox]
      exact honly.ids
    · show y.world.broker.committed = _
      rw [hin.broker]
      exact published_committed env _ w _
    · show y.world.broker.events = _
      rw [hin.broker]
      exact published_events env _ w _
    · show _ ∈ y.world.outbox
      rw [hin.outbox]
      exact published_delivered (fun _ _ => rfl) hnodup hwaiting he
    · show _ ∈ y.world.outbox
      rw [hin.outbox]
      refine published_kept he fun hmem => hnot ?_
      obtain ⟨e', he', hid⟩ := List.mem_map.mp hmem
      have hstored := List.mem_of_mem_filter (mem_of_orderByCreatedAt he')
      have hsame : e' = e := Table.eq_of_clash hstored he (by simp [Indexed.clash, hid])
      exact hsame ▸ he'
    · show Table.count y.world.outbox _ < _
      rw [hin.outbox]
      exact published_fewer hwaiting hne

end

/-! ## A run of the replay CLI -/

/-- A row that was made PENDING again at this time. -/
def OutboxEvent.requeued (e : OutboxEvent) (now : Time) : OutboxEvent :=
  { e with status := .PENDING, availableAt := now, lastError := none, sentAt := none }

/-- The rows with this status that a run of the CLI selects. -/
def World.selected (w : World) (status : OutboxStatus) : List OutboxEvent :=
  orderByCreatedAt OutboxEvent.createdAt 100
    (w.outbox.rows.filter (OutboxCall.selects (.status (some status))))

/-- The update of a row whose attempts are kept. -/
def requeue (now : Time) (e : OutboxEvent) : OutboxUpdate :=
  { status := some .PENDING, availableAt := some now,
    lastError := some none, attempts := some e.attempts,
    sentAt := some none }

/-- The rows are made PENDING one by one. -/
def requeueAll (now : Time) (t : Table OutboxEvent) (events : List OutboxEvent) :
    Table OutboxEvent :=
  events.foldl (fun t e => updateRow e.id (requeue now e) t) t

/-- The selected rows are PENDING again; the other rows stay as they are. -/
structure BatchRequeued (status : OutboxStatus) (w w' : World) : Prop extends OutboxOnly w w' where
  requeued : ∀ e ∈ w.selected status, e.requeued w.clock ∈ w'.outbox
  kept : ∀ e ∈ w.outbox, e ∉ w.selected status → e ∈ w'.outbox
  fewer : w.selected status ≠ [] → w'.rowsWith status < w.rowsWith status

/-- The command line for the rows with this status. -/
def replayArgs (status : OutboxStatus) : List String :=
  match status with
  | .FAILED => ["outbox"]
  | .SENT => ["outbox", "--status", "SENT"]
  | .PENDING => ["outbox", "--status", "PENDING"]

section

variable {env : Env} {p : Pid} {u : Uuid} {w w' v : World} {e : OutboxEvent} {t : Table OutboxEvent}
  {now : Time} {events : List OutboxEvent} {status : OutboxStatus}

theorem find?_requeueAll (hnot : e.id ∉ events.map OutboxEvent.id) :
    (requeueAll now t events).find? (fun r => r.id == e.id) = t.find? fun r => r.id == e.id := by
  induction events generalizing t with
  | nil => rfl
  | cons x events ih =>
    rw [List.map_cons, List.mem_cons, not_or] at hnot
    obtain ⟨hx, hrest⟩ := hnot
    refine (ih hrest).trans
      (Table.find?_modify_of_not (fun _ => rfl) fun a ha => Bool.eq_false_iff.mpr fun hax => ?_)
    exact hx ((beq_iff_eq.mp ha).symm.trans (beq_iff_eq.mp hax))

/-- A row with another id stays. -/
theorem mem_requeueAll_of_not (events : List OutboxEvent) (he : e ∈ t)
    (hnot : e.id ∉ events.map OutboxEvent.id) : e ∈ requeueAll now t events :=
  Table.mem_of_find? ((find?_requeueAll hnot).trans (outbox_row he))

theorem mem_requeueAll (hnodup : (events.map OutboxEvent.id).Nodup) (hrows : ∀ e ∈ events, e ∈ t)
    (he : e ∈ events) : e.requeued now ∈ requeueAll now t events := by
  induction events generalizing t with
  | nil => cases he
  | cons x events ih =>
    obtain ⟨hx, hrest⟩ := List.nodup_cons.mp hnodup
    rcases List.mem_cons.mp he with rfl | he
    · show _ ∈ requeueAll now (updateRow e.id (requeue now e) t) events
      have hrow := updateRow_find (u := requeue now e) (outbox_row (hrows e List.mem_cons_self))
      exact mem_requeueAll_of_not events (Table.mem_of_find? hrow) hx
    · refine ih hrest (fun e' he' => ?_) he
      have hne : e'.id ≠ x.id := fun heq => hx (List.mem_map.mpr ⟨e', he', heq⟩)
      exact mem_requeueAll_of_not [x] (hrows e' (List.mem_cons_of_mem x he')) (by simpa using hne)

theorem requeueAll_le (hne : .PENDING ≠ status) (t : Table OutboxEvent)
    (events : List OutboxEvent) :
    (requeueAll now t events).count (fun e => e.status == status) ≤
      t.count fun e => e.status == status := by
  induction events generalizing t with
  | nil => exact Nat.le_refl _
  | cons e events ih => exact Nat.le_trans (ih _) (updateRow_count_le rfl hne t)

/-- A selection leaves fewer rows with its status. -/
theorem requeueAll_fewer (hpending : .PENDING ≠ status)
    (hrows : ∀ e ∈ events, e ∈ t ∧ e.status = status) (hne : events ≠ []) :
    (requeueAll now t events).count (fun e => e.status == status) <
    t.count fun e => e.status == status := by
  cases events with
  | nil => exact absurd rfl hne
  | cons e events =>
    obtain ⟨he, hstatus⟩ := hrows e List.mem_cons_self
    exact Nat.lt_of_le_of_lt (requeueAll_le hpending _ events)
      (updateRow_count_lt rfl hpending he rfl hstatus)

theorem ids_requeueAll (now : Time) (t : Table OutboxEvent) (events : List OutboxEvent) :
    (requeueAll now t events).rows.map OutboxEvent.id = t.rows.map OutboxEvent.id := by
  induction events generalizing t with
  | nil => rfl
  | cons e events ih => exact (ih _).trans (ids_updateRow e.id (requeue now e) t)

/-- The loop over the selected rows. -/
theorem ends_replayOutboxRows (hnodup : (events.map OutboxEvent.id).Nodup)
    (hrows : ∀ e ∈ events, e ∈ t) (hv : SameData { w with outbox := t } v) :
    Ends ((system env).serve p (succeeds u)) False
      (fun v' _ => SameData { w with outbox := requeueAll w.clock t events } v') v
      (replayOutboxRows false events w.clock).run := by
  induction events generalizing t v with
  | nil => exact hv
  | cons e events ih =>
    obtain ⟨hx, hrest⟩ := List.nodup_cons.mp hnodup
    have hstored : v.outbox.find? (fun r => r.id == e.id) = some e := by
      rw [hv]
      exact outbox_row (hrows e List.mem_cons_self)
    refine ends_act_bind.mpr
      (ends_served_alone (y := { v with outbox := updateRow e.id (requeue w.clock e) v.outbox })
      (x := .ok ((requeue w.clock e).apply e)) ?_ ?_)
    · show (OutboxCall.run v.outbox (.update e.id (requeue w.clock e))).map _ = _
      rw [update_run (requeue w.clock e) hstored]
      rfl
    · have hclock : v.clock = w.clock := by rw [hv]
      show Ends _ _ _ _ (replayOutboxRows false events v.clock).run
      rw [hclock]
      refine ih hrest (fun e' he' => ?_) (SameData.settle ?_ _ _)
      · have hne : e'.id ≠ e.id := fun heq => hx (List.mem_map.mpr ⟨e', he', heq⟩)
        exact mem_requeueAll_of_not [e] (hrows e' (List.mem_cons_of_mem e he')) (by simpa using hne)
      · unfold SameData at hv ⊢
        rw [hv]

theorem selected_nodup (w : World) (status : OutboxStatus) :
    ((w.selected status).map OutboxEvent.id).Nodup :=
  List.pairwise_map.mpr ((apart_orderByCreatedAt w.outbox _ OutboxEvent.createdAt _).imp fun h => by
    simpa [Indexed.clash] using h)

theorem mem_selected (he : e ∈ w.selected status) : e ∈ w.outbox ∧ e.status = status := by
  obtain ⟨hmem, hselected⟩ := List.mem_filter.mp (mem_of_orderByCreatedAt he)
  exact ⟨hmem, by simpa [OutboxCall.selects] using hselected⟩

/-- What the CLI does with the command line. -/
theorem replay_selected (env : Env) (status : OutboxStatus) : replay env (replayArgs status) =
    awaitAt (.outbox (.findMany (.status (some status)) (some 100))) >>= fun x =>
      replayOutboxRows false x.1 x.2 := by
  cases status <;>
  · unfold replay replayArgs
    dsimp only
    rw [if_neg (by decide), if_neg (by decide), if_pos rfl]
    rfl

/-- A run of the CLI on its own makes the rows it selects PENDING. -/
theorem ends_replay (hpending : .PENDING ≠ status) : Ends ((system env).serve p (succeeds u)) False
    (fun w' _ => BatchRequeued status w (kill p w')) w
    (Task.program env (.replay (replayArgs status))).run := by
  have hrows : ∀ e ∈ w.selected status, e ∈ w.outbox := fun e he => (mem_selected he).1
  show Ends _ _ _ _ (silent (replay env (replayArgs status))).run
  rw [replay_selected]
  refine ends_act_bind.mpr
    (ends_act_bind.mpr (ends_served_alone (y := w) (x := .ok (w.selected status)) rfl
    ((ends_replayOutboxRows (t := w.outbox) (selected_nodup w status) hrows
      ((SameData.refl w).settle _ _)).post ?_)))
  intro v r hv
  have hdata : SameData { w with outbox := requeueAll w.clock w.outbox (w.selected status) }
      (kill p v) :=
    hv.setTx p none
  have hbatch : BatchRequeued status w (kill p v) := by
    rw [hdata]
    refine ⟨⟨rfl, rfl, rfl, rfl, ids_requeueAll _ _ _⟩,
      fun e he => mem_requeueAll (selected_nodup w status) hrows he,
      fun e he hnot => mem_requeueAll_of_not _ he fun hmem => hnot ?_,
      fun hne => requeueAll_fewer hpending (fun e he => mem_selected he) hne⟩
    obtain ⟨e', he', hid⟩ := List.mem_map.mp hmem
    exact Table.eq_of_clash (hrows e' he') he (by simp [Indexed.clash, hid]) ▸ he'
  cases r with
  | ok _ => exact hbatch
  | error _ => exact hbatch

end

/-! ## A delivery -/

/-- One entry is new, the credit of the order. -/
def CreditAdded (w : World) (o : Order) (v : World) : Prop :=
  ∃ entry, w.ledger.insert? entry = some v.ledger ∧ creditOf w.rules o = some entry.data

/-- A process without a transaction has done nothing that crediting looks at. -/
structure Unmoved (p : Pid) (w v : World) : Prop extends Beside p w none v where
  redis : v.redis = w.redis
  clock : v.clock = w.clock

/-- The order is to be credited, and nothing stands in its way. -/
structure Creditable (env : Env) (p : Pid) (u : Uuid) (w : World) (o : Order) : Prop where
  stored : o ∈ w.orders
  confirmed : o.status = .CONFIRMED
  amount : ValidAmount o.amount
  rules : ValidRules w.rules
  new : ¬ w.HasCredit o.id
  free : ∀ touches, w.lockedByOther p touches = false
  unused : ∀ e ∈ w.ledger, e.id ≠ u
  cache : w.CachesRule env o.merchantId

section

variable {env : Env} {p : Pid} {u : Uuid} {w v : World} {o : Order} {e : OutboxEvent} {sid : String}
  {payload : Json} {offset : Nat} {m : KafkaMessage}

theorem Unmoved.settle (h : Unmoved p w v) {c : Call} {r : Except Fault c.Result}
    (hc : c.txAfter r none = none) : Unmoved p w (v.settle p c r) := by
  refine ⟨?_, h.redis, h.clock⟩
  unfold World.settle
  rw [h.tx, hc]
  exact h.setTx none

theorem Unmoved.creditable (h : Unmoved p w v) (ho : Creditable env p u w o) :
    Creditable env p u v o where
  stored := h.orders ▸ ho.stored
  confirmed := ho.confirmed
  amount := ho.amount
  rules := h.rules ▸ ho.rules
  new := by
    rw [World.HasCredit, h.ledger]
    exact ho.new
  free touches := (h.locks touches).trans (ho.free touches)
  unused := h.ledger ▸ ho.unused
  cache e he hkey hlive := by
    rw [h.redis] at he
    rw [h.clock] at hlive
    rw [World.payload, h.rules]
    exact ho.cache e he hkey hlive

theorem LedgerData.Makes.creditOf {rules : Table CashbackRule} {entry : LedgerEntry}
    (h : (creditData o (cashbackOf o.amount (ruleOf (ruleRow rules o.merchantId)))).Makes entry) :
    creditOf rules o = some entry.data := by
  obtain ⟨huser, horder, htype, hamount, hcurrency⟩ := h
  have hstored : storeNumeric 18 2 (cashbackOf o.amount (ruleOf (ruleRow rules o.merchantId))) =
      some entry.amount := hamount
  unfold CashbackLedger.creditOf LedgerEntry.data
  rw [hstored, huser, horder, htype, hcurrency]
  rfl

/-- The handler on its own credits the order. -/
theorem ends_handler (henv : DecimalText env) (ho : Creditable env p u w o) :
    Ends ((system env).serve p (succeeds u)) False
      (fun v r => CreditAdded w o v ∧ ∃ res, r = .ok res) w
      (processOrderConfirmed env (some (.str o.id.text))).run := by
  have hfound : w.orderOf env (some (.str o.id.text)) = some o := by
    rw [World.orderOf, readId, env.readUuid_text]
    exact Table.find?_of_mem ho.stored (beq_self_eq_true _) fun _ _ hb =>
      beq_iff_eq.mpr (beq_iff_eq.mp hb).symm
  have hrule : ValidRule (w.ruleOf o.merchantId) := ho.rules.row o.merchantId
  have hfit : w.RulesFit := fun r hr => (ho.rules r hr).fits
  have hfresh : (unattended u).Fresh w := fun _ => Bool.eq_false_iff.mpr fun hany => by
    obtain ⟨e, he, hid⟩ := Table.any_iff.mp hany
    exact ho.unused e he (beq_iff_eq.mp hid)
  have hcache : CoherentFor env (unattended u) w (some (.str o.id.text)) := by
    intro o' ho'
    cases hfound.symm.trans ho'
    exact ⟨ho.cache, fun _ _ _ he _ => Or.inl he⟩
  have hrefines := worker_refines (p := p) henv hfit hfresh hcache
  obtain ⟨d, hout⟩ :=
    creditOutcome_ok hfound ho.confirmed ho.free (fun e he hkey => ho.new ⟨e, he, hkey⟩)
    (cashback_stored ho.amount hrule)
  obtain ⟨y, res, hrun⟩ := hrefines.ends hout
  rw [hout, hrun] at hrefines
  obtain ⟨_, entry, heq, makes, added, -⟩ := hrefines
  cases heq
  obtain ⟨o', ho', -, rfl⟩ := creditOutcome_eq_ok hout
  cases hfound.symm.trans ho'
  refine ends_of_beside (n := 0) (Q := fun y r => CreditAdded w o y.1 ∧ ∃ res, r = .ok res) ?_
    fun y r hr => hr
  unfold Ends
  unfold runBeside at hrun
  rw [hrun]
  exact ⟨⟨entry, added, makes.creditOf⟩, res, rfl⟩

/-- A call that neither takes part in a transaction nor changes the ledger. -/
theorem ends_apart {c : Call} {Q : World → Except Fault c.Result → Prop} {w₁ : World}
    {x : Except Fault c.Result} (hrun : c.run env p u v = some (w₁, x))
    (hQ : Q (w₁.settle p c x) x) :
    Ends ((system env).serve p (succeeds u)) False Q v (await c).run := by
  refine ends_await_of_at (ends_served_alone hrun ?_)
  cases x with
  | ok a => exact hQ
  | error f => exact hQ

/-- The row of the inbox is there, new or not. -/
theorem inbox_upsert (env : Env) (p : Pid) (hsid : Json.storableText sid = true)
    (hpayload : payload.storable = true) (hunused : ∀ e ∈ v.inbox, e.id ≠ u) : ∃ t row,
      Call.run env p u v (.inbox (.upsert sid "OrderConfirmed" payload)) =
        some ({ v with inbox := t }, .ok row) := by
  show ∃ t row, (InboxCall.run u v.clock v.inbox _).map _ = _
  unfold InboxCall.run
  dsimp only
  rw [hsid, hpayload, Bool.and_self, if_pos rfl]
  cases hrow : v.inbox.find? fun e => e.sourceEventId == sid with
  | some row => exact ⟨_, row, rfl⟩
  | none =>
    obtain ⟨t, ht⟩ := Table.insert_of_apart (t := v.inbox)
      (a := InboxCall.created u v.clock sid "OrderConfirmed" payload) fun b hb => by
        have hother : (b.sourceEventId == sid) = false := Table.find?_none hrow hb
        have hid : (b.id == u) = false := by simpa using hunused b hb
        simp [Indexed.clash, InboxCall.created, hother, hid]
    refine ⟨t, InboxCall.created u v.clock sid "OrderConfirmed" payload, ?_⟩
    dsimp only
    rw [ht]
    rfl

/-- An update of the inbox is answered. -/
theorem inbox_update (env : Env) (p : Pid) (u : Uuid) (v : World) (id : Uuid)
    (change : InboxUpdate) : ∃ t x,
    Call.run env p u v (.inbox (.update id change)) = some ({ v with inbox := t }, x) := by
  show ∃ t x, (InboxCall.run u v.clock v.inbox _).map _ = _
  unfold InboxCall.run
  dsimp only
  cases v.inbox.find? fun e => e.id == id with
  | none => exact ⟨_, _, rfl⟩
  | some e => exact ⟨_, _, rfl⟩

/-- The handling of a message on its own. -/
theorem ends_eachMessage (henv : DecimalText env) (ho : Creditable env p u w o) (hv : Unmoved p w v)
    (hcarries : Carries env m sid payload) (hsid : Json.storableText sid = true)
    (hpayload : payload.storable = true) (hid : payload.field "orderId" = some (.str o.id.text))
    (hunused : ∀ e ∈ v.inbox, e.id ≠ u) :
    Ends ((system env).serve p (succeeds u)) False (fun v' r => CreditAdded w o v' ∧ r = .ok ()) v
      (eachMessage env m).run := by
  obtain ⟨evt, hvalue, htype, hsid', hpayload'⟩ := hcarries
  obtain ⟨t, row, hupsert⟩ := inbox_upsert env p hsid hpayload hunused
  unfold eachMessage
  rw [hvalue]
  dsimp only
  rw [if_pos htype]
  unfold handleEvent
  dsimp only
  rw [stringOf_ok.mpr hsid', ← hpayload', hid]
  refine ends_act_tryCatch.mpr (ends_act_bind.mpr (ends_ofExcept ?_))
  refine ends_act_bind.mpr (ends_apart hupsert ?_)
  have hstored : Unmoved p w { v with inbox := t } :=
    ⟨⟨hv.orders, hv.rules, hv.ledger, hv.tx, hv.locks⟩, hv.redis, hv.clock⟩
  have hbefore :=
    hstored.settle (c := .inbox (.upsert sid "OrderConfirmed" payload)) (r := .ok row) rfl
  refine ends_act_bind.mpr ((ends_handler henv (hbefore.creditable ho)).post ?_)
  rintro y _ ⟨⟨entry, added, hcredit⟩, ⟨res, now⟩, rfl⟩
  rw [hbefore.ledger] at added
  rw [hbefore.rules] at hcredit
  obtain ⟨t', x, hupdate⟩ := inbox_update env p u y row.id
    { status := some .PROCESSED, processedAt := some (some now), lastError := some none }
  refine ends_act_bind.mpr (ends_apart hupdate ?_)
  cases x with
  | ok row' => exact ⟨⟨entry, added, hcredit⟩, rfl⟩
  | error f => exact ⟨⟨entry, added, hcredit⟩, rfl⟩

/-- A delivery on its own credits the order that its event names. -/
theorem ends_consume (henv : DecimalText env) (ho : Creditable env p u w o)
    (hclosed : w.txOf p = none) (hunused : w.Unused u) (hdelivers : w.broker.delivers offset = true)
    (hmessage : w.broker.events[offset]? = some (outboxMessage env e)) (he : Announces env w e)
    (hid : e.payload.field "orderId" = some (.str o.id.text)) :
    Ends ((system env).serve p (succeeds u)) False (fun v _ => CreditAdded w o (kill p v)) w
      (Task.program env (.consume offset)).run := by
  have hself : Unmoved p w w := ⟨⟨rfl, rfl, rfl, hclosed, fun _ => rfl⟩, rfl, rfl⟩
  have hfetch : Call.run env p u w (.kafka (.fetch offset)) =
      some (w, .ok (outboxMessage env e)) := by
    show (KafkaCall.run w.broker _).map _ = _
    unfold KafkaCall.run
    dsimp only
    rw [if_pos hdelivers, hmessage]
    rfl
  refine ends_act_bind.mpr (ends_act_bind.mpr (ends_apart hfetch (ends_act_bind.mpr ?_)))
  refine (ends_eachMessage henv ho (hself.settle rfl) he.carries (Uuid.storable e.id) he.2.1 hid
    hunused.inbox).post ?_
  rintro y _ ⟨hcredited, rfl⟩
  exact ends_apart (c := .kafka (.commitOffset offset)) rfl hcredited

end

end CashbackLedger
