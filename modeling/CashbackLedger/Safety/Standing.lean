import CashbackLedger.Safety.CreditPass

/-
  What a pass of the retry loop makes of its events.

  A `Standing` is what has come of the inbox: the rows, the messages on the DLQ topic, and the
  credits, without the times and ids that the calls were given. An attempt changes it as
  `Standing.attempted` says, by the credit that is due and by whether the order has one. Events of a
  batch meet only there: an attempt that credits an order changes the outcome of the later events
  that are to credit it too, and of no others (`outcomes_iff`).
-/

namespace CashbackLedger

open Lib

/-- Without the times that an attempt sets. -/
def InboxEvent.untimed (e : InboxEvent) : InboxEvent :=
  { e with availableAt := 0, processedAt := none }

/-- Without the time of the message. -/
def KafkaMessage.untimed (m : KafkaMessage) : KafkaMessage :=
  { m with value := m.value.map fun
      | .obj fields => .obj (fields.filter fun f => f.1 != "at")
      | j => j }

/-- The rows by their ids, the DLQ messages by the ids of their events, and the credits by the ids
    of their orders. -/
structure Standing where
  row : Uuid → Option InboxEvent
  parked : String → List KafkaMessage
  credited : Uuid → Option LedgerData

def World.standing (w : World) : Standing where
  row id := (w.inbox.find? fun r => r.id == id).map InboxEvent.untimed
  parked source := (w.broker.dlq.filter fun m => m.key == some source).map KafkaMessage.untimed
  credited := w.credited

/-- The order that the event asks to credit. -/
def InboxEvent.orderId (e : InboxEvent) : Option Json := e.payload.field "orderId"

/-- What an attempt on the event comes to. -/
def attemptFor (env : Env) (w : World) (credited : Uuid → Option LedgerData) (t : Time)
    (e : InboxEvent) : Except Fault LedgerData :=
  if Json.truthy e.orderId then creditFor env w credited t e.orderId
  else .error (.error ("Missing orderId in inbox payload for event " ++ e.id.text))

/-- The row after a failed attempt. -/
def InboxEvent.failed (env : Env) (e : InboxEvent) (f : Fault) : InboxEvent :=
  { e with
    attempts := e.attempts + 1
    lastError := some f.text
    status := if env.maxAttempts ≤ e.attempts + 1 then .FAILED else e.status }

namespace Standing

/-- The event is processed and its order has the credit. -/
def processed (s : Standing) (e : InboxEvent) (c : LedgerData) : Standing where
  row :=
    Function.update s.row e.id (some { e.untimed with status := .PROCESSED, lastError := none })
  parked := s.parked
  credited := Function.update s.credited c.orderId (some c)

/-- The attempt failed; the last one allowed puts the event on the DLQ. -/
def failed (env : Env) (s : Standing) (e : InboxEvent) (f : Fault) : Standing where
  row := Function.update s.row e.id (some (e.failed env f).untimed)
  parked :=
    if env.maxAttempts ≤ e.attempts + 1 then
      Function.update s.parked e.sourceEventId
        (s.parked e.sourceEventId ++ [(dlqMessage env (e.failed env f) 0).untimed])
    else s.parked
  credited := s.credited

/-- An attempt on `e` that reads the rule at the time `t`, in a pass over the world `w`. -/
def attempted (env : Env) (w : World) (t : Time) (s : Standing) (e : InboxEvent) : Standing :=
  match attemptFor env w s.credited t e with
  | .ok c => s.processed e c
  | .error f => s.failed env e f

end Standing

/-- What has come of an event: its row, its messages on the DLQ, and the credit that processing it
    left on its order. -/
structure InboxOutcome where
  row : Option InboxEvent
  parked : List KafkaMessage
  credit : Option LedgerData

/-- Is the row processed? -/
def IsProcessed (row : Option InboxEvent) : Bool := row.any fun r => r.status == .PROCESSED

def Standing.outcome (env : Env) (s : Standing) (e : InboxEvent) : InboxOutcome where
  row := s.row e.id
  parked := s.parked e.sourceEventId
  credit := if IsProcessed (s.row e.id) then (readId env e.orderId).bind s.credited else none

/-- The event is to credit the order. -/
def Wants (env : Env) (w : World) (t : Time) (order : Uuid) (e : InboxEvent) : Prop :=
  Json.truthy e.orderId = true ∧
    ∃ c, dueCredit env w t e.orderId = .ok c ∧ c.stored.isSome = true ∧ c.orderId = order

/-- Attempts on the events in turn. -/
def Standing.attemptAll (env : Env) (w : World) (times : Uuid → Time) (s : Standing)
    (events : List InboxEvent) : Standing :=
  events.foldl (fun s e => s.attempted env w (times e.id) e) s

/-- A processed event has its order credited. -/
def Standing.Settled (env : Env) (s : Standing) (e : InboxEvent) : Prop :=
  IsProcessed (s.row e.id) = true →
    ∃ id, readId env e.orderId = some id ∧ (s.credited id).isSome = true

/-- Two events that no unique index takes for one. -/
structure ApartFrom (e e' : InboxEvent) : Prop where
  id : e.id ≠ e'.id
  source : e.sourceEventId ≠ e'.sourceEventId

section

variable {env : Env} {w : World} {t : Time} {times : Uuid → Time} {s s' : Standing}
  {e x : InboxEvent} {c : LedgerData} {f : Fault} {credited credited' : Uuid → Option LedgerData}
  {orderId : Option Json} {order : Uuid}

/-! ## What an attempt depends on -/

theorem LedgerData.stored_orderId {due : LedgerData} (h : due.stored = some c) :
    c.orderId = due.orderId := by
  unfold LedgerData.stored at h
  obtain ⟨amount, -, rfl⟩ := Option.map_eq_some_iff.mp h
  rfl

/-- The credit is for the order that is named. -/
theorem dueCredit_orderId (h : dueCredit env w t orderId = .ok c) :
    readId env orderId = some c.orderId := by
  unfold dueCredit at h
  split at h
  · cases h
  next id hid =>
  split at h
  · cases h
  next order hguard =>
  split at h
  · cases h
  cases h
  obtain ⟨hfound, -⟩ := guardOrder_ok hguard
  unfold World.orderOf at hfound
  rw [hid, Option.bind_some] at hfound
  have hid' := Table.of_find? (p := fun o : Order => o.id == id) hfound
  exact hid.trans (congrArg some (beq_iff_eq.mp hid').symm)

theorem creditFor_ok (h : creditFor env w credited t orderId = .ok c) :
    ∃ due, dueCredit env w t orderId = .ok due ∧
      due.stored = some c ∧ credited c.orderId = none := by
  unfold creditFor at h
  cases hdue : dueCredit env w t orderId with
  | error f =>
    rw [hdue] at h
    cases h
  | ok due =>
    rw [hdue] at h
    have hinsert : insertFor credited due = .ok c := h
    unfold insertFor at hinsert
    split at hinsert
    · cases hinsert
    next stored hstored =>
    split at hinsert
    · cases hinsert
    next hnew =>
    cases hinsert
    refine ⟨due, rfl, hstored, ?_⟩
    rw [LedgerData.stored_orderId hstored]
    exact Option.not_isSome_iff_eq_none.mp hnew

theorem attemptFor_ok (h : attemptFor env w credited t e = .ok c) :
    Wants env w t c.orderId e ∧ readId env e.orderId = some c.orderId ∧
      credited c.orderId = none := by
  unfold attemptFor at h
  split at h
  · next htruthy =>
    obtain ⟨due, hdue, hstored, hnew⟩ := creditFor_ok h
    have horder := LedgerData.stored_orderId hstored
    refine ⟨⟨htruthy, due, hdue, ?_, horder.symm⟩, ?_, hnew⟩
    · rw [hstored]
      rfl
    · rw [dueCredit_orderId hdue, horder]
  · cases h

/-- An event that is to credit an order does so unless the order is credited. -/
theorem Wants.attemptFor (h : Wants env w t order e) (credited : Uuid → Option LedgerData) :
    (credited order = none → ∃ c, CashbackLedger.attemptFor env w credited t e = .ok c) ∧
      ((credited order).isSome = true →
        ∃ f, CashbackLedger.attemptFor env w credited t e = .error f) := by
  obtain ⟨htruthy, due, hdue, hstored, rfl⟩ := h
  obtain ⟨stored, hstored⟩ := Option.isSome_iff_exists.mp hstored
  have hattempt : CashbackLedger.attemptFor env w credited t e = insertFor credited due := by
    unfold CashbackLedger.attemptFor creditFor
    rw [if_pos htruthy, hdue]
    rfl
  rw [hattempt]
  unfold insertFor
  rw [hstored]
  dsimp only
  constructor
  · intro hnew
    rw [hnew]
    exact ⟨stored, rfl⟩
  · intro hsome
    rw [if_pos hsome]
    exact ⟨_, rfl⟩

/-- Only the credit of an order that the event is to credit counts. -/
theorem attemptFor_congr (hcredited : ∀ id, id ≠ order → credited id = credited' id)
    (hnot : ¬ Wants env w t order e) :
    attemptFor env w credited t e = attemptFor env w credited' t e := by
  unfold attemptFor
  split
  · next htruthy =>
    unfold creditFor
    cases hdue : dueCredit env w t e.orderId with
    | error f => rfl
    | ok due =>
      show insertFor credited due = insertFor credited' due
      unfold insertFor
      cases hstored : due.stored with
      | none => rfl
      | some stored =>
        have hne : due.orderId ≠ order := fun heq => hnot ⟨htruthy, due, hdue, hstored ▸ rfl, heq⟩
        rw [hcredited _ hne]
  · rfl

/-! ## What an attempt leaves of the others -/

theorem isProcessed_some {r : InboxEvent} : IsProcessed (some r) = (r.status == .PROCESSED) := rfl

theorem not_processed_failed (hpending : e.status = .PENDING) (f : Fault) :
    IsProcessed ((s.failed env e f).row e.id) = false := by
  unfold Standing.failed
  dsimp only
  rw [Function.update_self, isProcessed_some]
  unfold InboxEvent.failed InboxEvent.untimed
  dsimp only
  split
  · rfl
  · rw [hpending]
    rfl

theorem processed_row (s : Standing) (e : InboxEvent) (c : LedgerData) :
    IsProcessed ((s.processed e c).row e.id) = true := by
  unfold Standing.processed
  dsimp only
  rw [Function.update_self]
  rfl

/-- A credit that there is stays. -/
theorem credited_attempted {id : Uuid} (h : (s.credited id).isSome = true) :
    (s.attempted env w t e).credited id = s.credited id := by
  unfold Standing.attempted
  cases hattempt : attemptFor env w s.credited t e with
  | error f => rfl
  | ok c =>
    obtain ⟨-, -, hnew⟩ := attemptFor_ok hattempt
    refine Function.update_of_ne (fun heq => ?_) _ _
    rw [heq, hnew] at h
    cases h

theorem row_attempted {id : Uuid} (hid : id ≠ e.id) :
    (s.attempted env w t e).row id = s.row id := by
  unfold Standing.attempted
  cases attemptFor env w s.credited t e with
  | error f => exact Function.update_of_ne hid _ _
  | ok c => exact Function.update_of_ne hid _ _

theorem parked_attempted {source : String} (hsource : source ≠ e.sourceEventId) :
    (s.attempted env w t e).parked source = s.parked source := by
  unfold Standing.attempted
  cases attemptFor env w s.credited t e with
  | error f =>
    unfold Standing.failed
    dsimp only
    split
    · exact Function.update_of_ne hsource _ _
    · rfl
  | ok c => rfl

/-- The outcome of an event is decided by its row, its messages and the credit it has. -/
theorem outcome_congr (hrow : s'.row x.id = s.row x.id)
    (hparked : s'.parked x.sourceEventId = s.parked x.sourceEventId)
    (hcredit : ∀ id, readId env x.orderId = some id →
      IsProcessed (s.row x.id) = true → s'.credited id = s.credited id) :
    s'.outcome env x = s.outcome env x := by
  unfold Standing.outcome
  rw [hrow, hparked]
  congr 1
  split
  · next hprocessed =>
    cases hid : readId env x.orderId with
    | none => rfl
    | some id => exact hcredit id hid hprocessed
  · rfl

theorem Standing.Settled.attempted (h : s.Settled env x) (hapart : ApartFrom x e) :
    (s.attempted env w t e).Settled env x := by
  intro hprocessed
  rw [row_attempted hapart.id] at hprocessed
  obtain ⟨id, hid, hsome⟩ := h hprocessed
  exact ⟨id, hid, (congrArg Option.isSome (credited_attempted hsome)).trans hsome⟩

theorem Standing.Settled.outcome (h : s.Settled env x) (hapart : ApartFrom x e) :
    (s.attempted env w t e).outcome env x = s.outcome env x := by
  refine outcome_congr (row_attempted hapart.id)
    (parked_attempted hapart.source) fun id hid hprocessed => ?_
  obtain ⟨id', hid', hsome⟩ := h hprocessed
  cases hid.symm.trans hid'
  exact credited_attempted hsome

theorem settled_self (hpending : e.status = .PENDING) : (s.attempted env w t e).Settled env e := by
  intro hprocessed
  unfold Standing.attempted at hprocessed ⊢
  cases hattempt : attemptFor env w s.credited t e with
  | error f =>
    rw [hattempt] at hprocessed
    cases (not_processed_failed hpending f).symm.trans hprocessed
  | ok c =>
    refine ⟨c.orderId, (attemptFor_ok hattempt).2.1, ?_⟩
    unfold Standing.processed
    dsimp only
    rw [Function.update_self]
    rfl

/-- Later attempts leave the outcome. -/
theorem Standing.Settled.attemptAll {events : List InboxEvent} (h : s.Settled env x)
    (hapart : ∀ e ∈ events, ApartFrom x e) :
    (s.attemptAll env w times events).outcome env x = s.outcome env x := by
  induction events generalizing s with
  | nil => rfl
  | cons e events ih =>
    have hhead := hapart e List.mem_cons_self
    exact (ih (h.attempted hhead) fun e' he' => hapart e' (List.mem_cons_of_mem e he')).trans
      (h.outcome hhead)

theorem Standing.Settled.later {events : List InboxEvent} (h : s.Settled env x)
    (hapart : ∀ e ∈ events, ApartFrom x e) : (s.attemptAll env w times events).Settled env x := by
  induction events generalizing s with
  | nil => exact h
  | cons e events ih =>
    exact ih (h.attempted (hapart e List.mem_cons_self)) fun e' he' =>
      hapart e' (List.mem_cons_of_mem e he')

/-- After a batch all its events are settled. -/
theorem settled_attemptAll {events : List InboxEvent} (hpair : events.Pairwise ApartFrom)
    (hpending : ∀ x ∈ events, x.status = .PENDING) (hx : x ∈ events) :
    (s.attemptAll env w times events).Settled env x := by
  induction events generalizing s with
  | nil => cases hx
  | cons e events ih =>
    obtain ⟨hhead, htail⟩ := List.pairwise_cons.mp hpair
    obtain ⟨hpending₁, hpending₂⟩ := List.forall_mem_cons.mp hpending
    rcases List.mem_cons.mp hx with rfl | hx
    · exact (settled_self hpending₁).later hhead
    · exact ih htail hpending₂ hx

/-! ## With one event more and without -/

variable {new : Option Uuid} {events : List InboxEvent}

/-- `s` has the attempt on `e` over `s'`: it differs in the row and the messages of `e` and in the
    order `new` that was credited. -/
structure Beyond (e : InboxEvent) (new : Option Uuid) (s' s : Standing) : Prop where
  row : ∀ id, id ≠ e.id → s.row id = s'.row id
  parked : ∀ source, source ≠ e.sourceEventId → s.parked source = s'.parked source
  credited : ∀ id, new ≠ some id → s.credited id = s'.credited id
  new : ∀ id, new = some id → (s.credited id).isSome = true ∧ s'.credited id = none

theorem Beyond.attemptFor (h : Beyond e new s' s)
    (hnot : ∀ id, new = some id → ¬ Wants env w t id x) :
    CashbackLedger.attemptFor env w s.credited t x =
      CashbackLedger.attemptFor env w s'.credited t x := by
  cases hnew : new with
  | none => rw [show s.credited = s'.credited from funext fun id => h.credited id (hnew ▸ nofun)]
  | some id =>
    refine attemptFor_congr (fun id' hne => h.credited id' fun heq => ?_) (hnot id hnew)
    exact hne (Option.some_inj.mp (heq.symm.trans hnew))

theorem Beyond.attempted (h : Beyond e new s' s)
    (hnot : ∀ id, new = some id → ¬ Wants env w t id x) :
    Beyond e new (s'.attempted env w t x) (s.attempted env w t x) := by
  have hattempt := h.attemptFor hnot
  have hupdate : ∀ {row row' : Uuid → Option InboxEvent} (r : InboxEvent),
      (∀ id, id ≠ e.id → row id = row' id) →
      ∀ id, id ≠ e.id → Function.update row x.id (some r) id =
        Function.update row' x.id (some r) id := by
    intro row row' r hrow id hid
    by_cases hx : id = x.id
    · subst hx
      rw [Function.update_self, Function.update_self]
    · rw [Function.update_of_ne hx, Function.update_of_ne hx, hrow id hid]
  unfold Standing.attempted
  rw [hattempt]
  cases hcase : CashbackLedger.attemptFor env w s'.credited t x with
  | error f =>
    refine ⟨hupdate _ h.row, fun source hsource => ?_, h.credited, h.new⟩
    unfold Standing.failed
    dsimp only
    split
    · by_cases hx : source = x.sourceEventId
      · subst hx
        rw [Function.update_self, Function.update_self, h.parked _ hsource]
      · rw [Function.update_of_ne hx, Function.update_of_ne hx, h.parked _ hsource]
    · exact h.parked _ hsource
  | ok c =>
    have hwants := (attemptFor_ok hcase).1
    refine ⟨hupdate _ h.row, h.parked, fun id hid => ?_, fun id hid => ?_⟩
    · show Function.update s.credited c.orderId (some c) id =
        Function.update s'.credited c.orderId (some c) id
      by_cases hc : id = c.orderId
      · subst hc
        rw [Function.update_self, Function.update_self]
      · rw [Function.update_of_ne hc, Function.update_of_ne hc, h.credited id hid]
    · have hne : id ≠ c.orderId := fun heq => hnot id hid (heq ▸ hwants)
      show (Function.update s.credited c.orderId (some c) id).isSome = true ∧
        Function.update s'.credited c.orderId (some c) id = none
      rw [Function.update_of_ne hne, Function.update_of_ne hne]
      exact h.new id hid

/-- A settled event has the same outcome in both. -/
theorem Beyond.outcome (h : Beyond e new s' s) (hapart : ApartFrom x e)
    (hsettled : s'.Settled env x) : s.outcome env x = s'.outcome env x := by
  refine outcome_congr (h.row _ hapart.id) (h.parked _ hapart.source) fun id hid hprocessed => ?_
  refine h.credited id fun hnew => ?_
  obtain ⟨id', hid', hsome⟩ := hsettled hprocessed
  cases hid.symm.trans hid'
  rw [(h.new id hnew).2] at hsome
  cases hsome

theorem Beyond.settled (h : Beyond e new s' s) (hapart : ApartFrom x e)
    (hsettled : s'.Settled env x) : s.Settled env x := by
  intro hprocessed
  rw [h.row _ hapart.id] at hprocessed
  obtain ⟨id, hid, hsome⟩ := hsettled hprocessed
  refine ⟨id, hid, (congrArg Option.isSome (h.credited id fun hnew => ?_)).trans hsome⟩
  rw [(h.new id hnew).2] at hsome
  cases hsome

/-- The event that is to credit the order fails with `e`, and is processed without it. -/
theorem Beyond.wants (h : Beyond e new s' s) {id : Uuid} (hnew : new = some id)
    (hwants : Wants env w t id x) (hpending : x.status = .PENDING) :
    (s.attempted env w t x).outcome env x ≠ (s'.attempted env w t x).outcome env x := by
  obtain ⟨hsome, hnone⟩ := h.new id hnew
  obtain ⟨f, hf⟩ := (hwants.attemptFor s.credited).2 hsome
  obtain ⟨c, hc⟩ := (hwants.attemptFor s'.credited).1 hnone
  intro heq
  have hrow : (s.attempted env w t x).row x.id = (s'.attempted env w t x).row x.id :=
    congrArg InboxOutcome.row heq
  unfold Standing.attempted at hrow
  rw [hf, hc] at hrow
  have hprocessed := congrArg IsProcessed hrow
  rw [not_processed_failed hpending, processed_row] at hprocessed
  cases hprocessed

/-- The events have the same outcomes with `e` and without, unless one of them is to credit the
    order that `e` credited. -/
theorem outcomes_iff (h : Beyond e new s' s) (hapart : ∀ x ∈ events, ApartFrom x e)
    (hpair : events.Pairwise ApartFrom) (hpending : ∀ x ∈ events, x.status = .PENDING) :
    (∀ x ∈ events, (s.attemptAll env w times events).outcome env x =
        (s'.attemptAll env w times events).outcome env x) ↔
      ∀ id, new = some id → ∀ x ∈ events, ¬ Wants env w (times x.id) id x := by
  induction events generalizing s s' with
  | nil => exact ⟨nofun, nofun⟩
  | cons x events ih =>
    obtain ⟨hhead, htail⟩ := List.pairwise_cons.mp hpair
    obtain ⟨hpending₁, hpending₂⟩ := List.forall_mem_cons.mp hpending
    have hkept : ∀ s : Standing, (s.attemptAll env w times (x :: events)).outcome env x =
        (s.attempted env w (times x.id) x).outcome env x :=
      fun s => (settled_self hpending₁).attemptAll hhead
    by_cases hwants : ∃ id, new = some id ∧ Wants env w (times x.id) id x
    · obtain ⟨id, hnew, hwants⟩ := hwants
      refine ⟨fun hall => ?_, fun hall => absurd hwants (hall id hnew x List.mem_cons_self)⟩
      have hx := hall x List.mem_cons_self
      rw [hkept, hkept] at hx
      exact absurd hx (h.wants hnew hwants hpending₁)
    · have hnot : ∀ id, new = some id → ¬ Wants env w (times x.id) id x :=
        fun id hnew hw => hwants ⟨id, hnew, hw⟩
      have hnext := h.attempted hnot
      have hx : (s.attemptAll env w times (x :: events)).outcome env x =
          (s'.attemptAll env w times (x :: events)).outcome env x := by
        rw [hkept, hkept]
        exact hnext.outcome (hapart x List.mem_cons_self) (settled_self hpending₁)
      have hrest := ih hnext (fun y hy => hapart y (List.mem_cons_of_mem x hy)) htail hpending₂
      rw [List.forall_mem_cons]
      constructor
      · rintro ⟨-, hall⟩ id hnew
        exact List.forall_mem_cons.mpr ⟨hnot id hnew, hrest.mp hall id hnew⟩
      · intro hall
        exact ⟨hx, hrest.mpr fun id hnew y hy => hall id hnew y (List.mem_cons_of_mem x hy)⟩

end

end CashbackLedger
