import CashbackLedger.Safety.SeenRule

/-
  A pass of the publisher or of the retry loop, run on its own.

  A `Setting` says what surrounds the calls of a pass: at which time each is made, which id it may
  use, and what becomes of the database and Kafka calls made for one of the events. The calls are
  numbered within the attempt they belong to, so that two passes over different batches can be
  compared event by event. `servePass` serves a pass in a setting.
-/

namespace CashbackLedger

open Lib

/-- The places where the bodies of the two loops call the database or Kafka. An attempt comes to
    each at most once. -/
inductive Site where
  -- `publishOnce`
  | claim
  | send
  | markSent
  | reread
  | reschedule
  -- `retryInboxLoop` with `processOrderConfirmed`
  | begin
  | findOrder
  | findRule
  | createCredit
  | findCredit
  | commit
  | rollback
  | markProcessed
  | countFailure
  | settleFailure
  | deadLetter

/-- Where a pass makes the call. -/
def Call.site : Call → Option Site
  | .outbox (.claim _) => some .claim
  | .kafka (.send .events _) => some .send
  | .outbox (.update _ u) => some (if u.status = some .SENT then .markSent else .reschedule)
  | .outbox (.findUnique _) => some .reread
  | .tx .begin => some .begin
  | .tx (.stmt (.orderFindUnique _)) => some .findOrder
  | .tx (.stmt (.ruleFindUnique _)) => some .findRule
  | .tx (.stmt (.ledgerCreate _)) => some .createCredit
  | .tx (.stmt (.ledgerFindUnique _ _)) => some .findCredit
  | .tx .commit => some .commit
  | .tx .rollback => some .rollback
  | .inbox (.update _ u) => some (if u.attempts.isSome then .countFailure
      else if u.status = some .PROCESSED then .markProcessed else .settleFailure)
  | .kafka (.send .dlq _) => some .deadLetter
  | _ => none

/-- The event with whose attempt the call begins. -/
def Call.opens : Call → Option Uuid
  | .outbox (.claim id) => some id
  | .proc (.inboxRetriesInc e) => some e.id
  | _ => none

/-- What surrounds a pass: `fate` is what becomes of the calls made for the event `failing`, and
    `newId` and `time` are given for the calls made for an event, or before the first. -/
structure Setting where
  failing : Uuid
  fate : Site → Fate
  newId : Option Uuid → Nat → Uuid
  time : Option Uuid → Nat → Time

/-- Only database and Kafka calls made for the failing event fail. -/
def Setting.choice (d : Setting) (event : Option Uuid) (n : Nat) (c : Call) : Choice where
  fate := if event = some d.failing then (c.site.map d.fate).getD .ok else .ok
  newId := d.newId event n

/-- The world, the events whose attempts have begun, newest first, and how many calls the newest
    has made. -/
structure PassState where
  world : World
  begun : List Uuid
  calls : Nat

def PassState.start (w : World) : PassState := { world := w, begun := [], calls := 0 }

/-- The state in which the call is made. -/
def PassState.enter (y : PassState) (c : Call) : PassState :=
  match c.opens with
  | none => y
  | some id => { y with begun := id :: y.begun, calls := 0 }

def World.atTime (w : World) (t : Time) : World := { w with clock := t }

/-- Serves a call of the pass, which is run by `p`. -/
def servePass (env : Env) (p : Pid) (d : Setting) (c : Call) (y : PassState) :
    Option (PassState × Reply c) :=
  let event := (y.enter c).begun.head?
  let n := (y.enter c).calls
  (exec env p c (d.choice event n c) (y.world.atTime (d.time event n))).map fun z =>
    ({ world := z.1, begun := (y.enter c).begun, calls := n + 1 }, z.2)

/-- Runs a pass, or a part of one. -/
def runPass {α : Type} (env : Env) (p : Pid) (d : Setting) (y : PassState) (x : Async α) :
    Option (PassState × Except Fault α) :=
  Prog.eval (servePass env p d) y x.run

/-- Time does not go back over these events. -/
structure Setting.InOrder (d : Setting) (events : List Uuid) : Prop where
  within : ∀ id ∈ events, Monotone (d.time (some id))
  between : events.Pairwise fun a b => ∀ m n, d.time (some a) m ≤ d.time (some b) n

/-- Time does not go back over a pass with this batch. -/
structure Setting.Forward (d : Setting) (start : Time) (events : List Uuid) : Prop
    extends d.InOrder events where
  first : start ≤ d.time none 0
  selection : Monotone (d.time none)
  lasting : ∀ id ∈ events, ∀ m n, d.time none m ≤ d.time (some id) n

/-- New ids are in use nowhere, and different for different events. -/
structure Setting.NewIds (d : Setting) (w : World) : Prop where
  unused : ∀ event n, (w.ledger.any fun e => e.id == d.newId event n) = false
  apart : ∀ a b m n, d.newId (some a) m = d.newId (some b) n → a = b

/-- Both passes came to their end without an exception, and every other event was attempted, with
    the same outcome. -/
def Unhindered {α β : Type} (others : List α) (id : α → Uuid) (outcome : World → α → β)
    (run without : Option (PassState × Except Fault Unit)) : Prop :=
  ∃ y y', run = some (y, .ok ()) ∧ without = some (y', .ok ()) ∧
    ∀ x ∈ others, id x ∈ y.begun ∧ outcome y.world x = outcome y'.world x

/-! ## Between two calls -/

/-- The tables and topics are as in `w`, others hold the locks they hold there, and what is seen of
    the rules is the same; the transaction of `p` is `tx`. -/
structure AsIn (env : Env) (p : Pid) (w : World) (tx : Option Tx) (v : World) : Prop
    extends Beside p w tx v where
  outbox : v.outbox = w.outbox
  inbox : v.inbox = w.inbox
  broker : v.broker = w.broker
  keys : OneEntry v.redis
  seen : ∀ t, v.clock ≤ t → ∀ m, v.seen env t m = w.seen env t m

/-- Within the attempt of `x`, which has made `n` calls. -/
structure Within (env : Env) (p : Pid) (d : Setting) (w : World) (tx : Option Tx) (x : Uuid)
    (before : List Uuid) (n : Nat) (y : PassState) : Prop extends AsIn env p w tx y.world where
  begun : y.begun = x :: before
  calls : y.calls = n
  clock : ∃ m, m ≤ n ∧ y.world.clock = d.time (some x) m

/-- The call is made for `x`, as its call `n`. -/
structure Ready (env : Env) (p : Pid) (d : Setting) (w : World) (tx : Option Tx) (x : Uuid)
    (before : List Uuid) (n : Nat) (c : Call) (y : PassState) : Prop where
  begun : (y.enter c).begun = x :: before
  calls : (y.enter c).calls = n
  now : AsIn env p w tx (y.world.atTime (d.time (some x) n))

/-- The clock has not passed the times of these events. -/
def Setting.Ahead (d : Setting) (events : List Uuid) (y : PassState) : Prop :=
  ∀ id ∈ events, ∀ n, y.world.clock ≤ d.time (some id) n

theorem InboxUpdate.keepsKeys (u : InboxUpdate) : KeepsKeys u.apply := ⟨fun _ _ => rfl⟩

def updateInbox (id : Uuid) (u : InboxUpdate) (t : Table InboxEvent) : Table InboxEvent :=
  t.modify (fun e => e.id == id) u.apply u.keepsKeys

def World.updateInbox (w : World) (id : Uuid) (u : InboxUpdate) : World :=
  { w with inbox := CashbackLedger.updateInbox id u w.inbox }

/-- What becomes of a call made for `x`. -/
def Setting.fateOf (d : Setting) (x : Uuid) (c : Call) : Fate := (d.choice (some x) 0 c).fate

/-- What becomes of the calls made for `x` at a place. -/
def Setting.at (d : Setting) (x : Uuid) (s : Site) : Fate := if x = d.failing then d.fate s else .ok

/-- What an answered call leads to, by its fate: `w'` and `res` if it takes effect and its reply
    arrives. -/
inductive Answer {α : Type} (fate : Fate) (w w' : World) (res : Except Fault α) (now : Time) :
    World → Except Fault (α × Time) → Prop where
  | ok (h : fate = .ok) : Answer fate w w' res now w' (res.map fun a => (a, now))
  | failed {m : String} (h : fate = .fail m) : Answer fate w w' res now w (.error (.callFailed m))
  | lost {m : String} (h : fate = .lost m) : Answer fate w w' res now w' (.error (.callFailed m))

/-- How a call ends that comes to `o` and leaves the world like `w'`, by its fate. -/
inductive CallEnds (env : Env) (p : Pid) (d : Setting) (w w' : World) (tx : Option Tx) (x : Uuid)
    (before : List Uuid) (n : Nat) (c : Call) (o : Option (Except Fault c.Result))
    (y' : PassState) : Except Fault (c.Result × Time) → Prop where
  | ok {res : Except Fault c.Result} (hfate : d.fateOf x c = .ok) (h : o = some res)
      (within : Within env p d w' (c.txAfter res tx) x before (n + 1) y') :
      CallEnds env p d w w' tx x before n c o y' (res.map fun a => (a, d.time (some x) n))
  | failed {m : String} (hfate : d.fateOf x c = .fail m)
      (within : Within env p d w (c.txAfter (.error (.callFailed m)) tx) x before (n + 1) y') :
      CallEnds env p d w w' tx x before n c o y' (.error (.callFailed m))
  | lost {m : String} (hfate : d.fateOf x c = .lost m)
      (within : Within env p d w' (c.txAfter (.error (.callFailed m)) tx) x before (n + 1) y') :
      CallEnds env p d w w' tx x before n c o y' (.error (.callFailed m))

section

variable {env : Env} {p : Pid} {d : Setting} {w w' v : World} {tx : Option Tx} {x : Uuid}
  {before : List Uuid} {n : Nat} {y : PassState} {S : Prop} {c : Call} {s : Site}

theorem AsIn.self (hkeys : OneEntry w.redis) : AsIn env p w (w.txOf p) w :=
  ⟨⟨rfl, rfl, rfl, rfl, fun _ => rfl⟩, rfl, rfl, rfl, hkeys, fun _ _ _ => rfl⟩

theorem AsIn.setTx (h : AsIn env p w tx v) (tx' : Option Tx) : AsIn env p w tx' (v.setTx p tx') :=
  ⟨h.toBeside.setTx tx', h.outbox, h.inbox, h.broker, h.keys, h.seen⟩

theorem AsIn.settle (h : AsIn env p w tx v) (c : Call) (r : Except Fault c.Result) :
    AsIn env p w (c.txAfter r tx) (v.settle p c r) := by
  unfold World.settle
  rw [h.tx]
  exact h.setTx _

theorem AsIn.atTime (h : AsIn env p w tx v) {t : Time} (ht : v.clock ≤ t) :
    AsIn env p w tx (v.atTime t) :=
  ⟨⟨h.orders, h.rules, h.ledger, h.tx, h.locks⟩, h.outbox, h.inbox, h.broker, h.keys,
    fun t' ht' => h.seen t' (Nat.le_trans ht ht')⟩

theorem Within.ready (h : Within env p d w tx x before n y) (hmono : Monotone (d.time (some x)))
    (hc : c.opens = none) : Ready env p d w tx x before n c y := by
  have henter : y.enter c = y := by
    unfold PassState.enter
    rw [hc]
  obtain ⟨m, hm, hclock⟩ := h.clock
  refine ⟨?_, ?_, h.toAsIn.atTime (hclock ▸ hmono hm)⟩
  · rw [henter, h.begun]
  · rw [henter, h.calls]

/-- An attempt begins. -/
theorem AsIn.ready (h : AsIn env p w tx y.world) (hclock : y.world.clock ≤ d.time (some x) 0)
    (hc : c.opens = some x) : Ready env p d w tx x y.begun 0 c y := by
  have henter : y.enter c = { y with begun := x :: y.begun, calls := 0 } := by
    unfold PassState.enter
    rw [hc]
  refine ⟨?_, ?_, h.atTime hclock⟩
  · rw [henter]
  · rw [henter]

theorem Within.next (h : AsIn env p w tx v) (hclock : v.clock = d.time (some x) n) :
    Within env p d w tx x before (n + 1) { world := v, begun := x :: before, calls := n + 1 } :=
  ⟨h, rfl, rfl, n, Nat.le_succ n, hclock⟩

theorem Setting.fate_of_ne (hx : x ≠ d.failing) (c : Call) : d.fateOf x c = .ok :=
  if_neg fun h => hx (Option.some_inj.mp h)

theorem Setting.fateOf_site (hc : c.site = some s) : d.fateOf x c = d.at x s := by
  unfold Setting.fateOf Setting.choice Setting.at
  simp only [Option.some_inj, hc, Option.map_some, Option.getD_some]

theorem Setting.fateOf_none (hc : c.site = none) : d.fateOf x c = .ok := by
  unfold Setting.fateOf Setting.choice
  simp only [hc, Option.map_none, Option.getD_none, ite_self]

theorem Setting.at_of_ne (hx : x ≠ d.failing) (s : Site) : d.at x s = .ok := if_neg hx

theorem Setting.InOrder.sublist {events events' : List Uuid} (h : d.InOrder events)
    (hs : List.Sublist events' events) : d.InOrder events' :=
  ⟨fun id hid => h.within id (hs.subset hid), h.between.sublist hs⟩

/-- After an attempt, the times of the later events are still to come. -/
theorem Within.ahead {later : List Uuid} (h : Within env p d w tx x before n y)
    (horder : d.InOrder (x :: later)) : d.Ahead later y := by
  obtain ⟨m, -, hclock⟩ := h.clock
  intro id hid k
  rw [hclock]
  exact (List.pairwise_cons.mp horder.between).1 id hid m k

/-- An answered call took effect and its reply arrived, or it failed and left what holds before it
    and after it. -/
theorem Answer.cases {α : Type} {fate : Fate} {w₁ : World} {a : α} {now : Time}
    {r : Except Fault (α × Time)} (h : Answer fate w w' (.ok a) now w₁ r) :
    (fate = .ok ∧ w₁ = w' ∧ r = .ok (a, now)) ∨
      fate ≠ .ok ∧ (∀ P : World → Prop, P w → P w' → P w₁) ∧ ∃ f, r = .error f := by
  cases h with
  | ok h => exact Or.inl ⟨h, rfl, rfl⟩
  | failed h => exact Or.inr ⟨h ▸ nofun, fun _ hw _ => hw, _, rfl⟩
  | lost h => exact Or.inr ⟨h ▸ nofun, fun _ _ hw' => hw', _, rfl⟩

/-! ## The kinds of calls -/

theorem ends_ready (h : Ready env p d w tx x before n c y)
    {Q : PassState → Except Fault (c.Result × Time) → Prop}
    (hwait : exec env p c (d.choice (some x) n c) (y.world.atTime (d.time (some x) n)) = none → S)
    (hserved : ∀ v r,
      Served env p c (d.choice (some x) n c) (y.world.atTime (d.time (some x) n)) v r →
      v.clock = d.time (some x) n → r.2 = d.time (some x) n →
      Q { world := v, begun := x :: before, calls := n + 1 } (r.1.map fun a => (a, r.2))) :
    Ends (servePass env p d) S Q y (awaitAt c).run := by
  have hhead : (y.enter c).begun.head? = some x := by rw [h.begun]; rfl
  refine ends_call.mpr ?_
  unfold servePass
  dsimp only
  rw [hhead, h.calls, h.begun]
  cases hexec : exec env p c (d.choice (some x) n c) (y.world.atTime (d.time (some x) n)) with
  | none => exact hwait hexec
  | some z =>
    obtain ⟨hclock, hnow⟩ := exec_clock hexec
    exact hserved z.1 z.2 (exec_served hexec) hclock hnow

/-- A call that comes to `o` and leaves `v`, if it takes effect. -/
theorem ends_calls (o : Option (Except Fault c.Result)) (h : Ready env p d w tx x before n c y)
    (hrun : c.run env p (d.newId (some x) n) (y.world.atTime (d.time (some x) n)) =
      o.map fun res => (v, res))
    (hv : AsIn env p w' tx v) :
    Ends (servePass env p d) (o = none)
      (fun y' r => y'.world.clock = d.time (some x) n ∧
        (y'.world.redis = y.world.redis ∨ y'.world.redis = v.redis) ∧
        CallEnds env p d w w' tx x before n c o y' r) y (awaitAt c).run := by
  have hrun' : Call.run env p (d.choice (some x) n c).newId (y.world.atTime (d.time (some x) n)) c =
      o.map fun res => (v, res) := hrun
  refine ends_ready h (fun hwait => ?_) fun v' r hserved hclock htime => ?_
  · unfold exec at hwait
    split at hwait
    · rw [hrun'] at hwait
      simpa using hwait
    · cases hwait
    · rw [hrun'] at hwait
      simpa using hwait
  rw [htime]
  cases hserved with
  | ok hfate run =>
    obtain ⟨res, ho, heq⟩ := Option.map_eq_some_iff.mp (hrun'.symm.trans run)
    cases heq
    exact ⟨hclock, Or.inr rfl, .ok hfate ho (Within.next (hv.settle c _) hclock)⟩
  | failed hfate =>
    exact ⟨hclock, Or.inl rfl, .failed hfate (Within.next (h.now.settle c _) hclock)⟩
  | lost hfate run =>
    obtain ⟨res, ho, heq⟩ := Option.map_eq_some_iff.mp (hrun'.symm.trans run)
    cases heq
    exact ⟨hclock, Or.inr rfl, .lost hfate (Within.next (hv.settle c _) hclock)⟩

/-- A call on a table or a topic. -/
theorem ends_plain {res : Except Fault c.Result} (htx : ∀ r old, c.txAfter r old = old)
    (h : Ready env p d w tx x before n c y)
    (hrun : ∀ v, AsIn env p w tx v → ∃ v₁, c.run env p (d.newId (some x) n) v = some (v₁, res) ∧
      AsIn env p w' tx v₁) :
    Ends (servePass env p d) False (fun y' r => ∃ w₁,
        Answer (d.fateOf x c) w w' res (d.time (some x) n) w₁ r ∧
        Within env p d w₁ tx x before (n + 1) y') y (awaitAt c).run := by
  obtain ⟨v₁, hv₁, hafter⟩ := hrun _ h.now
  refine (ends_calls (some res) h hv₁ hafter).mono nofun ?_
  rintro y' r ⟨-, -, hr⟩
  cases hr with
  | ok hfate ho within =>
    cases ho
    rw [htx] at within
    exact ⟨w', .ok hfate, within⟩
  | failed hfate within =>
    rw [htx] at within
    exact ⟨w, .failed hfate, within⟩
  | lost hfate within =>
    rw [htx] at within
    exact ⟨w', .lost hfate, within⟩

theorem ends_outbox {o : OutboxCall} {t : Table OutboxEvent} {res : Except Fault o.Result}
    (h : Ready env p d w tx x before n (.outbox o) y) (hrun : o.run w.outbox = some (t, res)) :
    Ends (servePass env p d) False (fun y' r => ∃ w₁,
        Answer (d.fateOf x (.outbox o)) w { w with outbox := t } res (d.time (some x) n) w₁ r ∧
        Within env p d w₁ tx x before (n + 1) y') y (awaitAt (.outbox o)).run := by
  refine ends_plain (fun _ _ => rfl) h fun v hv => ⟨{ v with outbox := t }, ?_, ?_⟩
  · show Option.map _ (o.run v.outbox) = _
    rw [hv.outbox, hrun]
    rfl
  · exact ⟨⟨hv.orders, hv.rules, hv.ledger, hv.tx, hv.locks⟩,
      rfl, hv.inbox, hv.broker, hv.keys, hv.seen⟩

theorem ends_updateInbox {id : Uuid} {u : InboxUpdate} {row : InboxEvent}
    (h : Ready env p d w tx x before n (.inbox (.update id u)) y)
    (hrow : w.inbox.find? (fun e => e.id == id) = some row) :
    Ends (servePass env p d) False (fun y' r => ∃ w₁,
        Answer (d.fateOf x (.inbox (.update id u))) w (w.updateInbox id u) (.ok (u.apply row))
          (d.time (some x) n) w₁ r ∧
        Within env p d w₁ tx x before (n + 1) y') y (awaitAt (.inbox (.update id u))).run := by
  refine ends_plain (c := .inbox (.update id u)) (fun _ _ => rfl) h fun v hv =>
    ⟨{ v with inbox := updateInbox id u w.inbox }, ?_, ?_⟩
  · show Option.map _ (InboxCall.run _ _ v.inbox _) = _
    rw [hv.inbox]
    unfold InboxCall.run
    dsimp only
    rw [hrow]
    rfl
  · exact ⟨⟨hv.orders, hv.rules, hv.ledger, hv.tx, hv.locks⟩,
      hv.outbox, rfl, hv.broker, hv.keys, hv.seen⟩

theorem ends_kafka {k : KafkaCall} {b : Broker} {res : Except Fault k.Result}
    (h : Ready env p d w tx x before n (.kafka k) y) (hrun : k.run w.broker = some (b, res)) :
    Ends (servePass env p d) False (fun y' r => ∃ w₁,
        Answer (d.fateOf x (.kafka k)) w { w with broker := b } res (d.time (some x) n) w₁ r ∧
        Within env p d w₁ tx x before (n + 1) y') y (awaitAt (.kafka k)).run := by
  refine ends_plain (c := .kafka k) (fun _ _ => rfl) h fun v hv => ⟨{ v with broker := b }, ?_, ?_⟩
  · show Option.map _ (k.run v.broker) = _
    rw [hv.broker, hrun]
    rfl
  · exact ⟨⟨hv.orders, hv.rules, hv.ledger, hv.tx, hv.locks⟩,
      hv.outbox, hv.inbox, rfl, hv.keys, hv.seen⟩

/-! ## Before the first event -/

/-- No attempt has begun: `n` calls were made. -/
structure Selecting (env : Env) (p : Pid) (d : Setting) (w : World) (tx : Option Tx) (n : Nat)
    (y : PassState) : Prop extends AsIn env p w tx y.world where
  begun : y.begun = []
  calls : y.calls = n
  clock : y.world.clock ≤ d.time none n

/-- A call that reads. -/
theorem serve_selecting {a : c.Result} (hc : c.opens = none) (htx : ∀ r old, c.txAfter r old = old)
    (hmono : Monotone (d.time none)) (h : Selecting env p d w tx n y)
    (hrun : ∀ v, AsIn env p w tx v → c.run env p (d.newId none n) v = some (v, .ok a)) :
    ∃ y', servePass env p d c y = some (y', (.ok a, d.time none n)) ∧
      Selecting env p d w tx (n + 1) y' := by
  have henter : y.enter c = y := by
    unfold PassState.enter
    rw [hc]
  have hhead : y.begun.head? = none := by rw [h.begun]; rfl
  have hnow := h.toAsIn.atTime h.clock
  have hfate : (d.choice none n c).fate = .ok := rfl
  have hserved : Call.run env p (d.choice none n c).newId (y.world.atTime (d.time none n)) c = _ :=
    hrun _ hnow
  refine ⟨{ world := (y.world.atTime (d.time none n)).settle p c (.ok a),
            begun := y.begun, calls := n + 1 }, ?_, ?_⟩
  · unfold servePass
    dsimp only
    rw [henter, hhead, h.calls]
    unfold exec
    rw [hfate]
    dsimp only
    rw [hserved]
    rfl
  · refine ⟨?_, h.begun, rfl, hmono (Nat.le_succ n)⟩
    unfold World.settle
    rw [htx, hnow.tx]
    exact hnow.setTx tx

end

end CashbackLedger
