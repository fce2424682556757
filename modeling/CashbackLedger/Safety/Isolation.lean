import CashbackLedger.Safety.PublishPass
import CashbackLedger.Safety.RetryPass

/-
  One failing event and the others of its batch.

  A pass of the publisher goes on after a failing event if the two calls of the `catch` block
  succeed; otherwise the rest of the batch is left for the next pass (`publish_unhindered`). A pass
  of the retry loop goes on if the failure is booked; otherwise the loop ends (`retry_unhindered`).
  Besides, a credit that the failing event leaves behind makes the later events for the same order
  fail.
-/

namespace CashbackLedger

open Lib

/-- The batch a pass of the retry loop selects. -/
def dueInbox (env : Env) (d : Setting) (w : World) : List InboxEvent :=
  orderByCreatedAt InboxEvent.createdAt env.retryBatchSize
    (w.inbox.rows.filter (InboxCall.selects (.due (d.time none 0))))

/-- A pass of the retry loop up to a failing event. -/
def retryBefore (env : Env) (pre : List InboxEvent) : Async Unit := do
  let now ← tell .now
  let _ ← await (.inbox (.findMany (.due now) (some env.retryBatchSize)))
  retryEvents env pre

section

variable {env : Env} {p : Pid} {d : Setting} {w w' v : World} {tx : Option Tx} {y : PassState}
  {e : InboxEvent} {pre post : List InboxEvent}

theorem dueInbox_apart : (dueInbox env d w).Pairwise ApartFrom := by
  refine (apart_orderByCreatedAt w.inbox _ _ _).imp fun {a b} hab => ?_
  obtain ⟨hid, hsource⟩ := Bool.or_eq_false_iff.mp hab
  exact ⟨fun heq => by simp [heq] at hid, fun heq => by simp [heq] at hsource⟩

theorem dueInbox_rows (he : e ∈ dueInbox env d w) :
    w.inbox.find? (fun r => r.id == e.id) = some e ∧ e.status = .PENDING := by
  obtain ⟨hmem, hdue⟩ := List.mem_filter.mp (mem_of_orderByCreatedAt he)
  refine ⟨Table.find?_of_mem hmem (beq_self_eq_true _) fun b _ hb => ?_, ?_⟩
  · exact Bool.or_eq_true_iff.mpr (Or.inl (beq_iff_eq.mpr (beq_iff_eq.mp hb).symm))
  · exact beq_iff_eq.mp (Bool.and_eq_true_iff.mp hdue).1

/-- The selection, and then the events. -/
theorem eval_selection (hmono : Monotone (d.time none)) (h : Selecting env p d w tx 0 y) :
    ∃ y', Selecting env p d w tx 2 y' ∧
      runPass env p d y (retryInbox env) =
        runPass env p d y' (Act.forEach (retryAttempt env) (dueInbox env d w)) ∧
      ∀ pre, runPass env p d y (retryBefore env pre) =
        runPass env p d y' (Act.forEach (retryAttempt env) pre) := by
  obtain ⟨y₁, hserve₁, h₁⟩ :=
    serve_selecting (c := .proc .now) rfl (fun _ _ => rfl) hmono h fun _ _ => rfl
  obtain ⟨y₂, hserve₂, h₂⟩ := serve_selecting
    (c := .inbox (.findMany (.due (d.time none 0)) (some env.retryBatchSize)))
    (a := dueInbox env d w)
    rfl (fun _ _ => rfl) hmono h₁ fun v hv => by
      show some ({ v with inbox := v.inbox }, _) = _
      rw [hv.inbox]
      rfl
  have hnow : (tell .now : Async Time).run.eval (servePass env p d) y =
      some (y₁, .ok (d.time none 0)) := by
    rw [show (tell .now : Async Time).run = .call (.proc .now) fun r => .ret (.ok r.2) from rfl,
      Prog.eval, hserve₁]
    rfl
  have hselect : (await (.inbox (.findMany (.due (d.time none 0)) (some env.retryBatchSize))) :
      Async (List InboxEvent)).run.eval (servePass env p d) y₁ =
          some (y₂, .ok (dueInbox env d w)) := by
    rw [show (await (.inbox (.findMany (.due (d.time none 0)) (some env.retryBatchSize))) :
      Async (List InboxEvent)).run = .call _ fun r => .ret r.1 from rfl, Prog.eval, hserve₂]
    rfl
  refine ⟨y₂, h₂, ?_, fun pre => ?_⟩
  · unfold runPass retryInbox
    rw [eval_act_bind, hnow, Option.bind_some]
    dsimp only
    rw [eval_act_bind, hselect, Option.bind_some, ← retryEvents_eq]
  · unfold runPass retryBefore
    rw [eval_act_bind, hnow, Option.bind_some]
    dsimp only
    rw [eval_act_bind, hselect, Option.bind_some, ← retryEvents_eq]

theorem AsIn.standing (h : AsIn env p w tx v) : v.standing = w.standing := by
  unfold World.standing World.credited
  rw [h.inbox, h.broker, h.ledger]

/-- All that is left of a batch, without the failing event. -/
theorem ends_attemptRest {s : Standing} {w₀ : World} (events : List InboxEvent)
    (hfine : ∀ e ∈ events, e.id ≠ d.failing) (hpair : events.Pairwise ApartFrom)
    (horder : d.InOrder (events.map InboxEvent.id)) (hids : d.NewIds w₀)
    (h : Amid env p d w₀ s events w tx y) :
    Ends (servePass env p d) (∃ e ∈ events, AttemptWaits env p w₀ (d.readAt e.id) e)
      (fun y' r => r = .ok () ∧ y'.world.standing = s.attemptAll env w₀ d.readAt events ∧
        (∀ e ∈ events, ¬ AttemptWaits env p w₀ (d.readAt e.id) e) ∧
        y'.begun = (events.map InboxEvent.id).reverse ++ y.begun) y
      (Act.forEach (retryAttempt env) events).run := by
  rw [← List.append_nil events] at hpair horder h
  refine (ends_attemptAll events [] hfine hpair horder hids h).mono id ?_
  rintro y' r ⟨hr, ⟨w', tx', hamid⟩, hfree, hbegun⟩
  exact ⟨hr, hamid.toAsIn.standing.trans hamid.standing, hfree, hbegun⟩

theorem attemptAll_append (env : Env) (w : World) (times : Uuid → Time) (s : Standing)
    (pre post : List InboxEvent) :
    s.attemptAll env w times (pre ++ post) =
      (s.attemptAll env w times pre).attemptAll env w times post :=
  List.foldl_append

/-- What the events of a batch need to be attempted in turn. -/
structure Attemptable (d : Setting) (w : World) (events : List InboxEvent) : Prop where
  apart : events.Pairwise ApartFrom
  rows : ∀ x ∈ events, w.inbox.find? (fun r => r.id == x.id) = some x ∧ x.status = .PENDING
  order : d.InOrder (events.map InboxEvent.id)
  ids : d.NewIds w

theorem Attemptable.sublist {events events' : List InboxEvent} (h : Attemptable d w events)
    (hsub : List.Sublist events' events) : Attemptable d w events' :=
  ⟨h.apart.sublist hsub, fun x hx => h.rows x (hsub.subset hx), h.order.sublist (hsub.map _), h.ids⟩

theorem Attemptable.amid {events : List InboxEvent} (h : Attemptable d w events)
    (hin : AsIn env p w tx y.world) (hahead : d.Ahead (events.map InboxEvent.id) y) :
    Amid env p d w w.standing events w tx y :=
  ⟨hin, ⟨fun x hx => (h.rows x hx).1, fun x _ k => h.ids.unused (some x.id) k⟩,
    .refl w, rfl, hahead⟩

/-- How a pass ends over a batch with the failing event: it was attempted in `y₀`, and left the
    standing at `s`. -/
structure PassEnds (env : Env) (p : Pid) (d : Setting) (w : World) (pre : List InboxEvent)
    (e : InboxEvent) (post : List InboxEvent) (y₀ : PassState) (s : Standing) (new : Option Uuid)
    (y : PassState) (r : Except Fault Unit) : Prop where
  beyond : Beyond e new (w.standing.attemptAll env w d.readAt pre) s
  credit : ∀ id, new = some id ↔ ∃ c, NewCredit env d y₀.world e c ∧ c.orderId = id
  before : ∀ x ∈ pre, ¬ AttemptWaits env p w (d.readAt x.id) x
  stopped : ¬ (d.Processes env y₀.world e ∨ d.Books env e) → r ≠ .ok ()
  went_on : d.Processes env y₀.world e ∨ d.Books env e → r = .ok () ∧
    y.world.standing = s.attemptAll env w d.readAt post ∧
    (∀ x ∈ post, ¬ AttemptWaits env p w (d.readAt x.id) x) ∧
    y.begun = (post.map InboxEvent.id).reverse ++ e.id :: (pre.map InboxEvent.id).reverse

theorem passEnds {y₀ y₁ : PassState} {r : Except Fault Unit} (hfailing : d.failing = e.id)
    (hbatch : Attemptable d w (pre ++ e :: post))
    (h : Amid env p d w w.standing (pre ++ e :: post) w tx y) (hbegun : y.begun = [])
    (hbefore : runPass env p d y (Act.forEach (retryAttempt env) pre) = some (y₀, .ok ()))
    (hrun : runPass env p d y (Act.forEach (retryAttempt env) (pre ++ e :: post)) = some (y₁, r)) :
    ∃ s new, PassEnds env p d w pre e post y₀ s new y₁ r := by
  obtain ⟨hpair, hrows, horder, hids⟩ := hbatch
  obtain ⟨hpre, hrest, hcross⟩ := List.pairwise_append.mp hpair
  obtain ⟨hpost, hpairpost⟩ := List.pairwise_cons.mp hrest
  have horder₁ := horder.sublist ((List.sublist_append_right pre (e :: post)).map InboxEvent.id)
  -- the events before
  have hbeforeEnds :=
    (ends_attemptAll pre (e :: post) (fun x hx => ?_) hpair horder hids h).eval hbefore
  swap
  · rw [hfailing]
    exact (hcross x hx e List.mem_cons_self).id
  obtain ⟨-, ⟨w₀, tx₀, hamid⟩, hfree, hbegun₀⟩ := hbeforeEnds
  rw [hbegun, List.append_nil] at hbegun₀
  unfold runPass at hrun hbefore
  rw [eval_forEach_append, hbefore, Option.bind_some] at hrun
  dsimp only at hrun
  rw [eval_forEach_cons] at hrun
  -- the failing event
  obtain ⟨⟨y₂, r₂⟩, hattempt, hrun⟩ := Option.bind_eq_some_iff.mp hrun
  obtain ⟨w₁, n, tx₁, within, hends⟩ := (hamid.attempt horder₁).eval hattempt
  obtain ⟨new, hbeyond, hnew⟩ := hends.beyond
  rw [hamid.standing] at hbeyond
  refine ⟨w₁.standing, new, hbeyond, hnew, hfree, fun hnot => ?_, fun hwent => ?_⟩
  · cases r₂ with
    | ok u => exact absurd (hends.went_on.mp rfl) hnot
    | error f =>
      cases hrun
      nofun
  · -- the events after
    obtain rfl := hends.went_on.mpr hwent
    have hafter := hamid.after hpost horder₁ hids within hends
    have hfine : ∀ x ∈ post, x.id ≠ d.failing := fun x hx => by
      rw [hfailing]
      exact Ne.symm (hpost x hx).id
    obtain ⟨hr, hstanding, hfree₃, hbegun₃⟩ := (ends_attemptRest post hfine hpairpost
      (horder₁.sublist (List.sublist_cons_self _ _)) hids hafter).eval hrun
    rw [within.begun, hbegun₀] at hbegun₃
    exact ⟨hr, hstanding, hfree₃, hbegun₃⟩

/-- The failing event is none of the others. -/
theorem Attemptable.apart_others (h : Attemptable d w (pre ++ e :: post)) :
    ∀ x ∈ pre ++ post, ApartFrom x e := by
  obtain ⟨-, hrest, hcross⟩ := List.pairwise_append.mp h.apart
  intro x hx
  rcases List.mem_append.mp hx with hx | hx
  · exact hcross x hx e List.mem_cons_self
  · exact ((List.pairwise_cons.mp hrest).1 x hx).symm

theorem Attemptable.others (h : Attemptable d w (pre ++ e :: post)) :
    Attemptable d w (pre ++ post) :=
  h.sublist ((List.Sublist.refl pre).append (List.sublist_cons_self e post))

/-- The outcomes of the events before are as without the failing event. -/
theorem PassEnds.outcomes_before {y₀ : PassState} {s : Standing} {new : Option Uuid}
    {r : Except Fault Unit} (h : PassEnds env p d w pre e post y₀ s new y r)
    (hbatch : Attemptable d w (pre ++ e :: post)) :
    ∀ x ∈ pre, (s.attemptAll env w d.readAt post).outcome env x =
      ((w.standing.attemptAll env w d.readAt pre).attemptAll env w d.readAt post).outcome
      env x := by
  obtain ⟨hpre, -, hcross⟩ := List.pairwise_append.mp hbatch.others.apart
  intro x hx
  have hsettled : (w.standing.attemptAll env w d.readAt pre).Settled env x :=
    settled_attemptAll hpre (fun x hx => (hbatch.rows x (List.mem_append_left _ hx)).2) hx
  have hapart := hbatch.apart_others x (List.mem_append_left post hx)
  rw [(h.beyond.settled hapart hsettled).attemptAll (hcross x hx),
    hsettled.attemptAll (hcross x hx)]
  exact h.beyond.outcome hapart hsettled

/-- The outcomes of the events after are if they are to credit no order that the failing event
    credited, and only then. -/
theorem PassEnds.outcomes_after {y₀ : PassState} {s : Standing} {new : Option Uuid}
    {r : Except Fault Unit} (h : PassEnds env p d w pre e post y₀ s new y r)
    (hbatch : Attemptable d w (pre ++ e :: post)) :
    (∀ x ∈ post, (s.attemptAll env w d.readAt post).outcome env x =
        ((w.standing.attemptAll env w d.readAt pre).attemptAll env w d.readAt post).outcome env x) ↔
      ∀ c, NewCredit env d y₀.world e c →
        ∀ x ∈ post, ¬ Wants env w (d.readAt x.id) c.orderId x := by
  obtain ⟨-, hpost, -⟩ := List.pairwise_append.mp hbatch.others.apart
  refine (outcomes_iff h.beyond
      (fun x hx => hbatch.apart_others x (List.mem_append_right pre hx)) hpost fun x hx =>
    (hbatch.rows x (List.mem_append_right pre (List.mem_cons_of_mem e hx))).2).trans ?_
  constructor
  · intro hnone c hc
    exact hnone c.orderId ((h.credit _).mpr ⟨c, hc, rfl⟩)
  · intro hnone id hid
    obtain ⟨c, hc, rfl⟩ := (h.credit id).mp hid
    exact hnone c hc

/-- A pass over the other events alone. -/
theorem ends_others (hkeys : OneEntry w.redis) (hbatch : Attemptable d w (pre ++ e :: post))
    (hforward : d.Forward w.clock ((pre ++ e :: post).map InboxEvent.id))
    (hfailing : d.failing = e.id)
    (hfree : ∀ x ∈ pre ++ post, ¬ AttemptWaits env p w (d.readAt x.id) x) :
    ∃ y, runPass env p d (.start w) (retryEvents env (pre ++ post)) = some (y, .ok ()) ∧
      y.world.standing =
        (w.standing.attemptAll env w d.readAt pre).attemptAll env w d.readAt post := by
  have hsub : List.Sublist (pre ++ post) (pre ++ e :: post) :=
    (List.Sublist.refl pre).append (List.sublist_cons_self e post)
  have hself : AsIn env p w (w.txOf p) w := .self hkeys
  have hrest := ends_attemptRest (y := .start w) (pre ++ post)
    (fun x hx => hfailing ▸ (hbatch.apart_others x hx).id)
    hbatch.others.apart hbatch.others.order hbatch.ids
    (hbatch.others.amid hself fun id hid n =>
      Nat.le_trans hforward.first (hforward.lasting id ((hsub.map InboxEvent.id).subset hid) 0 n))
  have hnone : (∃ x ∈ pre ++ post, AttemptWaits env p w (d.readAt x.id) x) → False :=
    fun ⟨x, hx, hw⟩ => hfree x hx hw
  obtain ⟨y, r, hrun, rfl, hstanding, -, -⟩ := (hrest.mono hnone fun _ _ h => h).exists
  rw [← retryEvents_eq] at hrun
  rw [attemptAll_append] at hstanding
  exact ⟨y, hrun, hstanding⟩

/-- A pass that comes to its end with the failing event, which it attempted in `y₀`, comes to the
    same for all other events as without it exactly if the event was processed or its failure
    booked, and no later event is to credit an order that it credited. -/
theorem retry_unhindered {y₀ : PassState} (hkeys : OneEntry w.redis)
    (hbatch : dueInbox env d w = pre ++ e :: post)
    (hforward : d.Forward w.clock ((pre ++ e :: post).map InboxEvent.id)) (hids : d.NewIds w)
    (hfailing : d.failing = e.id)
    (hended : (runPass env p d (.start w) (retryInbox env)).isSome = true)
    (hbefore : runPass env p d (.start w) (retryBefore env pre) = some (y₀, .ok ())) :
    Unhindered (pre ++ post) InboxEvent.id (fun w x => w.standing.outcome env x)
      (runPass env p d (.start w) (retryInbox env))
      (runPass env p d (.start w) (retryEvents env (pre ++ post))) ↔
        (d.Processes env y₀.world e ∨ d.Books env e) ∧
          ∀ c, NewCredit env d y₀.world e c →
            ∀ x ∈ post, ¬ Wants env w (d.readAt x.id) c.orderId x := by
  have hall : Attemptable d w (pre ++ e :: post) :=
    ⟨hbatch ▸ dueInbox_apart, fun x hx => dueInbox_rows (hbatch ▸ hx), hforward.toInOrder, hids⟩
  have hself : AsIn env p w (w.txOf p) w := .self hkeys
  -- the pass with the failing event
  obtain ⟨y₂, hselected, hwith, hbefores⟩ := eval_selection (y := .start w) hforward.selection
    ⟨hself, rfl, rfl, hforward.first⟩
  have hlater : d.Ahead ((pre ++ e :: post).map InboxEvent.id) y₂ := fun id hid n =>
    Nat.le_trans hselected.clock (hforward.lasting id hid 2 n)
  obtain ⟨⟨y, r⟩, hrun⟩ := Option.isSome_iff_exists.mp hended
  obtain ⟨s, new, hends⟩ :=
    passEnds hfailing hall (hall.amid hselected.toAsIn hlater) hselected.begun
    ((hbefores pre).symm.trans hbefore) (hbatch ▸ hwith.symm.trans hrun)
  by_cases hwent : d.Processes env y₀.world e ∨ d.Books env e
  · obtain ⟨rfl, hstanding, hfree, hbegun⟩ := hends.went_on hwent
    -- the pass without it
    obtain ⟨y', hrun', hstanding'⟩ := ends_others hkeys hall hforward hfailing fun x hx =>
      (List.mem_append.mp hx).elim (hends.before x) (hfree x)
    have hmem : ∀ x ∈ pre ++ post, x.id ∈ y.begun := by
      intro x hx
      rw [hbegun, List.mem_append, List.mem_cons, List.mem_reverse, List.mem_reverse]
      rcases List.mem_append.mp hx with hx | hx
      · exact Or.inr (Or.inr (List.mem_map_of_mem hx))
      · exact Or.inl (List.mem_map_of_mem hx)
    rw [and_iff_right hwent, ← hends.outcomes_after hall]
    constructor
    · rintro ⟨z, z', hz, hz', hsame⟩ x hx
      cases hrun.symm.trans hz
      cases hrun'.symm.trans hz'
      rw [← hstanding, ← hstanding']
      exact (hsame x (List.mem_append_right pre hx)).2
    · intro hsame
      refine ⟨y, y', hrun, hrun', fun x hx => ⟨hmem x hx, ?_⟩⟩
      dsimp only
      rw [hstanding, hstanding']
      exact (List.mem_append.mp hx).elim (hends.outcomes_before hall x) (hsame x)
  · refine ⟨?_, fun h => absurd h.1 hwent⟩
    rintro ⟨z, z', hz, -⟩
    cases hrun.symm.trans hz
    exact absurd rfl (hends.stopped hwent)

end

/-- In every reachable state, and whatever becomes of the calls made for one event of a batch: a
    pass of the publisher comes to the same for the other events as without it exactly if it is the
    last of them, is delivered or is rescheduled, and a pass of the retry loop that comes to its end
    exactly if the event is processed or its failure booked, and leaves no credit that a later event
    is to make. -/
theorem failing_event_isolated (env : Env) (ls : List Step) (s : State)
    (hrun : (system env).run initial ls = some s) (p : Pid) :
    (∀ d pre e post, dueOutbox env d s.world = pre ++ e :: post →
      d.Forward s.world.clock ((pre ++ e :: post).map OutboxEvent.id) → d.failing = e.id →
      (Unhindered (pre ++ post) OutboxEvent.id (fun w x => w.outboxOutcome x.id)
          (runPass env p d (.start s.world) (publishRound env))
          (runPass env p d (.start s.world) (publishEvents env (pre ++ post))) ↔
        post = [] ∨ d.Delivers e.id ∨ d.Reschedules e.id)) ∧
    ∀ d pre e post y₀, dueInbox env d s.world = pre ++ e :: post →
      d.Forward s.world.clock ((pre ++ e :: post).map InboxEvent.id) →
      d.NewIds s.world → d.failing = e.id →
      (runPass env p d (.start s.world) (retryInbox env)).isSome = true →
      runPass env p d (.start s.world) (retryBefore env pre) = some (y₀, .ok ()) →
      (Unhindered (pre ++ post) InboxEvent.id (fun w x => w.standing.outcome env x)
          (runPass env p d (.start s.world) (retryInbox env))
          (runPass env p d (.start s.world) (retryEvents env (pre ++ post))) ↔
        (d.Processes env y₀.world e ∨ d.Books env e) ∧
          ∀ c, NewCredit env d y₀.world e c →
            ∀ x ∈ post, ¬ Wants env s.world (d.readAt x.id) c.orderId x) := by
  have hkeys := oneEntry_run hrun
  constructor
  · intro d pre e post hbatch hforward hfailing
    exact publish_unhindered hkeys hbatch hforward hfailing
  · intro d pre e post y₀ hbatch hforward hids hfailing hended hbefore
    exact retry_unhindered hkeys hbatch hforward hids hfailing hended hbefore

/-! ## Two events in each batch -/

open Platform in
/-- An order is created by `p` and confirmed by `q`. -/
def placed (p q : Pid) : List Step :=
  .spawn p
    (.create none { userId := "user-1", merchantId := "shop-1",
                    amount := Platform.number 100, currency := "USD" })
    :: serve p :: .spawn q (.confirm none (uuid p).text) :: serves q 5

open Platform in
/-- `p` is handed an event and stores it, but cannot open its transaction. -/
def heldBack (p : Pid) (offset : Nat) : List Step :=
  .spawn p (.consume offset) :: serves p 2 ++ [fail p, serve p]

open Platform in
/-- The events of two orders wait in the inbox, those of two others in the outbox. -/
def backlog : List Step :=
  placed 0 1 ++ placed 2 3 ++ .spawn 4 .publishOnce :: serves 4 8 ++ heldBack 5 0 ++ heldBack 6 1 ++
    placed 7 8 ++ placed 9 10

open Platform in
/-- The calls made for the event have these fates. -/
def failingAt (id : Uuid) (fate : Site → Fate) : Setting where
  failing := id
  fate := fate
  newId event _ := event.getD (uuid 0)
  time _ _ := 0

def allFail (_ : Site) : Fate := .fail "connection lost"

/-- The event cannot be sent or its transaction not be opened, and the `catch` block goes
    through. -/
def handledFailure : Site → Fate
  | .send => .fail "connection lost"
  | .begin => .fail "connection lost"
  | _ => .ok

section

variable {id : Uuid} {fate : Site → Fate} {w : World}

theorem failingAt_forward (hclock : w.clock = 0) (events : List Uuid) :
    (failingAt id fate).Forward w.clock events := by
  rw [hclock]
  exact ⟨⟨fun _ _ _ _ _ => Nat.le_refl 0, List.pairwise_of_forall fun _ _ _ _ => Nat.le_refl 0⟩,
    Nat.le_refl 0,
    fun _ _ _ => Nat.le_refl 0, fun _ _ _ _ => Nat.le_refl 0⟩

theorem failingAt_newIds (hledger : w.ledger.rows = []) : (failingAt id fate).NewIds w := by
  refine ⟨fun event n => ?_, fun a b _ _ h => h⟩
  unfold Table.any
  rw [hledger]
  rfl

theorem failingAt_at (s : Site) : (failingAt id fate).at id s = fate s := if_pos rfl

end

theorem map_eq_two {α β : Type} {f : α → β} {l : List α} {a b : β} (h : l.map f = [a, b]) :
    ∃ x y, l = [x, y] ∧ f x = a ∧ f y = b := by
  obtain ⟨x, l₁, rfl, hx, h₁⟩ := List.map_eq_cons_iff.mp h
  obtain ⟨y, l₂, rfl, hy, h₂⟩ := List.map_eq_cons_iff.mp h₁
  obtain rfl := List.map_eq_nil_iff.mp h₂
  exact ⟨x, y, rfl, hx, hy⟩

open Platform in
theorem backlog_state :
    ((system (platform id)).run initial backlog).map (fun s =>
      ((dueOutbox (platform id) (failingAt (uuid 8) allFail) s.world).map OutboxEvent.id,
        (dueInbox (platform id) (failingAt (uuid 5) allFail) s.world).map InboxEvent.id,
        (runPass (platform id) 11 (failingAt (uuid 8) allFail)
          (.start s.world) (publishRound (platform id))).map
          fun z => z.1.begun,
        (runPass (platform id) 11 (failingAt (uuid 5) allFail)
          (.start s.world) (retryInbox (platform id))).any
          fun z => z.2.isOk,
        s.world.clock == 0 && s.world.ledger.rows.isEmpty &&
        (runPass (platform id) 11 (failingAt (uuid 5) handledFailure) (.start s.world)
          (retryInbox (platform id))).isSome &&
        (runPass (platform id) 11 (failingAt (uuid 5) handledFailure) (.start s.world)
          (retryBefore (platform id) [])).any fun z => z.2.isOk)) =
      some ([uuid 8, uuid 10], [uuid 5, uuid 6], some [uuid 8], false, true) := by
  decide +kernel

open Platform in
/-- The calls of the `catch` block fail too: the pass of the publisher and the retry loop end before
    the second event. -/
theorem failing_event_stops :
    ∃ s, (system (platform id)).run initial backlog = some s ∧
      (∃ e x, dueOutbox (platform id) (failingAt e.id allFail) s.world = [e, x] ∧
        ¬ Unhindered [x] OutboxEvent.id (fun w x => w.outboxOutcome x.id)
          (runPass (platform id) 11 (failingAt e.id allFail)
            (.start s.world) (publishRound (platform id)))
          (runPass (platform id) 11 (failingAt e.id allFail)
            (.start s.world) (publishEvents (platform id) [x]))) ∧
      ∃ e x, dueInbox (platform id) (failingAt e.id allFail) s.world = [e, x] ∧
        ¬ Unhindered [x] InboxEvent.id (fun w x => w.standing.outcome (platform id) x)
          (runPass (platform id) 11 (failingAt e.id allFail)
            (.start s.world) (retryInbox (platform id)))
          (runPass (platform id) 11 (failingAt e.id allFail)
            (.start s.world) (retryEvents (platform id) [x])) := by
  obtain ⟨s, hs, heq⟩ := Option.map_eq_some_iff.mp backlog_state
  simp only [Prod.mk.injEq] at heq
  obtain ⟨hout, hin, hpublish, hretry, -⟩ := heq
  obtain ⟨e, x, hbatch, he, hx⟩ := map_eq_two hout
  obtain ⟨e', x', hbatch', he', -⟩ := map_eq_two hin
  refine ⟨s, hs, ⟨e, x, he ▸ hbatch, ?_⟩, e', x', he' ▸ hbatch', ?_⟩
  · rintro ⟨y, y', hy, -, hothers⟩
    rw [he] at hy
    rw [hy] at hpublish
    have hbegun : x.id ∈ y.begun := (hothers x List.mem_cons_self).1
    have honly : y.begun = [uuid 8] := Option.some_inj.mp hpublish
    rw [honly, hx] at hbegun
    revert hbegun
    decide
  · rintro ⟨y, y', hy, -⟩
    rw [he'] at hy
    rw [hy] at hretry
    cases hretry

open Platform in
/-- The failure is handled, and the second event is not hindered. -/
theorem failing_event_isolated_backlog :
    ∃ s, (system (platform id)).run initial backlog = some s ∧
      (∃ e x, dueOutbox (platform id) (failingAt e.id handledFailure) s.world = [e, x] ∧
        Unhindered [x] OutboxEvent.id (fun w x => w.outboxOutcome x.id)
          (runPass (platform id) 11 (failingAt e.id handledFailure)
            (.start s.world) (publishRound (platform id)))
          (runPass (platform id) 11 (failingAt e.id handledFailure)
            (.start s.world) (publishEvents (platform id) [x]))) ∧
      ∃ e x, dueInbox (platform id) (failingAt e.id handledFailure) s.world = [e, x] ∧
        Unhindered [x] InboxEvent.id (fun w x => w.standing.outcome (platform id) x)
          (runPass (platform id) 11 (failingAt e.id handledFailure)
            (.start s.world) (retryInbox (platform id)))
          (runPass (platform id) 11 (failingAt e.id handledFailure)
            (.start s.world) (retryEvents (platform id) [x])) := by
  obtain ⟨s, hs, heq⟩ := Option.map_eq_some_iff.mp backlog_state
  simp only [Prod.mk.injEq, Bool.and_eq_true, beq_iff_eq, List.isEmpty_iff] at heq
  obtain ⟨hout, hin, -, -, ⟨⟨hclock, hledger⟩, hended⟩, hbefore⟩ := heq
  obtain ⟨e, x, hbatch, he, -⟩ := map_eq_two hout
  obtain ⟨e', x', hbatch', he', -⟩ := map_eq_two hin
  rw [← he] at hbatch
  rw [← he'] at hbatch' hended hbefore
  obtain ⟨⟨y₀, r⟩, hbefore, hr⟩ := (Option.any_eq_true _ _).mp hbefore
  obtain rfl : r = .ok () := by
    cases r with
    | ok u => rfl
    | error f => cases hr
  have hids : ∀ fate : Site → Fate, (failingAt e'.id fate).NewIds s.world :=
    fun _ => failingAt_newIds hledger
  obtain ⟨hpublish, hretry⟩ := failing_event_isolated (platform id) backlog s hs 11
  refine ⟨s, hs, ⟨e, x, hbatch, ?_⟩, e', x', hbatch', ?_⟩
  · refine (hpublish (failingAt e.id handledFailure)
      [] e [x] hbatch (failingAt_forward hclock _) rfl).mpr (Or.inr (Or.inr ⟨?_, ?_⟩))
    · exact failingAt_at _
    · exact failingAt_at _
  · refine (hretry (failingAt e'.id handledFailure)
      [] e' [x'] y₀ hbatch' (failingAt_forward hclock _) (hids _) rfl hended hbefore).mpr
      ⟨Or.inr ⟨failingAt_at _, failingAt_at _, fun _ => failingAt_at _⟩, fun c hc => ?_⟩
    have hbegin := hc.calls.begin
    rw [failingAt_at] at hbegin
    cases hbegin

end CashbackLedger
