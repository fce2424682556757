import CashbackLedger.Run.Writes
import CashbackLedger.Safety.Acknowledged
import CashbackLedger.Safety.Lone
import CashbackLedger.Safety.Stages

/-
  Nothing that happens costs an order its cashback.

  Whatever state has been reached, by crashes, lost replies, parked events or entries of the cache
  that stand for old rules: from there the worker can still credit every confirmed order
  (`recoverable`). The processes may die where they stand. Then runs of the replay CLI make the row
  of the order's event PENDING, be it FAILED or SENT, passes of the publisher send it, and, when the
  entries of the cache have expired, the delivery of the new message credits the order under the
  rule of the database. No message comes a second time once its offset is committed.
-/

namespace CashbackLedger

open Lib History

/-- The publisher, a delivery, the replay CLI. -/
def Task.repairs : Task → Bool
  | .publishOnce => true
  | .consume _ => true
  | .replay _ => true
  | _ => false

/-- A step that repairs: such a task is run and no call fails, a process dies, or time passes. -/
def repairs : Step → Bool
  | .spawn _ t => t.repairs
  | .step _ ch => match ch.fate with | .ok => true | _ => false
  | .crash _ => true
  | .move (.tick _) => true
  | .move (.produce _) => false
  | .move (.rewind _) => false

/-- A step that repairs; what is delivered is a message whose offset is not committed. -/
structure Repairs (s : State) (lb : Step) : Prop where
  repairs : repairs lb = true
  new : ∀ p offset, lb = .spawn p (.consume offset) → offset ∉ s.world.broker.committed

/-- A step that repairs, and gives a row it creates this id. -/
def RepairsWith (u : Uuid) (s : State) (lb : Step) : Prop :=
  Repairs s lb ∧ ∀ p ch, lb = .step p ch → ch.newId = u

/-- The payload of the event names the order. -/
def Names (e : OutboxEvent) (o : Order) : Prop := e.payload.field "orderId" = some (.str o.id.text)

/-- The event names the order, waits in the outbox and is due. -/
structure Sendable (w : World) (e : OutboxEvent) (o : Order) : Prop where
  names : Names e o
  pending : e.status = .PENDING
  due : e.availableAt ≤ w.clock

/-- A message of the event is on the topic, and its offset is not committed. -/
def Delivering (env : Env) (w : World) (e : OutboxEvent) : Prop :=
  ∃ offset, w.broker.events[offset]? = some (outboxMessage env e) ∧ offset ∉ w.broker.committed

/-- While the outbox is repaired: nothing runs, and only the outbox is changed. -/
structure Mending (env : Env) (w : World) (s : State) : Prop where
  reach : Reach (system env) Validated (· = initial) s
  still : s.Still
  only : OutboxOnly w s.world

/-- The id of the row that is written. -/
def TxWrite.rowId : TxWrite → Option Uuid
  | .outbox row => some row.id
  | .ledger row => some row.id
  | .orderStatus _ _ => none

/-- What steps that repair have made of the world `w`: the rules are the same, and rows that were
    added have this id. -/
structure Repaired (u : Uuid) (w : World) (s : State) : Prop where
  tasks : ∀ p t l x, s.proc p = some ⟨t, l, x, true⟩ → t.repairs = true
  rules : s.world.rules = w.rules
  unused : ∀ i, i ≠ u → w.Unused i → s.world.Unused i
  writes : ∀ p x i, s.world.Writes p x → x.rowId = some i → i = u

section

variable {env : Env} {s s' : State} {w w' : World} {u : Uuid} {o : Order} {t : Task}

theorem validated_of_repairs {lb : Step} (h : repairs lb = true) : validated lb = true := by
  cases lb with
  | spawn p t => cases t <;> first | rfl | cases h
  | _ => rfl

theorem reach_repairs (h : Reach (system env) Validated (· = initial) s)
    (hrun : Reach (system env) (RepairsWith u) (· = s) s') :
    Reach (system env) Validated (· = initial) s' :=
  h.trans (hrun.restrict fun _ _ _ hmet => validated_of_repairs hmet.1.repairs)

theorem txs_nil (h : ∀ p, w.txOf p = none) : w.txs = [] := by
  cases htxs : w.txs with
  | nil => rfl
  | cons x l =>
    obtain ⟨p, tx⟩ := x
    have hp := h p
    rw [World.txOf, htxs, List.lookup_cons_self] at hp
    cases hp

/-- Where nothing runs no transaction is open. -/
theorem txOf_of_still (h : Reach (system env) Validated (· = initial) s) (hstill : s.Still)
    (p : Pid) : s.world.txOf p = none := by
  rw [(sound fresh_of_initial h).txs p]
  cases hp : s.proc p with
  | none => rfl
  | some pr =>
    obtain ⟨t, l, x, alive⟩ := pr
    cases alive with
    | false => rfl
    | true => exact absurd hp (hstill.dead p t l x)

theorem free_of_still (h : Reach (system env) Validated (· = initial) s) (hstill : s.Still)
    (p : Pid) (touches : TxWrite → Bool) : s.world.lockedByOther p touches = false := by
  rw [World.lockedByOther, txs_nil (txOf_of_still h hstill)]
  rfl

/-- A task of the worker on its own. -/
theorem repair_solo {Q : World → Prop} (ht : t.repairs = true)
    (hnew : ∀ offset, t = .consume offset → offset ∉ s.world.broker.committed) (hstill : s.Still)
    (hends : ∀ p, Ends ((system env).serve p (succeeds u)) False (fun w _ => Q (kill p w)) s.world
      (t.program env).run) :
    ∃ s', Reach (system env) (RepairsWith u) (· = s) s' ∧ s'.Still ∧ Q s'.world :=
  Reach.solo
    (fun _ => ⟨⟨ht, fun _ offset heq => hnew offset (Label.spawn.inj heq).2⟩, nofun⟩)
    (fun _ _ => ⟨⟨rfl, nofun⟩, fun _ _ heq => by cases heq; rfl⟩)
    (fun _ _ => ⟨⟨rfl, nofun⟩, nofun⟩) hstill fun p _ => hends p

/-- Time passes. -/
theorem repair_tick (u : Uuid) (s : State) (ms : Nat) : Reach (system env) (RepairsWith u) (· = s)
    { s with world := { s.world with clock := s.world.clock + ms } } :=
  .next (.start rfl)
    ⟨⟨rfl, fun _ _ heq => by cases heq⟩, fun _ _ heq => by cases heq⟩
    (show (system env).step s (.move (.tick ms)) = _ from rfl)

theorem Mending.next (h : Mending env w s) (hrun : Reach (system env) (RepairsWith u) (· = s) s')
    (hstill : s'.Still) (honly : OutboxOnly s.world s'.world) : Mending env w s' :=
  ⟨reach_repairs h.reach hrun, hstill, h.only.trans honly⟩

theorem Mending.tick (h : Mending env w s) (u : Uuid) (ms : Nat) :
    Mending env w { s with world := { s.world with clock := s.world.clock + ms } } :=
  h.next (repair_tick u s ms) ⟨h.still.dead, h.still.below⟩ ⟨rfl, rfl, rfl, rfl, rfl⟩

/-- All processes die. -/
theorem repair_still (u : Uuid) (h : Reach (system env) Validated (· = initial) s) :
    ∃ s', Reach (system env) (RepairsWith u) (· = s) s' ∧ Mending env s.world s' := by
  have hbelow : ∃ n, s.Below n := h.finite fun s₀ heq => ⟨0, by rw [heq]; exact initial_below 0⟩
  obtain ⟨s', hrun, hstill, hdata⟩ : ∃ s', Reach (system env) (RepairsWith u) (· = s) s' ∧
      s'.Still ∧ SameData s.world s'.world :=
    Reach.still (fun _ _ => ⟨⟨rfl, nofun⟩, nofun⟩) SameData.refl
      (fun _ _ p hK => hK.setTx p none) hbelow
  refine ⟨s', hrun, reach_repairs h hrun, hstill, ?_⟩
  rw [hdata]
  exact ⟨rfl, rfl, rfl, rfl, rfl⟩

/-- A selection with a row to take is not empty. -/
theorem orderByCreatedAt_ne_nil {α : Type} {createdAt : α → Time} {take : Int} {rows : List α}
    {a : α} (htake : 0 < take) (ha : a ∈ rows) : orderByCreatedAt createdAt take rows ≠ [] := by
  intro h
  unfold orderByCreatedAt at h
  dsimp only at h
  rw [if_pos (Int.le_of_lt htake)] at h
  have hlen := congrArg List.length h
  have hpos : 0 < rows.length := List.length_pos_of_mem ha
  rw [List.length_take, List.length_insertionSort, List.length_nil] at hlen
  omega

/-! ## The outbox is repaired -/

/-- The replay CLI makes the event PENDING that names the order and has this status. -/
theorem repair_requeued (u : Uuid) {status : OutboxStatus} (hpending : .PENDING ≠ status)
    (h : Mending env w s) (he : ∃ e ∈ s.world.outbox, Names e o ∧ e.status = status) :
    ∃ s', Reach (system env) (RepairsWith u) (· = s) s' ∧ Mending env w s' ∧
      ∃ e ∈ s'.world.outbox, Names e o ∧ e.status = .PENDING := by
  have hprogress : ∀ s,
      (Mending env w s ∧ ∃ e ∈ s.world.outbox, Names e o ∧
        (e.status = .PENDING ∨ e.status = status)) →
      (∃ e ∈ s.world.outbox, Names e o ∧ e.status = .PENDING) ∨
      ∃ s', Reach (system env) (RepairsWith u) (· = s) s' ∧
        (Mending env w s' ∧ ∃ e ∈ s'.world.outbox, Names e o ∧
          (e.status = .PENDING ∨ e.status = status)) ∧
        s'.world.rowsWith status < s.world.rowsWith status := by
    rintro s ⟨h, e, he, hnames, hdone | hstatus⟩
    · exact Or.inl ⟨e, he, hnames, hdone⟩
    · refine Or.inr ?_
      obtain ⟨s', hrun, hstill, hbatch⟩ :=
        repair_solo (t := .replay (replayArgs status)) (u := u) rfl nofun h.still
        fun p => ends_replay hpending
      have hne : s.world.selected status ≠ [] := orderByCreatedAt_ne_nil (by decide)
        (List.mem_filter.mpr ⟨he, by simp [OutboxCall.selects, hstatus]⟩)
      refine ⟨s', hrun, ⟨h.next hrun hstill hbatch.toOutboxOnly, ?_⟩, hbatch.fewer hne⟩
      by_cases hin : e ∈ s.world.selected status
      · exact ⟨_, hbatch.requeued e hin, hnames, Or.inl rfl⟩
      · exact ⟨e, hbatch.kept e he hin, hnames, Or.inr hstatus⟩
  obtain ⟨e, he, hnames, hstatus⟩ := he
  obtain ⟨s', hrun, ⟨hmending, -⟩, hdone⟩ :=
    Reach.drain (fun s : State => s.world.rowsWith status) hprogress
      ⟨h, e, he, hnames, Or.inr hstatus⟩
  exact ⟨s', hrun, hmending, hdone⟩

/-- The event that names the order is made PENDING, if it is not. -/
theorem repair_event (u : Uuid) (h : Mending env w s) (he : ∃ e ∈ s.world.outbox, Names e o) :
    ∃ s', Reach (system env) (RepairsWith u) (· = s) s' ∧ Mending env w s' ∧
      ∃ e ∈ s'.world.outbox, Names e o ∧ e.status = .PENDING := by
  obtain ⟨e, he, hnames⟩ := he
  cases hstatus : e.status with
  | PENDING => exact ⟨s, .start rfl, h, e, he, hnames, hstatus⟩
  | SENT => exact repair_requeued u (by decide) h ⟨e, he, hnames, hstatus⟩
  | FAILED => exact repair_requeued u (by decide) h ⟨e, he, hnames, hstatus⟩

/-- The offset of a message that is new on the topic is not committed. -/
theorem BatchSent.delivering (h : BatchSent env w w')
    (hbelow : ∀ offset ∈ w.broker.committed, offset < w.broker.events.length) {e : OutboxEvent}
    (he : e ∈ w.due env) : Delivering env w' e := by
  obtain ⟨n, hn⟩ := List.mem_iff_getElem?.mp (List.mem_map_of_mem (f := outboxMessage env) he)
  refine ⟨w.broker.events.length + n, ?_, ?_⟩
  · rw [h.events, List.getElem?_append_right (Nat.le_add_right _ _), Nat.add_sub_cancel_left]
    exact hn
  · intro hmem
    exact absurd (hbelow _ (h.committed ▸ hmem)) (Nat.not_lt.mpr (Nat.le_add_right _ _))

/-- The publisher sends the event that names the order. -/
theorem repair_pending (hsize : 0 < env.batchSize) (hw : w.Unused u) (h : Mending env w s)
    (he : ∃ e ∈ s.world.outbox, Sendable s.world e o) :
    ∃ s', Reach (system env) (RepairsWith u) (· = s) s' ∧ Mending env w s' ∧
      ∃ e ∈ s'.world.outbox, Names e o ∧ Delivering env s'.world e := by
  have hprogress : ∀ s, (Mending env w s ∧ ∃ e ∈ s.world.outbox,
      Sendable s.world e o ∨ Names e o ∧ Delivering env s.world e) →
      (∃ e ∈ s.world.outbox, Names e o ∧ Delivering env s.world e) ∨
      ∃ s', Reach (system env) (RepairsWith u) (· = s) s' ∧
        (Mending env w s' ∧ ∃ e ∈ s'.world.outbox,
          Sendable s'.world e o ∨ Names e o ∧ Delivering env s'.world e) ∧
        s'.world.rowsWith .PENDING < s.world.rowsWith .PENDING := by
    rintro s ⟨h, e, he, ⟨hnames, hstatus, hdue⟩ | hdone⟩
    · refine Or.inr ?_
      have hreach : Reach (system env) anyStep (· = initial) s :=
        h.reach.restrict fun _ _ _ _ => trivial
      obtain ⟨ls, hls⟩ := hreach.exists_run
      obtain ⟨s', hrun, hstill, hbatch⟩ := repair_solo (t := .publishOnce) rfl nofun h.still
        fun p => ends_publish (oneEntry_run hls) (h.only.unused hw)
      have hne : s.world.due env ≠ [] := orderByCreatedAt_ne_nil (Int.natCast_pos.mpr hsize)
        (List.mem_filter.mpr ⟨he, by simp [OutboxCall.selects, hstatus, hdue]⟩)
      refine ⟨s', hrun, ⟨h.next hrun hstill hbatch.toOutboxOnly, ?_⟩, hbatch.fewer hne⟩
      by_cases hin : e ∈ s.world.due env
      · have hdelivering := hbatch.delivering (committedBelow h.reach) hin
        exact ⟨_, hbatch.delivered e hin, Or.inr ⟨hnames, hdelivering⟩⟩
      · exact ⟨e, hbatch.kept e he hin, Or.inl ⟨hnames, hstatus, hbatch.clock ▸ hdue⟩⟩
    · exact Or.inl ⟨e, he, hdone⟩
  obtain ⟨e, he, hsendable⟩ := he
  obtain ⟨s', hrun, ⟨hmending, -⟩, hdone⟩ :=
    Reach.drain (fun s : State => s.world.rowsWith .PENDING) hprogress ⟨h, e, he, Or.inl hsendable⟩
  exact ⟨s', hrun, hmending, hdone⟩

/-- Every entry expires. -/
theorem exists_expired (store : List RedisEntry) : ∃ t : Time, ∀ e ∈ store, e.expiresAt ≤ t := by
  induction store with
  | nil => exact ⟨0, fun e he => absurd he List.not_mem_nil⟩
  | cons x store ih =>
    obtain ⟨t, ht⟩ := ih
    refine ⟨max x.expiresAt t, fun e he => ?_⟩
    rcases List.mem_cons.mp he with rfl | he
    · exact Nat.le_max_left _ _
    · exact Nat.le_trans (ht e he) (Nat.le_max_right _ _)

/-! ## What is left as it was -/

theorem Wrote.id {p : Pid} {ch : Choice} {c : Call} {r : Reply c} {x : TxWrite} {i : Uuid}
    (hx : Wrote c r x) (h : exec env p c ch w = some (w', r)) (hi : x.rowId = some i) :
    i = ch.newId := by
  cases x with
  | orderStatus id status => cases hi
  | outbox e =>
    cases hi
    exact (hx.outbox h).1
  | ledger e =>
    cases hi
    exact hx.ledger h

/-- A call of a task that repairs. -/
theorem Repaired.effect {p : Pid} {c : Call} {w₁ : World} {tx : Option Tx} {l : History}
    (hR : Repaired u w s) (ht : t.repairs = true) (hc : t.Calls env l c)
    (heff : Effect p u s.world c w₁) :
    w₁.rules = w.rules ∧ ∀ i, i ≠ u → w.Unused i → (w₁.setTx p tx).Unused i := by
  refine ⟨?_, fun i hi hw => ⟨fun e he heq => ?_, fun e he heq => ?_, fun e he heq => ?_⟩⟩
  · rcases heff.rules_origin with heq | ⟨c', x, rfl, hrun⟩
    · exact heq.trans hR.rules
    · cases c' with
      | findUnique m =>
        have heq : s.world.rules = w₁.rules := congrArg Prod.fst (Option.some_inj.mp hrun)
        exact heq ▸ hR.rules
      | upsert m rate cap =>
        obtain ⟨m, dto, rfl⟩ := hc.upsertRule
        cases ht
  · rcases heff.ledger_origin he with he | ⟨-, tx, htx, -, hwrites⟩
    · exact (hR.unused i hi hw).ledger e he heq
    · exact hi
        (heq.symm.trans
          (hR.writes p (.ledger e) e.id ⟨tx, htx, by rw [hwrites]; exact List.mem_cons_self⟩ rfl))
  · rcases heff.inbox_origin he with ⟨e₀, he₀, hcore, -⟩ | ⟨sid, type, payload, -, rfl, -⟩
    · exact (hR.unused i hi hw).inbox e₀ he₀ ((InboxEvent.id_of_core hcore).symm.trans heq)
    · exact hi heq.symm
  · rcases heff.outbox_origin he with ⟨e₀, he₀, hcore, -⟩ | ⟨-, tx, id, htx, -, hwrites, -⟩
    · exact (hR.unused i hi hw).outbox e₀ he₀ ((OutboxEvent.id_of_core hcore).symm.trans heq)
    · have hmem : TxWrite.outbox e ∈ tx.writes := by
        rw [hwrites]
        exact List.mem_cons_of_mem _ List.mem_cons_self
      exact hi (heq.symm.trans (hR.writes p (.outbox e) e.id ⟨tx, htx, hmem⟩ rfl))

/-- A run of steps that repair, from a state in which nothing runs. -/
theorem repaired (h : Reach (system env) Validated (· = initial) s) (hstill : s.Still)
    (hrun : Reach (system env) (RepairsWith u) (· = s) s') : Repaired u s.world s' := by
  induction hrun with
  | start heq =>
    subst heq
    refine ⟨fun p t l x hp => absurd hp (hstill.dead p t l x), rfl, fun i _ hi => hi, ?_⟩
    rintro p x i ⟨tx, htx, -⟩ -
    rw [txOf_of_still h hstill p] at htx
    cases htx
  | @next s₁ s₂ lb hr hmet hstep hR =>
    have hreach := reach_repairs h hr
    cases Machine.step_cases hstep with
    | @spawn p t free =>
      refine ⟨fun q t' l x hq => ?_, hR.rules, hR.unused, hR.writes⟩
      rw [Pool.put_proc] at hq
      split at hq
      · cases hq
        exact hmet.1.repairs
      · exact hR.tasks q t' l x hq
    | @crash p t l x alive =>
      refine ⟨fun q t' l' x' hq => ?_, hR.rules, fun i hi hw => ?_, ?_⟩
      · rw [Pool.put_proc] at hq
        split at hq
        · cases hq
        · exact hR.tasks q t' l' x' hq
      · have hunused := hR.unused i hi hw
        exact ⟨hunused.ledger, hunused.inbox, hunused.outbox⟩
      · exact fun q y i hy hi => hR.writes q y i hy.of_killed hi
    | @move e w₂ moved =>
      refine ⟨hR.tasks, ?_, fun i hi hw => ?_, ?_⟩
      · cases e <;> cases moved <;> exact hR.rules
      · have hunused := hR.unused i hi hw
        cases e <;> cases moved <;> exact ⟨hunused.ledger, hunused.inbox, hunused.outbox⟩
      · rintro q y i ⟨tx, htx, hy⟩ hi
        exact hR.writes q y i ⟨tx, (outside_txOf moved q).symm.trans htx, hy⟩ hi
    | @call p ch t l c k w₂ r at_call served =>
      have hc := (hreach.sat (task_sat env) initial_idle at_call).1
      have hshaped := (sound fresh_of_initial hreach).shaped at_call hc
      have hid : ch.newId = u := hmet.2 p ch rfl
      have ht := hR.tasks p t l _ at_call
      obtain ⟨w₁, heff, heq⟩ := exec_effect hshaped served
      rw [hid] at heff
      obtain ⟨hrules, hunused⟩ := hR.effect ht hc heff
      refine ⟨fun q t' l' x' hq => ?_, ?_, fun i hi hw => ?_, fun q y i hy hi => ?_⟩
      · rw [Pool.put_proc] at hq
        split at hq
        · cases hq
          exact ht
        · exact hR.tasks q t' l' x' hq
      · rw [Pool.put_world, heq]
        exact hrules
      · rw [Pool.put_world, heq]
        exact hunused i hi hw
      · rcases writes_exec hshaped served hy with hold | ⟨-, hnew⟩
        · exact hR.writes q y i hold hi
        · exact (hnew.id served hi).trans hid

/-! ## The orders are credited -/

/-- What one repair comes to: the order is credited, and nothing else is new in the ledger. -/
structure Repair (u : Uuid) (w w' : World) (o : Order) (e : LedgerEntry) : Prop where
  entry : e ∈ w'.ledger
  order : e.orderId = o.id
  credit : e.type = .CREDIT
  due : e ∈ w.ledger ∨ creditOf w.rules o = some e.data
  only : ∀ e' ∈ w'.ledger, e' ∈ w.ledger ∨ e' = e
  rules : w'.rules = w.rules
  unused : ∀ i, i ≠ u → w.Unused i → w'.Unused i

theorem repair_order (henv : DecimalText env) (hsize : 0 < env.batchSize)
    (h : Reach (system env) Validated (· = initial) s) (hu : s.world.Unused u)
    (ho : o ∈ s.world.orders) (hstatus : o.status = .CONFIRMED) :
    ∃ s', Reach (system env) (RepairsWith u) (· = s) s' ∧ ∃ e, Repair u s.world s'.world o e := by
  by_cases hcredit : s.world.HasCredit o.id
  · obtain ⟨e, he, hid, htype⟩ := hcredit
    exact ⟨s, .start rfl, e, he, hid, htype, Or.inl he,
      fun _ he' => Or.inl he', rfl, fun _ _ hi => hi⟩
  -- every process dies
  obtain ⟨s₁, hrun₁, h₁⟩ := repair_still u h
  have hconf := confirmations h₁.reach
  obtain ⟨e₁, he₁, hof⟩ := hconf.event o (h₁.only.orders ▸ ho) hstatus
  have hnames := (hconf.payload (h₁.only.orders ▸ ho) he₁ hof).orderId
  -- its event is replayed, becomes due and is sent
  obtain ⟨s₂, hrun₂, h₂, e₂, he₂, hnames₂, hpending⟩ := repair_event u h₁ ⟨e₁, he₁, hnames⟩
  obtain ⟨s₃, hrun₃, h₃, e₃, he₃, hnames₃, offset, hoffset, hnew⟩ :=
    repair_pending hsize hu (h₂.tick u e₂.availableAt)
      ⟨e₂, he₂, hnames₂, hpending, Nat.le_add_left _ _⟩
  -- the entries of the cache expire, and the message is delivered
  obtain ⟨expired, hexpired⟩ := exists_expired s₃.world.redis
  have h₄ := h₃.tick u expired
  have hvalid := valid henv h₄.reach
  obtain ⟨s₅, hrun₅, -, entry, added, hcredited⟩ := repair_solo (t := .consume offset) rfl
    (fun _ heq => Task.consume.inj heq ▸ hnew) h₄.still fun p => ends_consume (o := o) henv
      { stored := h₄.only.orders ▸ ho
        confirmed := hstatus
        amount := hvalid.orders o (h₄.only.orders ▸ ho)
        rules := hvalid.rules
        new := by
          rw [World.HasCredit, h₄.only.ledger]
          exact hcredit
        free := free_of_still h₄.reach h₄.still p
        unused := (h₄.only.unused hu).ledger
        cache := fun e he _ hlive => absurd hlive (Nat.not_lt.mpr
          (Nat.le_trans (hexpired e he) (Nat.le_add_left _ _))) }
      (txOf_of_still h₄.reach h₄.still p) (h₄.only.unused hu) (Broker.delivers_of_new hnew) hoffset
      ((confirmations h₄.reach).order e₃ he₃) hnames₃
  have hrun :=
    (((hrun₂.trans (repair_tick u _ _)).trans hrun₃).trans (repair_tick u _ _)).trans hrun₅
  have hrepaired := repaired h₁.reach h₁.still hrun
  rw [h₄.only.rules] at hcredited
  rw [h₄.only.ledger] at added
  obtain ⟨hid, htype, -⟩ := creditOf_eq_some hcredited
  exact ⟨s₅, hrun₁.trans hrun, entry, Table.self_mem_insert added, hid, htype, Or.inr hcredited,
    fun _ he' => (Table.mem_insert added).mp he', hrepaired.rules.trans h₁.only.rules,
    fun i hi hw => hrepaired.unused i hi (h₁.only.unused hw)⟩

/-- The order is credited: it was before, or it is now, under the rule that its merchant had. -/
def Settled (w w' : World) (o : Order) : Prop :=
  ∃ e ∈ w'.ledger, e.orderId = o.id ∧ e.type = .CREDIT ∧
    (e ∈ w.ledger ∨ creditOf w.rules o = some e.data)

/-- Orders are repaired one by one, each with an id of its own. -/
theorem repair_orders (henv : DecimalText env) (hsize : 0 < env.batchSize) (os : List Order)
    {ids : List Uuid} (h : Reach (system env) Validated (· = initial) s) (hids : ids.Nodup)
    (hunused : ∀ u ∈ ids, s.world.Unused u) (hlen : os.length ≤ ids.length)
    (hos : ∀ o ∈ os, ∃ o' ∈ s.world.orders, o'.core = o.core ∧ o'.status = .CONFIRMED) :
    ∃ s', Reach (system env) Repairs (· = s) s' ∧ ∀ o ∈ os, Settled s.world s'.world o := by
  induction os generalizing s ids with
  | nil => exact ⟨s, .start rfl, fun o ho => absurd ho List.not_mem_nil⟩
  | cons o os ih =>
    cases ids with
    | nil => cases hlen
    | cons u ids =>
      obtain ⟨hu, hids⟩ := List.nodup_cons.mp hids
      obtain ⟨o', ho', hcore, hstatus⟩ := hos o List.mem_cons_self
      obtain ⟨s₁, hrun₁, e₁, hrepair⟩ :=
        repair_order henv hsize h (hunused u List.mem_cons_self) ho' hstatus
      have h₁ := reach_repairs h hrun₁
      have hvalidated : Reach (system env) Validated (· = s) s₁ :=
        hrun₁.restrict fun _ _ _ hmet => validated_of_repairs hmet.1.repairs
      obtain ⟨s', hrun', hsettled⟩ := ih h₁ hids
        (fun i hi => hrepair.unused i (fun heq => hu (heq ▸ hi))
          (hunused i (List.mem_cons_of_mem u hi)))
        (Nat.le_of_succ_le_succ hlen) fun x hx => by
          obtain ⟨x', hx', hcore', hstatus'⟩ := hos x (List.mem_cons_of_mem o hx)
          obtain ⟨x'', hx'', hcore'', hkept⟩ :=
            (run_extends fresh_of_initial h hvalidated).orders x' hx'
          exact ⟨x'', hx'', hcore''.trans hcore', hkept hstatus'⟩
      have hafter : Reach (system env) Validated (· = s₁) s' :=
        hrun'.restrict fun _ _ _ hmet => validated_of_repairs hmet.repairs
      refine ⟨s', Reach.trans (hrun₁.restrict fun _ _ _ hmet => hmet.1) hrun', fun x hx => ?_⟩
      rcases List.mem_cons.mp hx with rfl | hx
      · refine ⟨e₁, (run_extends fresh_of_initial h₁ hafter).ledger e₁ hrepair.entry,
          hrepair.order.trans (Order.id_of_core hcore), hrepair.credit, ?_⟩
        rw [← creditOf_core hcore]
        exact hrepair.due
      · obtain ⟨e, he, hid, htype, hdue⟩ := hsettled x hx
        refine ⟨e, he, hid, htype, ?_⟩
        rcases hdue with hold | hdue
        · rcases hrepair.only e hold with hold | rfl
          · exact Or.inl hold
          · -- the same order once more
            obtain ⟨x', hx', hcore', -⟩ := hos x (List.mem_cons_of_mem o hx)
            have hsame : x' = o' := Table.eq_of_clash hx' ho' (by
              simp [Indexed.clash, Order.id_of_core hcore', ← hid, hrepair.order])
            rw [← creditOf_core hcore', hsame]
            exact hrepair.due
        · exact Or.inr (hrepair.rules ▸ hdue)

/-- From every reachable state of a system that is sent valid requests only, steps that repair lead
    to one in which every order that was confirmed is credited: it was before, or it is now, under
    the rule that its merchant had. The ids are as many as there are orders, and not in use. -/
theorem recoverable (env : Env) (henv : DecimalText env) (hsize : 0 < env.batchSize) {s : State}
    (h : Reach (system env) Validated (· = initial) s) {ids : List Uuid} (hids : ids.Nodup)
    (hunused : ∀ u ∈ ids, s.world.Unused u) (hlen : s.world.orders.rows.length ≤ ids.length) :
    ∃ s', Reach (system env) Repairs (· = s) s' ∧
      ∀ o ∈ s.world.orders, o.status = .CONFIRMED → Settled s.world s'.world o := by
  obtain ⟨s', hrun, hsettled⟩ := repair_orders henv hsize
    (s.world.orders.rows.filter fun o => o.status == .CONFIRMED) h hids hunused
    (Nat.le_trans (List.length_filter_le _ _) hlen) fun o ho => by
      obtain ⟨hstored, hstatus⟩ := List.mem_filter.mp ho
      exact ⟨o, hstored, rfl, beq_iff_eq.mp hstatus⟩
  exact ⟨s', hrun, fun o ho hstatus => hsettled o
    (List.mem_filter.mpr ⟨ho, beq_iff_eq.mpr hstatus⟩)⟩

end

/-- The only delivery of an event is committed, and the inbox has no row for it. -/
def eventDropped : List Step := createAndConfirm ++ publishEvent ++ dropEvent

def confirmedUncredited (w : World) : Bool :=
  w.orders.rows.any fun o => o.status == .CONFIRMED && w.ledger.rows.isEmpty

def unusedIn (u : Uuid) (w : World) : Bool :=
  w.ledger.rows.all (fun e => e.id != u) && w.inbox.rows.all (fun e => e.id != u) &&
    w.outbox.rows.all fun e => e.id != u

/-- The order whose event was dropped can be credited. -/
theorem recoverable_run : ∃ s s' o, (system (platform id)).run initial eventDropped = some s ∧
    s.world.inbox.rows = [] ∧ s.world.broker.events.length = 1 ∧ s.world.broker.committed = [0] ∧
    o ∈ s.world.orders ∧ ¬ s.world.HasCredit o.id ∧
    Reach (system (platform id)) Repairs (· = s) s' ∧ s'.world.HasCredit o.id := by
  have hrun : (((system (platform id)).run initial eventDropped).map fun s =>
      (confirmedUncredited s.world && unusedIn (Platform.uuid 7) s.world &&
        decide (s.world.orders.rows.length ≤ 1),
        s.world.inbox.rows.isEmpty, s.world.broker.events.length, s.world.broker.committed)) =
      some (true, true, 1, [0]) := by decide +kernel
  obtain ⟨s, hs, heq⟩ := Option.map_eq_some_iff.mp hrun
  simp only [Prod.mk.injEq, List.isEmpty_iff] at heq
  obtain ⟨hstate, hinbox, hevents, hcommitted⟩ := heq
  obtain ⟨hstate, hlen⟩ := Bool.and_eq_true_iff.mp hstate
  obtain ⟨horder, hunused⟩ := Bool.and_eq_true_iff.mp hstate
  obtain ⟨o, ho, hconfirmed⟩ := List.any_eq_true.mp horder
  obtain ⟨hstatus, hempty⟩ := Bool.and_eq_true_iff.mp hconfirmed
  have hvalid : ∀ lb ∈ eventDropped, validated lb = true := by decide +kernel
  have h0 : Reach (system (platform id)) Validated (· = initial) initial := .start rfl
  have hids : ∀ u ∈ [Platform.uuid 7], s.world.Unused u := by
    intro u hu
    rw [List.mem_singleton.mp hu]
    simp only [unusedIn, Bool.and_eq_true, List.all_eq_true, bne_iff_ne] at hunused
    exact ⟨hunused.1.1, hunused.1.2, hunused.2⟩
  obtain ⟨s', hrepaired, hsettled⟩ :=
    recoverable (platform id) (platform_decimalText id) (by decide)
    (h0.of_run eventDropped (fun lb hm _ => hvalid lb hm) hs) (List.nodup_singleton _) hids
    (of_decide_eq_true hlen)
  obtain ⟨e, he, hid, htype, -⟩ := hsettled o ho (beq_iff_eq.mp hstatus)
  refine ⟨s, s', o, hs, hinbox, hevents, hcommitted, ho, ?_, hrepaired, e, he, hid, htype⟩
  rintro ⟨e, he, -⟩
  rw [Table.mem_rows, List.isEmpty_iff.mp hempty] at he
  exact absurd he List.not_mem_nil

end CashbackLedger
