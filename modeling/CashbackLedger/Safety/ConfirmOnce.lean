import CashbackLedger.Lib.Windows
import CashbackLedger.Safety.Confirmation

/-
  Two confirmations of one order.

  `confirmAndOutbox` reads the status in one statement and updates the row by its id in another.
  At READ COMMITTED the read reserves nothing: a second confirmation that also reads CREATED
  waits for the row lock, then updates the confirmed order again and commits a second event. The
  read is a check whose window closes at the end of the transaction (`confirmWindows`). In runs
  in which no window opens while another is open, an order is confirmed once
  (`order_confirmed_once`).
-/

namespace CashbackLedger

open Lib History

/-- The order is stored with this status. -/
def World.OrderIs (w : World) (id : Uuid) (status : OrderStatus) : Prop :=
  ∃ o ∈ w.orders, o.id = id ∧ o.status = status

/-- The order that a confirmation under way has read as CREATED. -/
def confirming : Option Process → Option Uuid
  | some ⟨.confirm _ _, l, _, true⟩ => History.readCreated l
  | _ => none

/-- The order id that a confirmation is about to read. -/
def confirmReads : Option Process → Option String
  | some ⟨.confirm _ id, _, .call (.tx (.stmt (.orderFindUnique _))) _, true⟩ => some id
  | _ => none

/-- No confirmation reads an order as CREATED while another one that has done so is under way. -/
def ConfirmsAlone (env : Env) (s : State) : Step → Prop
  | .step p { fate := .ok, newId := _ } => ∀ oid id, confirmReads (s.proc p) = some oid →
      env.readUuid oid = some id → s.world.OrderIs id .CREATED →
        ∀ q, q ≠ p → confirming (s.proc q) ≠ some id
  | _ => True

/-- The process ran the transaction of a confirmation of the order and has responded with this
    event id. -/
def Responded (env : Env) (s : State) (p : Pid) (id : Uuid) (event : Option Uuid) : Prop :=
  ∃ header oid l, ∃ resp : ConfirmResponse, ∃ alive,
    s.proc p = some ⟨.confirm header oid, l, .ret (.ok resp.json), alive⟩ ∧
    env.readUuid oid = some id ∧ Issued l (.tx .commit) ∧ resp.outboxEventId = event

theorem ConfirmResponse.event_of_json {r r' : ConfirmResponse} (h : r.json = r'.json) :
    r.outboxEventId = r'.outboxEventId := by
  obtain ⟨id, status, event⟩ := r
  obtain ⟨id', status', event'⟩ := r'
  cases event <;> cases event' <;>
    simp only [ConfirmResponse.json, Json.obj.injEq, List.cons.injEq, Prod.mk.injEq, Json.str.injEq,
      and_true, true_and, reduceCtorEq, and_false] at h ⊢
  exact congrArg some (Uuid.text_inj h.2.2)

section

variable {env : Env} {p : Pid} {newId : Uuid} {ch : Choice} {w w' w₁ : World} {t : Task}
  {l : History} {c : Call} {r : Reply c} {id : Uuid} {oid : String} {o : Order}

theorem World.OrderIs.unique {st : OrderStatus} (h : w.OrderIs id st) (ho : o ∈ w.orders)
    (hid : o.id = id) : o.status = st := by
  obtain ⟨o', ho', hid', hst⟩ := h
  have heq : o' = o := Table.eq_of_clash ho' ho (by simp [Indexed.clash, hid, hid'])
  rw [← heq]
  exact hst

theorem World.OrderIs.mono (h : w.OrderIs id .CONFIRMED) (hw : w.Extends w') :
    w'.OrderIs id .CONFIRMED := by
  obtain ⟨o, ho, hid, hst⟩ := h
  obtain ⟨o', ho', hcore, hst'⟩ := hw.orders o ho
  exact ⟨o', ho', (Order.id_of_core hcore).trans hid, hst' hst⟩

theorem ReadAs.id_eq {st : OrderStatus} (hl : LogSound env w l) (h : ReadAs l oid st o) :
    env.readUuid oid = some o.id := by
  obtain ⟨_, -, hid⟩ := hl.got h.1
  exact hid

theorem Confirming.id_eq {e : OutboxEvent} (hl : LogSound env w l) (h : Confirming env l oid o e) :
    env.readUuid oid = some o.id := by
  obtain ⟨_, -, hid, -⟩ := hl.got h.1
  exact hid

theorem Confirming.aggregateId_eq {e : OutboxEvent} (hl : LogSound env w l)
    (h : Confirming env l oid o e) : e.aggregateId = o.id.text := by
  obtain ⟨-, now, hout⟩ := h
  obtain ⟨_, hagg, -⟩ := hl.got hout
  exact hagg

/-- The order that was read is the order that is confirmed. -/
theorem Confirming.same {st : OrderStatus} {o₀ : Order} {e : OutboxEvent} (hl : LogSound env w l)
    (h : Confirming env l oid o e) (hr : ReadAs l oid st o₀) : o₀.id = o.id :=
  Option.some_inj.mp ((hr.id_eq hl).symm.trans (h.id_eq hl))

/-- What was confirmed before is still in the log, what is new was read as CREATED. -/
theorem mem_confirmed_cons : id ∈ History.confirmed (⟨c, r⟩ :: l) ↔
    id ∈ l.confirmed ∨ IsCommit ⟨c, r⟩ ∧ l.readCreated = some id := by
  obtain ⟨x, now⟩ := r
  cases c with
  | tx c =>
    cases c with
    | commit =>
      cases x with
      | ok x =>
        show id ∈ (History.readCreated l).toList ++ History.confirmed l ↔ _
        rw [List.mem_append, Option.mem_toList, or_comm]
        exact or_congr_right ⟨fun h => ⟨trivial, h⟩, fun h => h.2⟩
      | error e => exact ⟨Or.inl, fun h => h.resolve_right fun hc => hc.1⟩
    | _ => exact ⟨Or.inl, fun h => h.resolve_right fun hc => hc.1⟩
  | _ => exact ⟨Or.inl, fun h => h.resolve_right fun hc => hc.1⟩

theorem issued_of_confirmed (h : id ∈ l.confirmed) : Issued l (.tx .commit) := by
  induction l with
  | nil => exact absurd h List.not_mem_nil
  | cons x l ih =>
    obtain ⟨c, r⟩ := x
    rcases mem_confirmed_cons.mp h with h | ⟨hc, -⟩
    · exact (ih h).cons _
    · cases c with
      | tx c => cases c <;> first | exact issued_head r l | exact hc.elim
      | _ => exact hc.elim

/-- The transaction has read an order as CREATED: it did so before, or this call did. -/
theorem readCreated_cons (h : History.readCreated (⟨c, r⟩ :: l) = some id) :
    l.readCreated = some id ∨ ∃ x o, c = .stmt (.orderFindUnique x) ∧ o.id = id ∧
      o.status = .CREATED ∧ ∃ now, (⟨c, r⟩ : Σ c, Reply c) =
        ⟨.stmt (.orderFindUnique x), (.ok (some o), now)⟩ := by
  obtain ⟨y, now⟩ := r
  cases c with
  | tx c =>
    cases c with
    | stmt st =>
      cases st with
      | orderFindUnique x =>
        rcases y with err | (_ | o)
        · exact Or.inl h
        · exact Or.inl h
        · rw [History.readCreated] at h
          split at h
          · next hst =>
            exact Or.inr ⟨x, o, rfl, Option.some_inj.mp h, hst, now, rfl⟩
          · cases h
      | _ => exact Or.inl h
    | _ => cases h
  | _ => exact Or.inl h

/-- What a call does to confirmations: the log becomes `l'`. -/
structure ConfirmStep (env : Env) (w w' : World) (t : Task) (l l' : History) : Prop where
  extends_ : w.Extends w'
  confirming : ∀ id, w'.OrderIs id .CONFIRMED → w.OrderIs id .CONFIRMED ∨
    ∃ header oid, t = .confirm header oid ∧ env.readUuid oid = some id ∧
      l.readCreated = some id ∧ l'.readCreated = none ∧
      (id ∈ l'.confirmed ∨ ∃ err, Failed l' (.tx .commit) err)
  confirmed : ∀ header oid, t = .confirm header oid → ∀ id ∈ l'.confirmed, id ∈ l.confirmed ∨
    l.readCreated = some id ∧ w'.OrderIs id .CONFIRMED
  events : (∀ e' ∈ w'.outbox, ∃ e ∈ w.outbox, e'.core = e.core) ∨
    ∃ header oid id e₁, t = .confirm header oid ∧ l.readCreated = some id ∧
      e₁.aggregateId = id.text ∧
      ∀ e' ∈ w'.outbox, (∃ e ∈ w.outbox, e'.core = e.core) ∨ e' = e₁

theorem confirm_step (hl : LogSound env w l) (htx : w.txOf p = l.tx) (hc : t.Calls env l c)
    (hshaped : CommitsShaped p w c) (hconf : Confirmations env w)
    (h : exec env p c ch w = some (w', r)) : ConfirmStep env w w' t l (⟨c, r⟩ :: l) := by
  obtain ⟨w₁, heff, hw'⟩ := exec_effect hshaped h
  have hext := exec_extends hshaped h
  have hconf₁ := heff.confirmations hconf hl htx hc
  refine ⟨hext, ?_, ?_, ?_⟩
  · rintro id ⟨o', ho', rfl, hst⟩
    rw [hw'] at ho'
    rcases heff.order_origin ho' with ⟨o, ho, hcore, rfl | ⟨rfl, -, tx, e, hmine, hab, hw, -⟩⟩ |
      ⟨d, amount, rfl, -, rfl⟩
    · exact Or.inl ⟨o', ho, rfl, hst⟩
    · obtain ⟨header, oid, o₀, o₁, rfl, hread, hcreated, hmade, hid⟩ :=
        hc.confirmCommit (htx ▸ hmine) hab hw
      have hcreated' : l.readCreated = some o'.id := by rw [hcreated, hmade.same hl hread, hid]
      refine Or.inr ⟨header, oid, rfl, by rw [hmade.id_eq hl, hid], hcreated', rfl, ?_⟩
      obtain ⟨x, now⟩ := r
      cases x with
      | ok x => exact Or.inl (mem_confirmed_cons.mpr (Or.inr ⟨trivial, hcreated'⟩))
      | error err => exact Or.inr ⟨err, failed_head err now l⟩
    · rw [show d.status = .CREATED from hc.orderCreated] at hst
      cases hst
  · rintro header oid rfl id hid
    refine (mem_confirmed_cons.mp hid).imp_right ?_
    rintro ⟨hcommit, hcreated⟩
    refine ⟨hcreated, ?_⟩
    obtain ⟨x, now⟩ := r
    cases c with
    | tx c =>
      cases c with
      | commit =>
        cases x with
        | error err => exact hcommit.elim
        | ok x =>
          -- the committed event announces the order
          obtain ⟨-, -, resp, ⟨o, -, hnone, -⟩ | ⟨o₀, o, e, hread, hread', hmade, hopen, -⟩⟩ := hc
          · rw [hnone] at hcreated
            cases hcreated
          · rw [hread'] at hcreated
            have hfact := exec_fact hshaped htx h
            obtain ⟨e', he', hcore⟩ := hfact _ hopen rfl (.outbox e) (by simp)
            rw [hw'] at he'
            obtain ⟨-, -, o', ho', hst, hagg, -⟩ := hconf₁.order e' he'
            have htext : o'.id.text = o.id.text := by
              rw [← hagg, (OutboxEvent.of_core hcore).2.1, hmade.aggregateId_eq hl]
            refine ⟨o', ?_, ?_, hst⟩
            · rw [hw']
              exact ho'
            · rw [Uuid.text_inj htext, ← hmade.same hl hread]
              exact Option.some_inj.mp hcreated
      | _ => exact hcommit.elim
    | _ => exact hcommit.elim
  · rw [hw']
    refine heff.outbox_cases.imp_right ?_
    rintro ⟨rfl, tx, id, e₁, hmine, hab, hw, hall⟩
    obtain ⟨header, oid, o₀, o, rfl, hread, hcreated, hmade, -⟩ :=
      hc.confirmCommit (htx ▸ hmine) hab hw
    have hagg : e₁.aggregateId = o₀.id.text := by
      rw [hmade.aggregateId_eq hl, hmade.same hl hread]
    exact ⟨header, oid, o₀.id, e₁, rfl, hcreated, hagg, hall⟩

/-- A lookup that finds an order finds a stored one, and it was served. -/
theorem orderFindUnique_found {x : Option Json} {now : Time}
    (h : exec env p (.stmt (.orderFindUnique x)) ch w = some (w', (.ok (some o), now))) :
    o ∈ w.orders ∧ readId env x = some o.id ∧ ch.fate = .ok := by
  cases exec_served h with
  | ok fate run =>
    simp only [Call.run, TxCall.run] at run
    split at run
    · cases run
    split at run
    · cases run
    · obtain ⟨y, hy, heq⟩ := Option.map_eq_some_iff.mp run
      cases heq
      unfold TxStmt.run at hy
      dsimp only at hy
      split at hy
      · cases hy
      · next id hid =>
        have hfound : (w.orders.find? fun o => o.id == id) = some o :=
          Except.ok.inj (Option.some_inj.mp hy)
        have hoid : o.id = id := by simpa using Table.of_find? hfound
        exact ⟨Table.mem_of_find? hfound, by rw [hid, hoid], fate⟩

end

/-! ## The invariant -/

/-- The windows between reading CREATED and the end of the transaction. -/
def confirmWindows (s : State) : Windows Pid Uuid where
  inside p id := confirming (s.proc p) = some id
  taken id := s.world.OrderIs id .CONFIRMED

/-- The orders a confirmation knows it has confirmed. -/
def confirmedBy : Option Process → List Uuid
  | some ⟨.confirm _ _, l, _, _⟩ => History.confirmed l
  | _ => []

/-- The process has confirmed the order, or its commit failed and it cannot know. -/
def MadeBy (env : Env) (id : Uuid) : Option Process → Prop
  | some ⟨.confirm _ oid, l, _, _⟩ => env.readUuid oid = some id ∧
      (id ∈ History.confirmed l ∨ ∃ err, Failed l (.tx .commit) err)
  | _ => False

structure ConfirmInv (env : Env) (s : State) : Prop where
  apart : (confirmWindows s).Apart
  done : ∀ p, ∀ id ∈ confirmedBy (s.proc p), s.world.OrderIs id .CONFIRMED
  once : ∀ p q, ∀ id ∈ confirmedBy (s.proc p), id ∈ confirmedBy (s.proc q) → p = q
  made : ∀ id, s.world.OrderIs id .CONFIRMED → ∃ p, MadeBy env id (s.proc p)
  events : ∀ e ∈ s.world.outbox, ∀ e' ∈ s.world.outbox, e.aggregateId = e'.aggregateId →
    e.id = e'.id

section

variable {env : Env} {s : State} {p : Pid} {ch : Choice} {t : Task} {l : History} {c : Call}
  {k : Reply c → Prog Call Reply Outcome} {w : World} {r : Reply c}

theorem mem_confirmedBy {q : Pid} {id : Uuid} {pr : Process} (hp : s.proc q = some pr)
    (h : id ∈ confirmedBy (s.proc q)) :
    (∃ header oid, pr.task = .confirm header oid) ∧ id ∈ History.confirmed pr.log := by
  rw [hp] at h
  obtain ⟨t, l, x, b⟩ := pr
  cases t with
  | confirm header oid => exact ⟨⟨header, oid, rfl⟩, h⟩
  | _ => exact absurd h List.not_mem_nil

theorem MadeBy.cons {id : Uuid} {x : Prog Call Reply Outcome} {b : Bool}
    (h : MadeBy env id (some ⟨t, l, x, b⟩)) (y : Σ c, Reply c) (x' : Prog Call Reply Outcome)
    (b' : Bool) : MadeBy env id (some ⟨t, y :: l, x', b'⟩) := by
  cases t with
  | confirm header oid =>
    obtain ⟨hid, hm⟩ := h
    refine ⟨hid, hm.imp (fun hm => mem_confirmed_cons.mpr (Or.inl hm)) ?_⟩
    rintro ⟨err, hf⟩
    exact ⟨err, hf.cons y⟩
  | _ => exact h

/-- A confirmation opens its window on an order that is not confirmed and that nobody else has
    open. -/
theorem confirming_entered (hc : t.Calls env l c)
    (hp : s.proc p = some ⟨t, l, .call c k, true⟩) (halone : ConfirmsAlone env s (.step p ch))
    (hx : exec env p c ch s.world = some (w, r)) {id : Uuid}
    (h : confirming (some ⟨t, ⟨c, r⟩ :: l, k r, true⟩) = some id) :
    confirming (s.proc p) = some id ∨
      (¬ s.world.OrderIs id .CONFIRMED ∧ ∀ q, q ≠ p → confirming (s.proc q) ≠ some id) := by
  cases t with
  | confirm header oid =>
    rcases readCreated_cons h with hold | ⟨x, o, rfl, rfl, hst, now, heq⟩
    · rw [hp]
      exact Or.inl hold
    · cases heq
      obtain ⟨ho, hid, hfate⟩ := orderFindUnique_found hx
      have hx' : x = some (.str oid) := hc
      subst hx'
      refine Or.inr ⟨fun hconf => ?_, ?_⟩
      · rw [hconf.unique ho rfl] at hst
        cases hst
      · obtain ⟨fate, newId⟩ := ch
        obtain rfl : fate = .ok := hfate
        refine halone oid o.id ?_ hid ⟨o, ho, rfl, hst⟩
        rw [hp]
        rfl
  | _ => cases h

/-- A confirmation that has read its order as CREATED has its window open. -/
theorem inside_readCreated (hp : s.proc p = some ⟨t, l, .call c k, true⟩) {header : Option String}
    {oid : String} {id : Uuid} (ht : t = .confirm header oid) (hread : l.readCreated = some id) :
    (confirmWindows s).inside p id := by
  subst ht
  show confirming (s.proc p) = some id
  rw [hp]
  exact hread

theorem ConfirmInv.apart_call (hI : ConfirmInv env s) (hp : s.proc p = some ⟨t, l, .call c k, true⟩)
    (henter : ∀ id, confirming (some ⟨t, ⟨c, r⟩ :: l, k r, true⟩) = some id →
      confirming (s.proc p) = some id ∨
        (¬ s.world.OrderIs id .CONFIRMED ∧ ∀ q, q ≠ p → confirming (s.proc q) ≠ some id))
    (hstep : ConfirmStep env s.world w t l (⟨c, r⟩ :: l)) :
    (confirmWindows (s.put w p ⟨t, ⟨c, r⟩ :: l, k r, true⟩)).Apart := by
  refine hI.apart.step p (fun q id hq hin => ?_) (fun id hin => ?_) fun id ht => ?_
  · have heq : confirming ((s.put w p ⟨t, ⟨c, r⟩ :: l, k r, true⟩).proc q) = some id := hin
    rwa [Pool.put_other _ _ _ _ hq] at heq
  · have heq : confirming ((s.put w p ⟨t, ⟨c, r⟩ :: l, k r, true⟩).proc p) = some id := hin
    rw [Pool.put_self] at heq
    exact henter id heq
  · rcases hstep.confirming id ht with hold | ⟨header, oid, rfl, -, hread, hnone, -⟩
    · exact Or.inl hold
    · refine Or.inr ⟨inside_readCreated hp rfl hread, fun hin => ?_⟩
      have heq : confirming ((s.put w p ⟨.confirm header oid, ⟨c, r⟩ :: l, k r, true⟩).proc p) =
          some id := hin
      rw [Pool.put_self, confirming, hnone] at heq
      cases heq

/-- What a call adds to the confirmed orders was under the window of its process. -/
theorem confirmedBy_call (hp : s.proc p = some ⟨t, l, .call c k, true⟩)
    (hstep : ConfirmStep env s.world w t l (⟨c, r⟩ :: l)) {id : Uuid}
    (hid : id ∈ confirmedBy (some ⟨t, ⟨c, r⟩ :: l, k r, true⟩)) :
    id ∈ confirmedBy (s.proc p) ∨ (confirmWindows s).inside p id ∧ w.OrderIs id .CONFIRMED := by
  obtain ⟨⟨header, oid, ht⟩, hid⟩ := mem_confirmedBy (Pool.put_self s w p _) (by
    rw [Pool.put_self]
    exact hid)
  have ht' : t = .confirm header oid := ht
  rcases hstep.confirmed header oid ht' id hid with hold | ⟨hread, his⟩
  · subst ht'
    rw [hp]
    exact Or.inl hold
  · exact Or.inr ⟨inside_readCreated hp ht' hread, his⟩

theorem ConfirmInv.made_call (hI : ConfirmInv env s) (hp : s.proc p = some ⟨t, l, .call c k, true⟩)
    (hstep : ConfirmStep env s.world w t l (⟨c, r⟩ :: l)) {id : Uuid}
    (hid : w.OrderIs id .CONFIRMED) :
    ∃ q, MadeBy env id ((s.put w p ⟨t, ⟨c, r⟩ :: l, k r, true⟩).proc q) := by
  rcases hstep.confirming id hid with hold | ⟨header, oid, rfl, hread, -, -, hmade⟩
  · obtain ⟨q, hq⟩ := hI.made id hold
    refine ⟨q, ?_⟩
    by_cases hqp : q = p
    · subst hqp
      rw [hp] at hq
      rw [Pool.put_self]
      exact hq.cons _ _ _
    · rw [Pool.put_other _ _ _ _ hqp]
      exact hq
  · refine ⟨p, ?_⟩
    rw [Pool.put_self]
    exact ⟨hread, hmade⟩

/-- An order with an event is confirmed, so nobody has it open. -/
theorem ConfirmInv.eventless (hI : ConfirmInv env s) (hconf : Confirmations env s.world) {id : Uuid}
    (hin : (confirmWindows s).inside p id) {e₀ : OutboxEvent} (he₀ : e₀ ∈ s.world.outbox) :
    e₀.aggregateId ≠ id.text := by
  intro hid
  obtain ⟨-, -, o, ho, hst, haid, -⟩ := hconf.order e₀ he₀
  exact hI.apart.free p id hin ⟨o, ho, Uuid.text_inj (haid.symm.trans hid), hst⟩

theorem ConfirmInv.events_call (hI : ConfirmInv env s) (hconf : Confirmations env s.world)
    (hp : s.proc p = some ⟨t, l, .call c k, true⟩)
    (hstep : ConfirmStep env s.world w t l (⟨c, r⟩ :: l)) {e e' : OutboxEvent} (he : e ∈ w.outbox)
    (he' : e' ∈ w.outbox) (hagg : e.aggregateId = e'.aggregateId) : e.id = e'.id := by
  have hold : ∀ e e' : OutboxEvent, (∃ e₀ ∈ s.world.outbox, e.core = e₀.core) →
      (∃ e₀ ∈ s.world.outbox, e'.core = e₀.core) →
      e.aggregateId = e'.aggregateId → e.id = e'.id := by
    rintro e e' ⟨e₀, he₀, hcore⟩ ⟨e₀', he₀', hcore'⟩ hagg
    obtain ⟨hid, haid, -⟩ := OutboxEvent.of_core hcore
    obtain ⟨hid', haid', -⟩ := OutboxEvent.of_core hcore'
    rw [hid, hid']
    exact hI.events e₀ he₀ e₀' he₀' (haid.symm.trans (hagg.trans haid'))
  rcases hstep.events with hall | ⟨header, oid, id, e₁, ht, hread, hagg₁, hall⟩
  · exact hold e e' (hall e he) (hall e' he') hagg
  · -- the new event is of an order that this process has open
    have hnone : ∀ e : OutboxEvent, (∃ e₀ ∈ s.world.outbox, e.core = e₀.core) →
        e.aggregateId ≠ id.text := by
      rintro e ⟨e₀, he₀, hcore⟩
      rw [(OutboxEvent.of_core hcore).2.1]
      exact hI.eventless hconf (inside_readCreated hp ht hread) he₀
    rcases hall e he with he | rfl
    · rcases hall e' he' with he' | rfl
      · exact hold e e' he he' hagg
      · exact absurd (hagg.trans hagg₁) (hnone e he)
    · rcases hall e' he' with he' | rfl
      · exact absurd (hagg.symm.trans hagg₁) (hnone e' he')
      · rfl

theorem ConfirmInv.call (hI : ConfirmInv env s) (hconf : Confirmations env s.world)
    (hp : s.proc p = some ⟨t, l, .call c k, true⟩)
    (henter : ∀ id, confirming (some ⟨t, ⟨c, r⟩ :: l, k r, true⟩) = some id →
      confirming (s.proc p) = some id ∨
        (¬ s.world.OrderIs id .CONFIRMED ∧ ∀ q, q ≠ p → confirming (s.proc q) ≠ some id))
    (hstep : ConfirmStep env s.world w t l (⟨c, r⟩ :: l)) :
    ConfirmInv env (s.put w p ⟨t, ⟨c, r⟩ :: l, k r, true⟩) := by
  refine ⟨hI.apart_call hp henter hstep, fun q id hid => ?_, fun q q' id => ?_,
    fun id => hI.made_call hp hstep, fun e he e' he' => hI.events_call hconf hp hstep he he'⟩
  · by_cases hq : q = p
    · subst hq
      rw [Pool.put_self] at hid
      rcases confirmedBy_call hp hstep hid with hold | ⟨-, his⟩
      · exact (hI.done q id hold).mono hstep.extends_
      · exact his
    · rw [Pool.put_other _ _ _ _ hq] at hid
      exact (hI.done q id hid).mono hstep.extends_
  · refine Pool.alone_put (M := fun o => id ∈ confirmedBy o) (fun q q' => hI.once q q' id)
      (fun q hq hid hid' => ?_) q q'
    rcases confirmedBy_call hp hstep hid with hold | ⟨hin, -⟩
    · exact hq (hI.once q p id hid' hold)
    · exact hI.apart.free p id hin (hI.done q id hid')

/-- Starting or ending a process changes no window and no confirmed order. -/
theorem ConfirmInv.put {x : Prog Call Reply Outcome} {b : Bool} (hI : ConfirmInv env s)
    (hw : w.orders = s.world.orders ∧ w.outbox = s.world.outbox)
    (hconfirming : ∀ id, confirming (some ⟨t, l, x, b⟩) = some id → confirming (s.proc p) = some id)
    (hconfirmed : confirmedBy (some ⟨t, l, x, b⟩) = confirmedBy (s.proc p))
    (hmade : ∀ id, MadeBy env id (s.proc p) → MadeBy env id (some ⟨t, l, x, b⟩)) :
    ConfirmInv env (s.put w p ⟨t, l, x, b⟩) := by
  have hby : ∀ q, confirmedBy ((s.put w p ⟨t, l, x, b⟩).proc q) = confirmedBy (s.proc q) :=
    Pool.same_put hconfirmed
  have his : ∀ id st, w.OrderIs id st ↔ s.world.OrderIs id st := by
    intro id st
    unfold World.OrderIs
    rw [hw.1]
  refine ⟨hI.apart.mono (fun q id hin => ?_) fun id ht => (his id _).mp ht, ?_, ?_, ?_, ?_⟩
  · have heq : confirming ((s.put w p ⟨t, l, x, b⟩).proc q) = some id := hin
    by_cases hq : q = p
    · rw [hq, Pool.put_self] at heq
      exact hq ▸ hconfirming id heq
    · rwa [Pool.put_other _ _ _ _ hq] at heq
  · intro q id hid
    rw [hby] at hid
    exact (his id _).mpr (hI.done q id hid)
  · intro q q' id hid hid'
    rw [hby] at hid hid'
    exact hI.once q q' id hid hid'
  · intro id hid
    obtain ⟨q, hq⟩ := hI.made id ((his id _).mp hid)
    refine ⟨q, ?_⟩
    by_cases hqp : q = p
    · rw [hqp, Pool.put_self]
      exact hmade id (hqp ▸ hq)
    · rw [Pool.put_other _ _ _ _ hqp]
      exact hq
  · intro e he e' he'
    rw [Pool.put_world, hw.2] at he he'
    exact hI.events e he e' he'

theorem confirmInv (h : Reach (system env) (ConfirmsAlone env) (· = initial) s) :
    ConfirmInv env s := by
  refine Reach.invariant (task_sat env) (fun s hs => (fresh_of_initial s hs).1) ?_ ?_ ?_ ?_ ?_ h
  · rintro s rfl
    refine ⟨⟨nofun, nofun⟩, nofun, nofun, ?_, ?_⟩
    · rintro id ⟨o, ho, -⟩
      exact absurd ho (Table.not_mem_empty o)
    · exact fun e he => absurd he (Table.not_mem_empty e)
  · intro s p t _ hI _ hfree
    refine hI.put ⟨rfl, rfl⟩ ?_ ?_ ?_
    · intro id hid
      cases t <;> cases hid
    · rw [hfree]
      cases t <;> rfl
    · intro id hid
      rw [hfree] at hid
      exact hid.elim
  · intro s p ch t l c k w r hr hI hmet hp hc hx _
    have hs := sound fresh_of_initial hr
    have htx := hs.txOf hp
    have hconf := confirmations hr
    refine hI.call hconf hp (fun id hid => ?_)
      (confirm_step (hs.logs p _ hp) htx hc (hs.shaped hp hc) hconf hx)
    exact confirming_entered hc hp hmet hx hid
  · intro s p t l x _ hI _ hp
    refine hI.put ⟨rfl, rfl⟩ ?_ ?_ ?_
    · intro id hid
      cases t <;> cases hid
    · rw [hp]
      cases t <;> rfl
    · intro id hid
      rw [hp] at hid
      cases t <;> exact hid
  · intro s e w _ hI _ hw
    have horders : w.orders = s.world.orders := by cases e <;> cases hw <;> rfl
    have houtbox : w.outbox = s.world.outbox := by cases e <;> cases hw <;> rfl
    have his : ∀ id st, w.OrderIs id st ↔ s.world.OrderIs id st := by
      intro id st
      unfold World.OrderIs
      rw [horders]
    refine ⟨hI.apart.mono (fun _ _ hin => hin) fun id ht => (his id _).mp ht,
      fun p id hid => (his id _).mpr (hI.done p id hid), hI.once,
      fun id hid => hI.made id ((his id _).mp hid), fun e he e' he' => ?_⟩
    rw [houtbox] at he he'
    exact hI.events e he e' he'

/-- What a response says of the log: a confirmation that committed reports the event it made. -/
theorem Responded.confirmedAs {id : Uuid} {event : Option Uuid}
    (h : Reach (system env) (ConfirmsAlone env) (· = initial) s) (hr : Responded env s p id event) :
    (event = none ∧ s.world.OrderIs id .CONFIRMED) ∨
      (∃ e, event = some e) ∧ id ∈ confirmedBy (s.proc p) := by
  obtain ⟨header, oid, l, resp, alive, hp, hid, hissued, rfl⟩ := hr
  have hs := sound fresh_of_initial h
  have hl := hs.logs p _ hp
  have hsat := obeys fresh_of_initial h hp
  obtain ⟨-, ⟨_, _, -, -, -, -, hnot⟩ | ⟨resp', hc, -, hj, -⟩⟩ := hsat
  · exact absurd hissued hnot
  · rw [ConfirmResponse.event_of_json hj]
    rcases hc with ⟨o, hread, -, rfl⟩ | ⟨o₀, o, e, hread, hm, -, rfl⟩
    · obtain ⟨_, ⟨o', ho', hcore, hst⟩, -⟩ := hl.got hread.1
      have hoid : o.id = id := Option.some_inj.mp ((hread.id_eq hl).symm.trans hid)
      exact Or.inl ⟨rfl, o', ho', (Order.id_of_core hcore).trans hoid, hst hread.2⟩
    · have hoid : o₀.id = id := Option.some_inj.mp ((hread.id_eq hl).symm.trans hid)
      rw [hp, ← hoid]
      exact Or.inr ⟨⟨e.id, rfl⟩, hm⟩

/-- A confirmation that made the order's event and has responded reports it. -/
theorem MadeBy.responded {id : Uuid} {header : Option String} {oid : String} {l : History}
    {j : Json} {alive : Bool} (h : Reach (system env) (ConfirmsAlone env) (· = initial) s)
    (hp : s.proc p = some ⟨.confirm header oid, l, .ret (.ok j), alive⟩)
    (hm : MadeBy env id (s.proc p)) : ∃ e, Responded env s p id (some e) := by
  have hsat := obeys fresh_of_initial h hp
  rw [hp] at hm
  obtain ⟨hid, hmade⟩ := hm
  obtain ⟨hclean, hend⟩ := hsat
  have hconfirmed : id ∈ History.confirmed l := by
    rcases hmade with hmade | ⟨err, hf⟩
    · exact hmade
    · exact absurd ⟨_, err, hf⟩ hclean
  have hissued := issued_of_confirmed hconfirmed
  rcases hend with ⟨_, _, -, -, -, -, hnot⟩ | ⟨resp, hc, -, rfl, -⟩
  · exact absurd hissued hnot
  · rcases hc with ⟨o, -, hnone, -⟩ | ⟨o₀, o, e, -, -, -, rfl⟩
    · rw [hnone] at hconfirmed
      exact absurd hconfirmed List.not_mem_nil
    · exact ⟨e.id, header, oid, l, _, alive, hp, hid, hissued, rfl⟩

/-- In runs in which confirmations read alone: an order has at most one event, at most one
    response carries an event id, and when every confirmation of the order has responded, exactly
    one does. -/
theorem order_confirmed_once (env : Env) {s : State}
    (h : Reach (system env) (ConfirmsAlone env) (· = initial) s) :
    (∀ o ∈ s.world.orders, ∀ e ∈ s.world.outbox, ∀ e' ∈ s.world.outbox, EventOf e o → EventOf e' o →
      e = e') ∧
    (∀ id p q e e', Responded env s p id (some e) → Responded env s q id (some e') → p = q) ∧
    ∀ id, (∀ p header oid l x alive, s.proc p = some ⟨.confirm header oid, l, x, alive⟩ →
        env.readUuid oid = some id → ∃ j, x = .ret (.ok j)) →
      (∃ q event, Responded env s q id event) →
      ∃ p e, Responded env s p id (some e) ∧
        ∀ q event, q ≠ p → Responded env s q id event → event = none := by
  have hI := confirmInv h
  have honce : ∀ id p q e e', Responded env s p id (some e) → Responded env s q id (some e') →
      p = q := by
    intro id p q e e' hp hq
    rcases hp.confirmedAs h with ⟨hnone, -⟩ | ⟨-, hp⟩
    · cases hnone
    · rcases hq.confirmedAs h with ⟨hnone, -⟩ | ⟨-, hq⟩
      · cases hnone
      · exact hI.once p q id hp hq
  refine ⟨?_, honce, ?_⟩
  · rintro o - e he e' he' ⟨-, hid⟩ ⟨-, hid'⟩
    have heq := hI.events e he e' he' (hid.trans hid'.symm)
    exact Table.eq_of_clash he he' (by simp [Indexed.clash, heq])
  · rintro id hall ⟨q, event, hq⟩
    have hconf : s.world.OrderIs id .CONFIRMED := by
      rcases hq.confirmedAs h with ⟨-, his⟩ | ⟨-, hby⟩
      · exact his
      · exact hI.done q id hby
    obtain ⟨p, hp⟩ := hI.made id hconf
    obtain ⟨header, oid, l, x, alive, hpr, hid⟩ : ∃ header oid l x alive,
        s.proc p = some ⟨.confirm header oid, l, x, alive⟩ ∧ env.readUuid oid = some id := by
      unfold MadeBy at hp
      split at hp
      · next hpr => exact ⟨_, _, _, _, _, hpr, hp.1⟩
      · exact hp.elim
    obtain ⟨j, rfl⟩ := hall p header oid l x alive hpr hid
    obtain ⟨e, he⟩ := hp.responded h hpr
    refine ⟨p, e, he, fun q event hne hq => ?_⟩
    cases event with
    | none => rfl
    | some e' => exact absurd (honce id q p e' e hq he) hne

end

/-! ## Two confirmations -/

open Platform in
/-- Confirmations 1 and 2 both read the order before either updates it. -/
def overlappingConfirms : List Step :=
  [.spawn 0
    (.create none { userId := "user-1", merchantId := "shop-1",
                    amount := Platform.number 100, currency := "USD" }),
    serve 0, .spawn 1 (.confirm none (uuid 0).text), .spawn 2 (.confirm none (uuid 0).text)] ++
    serves 1 2 ++ serves 2 2 ++ serves 1 3 ++ serves 2 3

/-- The order has two events. -/
theorem order_confirmed_twice :
    ∃ s, Reach (system (platform id)) (fun _ lb => undisturbed lb = true) (· = initial) s ∧
      ∃ o ∈ s.world.orders, ∃ e ∈ s.world.outbox, ∃ e' ∈ s.world.outbox, EventOf e o ∧
        EventOf e' o ∧
        e.id ≠ e'.id := by
  have hrun : (((system (platform id)).runChecked 3 (fun _ lb => undisturbed lb) initial
      overlappingConfirms).map fun s => s.world.orders.rows.any fun o => s.world.outbox.rows.any
        fun e => s.world.outbox.rows.any fun e' => e.type == "OrderConfirmed" &&
          e.aggregateId == o.id.text &&
          (e'.type == "OrderConfirmed" && e'.aggregateId == o.id.text) &&
          e.id != e'.id) = some true := by decide +kernel
  obtain ⟨s, hs, hany⟩ := Option.map_eq_some_iff.mp hrun
  obtain ⟨o, ho, hany⟩ := List.any_eq_true.mp hany
  obtain ⟨e, he, hany⟩ := List.any_eq_true.mp hany
  obtain ⟨e', he', hk⟩ := List.any_eq_true.mp hany
  simp only [Bool.and_eq_true, beq_iff_eq, bne_iff_ne, ne_eq] at hk
  exact ⟨s, (Check.of fun _ lb => undisturbed lb).reach hs (initial_below 3), o, ho, e, he, e', he',
    hk.1.1, hk.1.2, hk.2⟩

/-- The process that makes a step, and the order that it reads to confirm it. -/
def confirmReadOf (env : Env) (s : State) : Step → Option (Pid × Uuid)
  | .step p _ => ((confirmReads (s.proc p)).bind env.readUuid).map fun id => (p, id)
  | _ => none

def confirmsAloneCheck (env : Env) (n : Nat) : Check n (ConfirmsAlone env) :=
  (Check.others (confirmReadOf env) confirming rfl).imp fun s lb h => by
    cases lb with
    | step p ch =>
      obtain ⟨fate, newId⟩ := ch
      cases fate with
      | ok =>
        intro oid id hread hid _
        exact h p id (by simp [confirmReadOf, hread, hid])
      | _ => trivial
    | _ => trivial

open Platform in
theorem order_confirmed_once_run :
    ∃ s, Reach (system (platform id)) (ConfirmsAlone (platform id)) (· = initial) s ∧
      s.world.outbox.rows.length = 1 ∧
      ∀ o ∈ s.world.orders, ∀ e ∈ s.world.outbox, ∀ e' ∈ s.world.outbox, EventOf e o →
        EventOf e' o →
        e = e' := by
  let check := confirmsAloneCheck (platform id) 3
  have hrun : (((system (platform id)).runChecked 3 check.test initial
      (createAndConfirm ++ .spawn 2 (.confirm none (uuid 0).text) :: serves 2 3)).map
        fun s => s.world.outbox.rows.length) = some 1 := by decide +kernel
  obtain ⟨s, hs, hlength⟩ := Option.map_eq_some_iff.mp hrun
  have hreach := check.reach hs (initial_below 3)
  exact ⟨s, hreach, hlength, (order_confirmed_once (platform id) hreach).1⟩

end CashbackLedger
