import CashbackLedger.Protocol.Tasks

/-
  What a process can conclude from a reply, and that it stays true.

  `Fact w l c r` reads the reply `r` to the call `c`, received after the log `l`, as a statement
  about the world. `exec_fact` establishes it when the reply is given, `Fact.mono` keeps it from
  then on. `Sound s` collects this for all processes of a state, together with the agreement of
  the open transactions with the logs; `sound` proves it for every run.
-/

namespace CashbackLedger

open Lib History

/-- The write is part of the stored data. -/
def World.Applied (w : World) : TxWrite → Prop
  | .orderStatus _ _ => True
  | .outbox e => w.HasOutbox e
  | .ledger e => e ∈ w.ledger

theorem World.Applied.mono {w w' : World} {x : TxWrite} (h : w.Applied x) (hw : w.Extends w') :
    w'.Applied x := by
  cases x with
  | orderStatus id status => trivial
  | outbox e => exact World.HasOutbox.mono h hw
  | ledger e => exact hw.ledger e h

/-- What a reply says of the world. -/
def Fact (env : Env) (w : World) (l : History) : (c : Call) → Except Fault c.Result → Prop
  | .orders (.create d), .ok o => w.HasOrder o ∧ o.userId = d.userId ∧ o.merchantId = d.merchantId ∧
      storeNumeric 18 2 d.amount = some o.amount ∧ o.currency = d.currency ∧ o.status = d.status
  | .tx (.stmt (.orderFindUnique x)), .ok (some o) => w.HasOrder o ∧ readId env x = some o.id
  | .tx (.stmt (.orderUpdate id status)), .ok o => o.status = status ∧ env.readUuid id = some o.id ∧
      ∃ o' ∈ w.orders, o'.core = o.core
  | .tx (.stmt (.outboxCreate d)), .ok e => e.aggregateId = d.aggregateId ∧ e.type = d.type ∧
      e.payload = d.payload ∧ e.status = .PENDING ∧ e.attempts = 0 ∧ d.payload.storable = true
  | .tx (.stmt (.ledgerCreate d)), .ok e => e.userId = d.userId ∧ e.orderId = d.orderId ∧
      e.type = d.type ∧ storeNumeric 18 2 d.amount = some e.amount ∧ e.currency = d.currency
  | .tx (.stmt (.ledgerCreate d)), .error .uniqueViolation =>
      ∃ e ∈ w.ledger, e.orderId = d.orderId ∧ e.type = d.type
  | .tx .commit, .ok _ => ∀ tx, l.tx = some tx → tx.aborted = false → ∀ x ∈ tx.writes, w.Applied x
  | .outbox (.findMany _ _), .ok es => ∀ e ∈ es, w.HasOutbox e
  | .inbox (.upsert sid _ _), .ok e => w.HasInbox e ∧ e.sourceEventId = sid
  | .inbox (.findMany _ _), .ok es => ∀ e ∈ es, w.HasInbox e
  | .inbox (.update id _), .ok e => w.HasInbox e ∧ e.id = id
  | .kafka (.send .events m), .ok _ => m ∈ w.broker.events
  | .kafka (.send .dlq m), .ok _ => m ∈ w.broker.dlq
  | .kafka (.fetch offset), .ok m => w.broker.events[offset]? = some m
  | _, _ => True

section

variable {env : Env} {p : Pid} {ch : Choice} {newId : Uuid} {w w' w₁ : World} {l : History}
  {c : Call}

theorem Fact.mono {r : Except Fault c.Result} (h : Fact env w l c r) (hw : w.Extends w') :
    Fact env w' l c r := by
  unfold Fact at h ⊢
  split at h
  · exact ⟨h.1.mono hw, h.2⟩
  · exact ⟨h.1.mono hw, h.2⟩
  · obtain ⟨hst, hid, o', ho', hc⟩ := h
    obtain ⟨o'', ho'', hc', -⟩ := hw.orders o' ho'
    exact ⟨hst, hid, o'', ho'', hc'.trans hc⟩
  · exact h
  · exact h
  · obtain ⟨e, he, hk⟩ := h
    exact ⟨e, hw.ledger e he, hk⟩
  · exact fun tx htx hab x hx => (h tx htx hab x hx).mono hw
  · exact fun e he => (h e he).mono hw
  · exact ⟨h.1.mono hw, h.2⟩
  · exact fun e he => (h e he).mono hw
  · exact ⟨h.1.mono hw, h.2⟩
  · exact hw.events.subset h
  · exact hw.dlq.subset h
  · obtain ⟨hlt, -⟩ := List.getElem?_eq_some_iff.mp h
    obtain ⟨tail, htail⟩ := hw.events
    rw [← htail, List.getElem?_append_left hlt]
    exact h
  · trivial

/-- An open transaction commits what it wrote. -/
theorem applyWrites_applied {writes : List TxWrite} (hs : Tx.Shaped writes)
    (h : w.applyWrites writes = some w₁) : ∀ x ∈ writes, w₁.Applied x := by
  cases hs with
  | nothing => exact nofun
  | confirm id e =>
    simp only [World.applyWrites, World.applyWrite, List.foldlM_cons, List.foldlM_nil,
      Option.bind_eq_bind, Option.bind_some] at h
    obtain ⟨w₂, hw₂, he⟩ := Option.bind_eq_some_iff.mp h
    obtain ⟨t, ht, rfl⟩ := Option.map_eq_some_iff.mp hw₂
    cases he
    intro x hx
    rcases List.mem_cons.mp hx with rfl | hx
    · exact trivial
    · rw [List.mem_singleton.mp hx]
      exact World.hasOutbox_of_mem (Table.self_mem_insert ht)
  | credit e =>
    simp only [World.applyWrites, World.applyWrite, List.foldlM_cons, List.foldlM_nil,
      Option.bind_eq_bind] at h
    obtain ⟨w₂, hw₂, he⟩ := Option.bind_eq_some_iff.mp h
    obtain ⟨t, ht, rfl⟩ := Option.map_eq_some_iff.mp hw₂
    cases he
    intro x hx
    rw [List.mem_singleton.mp hx]
    exact Table.self_mem_insert ht

/-- What a served statement of an open transaction says. -/
theorem stmt_fact {s : TxStmt} {r : Except Fault s.Result} (h : s.run env p newId w = some r) :
    Fact env w l (.tx (.stmt s)) r := by
  cases s with
  | orderFindUnique x =>
    unfold TxStmt.run at h
    dsimp only at h
    split at h
    · cases h; exact trivial
    · rename_i id hid
      obtain rfl := Option.some_inj.mp h
      generalize hfound : w.orders.find? (fun o => o.id == id) = found
      cases found with
      | none => exact trivial
      | some o =>
        have hoid : o.id = id := by simpa using Table.of_find? hfound
        exact ⟨World.hasOrder_of_mem (Table.mem_of_find? hfound), by rw [hid, hoid]⟩
  | orderUpdate id status =>
    unfold TxStmt.run at h
    dsimp only at h
    split at h
    · cases h; exact trivial
    · rename_i id' hid
      split at h
      · cases h
      · split at h
        · cases h; exact trivial
        · rename_i o ho
          cases h
          have hoid : o.id = id' := by simpa using Table.of_find? ho
          exact ⟨rfl, by rw [hid, hoid], o, Table.mem_of_find? ho, rfl⟩
  | outboxCreate d =>
    unfold TxStmt.run at h
    dsimp only at h
    split at h
    · cases h
    · split at h
      · rename_i hst
        cases h
        have hpayload : d.payload.storable = true := (Bool.and_eq_true_iff.mp hst).2
        exact ⟨rfl, rfl, rfl, rfl, rfl, hpayload⟩
      · cases h; exact trivial
  | ruleFindUnique merchantId => exact trivial
  | ledgerCreate d =>
    unfold TxStmt.run at h
    dsimp only at h
    split at h
    · cases h; exact trivial
    · rename_i amount hamount
      split at h
      · cases h; exact trivial
      split at h
      · cases h
      split at h
      · cases h
      split at h
      · rename_i hany
        cases h
        obtain ⟨e, he, hk⟩ := Table.any_iff.mp hany
        exact ⟨e, he, by simpa using hk⟩
      · cases h
        exact ⟨rfl, rfl, rfl, hamount, rfl⟩
  | ledgerFindUnique orderId type => exact trivial

/-- What a reply says holds when it is given. -/
theorem run_fact {r : Except Fault c.Result} (hs : CommitsShaped p w c)
    (htx : w.txOf p = l.tx) (h : c.run env p newId w = some (w₁, r)) : Fact env w₁ l c r := by
  cases c with
  | orders c =>
    obtain ⟨⟨t, y⟩, hy, he⟩ := Option.map_eq_some_iff.mp h
    cases he
    cases c with
    | create d =>
      simp only [OrderCall.run] at hy
      split at hy
      · split at hy
        · cases hy; exact trivial
        · obtain ⟨t', ht, he⟩ := Option.map_eq_some_iff.mp hy
          cases he
          exact ⟨World.hasOrder_of_mem (Table.self_mem_insert ht), rfl, rfl, ‹_›, rfl, rfl⟩
      · cases hy; exact trivial
  | rules c => cases c <;> exact trivial
  | idem c => cases c <;> exact trivial
  | outbox c =>
    obtain ⟨⟨t, y⟩, hy, he⟩ := Option.map_eq_some_iff.mp h
    cases he
    cases c with
    | findMany sel take =>
      rcases sel with now | (_ | status) <;> cases take <;> cases hy <;> try exact trivial
      all_goals
        intro e he
        exact World.hasOutbox_of_mem (List.mem_of_mem_filter (mem_of_orderByCreatedAt he))
    | claim id => exact trivial
    | findUnique id => exact trivial
    | update id u => exact trivial
  | inbox c =>
    obtain ⟨⟨t, y⟩, hy, he⟩ := Option.map_eq_some_iff.mp h
    cases he
    cases c with
    | upsert sid type payload =>
      simp only [InboxCall.run] at hy
      split at hy
      · split at hy
        · rename_i e he
          cases hy
          exact ⟨World.hasInbox_of_mem (Table.mem_of_find? he), by simpa using Table.of_find? he⟩
        · obtain ⟨t', ht, he⟩ := Option.map_eq_some_iff.mp hy
          cases he
          exact ⟨World.hasInbox_of_mem (Table.self_mem_insert ht), rfl⟩
      · cases hy; exact trivial
    | findMany sel take =>
      rcases sel with now | (_ | status) | id <;> cases take <;> cases hy <;> try exact trivial
      all_goals
        intro e he
        exact World.hasInbox_of_mem (List.mem_of_mem_filter (mem_of_orderByCreatedAt he))
    | update id u =>
      simp only [InboxCall.run] at hy
      split at hy
      · cases hy; exact trivial
      · rename_i e he
        have hid : e.id = id := by simpa using Table.of_find? he
        cases hy
        refine ⟨World.hasInbox_of_mem ?_, hid⟩
        simp only [Table.mem_modify]
        exact ⟨e, Table.mem_of_find? he, by simp [hid]⟩
  | redis c => exact trivial
  | kafka c =>
    obtain ⟨⟨b, y⟩, hy, he⟩ := Option.map_eq_some_iff.mp h
    cases he
    cases c with
    | send topic m =>
      cases topic with
      | events =>
        cases hy
        exact List.mem_append_right _ (List.mem_singleton_self m)
      | dlq =>
        cases hy
        exact List.mem_append_right _ (List.mem_singleton_self m)
    | fetch offset =>
      obtain ⟨m, hm, he⟩ := KafkaCall.run_fetch hy
      cases he
      exact hm
    | commitOffset offset => exact trivial
  | tx c =>
    cases c with
    | begin => exact trivial
    | rollback => exact trivial
    | stmt s =>
      simp only [Call.run, TxCall.run] at h
      split at h
      · cases h
        cases s <;> exact trivial
      · split at h
        · cases h
          cases s <;> exact trivial
        · obtain ⟨y, hy, he⟩ := Option.map_eq_some_iff.mp h
          cases he
          exact stmt_fact hy
    | commit =>
      simp only [Call.run, TxCall.run] at h
      split at h
      · cases h; exact trivial
      · rename_i tx hmine
        split at h
        · rename_i hab
          cases h
          intro tx' htx' hab'
          rw [← htx, hmine] at htx'
          cases htx'
          rw [hab] at hab'
          cases hab'
        · rename_i hab
          have hab' : tx.aborted = false := by simpa using hab
          split at h
          · cases h; exact trivial
          · rename_i w₂ hw₂
            cases h
            intro tx' htx' _
            rw [← htx, hmine] at htx'
            cases htx'
            exact applyWrites_applied (hs rfl tx hmine hab') hw₂
  | proc c => exact trivial

theorem exec_fact {r : Reply c} (hs : CommitsShaped p w c) (htx : w.txOf p = l.tx)
    (h : exec env p c ch w = some (w', r)) : Fact env w' l c r.1 := by
  rcases exec_reply h with ⟨m, hm⟩ | ⟨w₁, hrun, rfl⟩
  · rw [hm]
    unfold Fact
    split <;> first | exact trivial | (rename_i heq; cases heq)
  · exact (run_fact hs htx hrun).mono ((World.Extends.refl w₁).setTx p _)

end

/-! ## Logs that are true of the world -/

/-- A statement is answered only in a sound transaction. -/
def Answered (l : History) : (c : Call) → Except Fault c.Result → Prop
  | .tx (.stmt _), .ok _ => ∃ ws, Open l ws
  | _, _ => True

theorem exec_answered {env : Env} {p : Pid} {ch : Choice} {w w' : World} {l : History} {c : Call}
    {r : Reply c} (htx : w.txOf p = l.tx) (h : exec env p c ch w = some (w', r)) :
    Answered l c r.1 := by
  cases c with
  | tx c =>
    cases c with
    | stmt s =>
      rcases exec_reply h with ⟨m, hm⟩ | ⟨w₁, hrun, -⟩
      · rw [hm]
        exact trivial
      · simp only [Call.run, TxCall.run, htx] at hrun
        split at hrun
        · cases hr : r.1 with
          | error e => exact trivial
          | ok x =>
            rw [hr] at hrun
            cases hrun
        · rename_i tx hmine
          split at hrun
          · cases hr : r.1 with
            | error e => exact trivial
            | ok x =>
              rw [hr] at hrun
              cases hrun
          · rename_i hab
            have hab' : tx.aborted = false := by simpa using hab
            cases hr : r.1 with
            | error e => exact trivial
            | ok x => exact ⟨tx.writes, hmine.trans (by rw [← hab'])⟩
    | _ => exact trivial
  | _ => exact trivial

/-- Every reply of the log still holds. -/
def LogSound (env : Env) (w : World) : History → Prop
  | [] => True
  | ⟨c, r⟩ :: l => Fact env w l c r.1 ∧ Answered l c r.1 ∧ LogSound env w l

namespace LogSound

variable {env : Env} {w w' : World} {l l' : History} {c : Call}

theorem mono (h : LogSound env w l) (hw : w.Extends w') : LogSound env w' l := by
  induction l with
  | nil => trivial
  | cons x l ih => exact ⟨h.1.mono hw, h.2.1, ih h.2.2⟩

theorem suffix (h : LogSound env w l) (hl : l' <:+ l) : LogSound env w l' := by
  induction l with
  | nil =>
    rw [List.suffix_nil.mp hl]
    trivial
  | cons x l ih =>
    rcases List.suffix_cons_iff.mp hl with rfl | hl
    · exact h
    · exact ih h.2.2 hl

theorem of_mem {r : Reply c} (h : LogSound env w l) (hm : (⟨c, r⟩ : Σ c, Reply c) ∈ l) :
    ∃ l', Fact env w l' c r.1 := by
  obtain ⟨front, l', rfl⟩ := List.append_of_mem hm
  exact ⟨l', (h.suffix (List.suffix_append front _)).1⟩

theorem got {x : c.Result} (h : LogSound env w l) (hg : Got l c x) :
    ∃ l', Fact env w l' c (.ok x) := by
  obtain ⟨now, hm⟩ := hg
  exact h.of_mem hm

theorem failed {e : Fault} (h : LogSound env w l) (hf : Failed l c e) :
    ∃ l', Fact env w l' c (.error e) := by
  obtain ⟨now, hm⟩ := hf
  exact h.of_mem hm

end LogSound

/-- A row of a batch is stored. -/
theorem OutboxBatch.row {env : Env} {w : World} {l : History} {e : OutboxEvent}
    (hl : LogSound env w l) (h : OutboxBatch l e) : w.HasOutbox e := by
  obtain ⟨sel, take, es, hg, hm⟩ := h
  obtain ⟨_, hes⟩ := hl.got hg
  exact hes e hm

theorem InboxBatch.row {env : Env} {w : World} {l : History} {e : InboxEvent}
    (hl : LogSound env w l) (h : InboxBatch l e) : w.HasInbox e := by
  obtain ⟨sel, take, es, hg, hm⟩ := h
  obtain ⟨_, hes⟩ := hl.got hg
  exact hes e hm

/-- After a refusal the transaction is aborted: its next statement is not answered. -/
theorem CreditRefused.absurd {env : Env} {w : World} {l : History} {o : Order}
    (hl : LogSound env w l) (h : CreditRefused l o) : False := by
  obtain ⟨existing, now, l', hs, ws, haborted⟩ := h
  obtain ⟨ws', hopen⟩ := (hl.suffix hs).2.1
  rw [Open, haborted] at hopen
  cases hopen

/-- The handler returns only after its own commit of a CREDIT entry. -/
theorem Credited.committed {env : Env} {w : World} {l : History} {x : Option Json}
    (hl : LogSound env w l) (h : Credited l x) :
    ∃ o, FoundConfirmed l x o ∧ CreditCommitted l o := by
  obtain ⟨o, hf, hc | hr⟩ := h
  · exact ⟨o, hf, hc⟩
  · exact (hr.absurd hl).elim

/-- The order has a CREDIT entry. -/
def World.HasCredit (w : World) (id : Uuid) : Prop :=
  ∃ entry ∈ w.ledger, entry.orderId = id ∧ entry.type = .CREDIT

theorem World.HasCredit.mono {w w' : World} {id : Uuid} (h : w.HasCredit id) (hw : w.Extends w') :
    w'.HasCredit id := by
  obtain ⟨entry, he, hk⟩ := h
  exact ⟨entry, hw.ledger entry he, hk⟩

theorem CreditCommitted.hasCredit {env : Env} {w : World} {l : History} {o : Order}
    (hl : LogSound env w l) (h : CreditCommitted l o) : w.HasCredit o.id := by
  obtain ⟨cashback, entry, now, l', hs, hopen, hg⟩ := h
  have hl' := hl.suffix hs
  obtain ⟨_, -, hid, htype, -⟩ := hl'.2.2.got hg
  exact ⟨entry, hl'.1 _ hopen rfl (.ledger entry) List.mem_cons_self, hid, htype⟩

theorem CommitKind.shaped {env : Env} {w : World} {l : History} {ws : List TxWrite}
    (hl : LogSound env w l) (h : CommitKind env l ws) : Tx.Shaped ws := by
  cases h with
  | nothing => exact .nothing
  | @confirm id o e made =>
    obtain ⟨_, hstatus, -, -⟩ := hl.got made.1
    rw [hstatus]
    exact .confirm o.id e
  | credit found made => exact .credit _

/-- A committed event is new. -/
theorem CommitKind.event {env : Env} {w : World} {l : History} {id : Uuid} {st : OrderStatus}
    {e : OutboxEvent} (hl : LogSound env w l)
    (h : CommitKind env l [.orderStatus id st, .outbox e]) :
    e.status = .PENDING ∧ e.attempts = 0 := by
  cases h with
  | confirm made =>
    obtain ⟨-, now, hout⟩ := made
    obtain ⟨_, -, -, -, hpending, hattempts, -⟩ := hl.got hout
    exact ⟨hpending, hattempts⟩

/-! ## The basic invariant -/

/-- The transaction a process holds open, by its log. -/
def openTx : Option Process → Option Tx
  | some ⟨_, l, _, true⟩ => History.tx l
  | _ => none

/-- The database knows the transactions the processes have open, and every log is true. -/
structure Sound (env : Env) (s : State) : Prop where
  txs : ∀ p, s.world.txOf p = openTx (s.proc p)
  logs : ∀ p pr, s.proc p = some pr → LogSound env s.world pr.log

/-- Nothing runs and no transaction is open. -/
def Fresh (s : State) : Prop := s.Idle ∧ ∀ p, s.world.txOf p = none

section

variable {env : Env} {ok : State → Step → Prop} {start : State → Prop} {s : State}

/-- The open transaction of a live process is the one of its log. -/
theorem Sound.txOf (hs : Sound env s) {p : Pid} {t : Task} {l : History}
    {x : Prog Call Reply Outcome} (hp : s.proc p = some ⟨t, l, x, true⟩) :
    s.world.txOf p = History.tx l := by
  rw [hs.txs p, hp]
  rfl

theorem Sound.shaped (hs : Sound env s) {p : Pid} {t : Task} {l : History} {c : Call}
    {k : Reply c → Prog Call Reply Outcome} (hp : s.proc p = some ⟨t, l, .call c k, true⟩)
    (hc : t.Calls env l c) : CommitsShaped p s.world c := by
  intro heq tx htx hab
  subst heq
  rw [hs.txOf hp] at htx
  exact (hc.commit htx hab).shaped (hs.logs p _ hp)

theorem sound (hstart : ∀ s, start s → Fresh s) (h : Reach (system env) ok start s) :
    Sound env s := by
  refine Reach.invariant (task_sat env) (fun s hs => (hstart s hs).1) ?_ ?_ ?_ ?_ ?_ h
  · intro s hs
    obtain ⟨hidle, htx⟩ := hstart s hs
    refine ⟨fun p => ?_, fun p pr hp => ?_⟩
    · rw [htx p, hidle p]
      rfl
    · rw [hidle p] at hp
      cases hp
  · intro s p t _ hs _ hfree
    refine ⟨fun q => ?_, Pool.forall_put trivial fun q pr _ => hs.logs q pr⟩
    rw [Pool.put_proc]
    split
    · next heq =>
      rw [heq, Pool.put_world, hs.txs p, hfree]
      rfl
    · exact hs.txs q
  · intro s p ch t l c k w r _ hs _ hp hc hx _
    have hshaped := hs.shaped hp hc
    have hw := exec_extends hshaped hx
    have htxp := hs.txOf hp
    refine ⟨fun q => ?_, Pool.forall_put ?_ fun q pr _ hq => (hs.logs q pr hq).mono hw⟩
    · rw [Pool.put_world, exec_txOf hshaped hx q, Pool.put_proc]
      split
      · rw [htxp]; rfl
      · exact hs.txs q
    · exact ⟨exec_fact hshaped htxp hx, exec_answered htxp hx, (hs.logs p _ hp).mono hw⟩
  · intro s p t l x _ hs _ hp
    refine ⟨fun q => ?_, Pool.forall_put ((hs.logs p _ hp).mono (kill_extends p _)) fun q pr _ hq =>
      (hs.logs q pr hq).mono (kill_extends p _)⟩
    show (s.world.setTx p none).txOf q = _
    rw [World.txOf_setTx, Pool.put_proc]
    split
    · rfl
    · exact hs.txs q
  · intro s e w _ hs _ hw
    refine ⟨fun q => ?_, fun q pr hq => (hs.logs q pr hq).mono (outside_extends hw)⟩
    rw [outside_txOf hw]
    exact hs.txs q

/-- The induction for what depends on stored data only: a call changes it by one of the effects,
    under the protocol of its task and a true log. -/
theorem world_invariant {I : World → Prop} (hstart : ∀ s, start s → Fresh s)
    (h0 : ∀ s, start s → I s.world) (htx : ∀ w p tx, I w → I (w.setTx p tx))
    (hcall : ∀ s p ch (t : Task) l c k w, Reach (system env) ok start s → I s.world →
      ok s (.step p ch) → s.proc p = some ⟨t, l, .call c k, true⟩ → LogSound env s.world l →
      s.world.txOf p = History.tx l → t.Calls env l c → Effect p ch.newId s.world c w → I w)
    (hout : ∀ s e w, I s.world → ok s (.move e) → outside e s.world = some w → I w)
    (h : Reach (system env) ok start s) : I s.world := by
  refine Reach.invariant (I := fun s => I s.world) (task_sat env) (fun s hs => (hstart s hs).1) h0
    ?_ ?_ ?_ ?_ h
  · exact fun s p t _ hI _ _ => hI
  · intro s p ch t l c k w r hr hI hmet hp hc hx _
    have hs := sound hstart hr
    obtain ⟨w₁, he, rfl⟩ := exec_effect (hs.shaped hp hc) hx
    exact htx _ _ _ (hcall s p ch t l c k w₁ hr hI hmet hp (hs.logs p _ hp) (hs.txOf hp) hc he)
  · exact fun s p t l x _ hI _ _ => htx _ _ _ hI
  · exact fun s e w _ hI hok hw => hout s e w hI hok hw

/-- In every run a process obeys the protocol of its task. -/
theorem obeys (hstart : ∀ s, start s → Fresh s) (h : Reach (system env) ok start s) {p : Pid}
    {pr : Process} (hp : s.proc p = some pr) :
    Sat (pr.task.Calls env) (pr.task.Ends env) pr.log pr.todo :=
  h.sat (task_sat env) (fun s hs => (hstart s hs).1) hp

/-- A step from a reachable state extends the world. -/
theorem step_extends (hstart : ∀ s, start s → Fresh s) (h : Reach (system env) ok start s)
    {s' : State} {lb : Step} (hstep : (system env).step s lb = some s') :
    s.world.Extends s'.world := by
  have hs := sound hstart h
  cases Machine.step_cases hstep with
  | spawn free => exact World.Extends.refl _
  | call at_call served =>
    have hc := (obeys hstart h at_call).1
    exact exec_extends (hs.shaped at_call hc) served
  | crash alive => exact kill_extends _ _
  | move moved => exact outside_extends moved

/-- A run from a reachable state extends the world. -/
theorem run_extends (hstart : ∀ s, start s → Fresh s) (h : Reach (system env) ok start s)
    {s' : State} (hrun : Reach (system env) ok (· = s) s') : s.world.Extends s'.world := by
  induction hrun with
  | start heq => exact heq ▸ World.Extends.refl _
  | next hr _ hstep ih => exact ih.trans (step_extends hstart (h.trans hr) hstep)

end

end CashbackLedger
