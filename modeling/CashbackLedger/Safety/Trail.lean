import CashbackLedger.Safety.Convergence
import CashbackLedger.Safety.Timely

/-
  The trail of a credit.

  Where nobody else writes to the topic, every entry of the ledger leads back along the whole
  pipeline: to an inbox row that names its order, to the outbox event that the row repeats and whose
  message is on the topic, to the confirmed order of that event (`credits_are_traced`). A handler
  has its event from a delivered message it has stored or from a row it has read (`Received`), and
  in both cases the inbox holds the event before the entry is inserted (`Received.row`). So the
  trail is there even while the row is not marked yet, and when the worker dies before it marks it.
-/

namespace CashbackLedger

open Lib History

/-- Where a process has an event from: a delivered message it has stored, or a row it has read. -/
inductive Received (env : Env) (l : History) (ev : Event) : Prop where
  | stored {offset : Nat} {type : String} {row : InboxEvent}
      (delivered : Delivered env offset l ev.sourceEventId ev.payload)
      (got : Got l (.inbox (.upsert ev.sourceEventId type ev.payload)) row)
  | read {e : InboxEvent} (batch : InboxBatch l e) (same : ev = ⟨e.sourceEventId, e.payload⟩)

/-- A process has received what it handles and what it handles next. -/
def AllReceived (env : Env) (l : History) : Prop :=
  ∀ ev, ev ∈ l.handled ∨ l.handed = some ev → Received env l ev

/-- The inbox row repeats an outbox event whose message is on the topic. -/
def InboxEvent.Posted (env : Env) (w : World) (i : InboxEvent) : Prop :=
  ∃ e ∈ w.outbox, i.sourceEventId = e.id.text ∧ i.payload = e.payload ∧
    outboxMessage env e ∈ w.broker.events

/-- An inbox row names the order of the entry. -/
def LedgerEntry.Noted (env : Env) (w : World) (entry : LedgerEntry) : Prop :=
  ∃ i ∈ w.inbox, readId env (i.payload.field "orderId") = some entry.orderId

section

variable {env : Env} {p : Pid} {newId : Uuid} {w w' w₁ : World} {l l' : History} {c : Call}
  {t : Task} {ev : Event} {entry : LedgerEntry} {s : State}

/-! ## The events of a handler -/

theorem Received.mono (h : Received env l ev) (hl : l <:+ l') : Received env l' ev := by
  cases h with
  | stored delivered got =>
    obtain ⟨m, hfetched, hcarries⟩ := delivered
    exact .stored ⟨m, hfetched.mono hl, hcarries⟩ (got.mono hl)
  | read batch same => exact .read (batch.mono hl) same

/-- What is handled was handed before. -/
theorem mem_handled_cons {x : Σ c, Reply c} (h : ev ∈ handled (x :: l)) :
    ev ∈ l.handled ∨ l.handed = some ev := by
  by_cases hx : Begins x
  · obtain ⟨c, r⟩ := x
    cases c with
    | tx c =>
      cases c with
      | begin =>
        rcases List.mem_append.mp h with hhanded | hhandled
        · exact Or.inr (Option.mem_toList.mp hhanded)
        · exact Or.inl hhandled
      | _ => exact hx.elim
    | _ => exact hx.elim
  · exact Or.inl (handled_cons hx ▸ h)

/-- An attempt is begun on a row of the batch. -/
theorem Task.Calls.attempt {e : InboxEvent} (h : t.Calls env l (.proc (.inboxRetriesInc e))) :
    InboxBatch l e := by
  cases t with
  | retryInbox => exact h.2
  | publishOnce => exact h.elim
  | consume offset =>
    obtain ⟨_, _, -, hcall⟩ := h
    exact hcall.elim
  | _ => exact h.uses.elim

/-- The two calls after which a process has an event in hand. -/
theorem handed_cons {r : Reply c} (hc : t.Calls env l c) (h : handed (⟨c, r⟩ :: l) = some ev) :
    Received env (⟨c, r⟩ :: l) ev := by
  unfold handed at h
  split at h
  · next sid type payload row now l₀ heq =>
    cases heq
    cases h
    obtain ⟨offset, -, -, m, hfetched, hcarries⟩ := hc.inboxUpsert
    exact .stored ⟨m, hfetched.mono (List.suffix_cons _ l), hcarries⟩ (got_head _ _ _)
  · next e y l₀ heq =>
    cases heq
    cases h
    exact .read (hc.attempt.cons _) rfl
  · cases h

theorem AllReceived.cons {r : Reply c} (h : AllReceived env l) (hc : t.Calls env l c) :
    AllReceived env (⟨c, r⟩ :: l) := by
  rintro ev (hhandled | hhanded)
  · exact (h ev (mem_handled_cons hhandled)).mono (List.suffix_cons _ l)
  · exact handed_cons hc hhanded

theorem allReceived_nil : AllReceived env [] := by
  rintro ev (h | h)
  · exact absurd h List.not_mem_nil
  · cases h

theorem received_sat (env : Env) (t : Task) :
    Sat (fun l c => t.Sources env l c ∧ AllReceived env l) (t.Ends env) [] (t.program env).run := by
  have halong := (sourced_sat env t).along allReceived_nil fun l c r hl hc => hl.cons hc.1
  exact halong.mono (fun _ _ h => h) fun _ _ h => h.1

/-! ## The inbox -/

theorem InboxEvent.Posted.mono {i : InboxEvent} (h : i.Posted env w) (hw : w.Extends w') :
    i.Posted env w' := by
  obtain ⟨e, he, hsid, hpayload, hmessage⟩ := h
  obtain ⟨e', he', hid', hpayload', hmessage'⟩ := hw.outbox_row env he
  refine ⟨e', he', by rw [hsid, hid'], by rw [hpayload, hpayload'], ?_⟩
  rw [hmessage']
  exact hw.events.subset hmessage

/-- The row that a delivered message is stored in. -/
theorem Delivered.posted {offset : Nat} {sid : String} {payload : Json} (hI : Stores env w)
    (hconf : Confirmations env w) (hl : LogSound env w l) (h : Delivered env offset l sid payload) :
    ∃ e ∈ w.outbox, sid = e.id.text ∧ payload = e.payload ∧
      outboxMessage env e ∈ w.broker.events := by
  obtain ⟨m, hg, hcar⟩ := h
  obtain ⟨_, hm⟩ := hl.got hg
  have hmessage := List.mem_of_getElem? hm
  obtain ⟨e, he, rfl⟩ := hI.topic m hmessage
  obtain ⟨hsid, hpayload⟩ := carries_outboxMessage (hconf.order e he) hcar
  exact ⟨e, he, hsid, hpayload, hmessage⟩

theorem Effect.posted (h : ∀ i ∈ w.inbox, i.Posted env w) (hI : Stores env w)
    (hconf : Confirmations env w) (hl : LogSound env w l) (hc : t.Calls env l c)
    (heff : Effect p newId w c w₁) : ∀ i ∈ w₁.inbox, i.Posted env w₁ := by
  intro i hi
  rcases heff.inbox_origin hi with ⟨i₀, hi₀, hcore, -⟩ | ⟨sid, type, payload, rfl, rfl, -⟩
  · obtain ⟨-, hsid, -, hpayload, -⟩ := InboxEvent.of_core hcore
    obtain ⟨e, he, hsid₀, hpayload₀, hmessage⟩ := (h i₀ hi₀).mono heff.grows
    exact ⟨e, he, hsid.trans hsid₀, hpayload.trans hpayload₀, hmessage⟩
  · obtain ⟨offset, rfl, rfl, hd⟩ := hc.inboxUpsert
    have hposted : (InboxCall.created newId w.clock sid "OrderConfirmed" payload).Posted env w :=
      hd.posted hI hconf hl
    exact hposted.mono heff.grows

theorem posted {ok : State → Step → Prop} (hown : ∀ s lb, ok s lb → ownTopic lb = true)
    (h : Reach (system env) ok (· = initial) s) : ∀ i ∈ s.world.inbox, i.Posted env s.world := by
  refine world_invariant
    (I := fun w => ∀ i ∈ w.inbox, i.Posted env w) fresh_of_initial ?_ ?_ ?_ ?_ h
  · rintro s rfl i hi
    exact absurd hi (Table.not_mem_empty i)
  · exact fun w p tx hI => hI
  · intro s p ch t l c k w hr hI _ _ hl _ hc heff
    exact heff.posted hI (stores hown hr) (confirmations hr) hl hc
  · intro s e w hI hmet hw
    cases e with
    | tick ms =>
      cases hw
      exact hI
    | produce m => cases hown _ _ hmet
    | rewind offset =>
      cases hw
      exact hI

/-- The inbox holds what a handler has received. -/
theorem Received.row (hI : Stores env w) (hconf : Confirmations env w) (hl : LogSound env w l)
    (h : Received env l ev) : ∃ i ∈ w.inbox, i.payload = ev.payload := by
  cases h with
  | stored delivered got =>
    obtain ⟨e, he, hsid, hpayload⟩ := delivered.genuine hI hconf hl
    obtain ⟨_, ⟨i, hi, hcore⟩, hrow⟩ := hl.got got
    obtain ⟨e', he', hsid', hpayload'⟩ := hI.stored i hi
    have htext : e'.id.text = e.id.text := by
      rw [← hsid', (InboxEvent.of_core hcore).2.1, hrow, hsid]
    have heq : e' = e := Table.eq_of_clash he' he (by simp [Indexed.clash, Uuid.text_inj htext])
    exact ⟨i, hi, by rw [hpayload', heq, hpayload]⟩
  | read batch same =>
    obtain ⟨i, hi, hcore⟩ := batch.row hl
    exact ⟨i, hi, by rw [same]; exact (InboxEvent.of_core hcore).2.2.2.1⟩

/-! ## The ledger -/

theorem LedgerEntry.Noted.mono (h : entry.Noted env w) (hw : w.Extends w') :
    entry.Noted env w' := by
  obtain ⟨i, hi, hid⟩ := h
  obtain ⟨i', hi', hcore⟩ := hw.inbox i hi
  exact ⟨i', hi', by rw [(InboxEvent.of_core hcore).2.2.2.1]; exact hid⟩

/-- An entry is committed for the order that an inbox row names. -/
theorem CommitKind.noted (hI : Stores env w) (hconf : Confirmations env w) (hl : LogSound env w l)
    (hall : AllSourced env l) (hreceived : AllReceived env l)
    (h : CommitKind env l [.ledger entry]) : entry.Noted env w := by
  generalize hws : [TxWrite.ledger entry] = ws at h
  cases h with
  | nothing => cases hws
  | confirm made => cases hws
  | credit found made =>
    cases hws
    obtain ⟨ev, hev, o, read, rule, hf, -, -, hd⟩ := hall _ made.issued
    obtain ⟨_, -, hid⟩ := hl.got hf.1
    rw [hd] at made
    obtain ⟨_, -, horder, -⟩ := hl.got made
    obtain ⟨i, hi, hpayload⟩ := (hreceived ev (Or.inl hev)).row hI hconf hl
    refine ⟨i, hi, ?_⟩
    rw [hpayload, horder]
    exact hid

theorem noted {ok : State → Step → Prop} (hown : ∀ s lb, ok s lb → ownTopic lb = true)
    (h : Reach (system env) ok (· = initial) s) :
    ∀ entry ∈ s.world.ledger, entry.Noted env s.world := by
  refine Reach.invariant (I := fun s => ∀ entry ∈ s.world.ledger, entry.Noted env s.world)
    (received_sat env) (fun s hs => (fresh_of_initial s hs).1) ?_ ?_ ?_ ?_ ?_ h
  · rintro s rfl entry he
    exact absurd he (Table.not_mem_empty entry)
  · exact fun s p t _ hI _ _ => hI
  · intro s p ch t l c k w r hr hI _ hp hc hx _ entry he
    have hs := sound fresh_of_initial hr
    have hshaped := hs.shaped hp hc.1.1
    have hw := exec_extends hshaped hx
    obtain ⟨w₁, heff, rfl⟩ := exec_effect hshaped hx
    rcases heff.ledger_origin he with he | ⟨rfl, tx, hmine, hab, hwrites⟩
    · exact (hI entry he).mono hw
    · have htx : History.tx l = some tx := (hs.txOf hp).symm.trans hmine
      have hkind := hc.1.1.commit htx hab
      rw [hwrites] at hkind
      exact (hkind.noted (stores hown hr) (confirmations hr) (hs.logs p _ hp) hc.1.2.2 hc.2).mono hw
  · exact fun s p t l x _ hI _ _ entry he => (hI entry he).mono (kill_extends p _)
  · intro s e w hr hI hmet hw entry he
    have hledger : w.ledger = s.world.ledger := by cases e <;> cases hw <;> rfl
    exact (hI entry (hledger ▸ he)).mono (outside_extends hw)

/-- Where nobody else writes to the topic, every entry of the ledger leads back to an inbox row
    whose payload names its order, to the outbox event that the row repeats and whose message is on
    the topic, and to the confirmed order of the event, which is the order of the entry; they were
    created in this order. -/
theorem credits_are_traced (env : Env)
    (h : Reach (system env) (fun _ lb => ownTopic lb = true) (· = initial) s)
    (hmem : entry ∈ s.world.ledger) :
    ∃ i ∈ s.world.inbox, ∃ e ∈ s.world.outbox, ∃ o ∈ s.world.orders,
      readId env (i.payload.field "orderId") = some entry.orderId ∧ i.sourceEventId = e.id.text ∧
        i.payload = e.payload ∧ outboxMessage env e ∈ s.world.broker.events ∧
      EventOf e o ∧ o.status = .CONFIRMED ∧ entry.orderId = o.id ∧
      o.createdAt ≤ e.createdAt ∧ e.createdAt ≤ i.createdAt := by
  have hown : ∀ (s : State) lb, ownTopic lb = true → ownTopic lb = true := fun _ _ hmet => hmet
  obtain ⟨i, hi, hid⟩ := noted hown h entry hmem
  obtain ⟨e, he, hsid, hpayload, hmessage⟩ := posted hown h i hi
  obtain ⟨htype, -, o, ho, hstatus, hagg, now, hp⟩ := (confirmations h).order e he
  obtain ⟨o', ho', hagg', horder⟩ := (timesInOrder h).events e he
  have hsame : o' = o := Table.eq_of_clash ho' ho (by
    simp [Indexed.clash, Uuid.text_inj (hagg'.symm.trans hagg)])
  obtain ⟨e', he', hsid', hcreated⟩ := inboxFollows hown h i hi
  have hevent : e' = e := Table.eq_of_clash he' he (by
    simp [Indexed.clash, Uuid.text_inj (hsid'.symm.trans hsid)])
  have hentry : o.id = entry.orderId := by
    have hnamed := hid
    rw [hpayload, hp, (confirmedPayload_of env o now).orderId] at hnamed
    exact Option.some_inj.mp ((env.readUuid_text o.id).symm.trans hnamed)
  subst hsame hevent
  exact ⟨i, hi, e', he, o', ho, hid, hsid, hpayload,
    hmessage, ⟨htype, hagg⟩, hstatus, hentry.symm, horder,
    hcreated⟩

open Platform in
/-- The worker dies between the commit of the entry and the mark of the inbox row. -/
def creditAndDie : List Step :=
  createAndConfirm ++ publishEvent ++ .spawn 3 (.consume 0) :: serves 3 11 ++ [.crash 3]

/-- The entry has its trail, although its inbox row is still PENDING. -/
theorem credits_are_traced_run :
    ∃ s entry i e o, (system (platform id)).run initial creditAndDie = some s ∧
    entry ∈ s.world.ledger ∧ i ∈ s.world.inbox ∧ i.status = .PENDING ∧ e ∈ s.world.outbox ∧
    i.sourceEventId = e.id.text ∧ EventOf e o ∧ entry.orderId = o.id := by
  have hrun : (((system (platform id)).run initial creditAndDie).map fun s =>
      s.world.ledger.any (fun entry => entry.type == .CREDIT) &&
        s.world.inbox.rows.all fun i => i.status == .PENDING) = some true := by decide +kernel
  obtain ⟨s, hs, hboth⟩ := Option.map_eq_some_iff.mp hrun
  obtain ⟨hany, hall⟩ := Bool.and_eq_true_iff.mp hboth
  obtain ⟨entry, hentry, -⟩ := Table.any_iff.mp hany
  have hown : ∀ lb ∈ creditAndDie, ownTopic lb = true := by decide +kernel
  have h0 : Reach (system (platform id)) (fun _ lb => ownTopic lb = true) (· = initial) initial :=
    .start rfl
  have hreach := h0.of_run creditAndDie (fun lb hm _ => hown lb hm) hs
  obtain ⟨i, hi, e, he, o, -, -, hsid, -, -, hevent, -, horder, -⟩ :=
    credits_are_traced (platform id) hreach hentry
  have hpending : i.status = .PENDING := beq_iff_eq.mp (List.all_eq_true.mp hall i hi)
  exact ⟨s, entry, i, e, o, hs, hentry, hi, hpending, he, hsid, hevent, horder⟩

end

end CashbackLedger
