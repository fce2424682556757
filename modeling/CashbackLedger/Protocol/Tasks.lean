import CashbackLedger.Protocol.Api
import CashbackLedger.Protocol.Worker

/-
  The protocol of every task, and what it says of each call that changes stored data.

  `task_sat` is the only place where all programs come together. The proofs about the system
  use it through the inversions below, one a kind of call.
-/

namespace CashbackLedger

open Lib History

/-- The calls a task may issue after a log. -/
def Task.Calls (env : Env) : Task → History → Call → Prop
  | .create header dto => CreateCall env header dto
  | .confirm header id => ConfirmCall env header id
  | .upsertRule merchantId dto => fun _ => UpsertRuleCall merchantId dto
  | .publishOnce => PublisherCall env
  | .consume offset => ConsumerCall env offset
  | .retryInbox => RetryCall env
  | .replay _ => ReplayCall

/-- How a task ends. -/
def Task.Ends (env : Env) : Task → History → Outcome → Prop
  | .create header dto => CreateEnd env header dto
  | .confirm header id => ConfirmEnd env header id
  | .retryInbox => fun l _ => l.parked = false
  | _ => fun _ _ => True

theorem sat_silent {P : History → Call → Prop} {q : History → Prop} {l : History} {x : Async Unit}
    (h : Sat P (fun l' _ => q l') l x.run) : Sat P (fun l' _ => q l') l (silent x).run :=
  Sat.act_bind h (fun _ _ hq => hq) fun _ _ hq => hq

/-- Every task obeys its protocol. -/
theorem task_sat (env : Env) (t : Task) :
    Sat (t.Calls env) (t.Ends env) [] (t.program env).run := by
  cases t with
  | create header dto => exact sat_create
  | confirm header id => exact sat_confirm
  | upsertRule merchantId dto => exact sat_upsertRule
  | publishOnce => exact sat_silent (sat_publishOnce rfl)
  | consume offset => exact sat_silent sat_consume
  | retryInbox => exact sat_silent (sat_retryInbox rfl)
  | replay argv => exact sat_silent (sat_replay argv)

/-- The key under which a request is served. -/
def Task.key : Task → Option (String × String)
  | .create header _ => (keyOf header).map fun key => (key, createScope)
  | .confirm header id => (keyOf header).map fun key => (key, confirmScope id)
  | _ => none

/-- The hash of a request. -/
def Task.requestHash (env : Env) : Task → String
  | .create _ dto => createHash env dto
  | .confirm _ id => confirmHash env id
  | _ => ""

/-- What a request has read or written under its key. -/
inductive Remembers (l : History) (k : String × String) (row : IdempotencyKey) : Prop where
  | read (got : Got l (.idem (.findUnique k.1 k.2)) (some row))
  | saved {row' : IdempotencyKey} (got : Got l (.idem (.upsert row)) row') (key : row.key = k.1)
      (scope : row.scope = k.2)

/-- The calls that add orders or events. -/
def Makes : Call → Prop
  | .orders (.create _) => True
  | .tx .commit => True
  | _ => False

theorem made_cons {c : Call} {r : Reply c} {l : History} (h : ¬ Makes c) :
    History.made (⟨c, r⟩ :: l) = l.made := by
  cases c with
  | orders c => cases c; exact absurd trivial h
  | tx c => cases c <;> first | rfl | exact absurd trivial h
  | _ => rfl

/-- A request that responds remembers the response under its key and hash. -/
theorem Task.Ends.served {env : Env} {t : Task} {l : History} {k : String × String} {j : Json}
    (h : t.Ends env l (.ok j)) (hk : t.key = some k) :
    ∃ row, Remembers l k row ∧ row.requestHash = t.requestHash env ∧ row.responseBody = j := by
  cases t with
  | create header dto =>
    obtain ⟨key, hkey, rfl⟩ := Option.map_eq_some_iff.mp hk
    rcases h with ⟨key', row, hkey', hgot, hhash, rfl⟩ | ⟨o, -, rfl, hsaved⟩
    · rw [hkey] at hkey'
      cases hkey'
      exact ⟨row, .read hgot, hhash, rfl⟩
    · obtain ⟨now, row, hgot⟩ := hsaved key hkey
      exact ⟨_, .saved hgot rfl rfl, rfl, rfl⟩
  | confirm header id =>
    obtain ⟨key, hkey, rfl⟩ := Option.map_eq_some_iff.mp hk
    rcases h with ⟨-, ⟨key', row, hkey', hgot, hhash, rfl, -⟩ | ⟨resp, -, -, rfl, hsaved⟩⟩
    · rw [hkey] at hkey'
      cases hkey'
      exact ⟨row, .read hgot, hhash, rfl⟩
    · obtain ⟨now, row, hgot⟩ := hsaved key hkey
      exact ⟨_, .saved hgot rfl rfl, rfl, rfl⟩
  | _ => cases hk

theorem Task.Ends.refused {env : Env} {t : Task} {l : History} {k : String × String} {e : Fault}
    (h : t.Ends env l (.error e)) (hk : t.key = some k) : Refused l e := by
  cases t with
  | create header dto => exact h
  | confirm header id => exact h
  | _ => cases hk

/-! ## What the protocol says of a call -/

/-- What a transaction of the programs commits, and what it is made from. -/
inductive CommitKind (env : Env) (l : History) : List TxWrite → Prop where
  | nothing : CommitKind env l []
  | confirm {id : String} {o : Order} {e : OutboxEvent} (made : Confirming env l id o e) :
      CommitKind env l [.orderStatus o.id o.status, .outbox e]
  | credit {x : Option Json} {o : Order} {cashback : Decimal} {entry : LedgerEntry}
      (found : FoundConfirmed l x o)
      (made : Got l (.stmt (.ledgerCreate (creditData o cashback))) entry) :
      CommitKind env l [.ledger entry]

theorem HandlerCall.commit {env : Env} {l : History} {x : Option Json} {tx : Tx}
    (h : HandlerCall x l (.tx .commit)) (htx : l.tx = some tx) (hab : tx.aborted = false) :
    CommitKind env l tx.writes := by
  obtain ⟨o, cashback, entry, hf, hg, hw⟩ := h tx htx hab
  rw [hw]
  exact .credit hf hg

/-- The calls that the program of a task holds. -/
def Task.Uses : Task → Call → Prop
  | .create _ _, .idem _ => True
  | .create _ _, .orders _ => True
  | .confirm _ _, .idem _ => True
  | .confirm _ _, .tx _ => True
  | .upsertRule _ _, .rules _ => True
  | .upsertRule _ _, .redis _ => True
  | .publishOnce, .outbox _ => True
  | .publishOnce, .kafka (.send .events _) => True
  | .publishOnce, .proc _ => True
  | .consume _, .kafka (.fetch _) => True
  | .consume _, .kafka (.commitOffset _) => True
  | .consume _, .inbox (.upsert _ _ _) => True
  | .consume _, .inbox (.update _ _) => True
  | .retryInbox, .kafka (.send .dlq _) => True
  | .retryInbox, .inbox (.findMany _ _) => True
  | .retryInbox, .inbox (.update _ _) => True
  | .replay _, .outbox (.findMany _ _) => True
  | .replay _, .outbox (.update _ _) => True
  | .replay _, .inbox (.findMany _ _) => True
  | .replay _, .inbox (.update _ _) => True
  -- the handler runs in both
  | .consume _, .tx _ | .retryInbox, .tx _ => True
  | .consume _, .redis _ | .retryInbox, .redis _ => True
  | .consume _, .proc _ | .retryInbox, .proc _ => True
  | _, _ => False

theorem HandlerCall.uses {l : History} {x : Option Json} {c : Call} (h : HandlerCall x l c)
    (offset : Nat) : Task.Uses (.consume offset) c ∧ Task.Uses .retryInbox c := by
  cases c with
  | tx c => exact ⟨trivial, trivial⟩
  | redis c => exact ⟨trivial, trivial⟩
  | proc c => exact ⟨trivial, trivial⟩
  | _ => exact h.elim

namespace Task.Calls

variable {env : Env} {t : Task} {l : History} {c : Call}

/-- A task makes only the calls that its program holds. -/
theorem uses (h : t.Calls env l c) : t.Uses c := by
  cases t with
  | create header dto =>
    cases c with
    | idem c => trivial
    | orders c => trivial
    | _ => exact h.elim
  | confirm header id =>
    cases c with
    | idem c => trivial
    | tx c => trivial
    | _ => exact h.elim
  | upsertRule merchantId dto =>
    cases c with
    | rules c => trivial
    | redis c => trivial
    | _ => exact h.elim
  | publishOnce =>
    cases c with
    | outbox c => trivial
    | proc c => trivial
    | kafka c =>
      cases c with
      | send topic m =>
        cases topic with
        | events => trivial
        | dlq => exact h.elim
      | _ => exact h.elim
    | _ => exact h.elim
  | consume offset =>
    have hhandler : ∀ {x : Option Json}, HandlerCall x l c → Task.Uses (.consume offset) c :=
      fun hh => (hh.uses offset).1
    cases c with
    | kafka c =>
      cases c with
      | send topic m =>
        obtain ⟨_, _, -, hh⟩ := h
        exact hhandler hh
      | _ => trivial
    | inbox c =>
      cases c with
      | findMany sel take =>
        obtain ⟨_, _, -, hh⟩ := h
        exact hhandler hh
      | _ => trivial
    | _ =>
      obtain ⟨_, _, -, hh⟩ := h
      exact hhandler hh
  | retryInbox =>
    have hhandler : ∀ {x : Option Json}, HandlerCall x l c → Task.Uses .retryInbox c :=
      fun hh => (hh.uses 0).2
    cases c with
    | kafka c =>
      cases c with
      | send topic m =>
        cases topic with
        | dlq => trivial
        | events =>
          obtain ⟨-, _, -, hh⟩ := h
          exact hhandler hh
      | _ =>
        obtain ⟨-, _, -, hh⟩ := h
        exact hhandler hh
    | inbox c =>
      cases c with
      | upsert sid type payload =>
        obtain ⟨-, _, -, hh⟩ := h
        exact hhandler hh
      | _ => trivial
    | proc c => trivial
    | _ =>
      obtain ⟨-, _, -, hh⟩ := h
      exact hhandler hh
  | replay argv =>
    cases c with
    | outbox c =>
      cases c with
      | findMany sel take => trivial
      | update id u => trivial
      | _ => exact h.elim
    | inbox c =>
      cases c with
      | findMany sel take => trivial
      | update id u => trivial
      | _ => exact h.elim
    | _ => exact h.elim

theorem commit (h : t.Calls env l (.tx .commit)) {tx : Tx} (htx : l.tx = some tx)
    (hab : tx.aborted = false) : CommitKind env l tx.writes := by
  cases t with
  | confirm header id =>
    obtain ⟨-, -, resp, ⟨o, -, -, hopen, -⟩ | ⟨o₀, o, e, -, -, hc, hopen, -⟩⟩ := h
    · rw [hopen] at htx
      cases htx
      exact .nothing
    · rw [hopen] at htx
      cases htx
      exact .confirm hc
  | consume offset =>
    obtain ⟨sid, payload, -, hh⟩ := h
    exact hh.commit htx hab
  | retryInbox =>
    obtain ⟨-, e, -, hh⟩ := h
    exact hh.commit htx hab
  | _ => exact h.uses.elim

/-- A confirmation is committed only by the request that read the order as CREATED. -/
theorem confirmCommit (h : t.Calls env l (.tx .commit)) {tx : Tx} (htx : l.tx = some tx)
    (hab : tx.aborted = false) {id : Uuid} {st : OrderStatus} {e : OutboxEvent}
    (hw : tx.writes = [.orderStatus id st, .outbox e]) :
    ∃ header oid o₀ o, t = .confirm header oid ∧ ReadAs l oid .CREATED o₀ ∧
      l.readCreated = some o₀.id ∧ Confirming env l oid o e ∧ o.id = id := by
  have hcredit : ∀ {x : Option Json}, HandlerCall x l (.tx .commit) → False := by
    intro x hh
    obtain ⟨_, _, _, -, -, hw'⟩ := hh tx htx hab
    rw [hw] at hw'
    cases hw'
  cases t with
  | confirm header oid =>
    obtain ⟨-, -, resp, ⟨o, -, -, hopen, -⟩ | ⟨o₀, o, e', hr, hread, hc, hopen, -⟩⟩ := h
    · rw [hopen] at htx
      cases htx
      cases hw
    · rw [hopen] at htx
      cases htx
      cases hw
      exact ⟨header, oid, o₀, o, rfl, hr, hread, hc, rfl⟩
  | consume offset =>
    obtain ⟨sid, payload, -, hh⟩ := h
    exact (hcredit hh).elim
  | retryInbox =>
    obtain ⟨-, e, -, hh⟩ := h
    exact (hcredit hh).elim
  | _ => exact h.uses.elim

/-- A key is looked up by the first call of a request, under its own key. -/
theorem lookup {key scope : String} (h : t.Calls env l (.idem (.findUnique key scope))) :
    t.key = some (key, scope) ∧ l = [] := by
  cases t with
  | create header dto =>
    obtain ⟨hkey, rfl, rfl⟩ := h
    exact ⟨by simp only [Task.key, hkey, Option.map_some], rfl⟩
  | confirm header id =>
    obtain ⟨hkey, rfl, rfl⟩ := h
    exact ⟨by simp only [Task.key, hkey, Option.map_some], rfl⟩
  | _ => exact h.uses.elim

/-- A response is saved by the request that has looked its key up in vain, under its own hash. -/
theorem save {row : IdempotencyKey} (h : t.Calls env l (.idem (.upsert row))) :
    t.key = some (row.key, row.scope) ∧ l.missed = some (row.key, row.scope) ∧
      row.requestHash = t.requestHash env := by
  cases t with
  | create header dto =>
    obtain ⟨key, o, now, hkey, hmissed, -, -, rfl⟩ := h
    exact ⟨by simp only [Task.key, hkey, Option.map_some, createRecord], hmissed key hkey, rfl⟩
  | confirm header id =>
    obtain ⟨key, resp, now, hkey, hmissed, -, rfl⟩ := h
    exact ⟨by simp only [Task.key, hkey, Option.map_some, confirmRecord], hmissed key hkey, rfl⟩
  | _ => exact h.uses.elim

/-- A request adds to the stored data once, after it has looked its key up in vain. -/
theorem makes {k : String × String} (h : t.Calls env l c) (hk : t.key = some k) (hc : Makes c) :
    l.missed = some k ∧ l.made = [] := by
  cases t with
  | create header dto =>
    obtain ⟨key, hkey, rfl⟩ := Option.map_eq_some_iff.mp hk
    cases c with
    | orders c =>
      cases c with
      | create d => exact ⟨h.2.1 key hkey, h.2.2.1⟩
    | tx c => cases c <;> first | exact hc.elim | exact h.elim
    | _ => exact hc.elim
  | confirm header id =>
    obtain ⟨key, hkey, rfl⟩ := Option.map_eq_some_iff.mp hk
    cases c with
    | orders c => exact h.elim
    | tx c =>
      cases c with
      | commit => exact ⟨h.1 key hkey, h.2.1⟩
      | _ => exact hc.elim
    | _ => exact hc.elim
  | _ => cases hk

/-- A request makes one order or one event at most. -/
theorem made_le {k : String × String} (h : t.Calls env l c) (hk : t.key = some k)
    (hle : l.made.length ≤ 1) (r : Reply c) : (History.made (⟨c, r⟩ :: l)).length ≤ 1 := by
  by_cases hc : Makes c
  · obtain ⟨-, hnone⟩ := h.makes hk hc
    obtain ⟨x, now⟩ := r
    cases x with
    | error err =>
      have hsame : History.made (⟨c, (.error err, now)⟩ :: l) = l.made := by
        cases c with
        | orders c => cases c; rfl
        | tx c => cases c <;> rfl
        | _ => exact hc.elim
      rw [hsame]
      exact hle
    | ok x =>
      cases c with
      | orders c =>
        cases c
        show (_ :: History.made l).length ≤ 1
        rw [hnone]
        exact le_refl 1
      | tx c =>
        cases c with
        | commit =>
          show (((History.tx l).elim [] History.events).map Sum.inr ++ History.made l).length ≤ 1
          rw [hnone, List.append_nil, List.length_map]
          cases t with
          | confirm header id =>
            obtain ⟨-, -, resp, ⟨o, -, -, hopen, -⟩ | ⟨o₀, o, e, -, -, -, hopen, -⟩⟩ := h
            · rw [hopen]
              exact Nat.zero_le 1
            · rw [hopen]
              exact le_refl 1
          | create header dto => exact h.elim
          | _ => cases hk
        | _ => exact hc.elim
      | _ => exact hc.elim
  · rw [made_cons hc]
    exact hle

theorem orderCreate {d : OrderData} (h : t.Calls env l (.orders (.create d))) :
    ∃ header dto, t = .create header dto ∧ d = dto.data := by
  cases t with
  | create header dto => exact ⟨header, dto, rfl, h.1⟩
  | _ => exact h.uses.elim

/-- An order is stored as CREATED. -/
theorem orderCreated {d : OrderData} (h : t.Calls env l (.orders (.create d))) :
    d.status = .CREATED := by
  obtain ⟨header, dto, -, rfl⟩ := h.orderCreate
  rfl

/-- Outbox rows are updated by the publisher and by the replay CLI. -/
theorem outboxUpdate {id : Uuid} {u : OutboxUpdate} (h : t.Calls env l (.outbox (.update id u))) :
    (t = .publishOnce ∧ PublisherCall env l (.outbox (.update id u))) ∨
      ∃ argv, t = .replay argv ∧ ReplayCall l (.outbox (.update id u)) := by
  cases t with
  | publishOnce => exact Or.inl ⟨rfl, h⟩
  | replay argv => exact Or.inr ⟨argv, rfl, h⟩
  | _ => exact h.uses.elim

theorem claim {id : Uuid} (h : t.Calls env l (.outbox (.claim id))) :
    t = .publishOnce ∧ Unclaimed l ∧ ∃ e, OutboxBatch l e ∧ e.id = id := by
  cases t with
  | publishOnce => exact ⟨rfl, h⟩
  | _ => exact h.uses.elim

theorem publish {m : KafkaMessage} (h : t.Calls env l (.kafka (.send .events m))) :
    t = .publishOnce ∧ ∃ e, OutboxBatch l e ∧ m = outboxMessage env e ∧
      l.claiming = some (e.id, false) := by
  cases t with
  | publishOnce => exact ⟨rfl, h⟩
  | _ => exact h.uses.elim

theorem inboxUpsert {sid type : String} {payload : Json}
    (h : t.Calls env l (.inbox (.upsert sid type payload))) :
    ∃ offset, t = .consume offset ∧ type = "OrderConfirmed" ∧
      Delivered env offset l sid payload := by
  cases t with
  | consume offset => exact ⟨offset, rfl, h⟩
  | _ => exact h.uses.elim

theorem commitOffset {offset : Nat} (h : t.Calls env l (.kafka (.commitOffset offset))) :
    t = .consume offset ∧ ∃ m, Got l (.kafka (.fetch offset)) m ∧
      ∀ sid payload, Carries env m sid payload → Recorded l sid payload := by
  cases t with
  | consume offset' =>
    obtain ⟨rfl, m, hm, hrec⟩ := h
    exact ⟨rfl, m, hm, hrec⟩
  | _ => exact h.uses.elim

/-- The process handles the inbox row `id` as an event with this payload. -/
inductive Handles (env : Env) (l : History) (id : Uuid) (payload : Json) : Task → Prop where
  | consume {offset : Nat} {sid : String} {row : InboxEvent}
      (delivered : Delivered env offset l sid payload)
      (stored : Got l (.inbox (.upsert sid "OrderConfirmed" payload)) row) (same : row.id = id) :
      Handles env l id payload (.consume offset)
  | retry {e : InboxEvent} (attempting : Attempting l e) (same : e.id = id)
      (stored : e.payload = payload) : Handles env l id payload .retryInbox

/-- A row becomes PROCESSED only after the order of the event at hand is credited. -/
theorem processed {id : Uuid} {u : InboxUpdate} (h : t.Calls env l (.inbox (.update id u)))
    (hu : u.status = some .PROCESSED) :
    ∃ payload, Handles env l id payload t ∧ Credited l (payload.field "orderId") := by
  cases t with
  | consume offset =>
    obtain ⟨-, sid, payload, row, hd, hg, hid, hc⟩ := h
    exact ⟨payload, .consume hd hg hid, hc⟩
  | retryInbox =>
    obtain ⟨-, e, ha, hid, ⟨-, hc⟩ | ⟨-, hn | ⟨hf, -⟩⟩⟩ := h
    · exact ⟨e.payload, .retry ha hid rfl, hc⟩
    · rw [hu] at hn
      cases hn
    · rw [hu] at hf
      cases hf
  | replay argv =>
    have hp := h.1
    rw [hu] at hp
    cases hp
  | _ => exact h.uses.elim

/-- A row becomes FAILED only in the retry loop, by an attempt that is not settled. -/
theorem failed {id : Uuid} {u : InboxUpdate} (h : t.Calls env l (.inbox (.update id u)))
    (hu : u.status = some .FAILED) :
    t = .retryInbox ∧ Unsettled l ∧ ∃ e updated, Attempting l e ∧ e.id = id ∧ Counted l e updated ∧
      env.maxAttempts ≤ updated.attempts := by
  cases t with
  | consume offset =>
    have hp := h.1
    rw [hu] at hp
    cases hp
  | retryInbox =>
    obtain ⟨-, e, ha, hid, ⟨hp, -⟩ | ⟨huns, hn | ⟨-, updated, hc, hm⟩⟩⟩ := h
    · rw [hu] at hp
      cases hp
    · rw [hu] at hn
      cases hn
    · exact ⟨rfl, huns, e, updated, ha, hid, hc, hm⟩
  | replay argv =>
    have hp := h.1
    rw [hu] at hp
    cases hp
  | _ => exact h.uses.elim

theorem deadLetter {m : KafkaMessage} (h : t.Calls env l (.kafka (.send .dlq m))) :
    t = .retryInbox ∧ DeadLetters env l m := by
  cases t with
  | retryInbox => exact ⟨rfl, h⟩
  | _ => exact h.uses.elim

/-- The handler's look at an order is for the event at hand. -/
theorem orderFindUnique {x : Option Json} (h : t.Calls env l (.stmt (.orderFindUnique x))) :
    (∃ header id, t = .confirm header id ∧ x = some (.str id)) ∨
      (∃ offset sid payload, t = .consume offset ∧ Delivered env offset l sid payload ∧
        x = payload.field "orderId") ∨
      ∃ e, t = .retryInbox ∧ Attempting l e ∧ x = e.payload.field "orderId" := by
  cases t with
  | confirm header id => exact Or.inl ⟨header, id, rfl, h⟩
  | consume offset =>
    obtain ⟨sid, payload, hd, hx⟩ := h
    exact Or.inr (Or.inl ⟨offset, sid, payload, rfl, hd, hx⟩)
  | retryInbox =>
    obtain ⟨-, e, ha, hx⟩ := h
    exact Or.inr (Or.inr ⟨e, rfl, ha, hx⟩)
  | _ => exact h.uses.elim

end Task.Calls

end CashbackLedger
