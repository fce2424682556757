import CashbackLedger.Protocol.Handler

/-
  What the requests of the API do, call by call: creating an order, confirming it, changing a
  merchant's rule.

  A keyed request looks its key up first, runs the operation only after a miss, and stores the
  response of the operation it ran.
-/

namespace CashbackLedger

open Lib History

/-- A request with a key has looked it up in vain. -/
def Missed (header : Option String) (scope : String) (l : History) : Prop :=
  ∀ key, keyOf header = some key → l.missed = some (key, scope)

/-- How a request ends that does not respond: a call has failed, or it has made nothing and answers
    409. -/
def Refused (l : History) (e : Fault) : Prop := AnyFailed l ∨ (∃ m, e = .conflict m) ∧ l.made = []

theorem refused_head {c : Call} (e err : Fault) (now : Time) (l : History) :
    Refused (⟨c, (.error e, now)⟩ :: l) err := Or.inl (anyFailed_head e now l)

/-! ## Creating an order -/

/-- The hash of a `POST /orders` request. -/
def createHash (env : Env) (dto : CreateOrderDto) : String :=
  hashRequest env "POST" "/orders" (some dto.json)

/-- What a keyed `create` stores for the order it made. -/
def createRecord (env : Env) (key : String) (dto : CreateOrderDto) (o : Order) (now : Time) :
    IdempotencyKey :=
  { key := key, scope := createScope, requestHash := createHash env dto,
    responseBody := orderResponse env o, expiresAt := expiry now (some (24 * 3600)) }

def CreateCall (env : Env) (header : Option String) (dto : CreateOrderDto) (l : History) :
    Call → Prop
  | .idem (.findUnique key scope) => keyOf header = some key ∧ scope = createScope ∧ l = []
  | .orders (.create d) => d = dto.data ∧ Missed header createScope l ∧ l.made = [] ∧ ¬ AnyFailed l
  | .idem (.upsert row) => ∃ key o now, keyOf header = some key ∧ Missed header createScope l ∧
      l.made = [.inl o] ∧ ¬ AnyFailed l ∧ row = createRecord env key dto o now
  | _ => False

/-- The response of `create`: a stored one under the same hash, or that of the order it made, which
    is then stored under its key. -/
def CreateEnd (env : Env) (header : Option String) (dto : CreateOrderDto) (l : History) :
    Outcome → Prop
  | .ok j =>
      (∃ key row, keyOf header = some key ∧
        Got l (.idem (.findUnique key createScope)) (some row) ∧
        row.requestHash = createHash env dto ∧ j = row.responseBody) ∨
      ∃ o, l.made = [.inl o] ∧ j = orderResponse env o ∧ ∀ key, keyOf header = some key →
        ∃ now row, Got l (.idem (.upsert (createRecord env key dto o now))) row
  | .error e => Refused l e

section

variable {env : Env} {header : Option String} {dto : CreateOrderDto}

theorem sat_createKeyed {key : String} (hkey : keyOf header = some key) :
    Sat (CreateCall env header dto) (CreateEnd env header dto)
      [] (createKeyed env key dto).run := by
  refine sat_await_bind ⟨hkey, rfl, rfl⟩ (fun cached now => ?_) fun _ _ => refused_head _ _ _ _
  have hclean := not_anyFailed_cons (c := .idem (.findUnique key createScope)) not_anyFailed_nil
    cached now
  cases cached with
  | some row =>
    by_cases hhash : row.requestHash = createHash env dto
    · have hsame : ¬ row.requestHash ≠ hashRequest env "POST" "/orders" (some dto.json) :=
        fun h => h hhash
      simp only [hsame, if_false]
      exact Or.inl ⟨key, row, hkey, got_head _ _ _, hhash, rfl⟩
    · have hother : row.requestHash ≠ hashRequest env "POST" "/orders" (some dto.json) := hhash
      simp only [hother, ne_eq, not_false_eq_true, if_true]
      exact Or.inr ⟨⟨_, rfl⟩, rfl⟩
  | none =>
    have hmissed : Missed header createScope
        [⟨.idem (.findUnique key createScope), (.ok none, now)⟩] := by
      intro key' hkey'
      rw [hkey] at hkey'
      cases hkey'
      rfl
    refine sat_awaitAt_bind ⟨rfl, hmissed, rfl, hclean⟩ (fun o now' => ?_)
      fun _ _ => refused_head _ _ _ _
    have hclean' := not_anyFailed_cons (c := .orders (.create dto.data)) hclean o now'
    refine sat_await_bind ⟨key, o, now', hkey, hmissed, rfl, hclean', rfl⟩ (fun row now'' => ?_)
      fun _ _ => refused_head _ _ _ _
    refine Or.inr ⟨o, rfl, rfl, fun key' hkey' => ⟨now', row, ?_⟩⟩
    rw [hkey] at hkey'
    cases hkey'
    exact got_head _ _ _

theorem sat_create :
    Sat (CreateCall env header dto) (CreateEnd env header dto) [] (create env header dto).run := by
  unfold create
  cases hkey : keyOf header with
  | some key => exact sat_createKeyed hkey
  | none =>
    have hnone : ∀ key, keyOf header ≠ some key := by
      intro key hk
      rw [hkey] at hk
      cases hk
    refine sat_await_bind ⟨rfl, fun key hk => absurd hk (hnone key), rfl, not_anyFailed_nil⟩
      (fun o now => ?_) fun _ _ => refused_head _ _ _ _
    exact Or.inr ⟨o, rfl, rfl, fun key hk => absurd hk (hnone key)⟩

end

/-! ## Confirming an order -/

/-- The hash of a `POST /orders/{id}/confirm` request. -/
def confirmHash (env : Env) (id : String) : String := hashRequest env "POST" (confirmPath id) none

/-- The event of a confirmation. -/
def confirmData (env : Env) (o : Order) (now : Time) : OutboxData :=
  { aggregateId := o.id.text, type := "OrderConfirmed", payload := confirmedPayload env o now }

/-- What a keyed `confirm` stores. -/
def confirmRecord (env : Env) (key id : String) (resp : ConfirmResponse) (now : Time) :
    IdempotencyKey :=
  { key := key, scope := confirmScope id, requestHash := confirmHash env id,
    responseBody := resp.json, expiresAt := expiry now (some (24 * 3600)) }

/-- The order `id` was read in this state. -/
def ReadAs (l : History) (id : String) (status : OrderStatus) (o : Order) : Prop :=
  Got l (.stmt (.orderFindUnique (some (.str id)))) (some o) ∧ o.status = status

/-- The confirmation and its event are made. -/
def Confirming (env : Env) (l : History) (id : String) (o : Order) (e : OutboxEvent) : Prop :=
  Got l (.stmt (.orderUpdate id .CONFIRMED)) o ∧
    ∃ now, Got l (.stmt (.outboxCreate (confirmData env o now))) e

/-- `confirmAndOutbox` has returned `resp`: it found the order confirmed, or it committed the
    confirmation of an order it had read as CREATED, with its event. -/
def ConfirmedAs (env : Env) (l : History) (id : String) (resp : ConfirmResponse) : Prop :=
  (∃ o, ReadAs l id .CONFIRMED o ∧ l.confirmed = [] ∧
      resp = { id := o.id, status := .CONFIRMED, outboxEventId := none }) ∨
    ∃ o₀ o e, ReadAs l id .CREATED o₀ ∧ o₀.id ∈ l.confirmed ∧ Confirming env l id o e ∧
      resp = { id := o.id, status := o.status, outboxEventId := some e.id }

/-- The body of the transaction has ended with `resp`, nothing is committed yet. -/
def ConfirmReady (env : Env) (id : String) (l : History) (resp : ConfirmResponse) : Prop :=
  (∃ o, ReadAs l id .CONFIRMED o ∧ l.readCreated = none ∧ Open l [] ∧
      resp = { id := o.id, status := .CONFIRMED, outboxEventId := none }) ∨
    ∃ o₀ o e, ReadAs l id .CREATED o₀ ∧ l.readCreated = some o₀.id ∧ Confirming env l id o e ∧
      Open l [.orderStatus o.id o.status, .outbox e] ∧
      resp = { id := o.id, status := o.status, outboxEventId := some e.id }

def ConfirmCall (env : Env) (header : Option String) (id : String) (l : History) : Call → Prop
  | .idem (.findUnique key scope) => keyOf header = some key ∧ scope = confirmScope id ∧ l = []
  | .idem (.upsert row) => ∃ key resp now, keyOf header = some key ∧
      Missed header (confirmScope id) l ∧ ConfirmedAs env l id resp ∧
      row = confirmRecord env key id resp now
  | .tx .begin => Missed header (confirmScope id) l
  | .tx .rollback => True
  | .tx .commit => Missed header (confirmScope id) l ∧
      l.made = [] ∧ ∃ resp, ConfirmReady env id l resp
  | .tx (.stmt (.orderFindUnique x)) => x = some (.str id)
  | .tx (.stmt (.orderUpdate id' status)) => id' = id ∧ status = .CONFIRMED ∧
      ∃ o, ReadAs l id .CREATED o
  | .tx (.stmt (.outboxCreate d)) => ∃ o now, Got l (.stmt (.orderUpdate id .CONFIRMED)) o ∧
      d = confirmData env o now
  | _ => False

/-- The response of `confirm`: a stored one under the same hash, or that of its transaction, which
    is then stored under its key. -/
def ConfirmEnd (env : Env) (header : Option String) (id : String) (l : History) : Outcome → Prop
  | .ok j => ¬ AnyFailed l ∧
      ((∃ key row, keyOf header = some key ∧
        Got l (.idem (.findUnique key (confirmScope id))) (some row) ∧
        row.requestHash = confirmHash env id ∧ j = row.responseBody ∧ ¬ Issued l (.tx .commit)) ∨
      ∃ resp, ConfirmedAs env l id resp ∧ Issued l (.tx .commit) ∧ j = resp.json ∧
        ∀ key, keyOf header = some key →
          ∃ now row, Got l (.idem (.upsert (confirmRecord env key id resp now))) row)
  | .error e => Refused l e

section

variable {env : Env} {l l' : History} {header : Option String} {id : String}

theorem ReadAs.mono {status : OrderStatus} {o : Order} (h : ReadAs l id status o) (hl : l <:+ l') :
    ReadAs l' id status o := ⟨h.1.mono hl, h.2⟩

theorem ReadAs.cons {status : OrderStatus} {o : Order} (h : ReadAs l id status o)
    (y : Σ c, Reply c) : ReadAs (y :: l) id status o := h.mono (List.suffix_cons y l)

theorem Confirming.mono {o : Order} {e : OutboxEvent} (h : Confirming env l id o e)
    (hl : l <:+ l') : Confirming env l' id o e := by
  obtain ⟨hu, now, hc⟩ := h
  exact ⟨hu.mono hl, now, hc.mono hl⟩

/-- Storing the response adds nothing to what was confirmed. -/
theorem ConfirmedAs.idem {resp : ConfirmResponse} {c : IdemCall} (h : ConfirmedAs env l id resp)
    (r : Reply (.idem c)) : ConfirmedAs env (⟨.idem c, r⟩ :: l) id resp := by
  have hl := List.suffix_cons (⟨.idem c, r⟩ : Σ c, Reply c) l
  rcases h with ⟨o, hr, hn, he⟩ | ⟨o₀, o, e, hr, hm, hc, he⟩
  · exact Or.inl ⟨o, hr.mono hl, hn, he⟩
  · exact Or.inr ⟨o₀, o, e, hr.mono hl, hm, hc.mono hl, he⟩

/-- A transaction whose body ended with `resp` is committed. -/
theorem ConfirmReady.committed {resp : ConfirmResponse} (h : ConfirmReady env id l resp)
    (hnone : l.confirmed = []) (now : Time) :
    ConfirmedAs env (⟨.tx .commit, (.ok (), now)⟩ :: l) id resp := by
  have hl := List.suffix_cons (⟨.tx .commit, (.ok (), now)⟩ : Σ c, Reply c) l
  have hconfirmed : History.confirmed (⟨.tx .commit, (.ok (), now)⟩ :: l) =
      (History.readCreated l).toList ++ History.confirmed l := rfl
  rcases h with ⟨o, hr, hread, -, he⟩ | ⟨o₀, o, e, hr, hread, hc, -, he⟩
  · refine Or.inl ⟨o, hr.mono hl, ?_, he⟩
    rw [hconfirmed, hread, hnone]
    rfl
  · refine Or.inr ⟨o₀, o, e, hr.mono hl, ?_, hc.mono hl, he⟩
    rw [hconfirmed, hread]
    exact List.mem_cons_self

/-- Before the commit: nothing has failed, nothing is committed. -/
def Pristine (l : History) : Prop :=
  ¬ AnyFailed l ∧ l.confirmed = [] ∧ ¬ Issued l (.tx .commit) ∧ l.made = []

/-- Calls of the confirmation that come before its commit. -/
def BeforeCommit : Call → Prop
  | .idem (.findUnique _ _) => True
  | .tx .begin => True
  | .tx (.stmt _) => True
  | _ => False

theorem Pristine.cons {c : Call} (h : Pristine l) (hc : BeforeCommit c) (x : c.Result)
    (now : Time) : Pristine (⟨c, (.ok x, now)⟩ :: l) := by
  obtain ⟨hf, hnone, hissued, hmade⟩ := h
  refine ⟨not_anyFailed_cons hf x now, ?_, ?_, ?_⟩
  · cases c with
    | idem c => exact hnone
    | tx c => cases c <;> first | exact hnone | exact hc.elim
    | _ => exact hc.elim
  · rintro ⟨r, hm⟩
    rcases List.mem_cons.mp hm with heq | hm
    · cases heq
      exact hc
    · exact hissued ⟨r, hm⟩
  · cases c with
    | idem c => exact hmade
    | tx c => cases c <;> first | exact hmade | exact hc.elim
    | _ => exact hc.elim

/-- A request that has changed nothing yet may answer 409. -/
theorem Pristine.refused (h : Pristine l) (m : String) : Refused l (.conflict m) :=
  Or.inr ⟨⟨m, rfl⟩, h.2.2.2⟩

theorem Missed.tx {scope : String} {c : TxCall} (h : Missed header scope l) (r : Reply (.tx c)) :
    Missed header scope (⟨.tx c, r⟩ :: l) := h

/-- The rollback does not change how a request is refused. -/
theorem Refused.rollback {e : Fault} (h : Refused l e) (r : Reply (.tx .rollback)) :
    Refused (⟨.tx .rollback, r⟩ :: l) e := by
  rcases h with hf | ⟨hm, hmade⟩
  · exact Or.inl (hf.mono (List.suffix_cons _ l))
  · exact Or.inr ⟨hm, hmade⟩

/-- The end of the transaction's body. -/
def BodyEnd (env : Env) (header : Option String) (id : String) (l : History) :
    Except Fault ConfirmResponse → Prop
  | .ok resp => ConfirmReady env id l resp ∧ Pristine l ∧ Missed header (confirmScope id) l
  | .error e => Refused l e

theorem sat_confirmBody (h : Open l []) (hp : Pristine l) (hm : Missed header (confirmScope id) l) :
    Sat (ConfirmCall env header id) (BodyEnd env header id) l (confirmBody env id).run := by
  refine sat_await_bind rfl (fun found now => ?_) fun _ _ => refused_head _ _ _ _
  have hopen := h.stmt (.orderFindUnique (some (.str id))) found now
  have hp' := hp.cons (c := .stmt (.orderFindUnique (some (.str id)))) trivial found now
  cases found with
  | none => exact hp'.refused _
  | some order =>
    cases hstatus : order.status with
    | CANCELLED =>
      simp only [hstatus]
      exact hp'.refused _
    | CONFIRMED =>
      simp only [hstatus]
      have hread : History.readCreated (⟨.stmt (.orderFindUnique (some (.str id))),
          (.ok (some order), now)⟩ :: l) = none := by
        rw [History.readCreated, hstatus]
        rfl
      exact ⟨Or.inl ⟨order, ⟨got_head _ _ _, hstatus⟩, hread, hopen, rfl⟩, hp', hm.tx _⟩
    | CREATED =>
      simp only [hstatus]
      have hread : History.readCreated (⟨.stmt (.orderFindUnique (some (.str id))),
          (.ok (some order), now)⟩ :: l) = some order.id := by
        rw [History.readCreated, hstatus]
        rfl
      have hcreated :
          ReadAs (⟨.stmt (.orderFindUnique (some (.str id))), (.ok (some order), now)⟩ :: l)
          id .CREATED order := ⟨got_head _ _ _, hstatus⟩
      refine sat_awaitAt_bind ⟨rfl, rfl, order, hcreated⟩ (fun o now' => ?_)
        fun _ _ => refused_head _ _ _ _
      have hopen' := hopen.stmt (.orderUpdate id .CONFIRMED) o now'
      have hp'' := hp'.cons (c := .stmt (.orderUpdate id .CONFIRMED)) trivial o now'
      refine sat_await_bind ⟨o, now', got_head _ _ _, rfl⟩ (fun e now'' => ?_)
        fun _ _ => refused_head _ _ _ _
      have hopen'' := hopen'.stmt (.outboxCreate (confirmData env o now')) e now''
      refine ⟨Or.inr ⟨order, o, e, (hcreated.cons _).cons _, hread, ?_, hopen'', rfl⟩, ?_,
        ((hm.tx _).tx _).tx _⟩
      · exact ⟨(got_head _ _ _).cons _, now', got_head _ _ _⟩
      · exact hp''.cons (c := .stmt (.outboxCreate (confirmData env o now'))) trivial e now''

/-- What `confirmAndOutbox` leaves behind when it returns. -/
def OutboxEnd (env : Env) (header : Option String) (id : String) (l : History) :
    Except Fault (ConfirmResponse × Time) → Prop
  | .ok (resp, _) => ConfirmedAs env l id resp ∧ ¬ AnyFailed l ∧ Issued l (.tx .commit) ∧
      Missed header (confirmScope id) l
  | .error e => Refused l e

theorem sat_confirmAndOutbox (hp : Pristine l) (hm : Missed header (confirmScope id) l) :
    Sat (ConfirmCall env header id) (OutboxEnd env header id) l (confirmAndOutbox env id).run := by
  refine sat_transaction hm (fun e now => refused_head _ _ _ _) fun now => ?_
  have hbody : Sat (ConfirmCall env header id)
      (BodyEnd env header id) (⟨.tx .begin, (.ok (), now)⟩ :: l)
      (confirmBody env id).run :=
    sat_confirmBody (open_begin now l) (hp.cons (c := .tx .begin) trivial () now)
      (hm.tx (c := .begin) (.ok (), now))
  refine hbody.post fun l' r hr => ?_
  cases r with
  | error e => exact ⟨trivial, fun r => hr.rollback r⟩
  | ok resp =>
    obtain ⟨hready, ⟨hclean, hnone, -, hmade⟩, hm'⟩ := hr
    refine ⟨⟨hm', hmade, resp, hready⟩, fun now => ?_, fun e now => ⟨trivial, fun r => ?_⟩⟩
    · exact ⟨hready.committed hnone now, not_anyFailed_cons (c := .tx .commit) hclean () now,
        issued_head _ _, hm'.tx _⟩
    · exact (refused_head e e now l').rollback r

theorem pristine_nil : Pristine [] :=
  ⟨not_anyFailed_nil, rfl, fun ⟨_, hm⟩ => absurd hm List.not_mem_nil, rfl⟩

theorem sat_confirmKeyed {key : String} (hkey : keyOf header = some key) :
    Sat (ConfirmCall env header id) (ConfirmEnd env header id)
      [] (confirmKeyed env key id).run := by
  refine sat_await_bind ⟨hkey, rfl, rfl⟩ (fun cached now => ?_) fun _ _ => refused_head _ _ _ _
  have hp := pristine_nil.cons (c := .idem (.findUnique key (confirmScope id))) trivial cached now
  cases cached with
  | some row =>
    by_cases hhash : row.requestHash = confirmHash env id
    · have hsame : ¬ row.requestHash ≠ hashRequest env "POST" (confirmPath id) none :=
        fun h => h hhash
      simp only [hsame, if_false]
      exact ⟨hp.1, Or.inl ⟨key, row, hkey, got_head _ _ _, hhash, rfl, hp.2.2.1⟩⟩
    · have hother : row.requestHash ≠ hashRequest env "POST" (confirmPath id) none := hhash
      simp only [hother, ne_eq, not_false_eq_true, if_true]
      exact hp.refused _
  | none =>
    refine Sat.act_bind (sat_confirmAndOutbox hp fun key' hkey' => ?_) ?_ fun _ _ h => h
    · rw [hkey] at hkey'
      cases hkey'
      rfl
    · rintro l' ⟨resp, now'⟩ ⟨hc, hf, hissued, hmissed⟩
      refine sat_await_bind ⟨key, resp, now', hkey, hmissed, hc, rfl⟩ (fun row now'' => ?_)
        fun _ _ => refused_head _ _ _ _
      have hf' :=
        not_anyFailed_cons (c := .idem (.upsert (confirmRecord env key id resp now'))) hf row now''
      refine ⟨hf', Or.inr ⟨resp, hc.idem _, hissued.cons _, rfl, fun key' hkey' => ⟨now', row, ?_⟩⟩⟩
      rw [hkey] at hkey'
      cases hkey'
      exact got_head _ _ _

theorem sat_confirm :
    Sat (ConfirmCall env header id) (ConfirmEnd env header id) [] (confirm env header id).run := by
  unfold confirm
  cases hkey : keyOf header with
  | some key => exact sat_confirmKeyed hkey
  | none =>
    have hnone : ∀ key, keyOf header ≠ some key := by
      intro key hk
      rw [hkey] at hk
      cases hk
    refine Sat.act_bind (sat_confirmAndOutbox pristine_nil fun key hk => absurd hk (hnone key)) ?_
      fun _ _ h => h
    rintro l' ⟨resp, now⟩ ⟨hc, hf, hissued, -⟩
    exact ⟨hf, Or.inr ⟨resp, hc, hissued, rfl, fun key hk => absurd hk (hnone key)⟩⟩

end

/-! ## Changing a rule -/

def UpsertRuleCall (merchantId : String) (dto : UpsertCashbackRuleDto) : Call → Prop
  | .rules (.upsert m rate cap) => m = merchantId ∧ rate = dto.rate.toDecimal ∧ dtoCap dto = .ok cap
  | .redis (.del key) => key = ruleKey merchantId
  | _ => False

theorem sat_upsertRule {merchantId : String} {dto : UpsertCashbackRuleDto} {l : History} :
    Sat (fun _ => UpsertRuleCall merchantId dto) (fun _ _ => True) l
      (upsertRule merchantId dto).run := by
  refine sat_ofExcept_bind (fun cap hcap => ?_) fun _ _ => trivial
  refine sat_await_bind ⟨rfl, rfl, hcap⟩ (fun rule now => ?_) fun _ _ => trivial
  exact sat_tryAwait_bind rfl fun _ _ => trivial

end CashbackLedger
