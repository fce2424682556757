import CashbackLedger.Safety.Confirmation
import CashbackLedger.Safety.Idempotency

/-
  What a response of the API is worth.

  A request answers with the response of the operation it has run, or with a response that another
  request has left under the same key. Nobody reads the database again before answering from the
  key, so the question is not what was looked up but where the stored response comes from:
  `Vouched` names, for each stored response, a request of the same endpoint and hash whose response
  it is and whose operation the database keeps (`Bears`). Keys are saved again by requests that
  race, so the invariant does not say that the response under a key stays.

  `created_is_kept`, `confirmed_is_kept`: whatever fails, dies or is replayed, from the moment a
  response is given its order is stored, with the event where it was confirmed.
-/

namespace CashbackLedger

open Lib History

/-- The order is the one that was asked for. -/
def AskedFor (dto : CreateOrderDto) (o : Order) : Prop :=
  o.userId = dto.userId ∧ o.merchantId = dto.merchantId ∧
    storeNumeric 18 2 dto.amount.toDecimal = some o.amount ∧ o.currency = dto.currency

/-- The responses a confirmation of the order may give. -/
def ConfirmResponseOf (o : Order) (e : OutboxEvent) (j : Json) : Prop :=
  ∃ id, (id = none ∨ id = some e.id) ∧
    j = ConfirmResponse.json { id := o.id, status := .CONFIRMED, outboxEventId := id }

/-- The stored data bear out the response `j` to the request. -/
def Bears (env : Env) (w : World) : Task → Json → Prop
  | .create _ dto, j => ∃ o ∈ w.orders, AskedFor dto o ∧ j = orderResponse env o.core
  | .confirm _ id, j => ∃ o ∈ w.orders, env.readUuid id = some o.id ∧ o.status = .CONFIRMED ∧
      ∃ e ∈ w.outbox, EventOf e o ∧ ConfirmResponseOf o e j
  | _, _ => True

/-- The endpoint of a request, as part of its keys. -/
def Task.scope : Task → Option String
  | .create _ _ => some createScope
  | .confirm _ id => some (confirmScope id)
  | _ => none

/-- The stored response is that of a request of its endpoint and hash, and is borne out. -/
def Vouched (env : Env) (w : World) (row : IdempotencyKey) : Prop :=
  ∃ t : Task, t.scope = some row.scope ∧ t.requestHash env = row.requestHash ∧
    Bears env w t row.responseBody

/-! ## The operation of a request -/

/-- A transaction whose body ended with `resp` is committed. -/
def ConfirmCommitted (env : Env) (l : History) (id : String) (resp : ConfirmResponse) : Prop :=
  ∃ now l', (⟨.tx .commit, (.ok (), now)⟩ :: l') <:+ l ∧ ConfirmReady env id l' resp

/-- The request has run its operation, with this response. -/
def Performed (env : Env) (l : History) : Task → Json → Prop
  | .create _ dto, j => ∃ o, Got l (.orders (.create dto.data)) o ∧ j = orderResponse env o
  | .confirm _ id, j => ∃ resp, ConfirmCommitted env l id resp ∧ j = resp.json
  | _, _ => True

/-- The request has found the response under its key. -/
def Reused (env : Env) (l : History) (t : Task) (j : Json) : Prop :=
  ∃ k row, t.key = some k ∧ Got l (.idem (.findUnique k.1 k.2)) (some row) ∧
    row.requestHash = t.requestHash env ∧ row.responseBody = j

/-- Only the response of an operation that was run is saved. -/
def SavesPerformed (env : Env) (t : Task) (l : History) : Call → Prop
  | .idem (.upsert row) => Performed env l t row.responseBody
  | _ => True

/-- A response is that of the operation or was found under the key. -/
def AnswersPerformed (env : Env) (t : Task) (l : History) : Outcome → Prop
  | .ok j => Performed env l t j ∨ Reused env l t j
  | .error _ => True

section

variable {env : Env} {l l' : History} {header : Option String} {dto : CreateOrderDto} {id : String}

theorem ConfirmCommitted.mono {resp : ConfirmResponse} (h : ConfirmCommitted env l id resp)
    (hl : l <:+ l') : ConfirmCommitted env l' id resp := by
  obtain ⟨now, l₀, hs, hready⟩ := h
  exact ⟨now, l₀, hs.trans hl, hready⟩

theorem sat_create_performed :
    Sat (SavesPerformed env (.create header dto)) (AnswersPerformed env (.create header dto)) []
      (create env header dto).run := by
  unfold create
  cases hkey : keyOf header with
  | none =>
    refine sat_await_bind trivial (fun o now => ?_) fun _ _ => trivial
    exact Or.inl ⟨o, got_head _ _ _, rfl⟩
  | some key =>
    have hk : Task.key (.create header dto) = some (key, createScope) := by
      simp only [Task.key, hkey, Option.map_some]
    refine sat_await_bind trivial (fun cached now => ?_) fun _ _ => trivial
    cases cached with
    | some row =>
      by_cases hhash : row.requestHash = createHash env dto
      · have hsame : ¬ row.requestHash ≠ hashRequest env "POST" "/orders" (some dto.json) :=
          fun h => h hhash
        simp only [hsame, if_false]
        exact Or.inr ⟨_, row, hk, got_head _ _ _, hhash, rfl⟩
      · have hother : row.requestHash ≠ hashRequest env "POST" "/orders" (some dto.json) := hhash
        simp only [hother, ne_eq, not_false_eq_true, if_true]
        exact trivial
    | none =>
      refine sat_awaitAt_bind trivial (fun o now' => ?_) fun _ _ => trivial
      have hgot := got_head (c := .orders (.create dto.data)) o now'
        [⟨.idem (.findUnique key createScope), (.ok none, now)⟩]
      refine sat_await_bind ⟨o, hgot, rfl⟩ (fun row now'' => ?_) fun _ _ => trivial
      exact Or.inl ⟨o, hgot.cons _, rfl⟩

/-- The body of the transaction saves no response. -/
theorem sat_confirmBody_saves {t : Task} :
    Sat (SavesPerformed env t) (fun _ _ => True) l (confirmBody env id).run := by
  refine sat_await_bind trivial (fun found now => ?_) fun _ _ => trivial
  cases found with
  | none => exact trivial
  | some order =>
    cases hstatus : order.status with
    | CANCELLED =>
      simp only [hstatus]
      exact trivial
    | CONFIRMED =>
      simp only [hstatus]
      exact trivial
    | CREATED =>
      simp only [hstatus]
      refine sat_awaitAt_bind trivial (fun o now' => ?_) fun _ _ => trivial
      exact sat_await_bind trivial (fun e now'' => trivial) fun _ _ => trivial

/-- `confirmAndOutbox` returns after the commit of what its body prepared. -/
def OutboxCommitted (env : Env) (id : String) (l : History) :
    Except Fault (ConfirmResponse × Time) → Prop
  | .ok (resp, _) => ConfirmCommitted env l id resp
  | .error _ => True

theorem sat_confirmAndOutbox_performed (header : Option String) {t : Task} (hp : Pristine l)
    (hm : Missed header (confirmScope id) l) :
    Sat (SavesPerformed env t) (OutboxCommitted env id) l (confirmAndOutbox env id).run := by
  refine sat_transaction trivial (fun _ _ => trivial) fun now => ?_
  have hbody : Sat (ConfirmCall env header id) (BodyEnd env header id) _ (confirmBody env id).run :=
    sat_confirmBody (open_begin now l) (hp.cons (c := .tx .begin) trivial () now)
      (hm.tx (c := .begin) (.ok (), now))
  refine (hbody.and sat_confirmBody_saves).mono (fun _ _ h => h.2) fun l' r hr => ?_
  cases r with
  | error e => exact ⟨trivial, fun _ => trivial⟩
  | ok resp =>
    refine ⟨trivial, fun now => ?_, fun _ _ => ⟨trivial, fun _ => trivial⟩⟩
    exact ⟨now, l', List.suffix_refl _, hr.1.1⟩

theorem sat_confirm_performed :
    Sat (SavesPerformed env (.confirm header id)) (AnswersPerformed env (.confirm header id)) []
      (confirm env header id).run := by
  unfold confirm
  cases hkey : keyOf header with
  | none =>
    have hnone : ∀ key, keyOf header ≠ some key := by
      intro key hk
      rw [hkey] at hk
      cases hk
    refine Sat.act_bind (sat_confirmAndOutbox_performed header pristine_nil
      fun key hk => absurd hk (hnone key)) ?_ fun _ _ _ => trivial
    rintro l' ⟨resp, now⟩ hc
    exact Or.inl ⟨resp, hc, rfl⟩
  | some key =>
    have hk : Task.key (.confirm header id) = some (key, confirmScope id) := by
      simp only [Task.key, hkey, Option.map_some]
    refine sat_await_bind trivial (fun cached now => ?_) fun _ _ => trivial
    have hp := pristine_nil.cons (c := .idem (.findUnique key (confirmScope id))) trivial cached now
    cases cached with
    | some row =>
      by_cases hhash : row.requestHash = confirmHash env id
      · have hsame : ¬ row.requestHash ≠ hashRequest env "POST" (confirmPath id) none :=
          fun h => h hhash
        simp only [hsame, if_false]
        exact Or.inr ⟨_, row, hk, got_head _ _ _, hhash, rfl⟩
      · have hother : row.requestHash ≠ hashRequest env "POST" (confirmPath id) none := hhash
        simp only [hother, ne_eq, not_false_eq_true, if_true]
        exact trivial
    | none =>
      refine Sat.act_bind (sat_confirmAndOutbox_performed header hp
        fun key' hkey' => ?_) ?_ fun _ _ _ => trivial
      · rw [hkey] at hkey'
        cases hkey'
        rfl
      · rintro l' ⟨resp, now'⟩ hc
        refine sat_await_bind ⟨resp, hc, rfl⟩ (fun row now'' => ?_) fun _ _ => trivial
        exact Or.inl ⟨resp, hc.mono (List.suffix_cons _ l'), rfl⟩

end

theorem sat_performed (env : Env) (t : Task) :
    Sat (SavesPerformed env t) (AnswersPerformed env t) [] (t.program env).run := by
  have hother : (∀ l j, Performed env l t j) →
      Sat (SavesPerformed env t) (AnswersPerformed env t) [] (t.program env).run := by
    intro hall
    refine (sat_trivial _).mono (fun l c _ => ?_) fun l r _ => ?_
    · unfold SavesPerformed
      split
      · exact hall l _
      · trivial
    · cases r with
      | ok j => exact Or.inl (hall l j)
      | error e => trivial
  cases t with
  | create header dto => exact sat_create_performed
  | confirm header id => exact sat_confirm_performed
  | _ => exact hother fun _ _ => trivial

/-! ## Responses that are borne out -/

theorem createScope_ne (id : String) : createScope ≠ confirmScope id := by
  intro h
  have hlen := congrArg String.length h
  simp only [createScope, confirmScope, confirmPath, String.length_append] at hlen
  have hshort : "POST:/orders".length = 12 := rfl
  have hfront : "POST:".length = 5 ∧ "/orders/".length = 8 ∧ "/confirm".length = 8 :=
    ⟨rfl, rfl, rfl⟩
  omega

theorem confirmScope_inj {id id' : String} (h : confirmScope id = confirmScope id') : id = id' := by
  simpa [confirmScope, confirmPath] using h

section

variable {env : Env} {w w' : World} {l : History} {t : Task} {j : Json}

theorem Order.core_of_created {o : Order} (h : o.status = .CREATED) : o.core = o := by
  cases o
  cases h
  rfl

theorem Bears.mono (h : Bears env w t j) (hw : w.Extends w') : Bears env w' t j := by
  cases t with
  | create header dto =>
    obtain ⟨o, ho, ⟨huser, hmerchant, hamount, hcurrency⟩, hj⟩ := h
    obtain ⟨o', ho', hcore, -⟩ := hw.orders o ho
    have hsame : o'.userId = o.userId ∧ o'.merchantId = o.merchantId ∧ o'.amount = o.amount ∧
        o'.currency = o.currency := by
      have heq := Order.of_core hcore
      exact ⟨heq.2.1, heq.2.2.1, heq.2.2.2.1, heq.2.2.2.2.1⟩
    obtain ⟨hu, hm, ha, hc⟩ := hsame
    exact ⟨o', ho', ⟨hu.trans huser, hm.trans hmerchant, by rw [hamount, ha], hc.trans hcurrency⟩,
      by rw [hj, hcore]⟩
  | confirm header id =>
    obtain ⟨o, ho, hid, hstatus, e, he, ⟨htype, hagg⟩, id', hid', hj⟩ := h
    obtain ⟨o', ho', hcore, hstatus'⟩ := hw.orders o ho
    obtain ⟨e', he', hecore⟩ := hw.outbox e he
    have hoid : o'.id = o.id := Order.id_of_core hcore
    have heid : e'.id = e.id := OutboxEvent.id_of_core hecore
    obtain ⟨-, hagg', htype', -, -⟩ := OutboxEvent.of_core hecore
    refine ⟨o', ho', by rw [hid, hoid], hstatus' hstatus,
      e', he', ⟨htype'.trans htype, ?_⟩, id', ?_,
      by rw [hj, hoid]⟩
    · rw [hagg', hagg, hoid]
    · rw [heid]
      exact hid'
  | _ => trivial

/-- What was committed for `id` is a confirmed order with its event. -/
theorem ConfirmReady.bears {header : Option String} {id : String} {resp : ConfirmResponse}
    {now : Time} (hI : Confirmations env w)
    (hl : LogSound env w (⟨.tx .commit, (.ok (), now)⟩ :: l)) (h : ConfirmReady env id l resp) :
    Bears env w (.confirm header id) resp.json := by
  rcases h with
    ⟨o, ⟨hread, hstatus⟩, -, -, rfl⟩ | ⟨o₀, o, e, -, -, ⟨hupdate, now', hout⟩, hopen, rfl⟩
  · obtain ⟨_, ⟨o', ho', hcore, hstatus'⟩, hid⟩ := hl.2.2.got hread
    have hoid : o'.id = o.id := Order.id_of_core hcore
    obtain ⟨e, he, heo⟩ := hI.event o' ho' (hstatus' hstatus)
    exact ⟨o', ho', by rw [hoid]; exact hid, hstatus' hstatus,
      e, he, heo, none, Or.inl rfl, by rw [hoid]⟩
  · -- the event is stored by the commit, and a stored event has its order confirmed
    obtain ⟨_, hstatus, hid, -⟩ := hl.2.2.got hupdate
    obtain ⟨_, hagg, -⟩ := hl.2.2.got hout
    obtain ⟨e', he', hecore⟩ : w.HasOutbox e :=
      hl.1 _ hopen rfl (.outbox e) (List.mem_cons_of_mem _ List.mem_cons_self)
    obtain ⟨-, hagg', -⟩ := OutboxEvent.of_core hecore
    obtain ⟨htype, -, o', ho', hstatus', hid', -⟩ := hI.order e' he'
    have hoid : o'.id = o.id := Uuid.text_inj (hid'.symm.trans (hagg'.trans hagg))
    refine ⟨o', ho', by rw [hoid]; exact hid, hstatus',
      e', he', ⟨htype, hid'⟩, some e.id, Or.inr ?_,
      by rw [hoid, hstatus]⟩
    rw [OutboxEvent.id_of_core hecore]

/-- A stored event of an order repeats the fields of the order. -/
theorem Confirmations.payload (hI : Confirmations env w) {o : Order} {e : OutboxEvent}
    (ho : o ∈ w.orders) (he : e ∈ w.outbox) (h : EventOf e o) : PayloadOf env e.payload o := by
  obtain ⟨-, -, o', ho', -, hid, now, hp⟩ := hI.order e he
  have hoid : o'.id = o.id := Uuid.text_inj (hid.symm.trans h.2)
  obtain rfl : o' = o := Table.eq_of_clash ho' ho (by simp [Indexed.clash, hoid])
  rw [hp]
  exact confirmedPayload_of env o' now

theorem Performed.bears (hI : Confirmations env w) (hl : LogSound env w l)
    (h : Performed env l t j) : Bears env w t j := by
  cases t with
  | create header dto =>
    obtain ⟨o, hgot, rfl⟩ := h
    obtain ⟨_, ⟨o', ho', hcore, -⟩, huser, hmerchant, hamount, hcurrency, hstatus⟩ := hl.got hgot
    rw [Order.core_of_created hstatus] at hcore
    refine ⟨o', ho', ?_, by rw [hcore]⟩
    rw [← hcore] at huser hmerchant hamount hcurrency
    exact ⟨huser, hmerchant, hamount, hcurrency⟩
  | confirm header id =>
    obtain ⟨resp, ⟨now, l', hs, hready⟩, rfl⟩ := h
    exact hready.bears hI (hl.suffix hs)
  | _ => trivial

theorem Vouched.mono {row : IdempotencyKey} (h : Vouched env w row) (hw : w.Extends w') :
    Vouched env w' row := by
  obtain ⟨t, hscope, hhash, hb⟩ := h
  exact ⟨t, hscope, hhash, hb.mono hw⟩

/-- A vouched response answers every request of its endpoint and hash. -/
theorem Vouched.answers {row : IdempotencyKey} (h : Vouched env w row)
    (hscope : t.scope = some row.scope) (hhash : t.requestHash env = row.requestHash) :
    ∃ t' : Task, t'.scope = t.scope ∧ t'.requestHash env = t.requestHash env ∧
      Bears env w t' row.responseBody := by
  obtain ⟨t', hscope', hhash', hb⟩ := h
  exact ⟨t', hscope'.trans hscope.symm, hhash'.trans hhash.symm, hb⟩

theorem Task.scope_of_key {k : String × String} (h : t.key = some k) : t.scope = some k.2 := by
  cases t with
  | create header dto =>
    obtain ⟨key, -, rfl⟩ := Option.map_eq_some_iff.mp h
    rfl
  | confirm header id =>
    obtain ⟨key, -, rfl⟩ := Option.map_eq_some_iff.mp h
    rfl
  | _ => cases h

/-- A stored response is an old one or the one just saved. -/
theorem Effect.idem_saved {p : Pid} {newId : Uuid} {c : Call} {w₁ : World}
    (h : Effect p newId w c w₁) {row : IdempotencyKey} (hr : row ∈ w₁.idem) :
    row ∈ w.idem ∨ c = .idem (.upsert row) := by
  cases h with
  | idemInsert ins =>
    rcases (Table.mem_insert ins).mp hr with hr | rfl
    · exact Or.inl hr
    · exact Or.inr rfl
  | idemUpdate row' =>
    simp only [Table.mem_modify] at hr
    obtain ⟨row₀, hm, rfl⟩ := hr
    split
    · next hk =>
      obtain ⟨hkey, hscope⟩ := Bool.and_eq_true_iff.mp hk
      refine Or.inr ?_
      rw [eq_of_beq hkey, eq_of_beq hscope]
    · exact Or.inl hm
  | _ => exact Or.inl hr

end

section

variable {env : Env} {ok : State → Step → Prop} {s : State}

theorem performs (h : Reach (system env) ok (· = initial) s) {p : Pid} {pr : Process}
    (hp : s.proc p = some pr) :
    Sat (SavesPerformed env pr.task) (AnswersPerformed env pr.task) pr.log pr.todo :=
  h.sat (sat_performed env) (fun s hs => (fresh_of_initial s hs).1) hp

/-- Every stored response is vouched for. -/
theorem stored_vouched (h : Reach (system env) ok (· = initial) s) :
    ∀ row ∈ s.world.idem, Vouched env s.world row := by
  refine world_invariant
    (I := fun w => ∀ row ∈ w.idem, Vouched env w row) fresh_of_initial ?_ ?_ ?_ ?_ h
  · rintro s rfl row hr
    exact absurd hr (Table.not_mem_empty row)
  · intro w p tx hI row hr
    exact (hI row hr).mono ((World.Extends.refl w).setTx p tx)
  · intro s p ch t l c k w hr hI _ hp hl htx hc he row hrow
    rcases he.idem_saved hrow with hold | rfl
    · exact (hI row hold).mono he.grows
    · obtain ⟨hkey, -, hhash⟩ := hc.save
      have hb : Bears env s.world t row.responseBody :=
        (performs hr hp).1.bears (confirmations hr) hl
      exact ⟨t, Task.scope_of_key hkey, hhash.symm, hb.mono he.grows⟩
  · intro s e w hI _ hw row hrow
    have hidem : w.idem = s.world.idem := by cases e <;> cases hw <;> rfl
    rw [hidem] at hrow
    exact (hI row hrow).mono (outside_extends hw)

/-- What was found under a key was stored for that endpoint, and is vouched for. -/
theorem found_vouched (h : Reach (system env) ok (· = initial) s) :
    ∀ p pr, s.proc p = some pr → ∀ key scope row,
      Got pr.log (.idem (.findUnique key scope)) (some row) →
      row.scope = scope ∧ Vouched env s.world row := by
  refine Reach.invariant (I := fun s => ∀ p pr, s.proc p = some pr → ∀ key scope row,
    Got pr.log (.idem (.findUnique key scope)) (some row) →
      row.scope = scope ∧ Vouched env s.world row)
    (task_sat env) (fun s hs => (fresh_of_initial s hs).1) ?_ ?_ ?_ ?_ ?_ h
  · rintro s rfl p pr hp
    cases hp
  · intro s p t _ hI _ _
    refine Pool.forall_put (fun key scope row hgot => ?_) fun q pr _ hq => hI q pr hq
    obtain ⟨now, hm⟩ := hgot
    exact absurd hm List.not_mem_nil
  · intro s p ch t l c k w r hr hI _ hp hc hx _
    have hs := sound fresh_of_initial hr
    have hw := exec_extends (hs.shaped hp hc) hx
    have hkept : ∀ q pr, s.proc q = some pr → ∀ key scope row,
        Got pr.log (.idem (.findUnique key scope)) (some row) →
          row.scope = scope ∧ Vouched env w row :=
      fun q pr hq key scope row hgot =>
        ⟨(hI q pr hq key scope row hgot).1, (hI q pr hq key scope row hgot).2.mono hw⟩
    refine Pool.forall_put (fun key scope row hgot => ?_) fun q pr _ hq => hkept q pr hq
    obtain ⟨now, hm⟩ := hgot
    rcases List.mem_cons.mp hm with heq | hm
    · cases heq
      obtain ⟨hidem, hfound⟩ := lookup_reply (k := (key, scope)) hx
      have hk : row.key = key ∧ row.scope = scope := by simpa using Table.of_find? hfound.symm
      have hstored := stored_vouched hr row (Table.mem_of_find? hfound.symm)
      exact ⟨hk.2, hstored.mono hw⟩
    · exact hkept p _ hp key scope row ⟨now, hm⟩
  · intro s p t l x _ hI _ hp
    have hkept : ∀ q pr, s.proc q = some pr → ∀ key scope row,
        Got pr.log (.idem (.findUnique key scope)) (some row) →
          row.scope = scope ∧ Vouched env (kill p s.world) row :=
      fun q pr hq key scope row hgot =>
        ⟨(hI q pr hq key scope row hgot).1,
          (hI q pr hq key scope row hgot).2.mono (kill_extends p _)⟩
    exact Pool.forall_put (hkept p ⟨t, l, x, true⟩ hp) fun q pr _ hq => hkept q pr hq
  · intro s e w _ hI _ hw p pr hp key scope row hgot
    obtain ⟨hscope, hv⟩ := hI p pr hp key scope row hgot
    exact ⟨hscope, hv.mono (outside_extends hw)⟩

/-- A response is borne out for a request of the same endpoint and hash; without a key that is the
    request itself. -/
theorem borne_out (h : Reach (system env) ok (· = initial) s) {p : Pid} {t : Task} {l : History}
    {j : Json} {alive : Bool} (hp : s.proc p = some ⟨t, l, .ret (.ok j), alive⟩) :
    ∃ t' : Task,
      (t' = t ∨ (t.key ≠ none ∧ t'.scope = t.scope ∧ t'.requestHash env = t.requestHash env)) ∧
      Bears env s.world t' j := by
  have hs := sound fresh_of_initial h
  rcases performs h hp with hperf | ⟨k, row, hkey, hgot, hhash, rfl⟩
  · exact ⟨t, Or.inl rfl, Performed.bears (confirmations h) (hs.logs p _ hp) hperf⟩
  · obtain ⟨hscope, hv⟩ := found_vouched h p _ hp k.1 k.2 row hgot
    obtain ⟨t', hscope', hhash', hb⟩ :=
      hv.answers (t := t) (by rw [Task.scope_of_key hkey, hscope]) hhash.symm
    exact ⟨t', Or.inr ⟨by rw [hkey]; exact Option.some_ne_none k, hscope', hhash'⟩, hb⟩

end

/-! ## The responses of the API -/

/-- A created order is kept: whatever has happened since a `POST /orders` was answered, an order
    with the fields of the request is stored and the answer is the response to its creation. With a
    key the request may have been answered for another one, whose body has the same hash. -/
theorem created_is_kept (env : Env) {s s' : State} {p : Pid} {header : Option String}
    {dto : CreateOrderDto} {l : History} {j : Json} {alive : Bool}
    (h : Reach (system env) anyStep (· = initial) s)
    (hp : s.proc p = some ⟨.create header dto, l, .ret (.ok j), alive⟩)
    (hrun : Reach (system env) anyStep (· = s) s') :
    ∃ dto', (dto' = dto ∨ (keyOf header ≠ none ∧ createHash env dto' = createHash env dto)) ∧
      ∃ o ∈ s'.world.orders, AskedFor dto' o ∧ j = orderResponse env o.core := by
  obtain ⟨t, hsame, hb⟩ := borne_out h hp
  have hkept := hb.mono (run_extends fresh_of_initial h hrun)
  rcases hsame with rfl | ⟨hkey, hscope, hhash⟩
  · exact ⟨dto, Or.inl rfl, hkept⟩
  · cases t with
    | create header' dto' =>
      refine ⟨dto', Or.inr ⟨fun hnone => hkey ?_, hhash⟩, hkept⟩
      simp only [Task.key, hnone, Option.map_none]
    | confirm header' id =>
      exact absurd (Option.some_inj.mp hscope).symm (createScope_ne id)
    | _ => cases hscope

open Platform in
/-- Process 2 repeats the request of process 0 and is answered from the key. -/
def repeatedKey : List Step :=
  let request : Task := .create (some "key-1")
    { userId := "user-1", merchantId := "shop-1", amount := number 100, currency := "USD" }
  .spawn 0 request :: serves 0 3 ++ .spawn 2 request :: serves 2 1

open Platform in
/-- Then the order is confirmed by process 1. -/
def confirmLater : List Step := .spawn 1 (.confirm none (uuid 0).text) :: serves 1 5

/-- A `POST /orders` that is answered. -/
def respondedCreate : Process → Bool
  | ⟨.create _ _, _, .ret (.ok _), _⟩ => true
  | _ => false

/-- The second request with the key is answered, and when its order has been confirmed it is still
    the order of that hash. -/
theorem created_is_kept_run : ∃ s s' header dto l j alive,
    (system (platform id)).run initial repeatedKey = some s ∧
    s.proc 2 = some ⟨.create header dto, l, .ret (.ok j), alive⟩ ∧
    (system (platform id)).run s confirmLater = some s' ∧
    (s'.world.orders.any fun o => o.status == .CONFIRMED) = true ∧
    ∃ dto', createHash (platform id) dto' = createHash (platform id) dto ∧
      ∃ o ∈ s'.world.orders, AskedFor dto' o ∧ j = orderResponse (platform id) o.core := by
  have hrun : (((system (platform id)).run initial repeatedKey).bind fun s =>
      ((system (platform id)).run s confirmLater).map fun s' =>
        ((s.proc 2).any respondedCreate, s'.world.orders.any fun o => o.status == .CONFIRMED)) =
      some (true, true) := by decide +kernel
  obtain ⟨s, hs, hlater⟩ := Option.bind_eq_some_iff.mp hrun
  obtain ⟨s', hs', heq⟩ := Option.map_eq_some_iff.mp hlater
  obtain ⟨hany, hconfirmed⟩ := Prod.mk.inj heq
  obtain ⟨pr, hp, hpr⟩ := Option.any_eq_true _ _ |>.mp hany
  unfold respondedCreate at hpr
  split at hpr
  · next header dto l j alive =>
    obtain ⟨dto', hdto, hkept⟩ :=
      created_is_kept (platform id) (reach_of_run hs) hp (reach_of_run hs')
    refine ⟨s, s', header, dto, l, j, alive, hs, hp, hs', hconfirmed, dto', ?_, hkept⟩
    rcases hdto with rfl | ⟨-, hhash⟩
    · rfl
    · exact hhash
  · cases hpr

/-- A confirmed order is kept: whatever has happened since a `POST /orders/{id}/confirm` was
    answered, the order is CONFIRMED and the outbox holds an event with its fields. The answer names
    the order, and no event but this one. -/
theorem confirmed_is_kept (env : Env) {s s' : State} {p : Pid} {header : Option String}
    {id : String} {l : History} {j : Json} {alive : Bool}
    (h : Reach (system env) anyStep (· = initial) s)
    (hp : s.proc p = some ⟨.confirm header id, l, .ret (.ok j), alive⟩)
    (hrun : Reach (system env) anyStep (· = s) s') :
    ∃ o ∈ s'.world.orders, env.readUuid id = some o.id ∧ o.status = .CONFIRMED ∧
      ∃ e ∈ s'.world.outbox, EventOf e o ∧ PayloadOf env e.payload o ∧ ConfirmResponseOf o e j := by
  obtain ⟨t, hsame, hb⟩ := borne_out h hp
  have hown : Bears env s.world (.confirm header id) j := by
    rcases hsame with rfl | ⟨-, hscope, -⟩
    · exact hb
    · cases t with
      | create header' dto => exact absurd (Option.some_inj.mp hscope) (createScope_ne id)
      | confirm header' id' =>
        obtain rfl := confirmScope_inj (Option.some_inj.mp hscope)
        exact hb
      | _ => cases hscope
  obtain ⟨o, ho, hid, hstatus, e, he, heo, hj⟩ := hown.mono (run_extends fresh_of_initial h hrun)
  have hI : Confirmations env s'.world := confirmations (h.trans hrun)
  exact ⟨o, ho, hid, hstatus, e, he, heo, hI.payload ho he heo, hj⟩

/-- A confirmation that is answered. -/
def respondedConfirm : Process → Bool
  | ⟨.confirm _ _, _, .ret (.ok _), _⟩ => true
  | _ => false

/-- The order that process 1 has confirmed is kept when its event has been published and stored. -/
theorem confirmed_is_kept_run : ∃ s s' header id l j alive,
    (system (platform fun x => x)).run initial createAndConfirm = some s ∧
    s.proc 1 = some ⟨.confirm header id, l, .ret (.ok j), alive⟩ ∧
    (system (platform fun x => x)).run s (publishEvent ++ storeEvent) = some s' ∧
    (s'.world.outbox.any fun e => e.status == .SENT) = true ∧
    ∃ o ∈ s'.world.orders, o.status = .CONFIRMED ∧
      ∃ e ∈ s'.world.outbox, ConfirmResponseOf o e j := by
  have hrun : (((system (platform fun x => x)).run initial createAndConfirm).bind fun s =>
      ((system (platform fun x => x)).run s (publishEvent ++ storeEvent)).map fun s' =>
        ((s.proc 1).any respondedConfirm, s'.world.outbox.any fun e => e.status == .SENT)) =
      some (true, true) := by decide +kernel
  obtain ⟨s, hs, hlater⟩ := Option.bind_eq_some_iff.mp hrun
  obtain ⟨s', hs', heq⟩ := Option.map_eq_some_iff.mp hlater
  obtain ⟨hany, hsent⟩ := Prod.mk.inj heq
  obtain ⟨pr, hp, hpr⟩ := Option.any_eq_true _ _ |>.mp hany
  unfold respondedConfirm at hpr
  split at hpr
  · next header id l j alive =>
    obtain ⟨o, ho, -, hstatus, e, he, -, -, hj⟩ :=
      confirmed_is_kept (platform fun x => x) (reach_of_run hs) hp (reach_of_run hs')
    exact ⟨s, s', header, id, l, j, alive, hs, hp, hs', hsent, o, ho, hstatus, e, he, hj⟩
  · cases hpr

end CashbackLedger
