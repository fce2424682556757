import CashbackLedger.Safety.Idempotency

/-
  One client that repeats a keyed `create`.

  The client starts an attempt when the previous one has ended, whichever way it did. The order and
  the response under the key are two commits: an attempt that dies or fails between them leaves an
  order that the next attempt does not find, and it creates another one. The ghost value of a run
  are the orders that the attempts have created, beside those of all other clients. In runs in which
  no attempt ends between the two commits, they create one order, and all that succeed return it
  (`keyed_create_atomic`).
-/

namespace CashbackLedger

open Lib History

/-- A live attempt to create an order under the key that has not ended. -/
def creating (key : String) : Option Process → Bool
  | some ⟨.create header _, _, .call _ _, true⟩ => keyOf header == some key
  | _ => false

/-- The attempts under the key are those of one client: they do not overlap. -/
def OneClient (key : String) (s : State) : Step → Prop
  | .spawn _ (.create header _) => keyOf header = some key → ∀ q, creating key (s.proc q) = false
  | _ => True

/-- The orders that a step adds. -/
def ordersAdded (s s' : State) : List Uuid :=
  (s'.world.orders.rows.filter fun o => !s.world.orders.any fun o₀ => o₀.id == o.id).map Order.id

/-- The orders that requests under the key have created. -/
def ordersUnder (k : String × String) (s : State) (lb : Step) (s' : State) (made : List Uuid) :
    List Uuid :=
  match lb with
  | .step p _ =>
      if (s.proc p).any fun pr => pr.task.key == some k then ordersAdded s s' ++ made else made
  | _ => made

/-- The database can store the row. -/
def IdempotencyKey.storable (row : IdempotencyKey) : Bool :=
  Json.storableText row.key && Json.storableText row.scope && row.responseBody.storable

/-- No attempt ends between its order and the response under its key: the insert of the order does
    not lose its reply, the save takes effect, and no attempt dies when the save is its next
    call. -/
def savesOrder (key : String) (s : State) : Step → Bool
  | .step p ch => !creating key (s.proc p) ||
      match s.nextCall p, ch.fate with
      | some (.orders _), .lost _ => false
      | some (.idem (.upsert _)), .fail _ => false
      | some (.idem (.upsert row)), _ => row.storable
      | _, _ => true
  | .crash p => !creating key (s.proc p) ||
      match s.nextCall p with
      | some (.idem (.upsert _)) => false
      | _ => true
  | _ => true

/-- The response names the order. -/
def NamesOrder (body : Json) (id : Uuid) : Prop := body.field "id" = some (.str id.text)

/-- The order is the one of the response under the key, or of the attempt that is about to save
    it. -/
inductive Accounted (k : String × String) (s : State) (id : Uuid) : Prop where
  | saved {hash : String} {body : Json} (holds : s.world.Holds k hash body)
      (names : NamesOrder body id)
  | saving {p : Pid} {pr : Process} {o : Order} (request : Request k s p pr)
      (inside : window (s.proc p) = some k) (made : History.made pr.log = [.inl o])
        (same : o.id = id)

/-- The attempts do not overlap. -/
def AttemptsAlone (key : String) (s : State) : Prop :=
  ∀ p q, creating key (s.proc p) = true → creating key (s.proc q) = true → p = q

/-- The orders of the attempts: there is one at most, it is stored and accounted for. -/
structure CreateInv (key : String) (s : State) (made : List Uuid) : Prop where
  accounted : ∀ id ∈ made, Accounted (key, createScope) s id
  stored : ∀ id ∈ made, ∃ o ∈ s.world.orders, o.id = id
  unique : made.length ≤ 1

theorem confirmScope_ne (id : String) : confirmScope id ≠ createScope := by
  intro h
  have hlength := congrArg String.length h
  simp only [confirmScope, confirmPath, createScope, String.length_append] at hlength
  have h1 : "POST:".length = 5 := by decide
  have h2 : "/orders/".length = 8 := by decide
  have h3 : "POST:/orders".length = 12 := by decide
  have h4 : "/confirm".length = 8 := by decide
  omega

/-- Requests in the scope of `create` are attempts. -/
theorem create_of_key {t : Task} {key : String} (h : t.key = some (key, createScope)) :
    ∃ header dto, t = .create header dto ∧ keyOf header = some key := by
  cases t with
  | create header dto =>
    obtain ⟨key', hkey, heq⟩ := Option.map_eq_some_iff.mp h
    exact ⟨header, dto, rfl, by rw [hkey, (Prod.mk.inj heq).1]⟩
  | confirm header id =>
    obtain ⟨key', -, heq⟩ := Option.map_eq_some_iff.mp h
    exact absurd (congrArg Prod.snd heq) (confirmScope_ne id)
  | _ => cases h

section

variable {env : Env} {p : Pid} {ch : Choice} {w w' : World} {d : OrderData} {o : Order}

/-- An order in the table after an insert was there before, or the insert reports it, or its reply
    is lost. -/
theorem create_reply {r : Reply (.orders (.create d))}
    (h : exec env p (.orders (.create d)) ch w = some (w', r)) (ho : o ∈ w'.orders) :
    o ∈ w.orders ∨ r.1 = .ok o ∨ ∃ m, ch.fate = .lost m := by
  cases exec_served h with
  | failed fate => exact Or.inl ho
  | lost fate run => exact Or.inr (Or.inr ⟨_, fate⟩)
  | @ok w₁ x fate run =>
    obtain ⟨⟨tbl, y⟩, hy, heq⟩ := Option.map_eq_some_iff.mp run
    cases heq
    simp only [OrderCall.run] at hy
    split at hy
    · split at hy
      · cases hy
        exact Or.inl ho
      · obtain ⟨t', ht, heq⟩ := Option.map_eq_some_iff.mp hy
        cases heq
        refine ((Table.mem_insert ht).mp ho).imp_right ?_
        rintro rfl
        exact Or.inl rfl
    · cases hy
      exact Or.inl ho

/-- A save of a storable row that does not fail takes effect. -/
theorem save_takes_effect {row : IdempotencyKey} {r : Reply (.idem (.upsert row))}
    (h : exec env p (.idem (.upsert row)) ch w = some (w', r)) (hst : row.storable = true)
    (hfate : ∀ m, ch.fate ≠ .fail m) :
    w'.Holds (row.key, row.scope) row.requestHash row.responseBody := by
  have hrun : ∀ {w₁ : World} {x : Except Fault IdempotencyKey},
      Call.run env p ch.newId w (.idem (.upsert row)) = some (w₁, x) → ∃ y, x = .ok y := by
    intro w₁ x run
    obtain ⟨⟨tbl, y⟩, hy, heq⟩ := Option.map_eq_some_iff.mp run
    cases heq
    unfold IdempotencyKey.storable at hst
    simp only [IdemCall.run, hst, if_true] at hy
    split at hy
    · cases hy
      exact ⟨_, rfl⟩
    · obtain ⟨t', -, heq⟩ := Option.map_eq_some_iff.mp hy
      cases heq
      exact ⟨_, rfl⟩
  cases exec_served h with
  | failed fate => exact absurd fate (hfate _)
  | lost fate run =>
    obtain ⟨y, rfl⟩ := hrun run
    have hholds := upsert_holds run
    exact hholds
  | ok fate run =>
    obtain ⟨y, rfl⟩ := hrun run
    have hholds := upsert_holds run
    exact hholds

end

/-! ## The attempts do not overlap -/

section

variable {env : Env} {ok : State → Step → Prop} {s₀ s : State} {key : String} {p : Pid}
  {ch : Choice} {t : Task} {l : History} {c : Call} {kont : Reply c → Prog Call Reply Outcome}
  {w : World} {r : Reply c}

theorem creating_put {pr pr' : Process} {w : World} (hp : s.proc p = some pr)
    (hpr : creating key (some pr') = true → creating key (some pr) = true) {q : Pid}
    (h : creating key ((s.put w p pr').proc q) = true) : creating key (s.proc q) = true := by
  rw [Pool.put_proc] at h
  split at h
  · next heq =>
    rw [heq, hp]
    exact hpr h
  · exact h

/-- A step that starts no attempt. -/
theorem AttemptsAlone.put (hA : AttemptsAlone key s) {pr pr' : Process} (hp : s.proc p = some pr)
    (hpr : creating key (some pr') = true → creating key (some pr) = true) :
    AttemptsAlone key (s.put w p pr') := fun q q' hq hq' =>
  hA q q' (creating_put hp hpr hq) (creating_put hp hpr hq')

theorem creating_create {header : Option String} {dto : CreateOrderDto}
    {x : Prog Call Reply Outcome} {alive : Bool}
    (h : creating key (some ⟨.create header dto, l, x, alive⟩) = true) :
    keyOf header = some key := by
  unfold creating at h
  split at h
  · next heq =>
    cases heq
    exact beq_iff_eq.mp h
  · cases h

theorem attemptsAlone (hstart : ∀ s, s = s₀ → Fresh s) (hok : ∀ s lb, ok s lb → OneClient key s lb)
    (h : Reach (system env) ok (· = s₀) s) : AttemptsAlone key s := by
  refine Reach.invariant (task_sat env) (fun s hs => (hstart s hs).1) ?_ ?_ ?_ ?_ ?_ h
  · intro s hs p q hp
    rw [(hstart s hs).1 p] at hp
    cases hp
  · intro s p t _ hA hmet hfree
    refine Pool.alone_put (M := fun o => creating key o = true) hA fun q _ hcreating => ?_
    cases t with
    | create header dto =>
      rw [hok _ _ hmet (creating_create hcreating) q]
      exact Bool.false_ne_true
    | _ => cases hcreating
  · intro s p ch t l c kont w r _ hA _ hp _ _ _
    refine hA.put hp fun hc => ?_
    cases t with
    | create header dto => exact beq_iff_eq.mpr (creating_create hc)
    | _ => cases hc
  · intro s p t l x _ hA _ hp
    exact hA.put hp fun hc => by simp [creating] at hc
  · exact fun s o w _ hA _ _ => hA

/-- A process in a window of the client's key is an attempt under way. -/
theorem creating_of_window (hown : ∀ p pr, s.proc p = some pr →
    History.missed pr.log = some (key, createScope) → pr.task.key = some (key, createScope))
    (h : window (s.proc p) = some (key, createScope)) : creating key (s.proc p) = true := by
  generalize hp : s.proc p = x at h ⊢
  unfold window at h
  split at h
  · obtain ⟨header, dto, rfl, hkey⟩ := create_of_key (hown p _ hp h)
    exact beq_iff_eq.mpr hkey
  · cases h

theorem looksUpAlone (hstart : ∀ s, s = s₀ → Fresh s) (hok : ∀ s lb, ok s lb → OneClient key s lb)
    (h : Reach (system env) ok (· = s₀) s) (lb : Step) : LooksUpAlone (key, createScope) s lb := by
  have hA := attemptsAlone hstart hok h
  have hown := key_of_missed (k := (key, createScope)) hstart h
  cases lb with
  | step p ch =>
    intro hnext q hq hin
    have hp : creating key (s.proc p) = true := by
      unfold Pool.nextCall at hnext
      generalize hp : s.proc p = x at hnext ⊢
      unfold Proc.nextCall at hnext
      split at hnext
      · next t l y =>
        cases y with
        | ret a => cases hnext
        | call c kont =>
          obtain rfl := Option.some_inj.mp hnext
          have hc := (obeys hstart h hp).1
          obtain ⟨header, dto, rfl, hkey⟩ := create_of_key (Task.Calls.lookup hc).1
          exact beq_iff_eq.mpr hkey
      · cases hnext
    exact hq (hA q p (creating_of_window hown hin) hp)
  | _ => exact trivial

/-! ## One order -/

/-- The runs of the client in which no attempt ends between its order and its response. -/
def ClientRun (key : String) (s : State) (lb : Step) : Prop :=
  OneClient key s lb ∧ savesOrder key s lb = true

/-- Such a run with the orders of the attempts. -/
abbrev ClientOrders (env : Env) (key : String) (s₀ : State) : State → List Uuid → Prop :=
  Traced (system env) (ordersUnder (key, createScope)) (fun s _ lb => ClientRun key s lb)
    fun s made => s = s₀ ∧ made = []

/-- An order that is accounted for leaves no room for another one: no attempt is about to insert. -/
theorem Accounted.excludes {id : Uuid} (h : Accounted (key, createScope) s id)
    (hK : KeyInv (key, createScope) s) (hp : s.proc p = some ⟨t, l, .call c kont, true⟩)
    (hmissed : History.missed l = some (key, createScope)) : History.made l ≠ [] := by
  have hin : window (s.proc p) = some (key, createScope) := by rw [hp, window_call, hmissed]
  cases h with
  | saved holds names => exact absurd holds.taken (hK.free hin)
  | @saving q pr o request inside made same =>
    obtain rfl := hK.alone hin inside
    obtain rfl := Option.some_inj.mp (hp.symm.trans request.1)
    rw [made]
    exact List.cons_ne_nil _ _

/-- The order of an attempt stays accounted for when its own call is answered: the call is the
    save. -/
theorem saving_step {header : Option String} {dto : CreateOrderDto} {o : Order}
    (hp : s.proc p = some ⟨.create header dto, l, .call c kont, true⟩)
    (hkey : keyOf header = some key) (hc : CreateCall env header dto l c)
    (hx : exec env p c ch s.world = some (w, r)) (hsaves : savesOrder key s (.step p ch) = true)
    (hmissed : History.missed l = some (key, createScope)) (hmade : History.made l = [.inl o]) :
    ∃ hash body, w.Holds (key, createScope) hash body ∧ NamesOrder body o.id := by
  have hcreating : creating key (s.proc p) = true := by
    rw [hp]
    exact beq_iff_eq.mpr hkey
  simp only [savesOrder, hcreating, Pool.nextCall_of hp, Bool.not_true, Bool.false_or] at hsaves
  cases c with
  | orders c =>
    cases c with
    | create d =>
      rw [hc.2.2.1] at hmade
      cases hmade
  | idem c =>
    cases c with
    | findUnique key' scope =>
      rw [hc.2.2] at hmissed
      cases hmissed
    | upsert row =>
      obtain ⟨key', o', now, hkey', -, hmade', -, rfl⟩ := hc
      rw [hkey] at hkey'
      cases hkey'
      rw [hmade] at hmade'
      cases hmade'
      cases hfate : ch.fate with
      | fail m =>
        simp [hfate] at hsaves
      | ok =>
        simp only [hfate] at hsaves
        exact ⟨_, _, save_takes_effect hx hsaves (by rw [hfate]; exact nofun), rfl⟩
      | lost m =>
        simp only [hfate] at hsaves
        exact ⟨_, _, save_takes_effect hx hsaves (by rw [hfate]; exact nofun), rfl⟩
  | _ => exact hc.elim

/-- After the insert of an order the attempt is about to save it. -/
theorem saving_next {header : Option String} {dto : CreateOrderDto} {o : Order} {d : OrderData}
    {now : Time} {kont : Reply (.orders (.create d)) → Prog Call Reply Outcome}
    (hK : KeyInv (key, createScope) s)
    (hp : s.proc p = some ⟨.create header dto, l, .call (.orders (.create d)) kont, true⟩)
    (hkey : keyOf header = some key) (hc : CreateCall env header dto l (.orders (.create d)))
    (hrest : Sat (Task.Calls env (.create header dto)) (Task.Ends env (.create header dto))
      (⟨.orders (.create d), (.ok o, now)⟩ :: l) (kont (.ok o, now))) :
    Accounted (key, createScope)
      (s.put w p
        ⟨.create header dto, ⟨.orders (.create d), (.ok o, now)⟩ :: l, kont (.ok o, now), true⟩)
      o.id := by
  obtain ⟨-, hmissed, hnone, hclean⟩ := hc
  have hk : Task.key (.create header dto) = some (key, createScope) := by
    simp only [Task.key, hkey, Option.map_some]
  have hmade : History.made (⟨.orders (.create d), (.ok o, now)⟩ :: l) = [.inl o] := by
    show Sum.inl o :: History.made l = [.inl o]
    rw [hnone]
  refine .saving ⟨Pool.put_self _ _ _ _, hk⟩ ?_ hmade rfl
  rw [Pool.put_self]
  generalize kont (.ok o, now) = y at hrest ⊢
  cases y with
  | call c' kont' => exact hmissed key hkey
  | ret a =>
    cases a with
    | ok j =>
      -- a response would already be stored
      obtain ⟨row, hrem, -⟩ := Task.Ends.served hrest hk
      rcases remembers_cons hrem with hold | ⟨_, heq⟩ | ⟨_, _, heq, -⟩
      · have hholds := hK.remembered p _ row hp hold
        exact absurd hholds.taken (hK.free (p := p) (by rw [hp, window_call, hmissed key hkey]))
      · cases heq
      · cases heq
    | error e =>
      rcases Task.Ends.refused hrest hk with hf | ⟨-, hempty⟩
      · exact absurd hf (not_anyFailed_cons (c := .orders (.create d)) hclean o now)
      · rw [hmade] at hempty
        cases hempty

theorem clientKeyInv (hfresh : Fresh s₀) (h : Reach (system env) (ClientRun key) (· = s₀) s) :
    KeyInv (key, createScope) s := by
  have hstart : ∀ s, s = s₀ → Fresh s := fun _ heq => heq ▸ hfresh
  refine keyInv hfresh (fun _ _ hmet => hmet) (h.restrict fun s lb hr _ => ?_)
  exact looksUpAlone hstart (fun _ _ hmet => hmet.1) hr lb

/-- What is accounted for stays so in a step of another process. -/
theorem Accounted.put {id : Uuid} (h : Accounted (key, createScope) s id) {pr : Process}
    (hholds : ∀ hash body, s.world.Holds (key, createScope) hash body →
      w.Holds (key, createScope) hash body)
    (hself : ∀ pr₀ o, s.proc p = some pr₀ → pr₀.task.key = some (key, createScope) →
      window (s.proc p) = some (key, createScope) → History.made pr₀.log = [.inl o] → o.id = id →
        Accounted (key, createScope) (s.put w p pr) id) :
    Accounted (key, createScope) (s.put w p pr) id := by
  cases h with
  | saved holds names => exact .saved (hholds _ _ holds) names
  | @saving q qr o request inside made same =>
    by_cases hqp : q = p
    · subst hqp
      exact hself qr o request.1 request.2 inside made same
    · have hrequest : Request (key, createScope) (s.put w p pr) q qr :=
        ⟨(Pool.put_other _ _ _ _ hqp).trans request.1, request.2⟩
      refine .saving hrequest ?_ made same
      rw [Pool.put_other _ _ _ _ hqp]
      exact inside

/-- An order that an attempt adds is the one its insert is answered with. -/
theorem added_origin {s' : State} {header : Option String} {dto : CreateOrderDto} {id : Uuid}
    (hs : Sound env s) (hp : s.proc p = some ⟨.create header dto, l, .call c kont, true⟩)
    (hkey : keyOf header = some key) (hc : Task.Calls env (.create header dto) l c)
    (hx : exec env p c ch s.world = some (w, r)) (hsaves : savesOrder key s (.step p ch) = true)
    (hw : s'.world = w) (hid : id ∈ ordersAdded s s') :
    ∃ o ∈ w.orders, o.id = id ∧ ∃ d now, (⟨c, r⟩ : Σ c, Reply c) =
      ⟨.orders (.create d), (.ok o, now)⟩ := by
  obtain ⟨o, hadded, rfl⟩ := List.mem_map.mp hid
  obtain ⟨ho, hnew⟩ := List.mem_filter.mp hadded
  rw [hw] at ho
  have hnone : ∀ o₀ ∈ s.world.orders, o₀.id ≠ o.id := fun o₀ ho₀ heq => by
    have hany : (s.world.orders.any fun o₀ => o₀.id == o.id) = true :=
      Table.any_iff.mpr ⟨o₀, ho₀, beq_iff_eq.mpr heq⟩
    rw [hany] at hnew
    cases hnew
  obtain ⟨w₁, heff, hworld⟩ := exec_effect (hs.shaped hp hc) hx
  have ho₁ : o ∈ w₁.orders := by
    rw [hworld] at ho
    exact ho
  rcases heff.order_origin ho₁ with ⟨o₀, ho₀, hcore, -⟩ | ⟨d, amount, rfl, -, -⟩
  · exact absurd (Order.id_of_core hcore).symm (hnone o₀ ho₀)
  · obtain ⟨x, now⟩ := r
    rcases create_reply hx ho with hold | hr | ⟨m, hfate⟩
    · exact absurd rfl (hnone o hold)
    · cases hr
      exact ⟨o, ho, rfl, d, now, rfl⟩
    · have hcreating : creating key (s.proc p) = true := by
        rw [hp]
        exact beq_iff_eq.mpr hkey
      simp [savesOrder, hcreating, Pool.nextCall_of hp, hfate] at hsaves

theorem ordersAdded_nodup (s s' : State) : (ordersAdded s s').Nodup := by
  refine List.pairwise_map.mpr ((s'.world.orders.apart.filter _).imp fun {a b} h heq => ?_)
  simp [Indexed.clash, heq] at h

/-- The call of an attempt, or of any other process. -/
theorem CreateInv.call {made : List Uuid} (hI : CreateInv key s made)
    (hK : KeyInv (key, createScope) s) (hs : Sound env s)
    (hp : s.proc p = some ⟨t, l, .call c kont, true⟩) (hc : t.Calls env l c)
    (hx : exec env p c ch s.world = some (w, r)) (hsaves : savesOrder key s (.step p ch) = true)
    (hrest : Sat (t.Calls env) (t.Ends env) (⟨c, r⟩ :: l) (kont r)) :
    CreateInv key (s.put w p ⟨t, ⟨c, r⟩ :: l, kont r, true⟩)
      (ordersUnder (key, createScope) s (.step p ch)
        (s.put w p ⟨t, ⟨c, r⟩ :: l, kont r, true⟩) made) := by
  have hholds : ∀ hash body, s.world.Holds (key, createScope) hash body →
      w.Holds (key, createScope) hash body := fun _ _ =>
    hK.holds hp (key_step (k := (key, createScope)) hc (hs.shaped hp hc) hx)
  have hkept : CreateInv key (s.put w p ⟨t, ⟨c, r⟩ :: l, kont r, true⟩) made := by
    refine ⟨fun id hid => (hI.accounted id hid).put hholds fun pr₀ o₁ hp₀ hk hin hmade hsame => ?_,
      fun id hid => ?_, hI.unique⟩
    · obtain rfl := Option.some_inj.mp (hp.symm.trans hp₀)
      obtain ⟨header, dto, rfl, hkey⟩ := create_of_key hk
      rw [hp, window_call] at hin
      obtain ⟨hash, body, hheld, hnames⟩ := saving_step hp hkey hc hx hsaves hin hmade
      exact .saved hheld (hsame ▸ hnames)
    · obtain ⟨o, ho, rfl⟩ := hI.stored id hid
      obtain ⟨o', ho', hcore, -⟩ := (exec_extends (hs.shaped hp hc) hx).orders o ho
      exact ⟨o', ho', Order.id_of_core hcore⟩
  unfold ordersUnder
  dsimp only
  rw [hp]
  split
  · next hk =>
    obtain ⟨header, dto, rfl, hkey⟩ := create_of_key (beq_iff_eq.mp hk)
    generalize hadded : ordersAdded s _ = added
    have hnodup : added.Nodup := hadded ▸ ordersAdded_nodup s _
    cases added with
    | nil => exact hkept
    | cons id rest =>
      have horigin : ∀ id' ∈ id :: rest, ∃ o ∈ w.orders, o.id = id' ∧ ∃ d now,
          (⟨c, r⟩ : Σ c, Reply c) = ⟨.orders (.create d), (.ok o, now)⟩ := fun id' hid' =>
        added_origin hs hp hkey hc hx hsaves rfl (hadded ▸ hid')
      obtain ⟨o, ho, rfl, d, now, heq⟩ := horigin id List.mem_cons_self
      cases heq
      -- all that was added is what the insert was answered with, and nothing was there before
      obtain rfl : rest = [] := by
        refine List.eq_nil_iff_forall_not_mem.mpr fun id' hid' => ?_
        obtain ⟨o', -, hid, d', now', heq'⟩ := horigin id' (List.mem_cons_of_mem _ hid')
        cases heq'
        exact (List.nodup_cons.mp hnodup).1 (hid ▸ hid')
      obtain rfl : made = [] := by
        refine List.eq_nil_iff_forall_not_mem.mpr fun id' hid' => ?_
        obtain ⟨-, hmissed, hnone, -⟩ := hc
        exact (hI.accounted id' hid').excludes hK hp (hmissed key hkey) hnone
      refine ⟨fun id' hid' => ?_, fun id' hid' => ?_, Nat.le_refl 1⟩
      · rw [List.mem_singleton.mp hid']
        exact saving_next hK hp hkey hc hrest
      · exact ⟨o, ho, (List.mem_singleton.mp hid').symm⟩
  · exact hkept

/-- An attempt that has made its order has the save as its next call, and does not die there. -/
theorem CreateInv.crash {x : Prog Call Reply Outcome} {made : List Uuid} (hI : CreateInv key s made)
    (hp : s.proc p = some ⟨t, l, x, true⟩) (hsat : Sat (t.Calls env) (t.Ends env) l x)
    (hsaves : savesOrder key s (.crash p) = true) (hidem : w.idem = s.world.idem)
    (horders : w.orders = s.world.orders) : CreateInv key (s.put w p ⟨t, l, x, false⟩) made := by
  refine ⟨fun id hid => ?_, fun id hid => ?_, hI.unique⟩
  · refine (hI.accounted id hid).put (fun _ _ hheld => ?_) fun pr₀ o₁ hp₀ hk hin hmade _ => ?_
    · unfold World.Holds at hheld ⊢
      rw [hidem]
      exact hheld
    obtain rfl := Option.some_inj.mp (hp.symm.trans hp₀)
    obtain ⟨header, dto, rfl, hkey⟩ := create_of_key hk
    have hmissed := missed_of_window (hp ▸ hin)
    cases x with
    | ret a =>
      rw [hp] at hin
      cases hin
    | call c kont =>
      have hc : CreateCall env header dto l c := hsat.1
      cases c with
      | orders c =>
        cases c with
        | create d =>
          rw [hc.2.2.1] at hmade
          cases hmade
      | idem c =>
        cases c with
        | findUnique key' scope =>
          rw [hc.2.2] at hmissed
          cases hmissed
        | upsert row =>
          have hcreating : creating key (s.proc p) = true := by
            rw [hp]
            exact beq_iff_eq.mpr hkey
          simp [savesOrder, hcreating, Pool.nextCall_of hp] at hsaves
      | _ => exact hc.elim
  · obtain ⟨o, ho, heq⟩ := hI.stored id hid
    exact ⟨o, horders ▸ ho, heq⟩

theorem ClientOrders.reach {made : List Uuid} (h : ClientOrders env key s₀ s made) :
    Reach (system env) (ClientRun key) (· = s₀) s :=
  h.forget (fun _ _ _ hmet => hmet) fun _ _ hs => hs.1

theorem createInv {made : List Uuid} (hfresh : Fresh s₀) (h : ClientOrders env key s₀ s made) :
    CreateInv key s made := by
  have hstart : ∀ s, s = s₀ → Fresh s := fun _ heq => heq ▸ hfresh
  refine Traced.invariant (task_sat env) (fun s _ hs => (hstart s hs.1).1) ?_ ?_ ?_ ?_ ?_ h
  · rintro s made ⟨-, rfl⟩
    exact ⟨fun id hid => absurd hid List.not_mem_nil, fun id hid => absurd hid List.not_mem_nil,
      Nat.zero_le 1⟩
  · intro s made p t _ hI _ hfree
    refine ⟨fun id hid => (hI.accounted id hid).put (fun _ _ hheld => hheld) fun pr₀ o₁ hp₀ => ?_,
      hI.stored, hI.unique⟩
    rw [hfree] at hp₀
    cases hp₀
  · intro s made p ch t l c kont w r hr hI hmet hp hc hx
    have hrest := (obeys hstart (ClientOrders.reach hr) hp).2 r
    exact hI.call (clientKeyInv hfresh (ClientOrders.reach hr))
      (sound hstart (ClientOrders.reach hr)) hp
      hc hx hmet.2 hrest
  · intro s made p t l x hr hI hmet hp
    exact hI.crash hp (obeys hstart (ClientOrders.reach hr) hp) hmet.2 rfl rfl
  · intro s made o w _ hI _ hw
    have horders : w.orders = s.world.orders := by cases o <;> cases hw <;> rfl
    have hidem : w.idem = s.world.idem := by cases o <;> cases hw <;> rfl
    refine ⟨fun id hid => ?_, fun id hid => ?_, hI.unique⟩
    · cases hI.accounted id hid with
      | @saved hash body holds names =>
        have hholds : w.Holds (key, createScope) hash body := by
          unfold World.Holds at holds ⊢
          rw [hidem]
          exact holds
        exact .saved hholds names
      | saving request inside made same => exact .saving request inside made same
    · obtain ⟨o, ho, heq⟩ := hI.stored id hid
      exact ⟨o, horders ▸ ho, heq⟩

/-- In runs in which no attempt ends between its order and its response, the attempts create one
    order, and every attempt that succeeds returns it; what others order beside does not matter. -/
theorem keyed_create_atomic (env : Env) (key : String) {s₀ s : State} {made : List Uuid}
    (hfresh : Fresh s₀) (h : ClientOrders env key s₀ s made) :
    made.length ≤ 1 ∧ ∀ id ∈ made, (∃ o ∈ s.world.orders, o.id = id) ∧ ∀ p header dto l j alive,
      s.proc p = some ⟨.create header dto, l, .ret (.ok j), alive⟩ → keyOf header = some key →
        NamesOrder j id := by
  have hstart : ∀ s, s = s₀ → Fresh s := fun _ heq => heq ▸ hfresh
  have hI := createInv hfresh h
  have hr := ClientOrders.reach h
  have hK := clientKeyInv hfresh hr
  refine ⟨hI.unique, fun id hid => ⟨hI.stored id hid, fun p header dto l j alive hp hkey => ?_⟩⟩
  have hk : Task.key (.create header dto) = some (key, createScope) := by
    simp only [Task.key, hkey, Option.map_some]
  have hheld := responded_holds (fun p pr hp => obeys hstart hr hp) hK ⟨hp, hk⟩ rfl
  cases hI.accounted id hid with
  | saved holds names =>
    rw [(hheld.unique holds).2]
    exact names
  | saving request inside made same => exact absurd hheld.taken (hK.free inside)

end

/-! ## A lost response -/

/-- The step does not start an attempt while the process makes one. -/
def startsApart (key : String) (pr : Option Process) : Step → Bool
  | .spawn _ (.create header _) => keyOf header != some key || !creating key pr
  | _ => true

def oneClientCheck (key : String) (n : Nat) : Check n (OneClient key) :=
  (Check.each (fun _ lb _ pr => startsApart key pr lb) fun s lb p => by
    unfold startsApart
    split <;> simp [creating]).imp fun s lb h => by
    cases lb with
    | spawn p t =>
      cases t with
      | create header dto =>
        intro hkey q
        simpa [startsApart, hkey] using h q
      | _ => exact trivial
    | _ => exact trivial

open Platform in
/-- The first attempt dies after its order is created, the second one succeeds. -/
def repeatAfterCrash : List Step :=
  createUnder 0 100 :: serves 0 2 ++ .crash 0 :: createUnder 1 100 :: serves 1 3

/-- The client's attempts create two orders. -/
theorem keyed_create_repeated :
    ∃ s made, Traced (system (platform id)) (ordersUnder ("key-1", createScope))
        (fun s _ lb => OneClient "key-1" s lb) (fun s made => s = initial ∧ made = []) s made ∧
      made.length = 2 := by
  have hrun : (((system (platform id)).runTraced 2 (ordersUnder ("key-1", createScope))
      (fun s _ lb => (oneClientCheck "key-1" 2).test s lb) initial [] repeatAfterCrash).map
        fun x => x.2.length) = some 2 := by decide +kernel
  obtain ⟨⟨s, made⟩, hs, hlength⟩ := Option.map_eq_some_iff.mp hrun
  exact ⟨s, made, (oneClientCheck "key-1" 2).traced
    (fun _ _ _ h => h) hs (initial_below 2) ⟨rfl, rfl⟩, hlength⟩

open Platform in
/-- The first attempt's save loses its reply, another client orders without a key, and the second
    attempt is answered from the table. -/
def repeatAfterLoss : List Step :=
  createUnder 0 100 :: serves 0 2 ++
    .step 0 { fate := .lost "connection lost", newId := uuid 0 } ::
    .spawn 2 (.create none (orderOf 50)) :: serve 2 :: createUnder 1 100 :: serves 1 1

/-- Whether a create request has been answered. -/
def answeredCreate (key : String) : Process → Bool
  | ⟨.create header _, _, .ret (.ok _), _⟩ => keyOf header == some key
  | _ => false

theorem keyed_create_atomic_run :
    ∃ s made id, ClientOrders (platform fun x => x) "key-1" initial s made ∧ made = [id] ∧
      s.world.orders.rows.length = 2 ∧ ∃ header dto l j alive,
        s.proc 1 = some ⟨.create header dto, l, .ret (.ok j), alive⟩ ∧ NamesOrder j id := by
  let check := (oneClientCheck "key-1" 3).and (Check.of (savesOrder "key-1"))
  have hrun : (((system (platform fun x => x)).runTraced 3 (ordersUnder ("key-1", createScope))
      (fun s _ lb => check.test s lb) initial [] repeatAfterLoss).map
        fun x =>
          (x.2.length, x.1.world.orders.rows.length, (x.1.proc 1).any (answeredCreate "key-1"))) =
      some (1, 2, true) := by decide +kernel
  obtain ⟨⟨s, made⟩, hs, heq⟩ := Option.map_eq_some_iff.mp hrun
  simp only [Prod.mk.injEq] at heq
  obtain ⟨hlength, horders, hended⟩ := heq
  obtain ⟨id, rfl⟩ := List.length_eq_one_iff.mp hlength
  obtain ⟨pr, hp, hpr⟩ := Option.any_eq_true _ _ |>.mp hended
  have h : ClientOrders (platform fun x => x) "key-1" initial s [id] :=
    check.traced (fun _ _ _ h => h) hs (initial_below 3) ⟨rfl, rfl⟩
  unfold answeredCreate at hpr
  split at hpr
  · next header dto l j alive =>
    refine ⟨s, [id], id, h, rfl, horders, header, dto, l, j, alive, hp, ?_⟩
    exact ((keyed_create_atomic (platform fun x => x) "key-1" initial_fresh h).2 id
      List.mem_cons_self).2 1 header dto l j alive hp (beq_iff_eq.mp hpr)
  · cases hpr

end CashbackLedger
