import CashbackLedger.Safety.Delivery

/-
  Which inbox row tracks a message.

  The consumer files a message under its `id`, else under its key, else under 'unknown', all as
  text. As long as messages filed under the same text name the same order, a row holds the payload
  of every message it tracks, and it is PROCESSED only after the order of that payload was handled
  (`own_rows`).
-/

namespace CashbackLedger

open Lib History

/-- No two `OrderConfirmed` messages are filed under the same text and name different orders. -/
def Unambiguous (env : Env) (events : List KafkaMessage) : Prop :=
  ∀ m ∈ events, ∀ m' ∈ events, ∀ sid payload payload', Carries env m sid payload →
    Carries env m' sid payload' → payload.field "orderId" = payload'.field "orderId"

/-- Both messages carry the same id, and it is not null. -/
def SameId (m m' : KafkaMessage) : Prop :=
  ∃ evt evt' v, m.value = some evt ∧ m'.value = some evt' ∧ evt.field "id" = some v ∧
    evt'.field "id" = some v ∧ v ≠ .null

/-- The message, with this payload, was handed to a process and filed in the row `id`. -/
def TrackedBy (env : Env) (s : State) (m : KafkaMessage) (payload : Json) (id : Uuid) : Prop :=
  ∃ p pr offset sid row, s.proc p = some pr ∧ Got pr.log (.kafka (.fetch offset)) m ∧
    Carries env m sid payload ∧ Got pr.log (.inbox (.upsert sid "OrderConfirmed" payload)) row ∧
    row.id = id

/-- Some process has handled this order to the end. -/
def HandledOrder (s : State) (x : Option Json) : Prop :=
  ∃ p pr, s.proc p = some pr ∧ Credited pr.log x

/-- Messages with different orders are in different rows, unless they carry the same id; a PROCESSED
    row has had the order of its own payload handled. -/
structure OwnRows (env : Env) (s : State) : Prop where
  apart : ∀ m m' payload payload' id id', TrackedBy env s m payload id →
      TrackedBy env s m' payload' id' →
    payload.field "orderId" ≠ payload'.field "orderId" → ¬ SameId m m' → id ≠ id'
  processed : ∀ i ∈ s.world.inbox, i.status = .PROCESSED →
      HandledOrder s (i.payload.field "orderId")

section

variable {env : Env} {s s' s₀ : State} {lb : Step} {w w₁ : World} {p : Pid} {newId : Uuid}
  {t : Task} {l : History} {c : Call} {x : Option Json}

theorem Unambiguous.earlier {events events' : List KafkaMessage} (h : Unambiguous env events')
    (hle : events <+: events') : Unambiguous env events :=
  fun m hm m' hm' => h m (hle.subset hm) m' (hle.subset hm')

/-- What was handled stays handled. -/
theorem HandledOrder.step (h : HandledOrder s x) (hstep : (system env).step s lb = some s') :
    HandledOrder s' x := by
  obtain ⟨q, pr, hq, hcredited⟩ := h
  cases Machine.step_cases hstep with
  | @spawn p t free =>
    have hne : q ≠ p := by
      rintro rfl
      rw [free] at hq
      cases hq
    exact ⟨q, pr, (Pool.put_other _ _ _ _ hne).trans hq, hcredited⟩
  | @call p ch t l c k w r hp hx =>
    by_cases hne : q = p
    · subst hne
      rw [hp] at hq
      cases hq
      exact ⟨q, _, Pool.put_self _ _ _ _, Credited.mono hcredited (List.suffix_cons _ l)⟩
    · exact ⟨q, pr, (Pool.put_other _ _ _ _ hne).trans hq, hcredited⟩
  | @crash p t l y hp =>
    by_cases hne : q = p
    · subst hne
      rw [hp] at hq
      cases hq
      exact ⟨q, _, Pool.put_self _ _ _ _, hcredited⟩
    · exact ⟨q, pr, (Pool.put_other _ _ _ _ hne).trans hq, hcredited⟩
  | move moved => exact ⟨q, pr, hq, hcredited⟩

/-- Every row was filed for a message on the topic. -/
def Filed (env : Env) (w : World) : Prop :=
  ∀ i ∈ w.inbox, ∃ m ∈ w.broker.events, Carries env m i.sourceEventId i.payload

theorem Effect.filed (hI : Filed env w) (hl : LogSound env w l) (hc : t.Calls env l c)
    (h : Effect p newId w c w₁) : Filed env w₁ := by
  intro i' hi'
  rcases h.inbox_origin hi' with ⟨i, hi, hcore, -⟩ | ⟨sid, type, payload, rfl, rfl, -⟩
  · obtain ⟨-, hsid, -, hpayload, -⟩ := InboxEvent.of_core hcore
    obtain ⟨m, hm, hcarries⟩ := hI i hi
    rw [hsid, hpayload]
    exact ⟨m, h.grows.events.subset hm, hcarries⟩
  · obtain ⟨offset, rfl, rfl, m, hgot, hcarries⟩ := hc.inboxUpsert
    obtain ⟨_, hm⟩ := hl.got hgot
    exact ⟨m, h.grows.events.subset (List.mem_of_getElem? hm), hcarries⟩

theorem filed {ok : State → Step → Prop} (hfresh : Fresh s₀) (hempty : ∀ i, i ∉ s₀.world.inbox)
    (h : Reach (system env) ok (· = s₀) s) : Filed env s.world := by
  have hstart : ∀ s, s = s₀ → Fresh s := fun _ heq => heq ▸ hfresh
  refine world_invariant hstart ?_ ?_ ?_ ?_ h
  · rintro s rfl i hi
    exact absurd hi (hempty i)
  · exact fun w p tx hI => hI
  · exact fun s p ch t l c k w _ hI _ _ hl _ hc he => he.filed hI hl hc
  · intro s o w hI _ hw i hi
    cases o with
    | tick ms =>
      cases hw
      exact hI i hi
    | produce m =>
      cases hw
      obtain ⟨m', hm', hcarries⟩ := hI i hi
      exact ⟨m', List.mem_append_left _ hm', hcarries⟩
    | rewind offset =>
      cases hw
      exact hI i hi

/-- The payload a process handles names the order of the row. -/
theorem Task.Calls.Handles.order {id : Uuid} {payload : Json} {i : InboxEvent} (hI : Filed env w)
    (hone : Unambiguous env w.broker.events) (hl : LogSound env w l)
    (h : Task.Calls.Handles env l id payload t) (hi : i ∈ w.inbox) (hid : i.id = id) :
    i.payload.field "orderId" = payload.field "orderId" := by
  cases h with
  | @consume offset sid row delivered stored same =>
    obtain ⟨m, hgot, hcarries⟩ := delivered
    obtain ⟨_, hm⟩ := hl.got hgot
    obtain ⟨_, hrow, hrsid⟩ := hl.got stored
    have hcore := World.HasInbox.core_eq hrow hi (same.trans hid.symm)
    obtain ⟨m', hm', hcarries'⟩ := hI i hi
    rw [(InboxEvent.of_core hcore).2.1, hrsid] at hcarries'
    exact hone m' hm' m (List.mem_of_getElem? hm) sid _ _ hcarries' hcarries
  | @retry e attempting same stored =>
    have hcore := World.HasInbox.core_eq (attempting.2.row hl) hi (same.trans hid.symm)
    rw [(InboxEvent.of_core hcore).2.2.2.1, stored]

/-- A row that is PROCESSED after a call was before, or the process has just handled its order. -/
theorem Effect.processed_origin (hI : Filed env w) (hone : Unambiguous env w.broker.events)
    (hl : LogSound env w l) (hc : t.Calls env l c) (h : Effect p newId w c w₁) {i' : InboxEvent}
    (hi' : i' ∈ w₁.inbox) (hst : i'.status = .PROCESSED) :
    (∃ i ∈ w.inbox, i.status = .PROCESSED ∧ i.payload = i'.payload) ∨
      Credited l (i'.payload.field "orderId") := by
  rcases h.inbox_origin hi' with ⟨i, hi, hcore, heq⟩ | ⟨sid, type, payload, -, rfl, -⟩
  · have hpayload := (InboxEvent.of_core hcore).2.2.2.1
    rcases heq with rfl | ⟨u, rfl, rfl⟩
    · exact Or.inl ⟨i', hi, hst, rfl⟩
    · rcases InboxUpdate.status_apply hst with hsame | hproc
      · exact Or.inl ⟨i, hi, hsame, hpayload.symm⟩
      · obtain ⟨payload, hh, hcredited⟩ := hc.processed hproc
        rw [hpayload, hh.order hI hone hl hi rfl]
        exact Or.inr hcredited
  · cases hst

theorem processed_handled {ok : State → Step → Prop} (hfresh : Fresh s₀)
    (hempty : ∀ i, i ∉ s₀.world.inbox) (h : Reach (system env) ok (· = s₀) s)
    (hone : Unambiguous env s.world.broker.events) :
    ∀ i ∈ s.world.inbox, i.status = .PROCESSED → HandledOrder s (i.payload.field "orderId") := by
  have hstart : ∀ s, s = s₀ → Fresh s := fun _ heq => heq ▸ hfresh
  induction h with
  | start heq =>
    subst heq
    exact fun i hi => absurd hi (hempty i)
  | @next s s' lb hr met hstep ih =>
    have hold := ih (hone.earlier (step_extends hstart hr hstep).events)
    have hkept : ∀ i i' : InboxEvent, i ∈ s.world.inbox →
        i.status = .PROCESSED → i.payload = i'.payload →
        HandledOrder s' (i'.payload.field "orderId") := fun i i' hi hst hpayload =>
      hpayload ▸ (hold i hi hst).step hstep
    intro i' hi' hst
    have hstep' := hstep
    cases Machine.step_cases hstep' with
    | spawn free => exact hkept i' i' hi' hst rfl
    | @call p ch t l c k w r hp hx =>
      have hs := sound hstart hr
      have hc := (obeys hstart hr hp).1
      obtain ⟨w₁, heff, hw⟩ := exec_effect (hs.shaped hp hc) hx
      have hone' := hone.earlier (step_extends hstart hr hstep).events
      rw [Pool.put_world, hw] at hi'
      rcases heff.processed_origin (filed hfresh hempty hr) hone' (hs.logs p _ hp) hc hi' hst with
        ⟨i, hi, hst, hpayload⟩ | hcredited
      · exact hkept i i' hi hst hpayload
      · exact ⟨p, _, Pool.put_self _ _ _ _, Credited.mono hcredited (List.suffix_cons _ l)⟩
    | crash alive => exact hkept i' i' hi' hst rfl
    | @move e w moved =>
      cases e <;> cases moved <;> exact hkept i' i' hi' hst rfl

/-- In a run from an empty inbox, with messages of any kind and all interleavings of deliveries,
    retry passes and everything else: as long as no two messages on the topic are filed under the
    same text and name different orders, messages with different orders have different rows, and a
    row is PROCESSED only after the order its payload names was handled. -/
theorem own_rows (env : Env) (hfresh : Fresh s₀) (hempty : ∀ i, i ∉ s₀.world.inbox)
    (h : Reach (system env) anyStep (· = s₀) s) (hone : Unambiguous env s.world.broker.events) :
    OwnRows env s := by
  have hstart : ∀ s, s = s₀ → Fresh s := fun _ heq => heq ▸ hfresh
  have hs := sound hstart h
  refine ⟨?_, processed_handled hfresh hempty h hone⟩
  rintro m m' payload payload' _ _ ⟨p, pr, offset, sid, row, hp, hm, hcarries, hrow, rfl⟩
    ⟨p', pr', offset', sid', row', hp', hm', hcarries', hrow', rfl⟩ hne - hid
  obtain ⟨_, hat⟩ := (hs.logs p pr hp).got hm
  obtain ⟨_, hat'⟩ := (hs.logs p' pr' hp').got hm'
  obtain ⟨_, ⟨i, hi, hcore⟩, hsid⟩ := (hs.logs p pr hp).got hrow
  obtain ⟨_, hstored', hsid'⟩ := (hs.logs p' pr' hp').got hrow'
  have hcore' :=
    World.HasInbox.core_eq hstored' hi (hid.symm.trans (InboxEvent.id_of_core hcore).symm)
  have hsame : sid = sid' := by
    rw [← hsid, ← hsid', ← (InboxEvent.of_core hcore).2.1, ← (InboxEvent.of_core hcore').2.1]
  subst hsame
  exact hne
    (hone m (List.mem_of_getElem? hat) m' (List.mem_of_getElem? hat') sid _ _ hcarries hcarries')

end

/-! ## Messages filed under one text -/

open Platform in
/-- An event of an order, with these further fields. -/
def eventOn (order : Nat) (fields : List (String × Json)) : KafkaMessage where
  key := none
  value := some (.obj (fields ++ [("type", .str "OrderConfirmed"),
    ("payload", .obj [("orderId", .str (uuid order).text)])]))

open Platform in
/-- Order 8 is confirmed, order 9 is not; these messages are on the topic. -/
def onTopic (events : List KafkaMessage) : State :=
  { initial with world := { World.empty with
      orders := Table.ofList [⟨uuid 8, "user-1", "shop-1", 100, "USD", .CONFIRMED, 0⟩,
        ⟨uuid 9, "user-1", "shop-1", 100, "USD", .CREATED, 0⟩]
      broker := { World.empty.broker with events := events } } }

open Platform in
/-- The first message is delivered and its order refused, the second is delivered and credited. -/
def deliverBoth : List Step :=
  .spawn 0 (.consume 0) :: serves 0 6 ++ .spawn 1 (.consume 1) :: serves 1 13

def textOf : Option Json → String
  | some (.str text) => text
  | _ => ""

/-- Status and order of each inbox row. -/
def inboxOf (s : State) : List (InboxStatus × String) :=
  s.world.inbox.rows.map fun i => (i.status, textOf (i.payload.field "orderId"))

theorem onTopic_reach {events : List KafkaMessage} {s : State}
    (h : (system (platform id)).run (onTopic events) deliverBoth = some s) :
    Reach (system (platform id)) anyStep (· = onTopic events) s := by
  have h0 : Reach (system (platform id)) anyStep (· = onTopic events) (onTopic events) := .start rfl
  exact h0.of_run deliverBoth (fun _ _ _ => trivial) h

theorem onTopic_fresh (events : List KafkaMessage) (s : State) (h : s = onTopic events) : Fresh s :=
  h ▸ ⟨fun _ => rfl, fun _ => rfl⟩

/-- Nothing was added to the topic. -/
theorem onTopic_events {events : List KafkaMessage} {s : State}
    (h : (system (platform id)).run (onTopic events) deliverBoth = some s)
    (hlength : s.world.broker.events.length = events.length) : s.world.broker.events = events := by
  have h0 : Reach (system (platform id)) anyStep (· = onTopic events) (onTopic events) := .start rfl
  have hextends := run_extends (onTopic_fresh events) h0 (onTopic_reach h)
  exact (hextends.events.eq_of_length hlength.symm).symm

/-- Two messages without id and key are filed under 'unknown': the row of order 9 becomes PROCESSED
    when order 8 has been handled. -/
theorem unknown_shares_row :
    ∃ s, (system (platform id)).run (onTopic [eventOn 9 [], eventOn 8 []]) deliverBoth = some s ∧
      inboxOf s = [(.PROCESSED, (Platform.uuid 9).text)] ∧ ¬ OwnRows (platform id) s := by
  have hrun : ((system (platform id)).run (onTopic [eventOn 9 [], eventOn 8 []]) deliverBoth).map
      (fun s => (inboxOf s, s.world.ledger.any fun e => e.orderId == Platform.uuid 9)) =
      some ([(.PROCESSED, (Platform.uuid 9).text)], false) := by decide +kernel
  obtain ⟨s, hs, heq⟩ := Option.map_eq_some_iff.mp hrun
  obtain ⟨hinbox, hledger⟩ := Prod.mk.inj heq
  refine ⟨s, hs, hinbox, fun hown => ?_⟩
  have hmem : (InboxStatus.PROCESSED, (Platform.uuid 9).text) ∈ inboxOf s := by
    rw [hinbox]
    exact List.mem_cons_self
  obtain ⟨i, hi, hrow⟩ := List.mem_map.mp hmem
  obtain ⟨hst, horder⟩ := Prod.mk.inj hrow
  have hnames : i.payload.field "orderId" = some (.str (Platform.uuid 9).text) := by
    unfold textOf at horder
    split at horder
    · next text hfield => rw [hfield, horder]
    · exact absurd horder (by decide +kernel)
  obtain ⟨p, pr, hp, hcredited⟩ := hown.processed i hi hst
  -- handling order 9 to the end would have left its CREDIT entry
  have hl := (sound (onTopic_fresh _) (onTopic_reach hs)).logs p pr hp
  obtain ⟨o, hfound, hcommitted⟩ := Credited.committed hl hcredited
  obtain ⟨_, -, hid⟩ := hl.got hfound.1
  rw [hnames] at hid
  have hsame : Platform.uuid 9 = o.id :=
    Option.some_inj.mp ((Platform.readUuid_text _).symm.trans hid)
  obtain ⟨e, he, heid, -⟩ := hcommitted.hasCredit hl
  have hany : (s.world.ledger.any fun e => e.orderId == Platform.uuid 9) = true :=
    Table.any_iff.mpr ⟨e, he, beq_iff_eq.mpr (heid.trans hsame.symm)⟩
  rw [hledger] at hany
  cases hany

/-- The id that a message carries is the text it is filed under. -/
theorem Carries.ofId {env : Env} {order : Nat} {text sid : String} {payload : Json}
    (h : Carries env (eventOn order [("id", .str text)]) sid payload) :
    sid = text ∧ payload.field "orderId" = some (.str (Platform.uuid order).text) := by
  obtain ⟨evt, hvalue, -, hsid, hpayload⟩ := h
  cases hvalue
  exact ⟨(Option.some_inj.mp hsid).symm, by rw [hpayload]; rfl⟩

/-- With ids of their own, both have their row, and only order 8 is handled. -/
theorem own_rows_run :
    ∃ s, (system (platform id)).run (onTopic [eventOn 9 [("id", .str "evt-9")],
        eventOn 8 [("id", .str "evt-8")]]) deliverBoth = some s ∧
      inboxOf s = [(.PENDING, (Platform.uuid 9).text), (.PROCESSED, (Platform.uuid 8).text)] ∧
      OwnRows (platform id) s := by
  have hrun : ((system (platform id)).run (onTopic [eventOn 9 [("id", .str "evt-9")],
      eventOn 8 [("id", .str "evt-8")]]) deliverBoth).map
      (fun s => (inboxOf s, s.world.broker.events.length)) =
      some ([(.PENDING, (Platform.uuid 9).text), (.PROCESSED, (Platform.uuid 8).text)], 2) := by
    decide +kernel
  obtain ⟨s, hs, heq⟩ := Option.map_eq_some_iff.mp hrun
  obtain ⟨hinbox, hlength⟩ := Prod.mk.inj heq
  refine ⟨s, hs, hinbox, own_rows (platform id) (onTopic_fresh _ _ rfl) (Table.not_mem_empty ·)
    (onTopic_reach hs) ?_⟩
  rw [onTopic_events hs hlength]
  intro m hm m' hm' sid payload payload' h h'
  simp only [List.mem_cons, List.not_mem_nil, or_false] at hm hm'
  rcases hm with rfl | rfl
  · rcases hm' with rfl | rfl
    · rw [h.ofId.2, h'.ofId.2]
    · exact absurd (h.ofId.1.symm.trans h'.ofId.1) (by decide)
  · rcases hm' with rfl | rfl
    · exact absurd (h.ofId.1.symm.trans h'.ofId.1) (by decide)
    · rw [h.ofId.2, h'.ofId.2]

end CashbackLedger
