import CashbackLedger.Lib.Permits
import CashbackLedger.Safety.Budget
import CashbackLedger.Safety.Delivery
import CashbackLedger.Safety.SentStable

/-
  The copies of a message.

  A publisher raises `attempts` of a row with its claim, before the send, and sends once on a claim
  that it was told has counted. A claim that loses its reply and a publisher that dies before its
  send leave the counter ahead of the topic, and nothing leaves it behind. So where nothing is
  replayed, whatever fails and however many publishers overlap, the topic has at most `attempts`
  copies of the message of a row, those that are about to be sent included (`copies_are_counted`).
-/

namespace CashbackLedger

open Lib History

/-- The messages that announce the event. -/
def copiesOf (id : Uuid) (events : List KafkaMessage) : List KafkaMessage :=
  events.filter fun m => messageId m == some id.text

/-- The process has claimed the row, and its send is next. -/
def AboutToSend (s : State) (id : Uuid) (p : Pid) : Prop := stage (s.proc p) = .claimed id

/-- A copy is sent on a claim, and every claim has been counted. -/
structure CopiesCounted (s : State) : Prop where
  stored : ∀ p id, AboutToSend s id p → ∃ e ∈ s.world.outbox, e.id = id
  permitted : ∀ e ∈ s.world.outbox,
    Permitted (AboutToSend s e.id) (copiesOf e.id s.world.broker.events).length e.attempts

section

variable {env : Env} {s : State} {p q : Pid} {ch : Choice} {newId : Uuid} {w w' w₁ : World}
  {l : History} {c : Call} {r : Reply c} {t : Task} {pr : Process} {e e' : OutboxEvent} {id : Uuid}

/-! ## The claim -/

theorem afterSend_ne_claimed (answered : Bool) (x : Publishing) :
    x.afterSend answered ≠ .claimed id := by
  cases x <;> cases answered <;> exact nofun

theorem afterFailedUpdate_ne_claimed (x : Publishing) : x.afterFailedUpdate ≠ .claimed id := by
  cases x <;> exact nofun

/-- Only the answer that a claim has counted puts a send next. -/
theorem claimed_cons (h : History.publishing (⟨c, r⟩ :: l) = .claimed id) :
    (∃ n now, (⟨c, r⟩ : Σ c, Reply c) = ⟨.outbox (.claim id), (.ok n, now)⟩ ∧ n ≠ 0) ∨
      (l.publishing = .claimed id ∧ ¬ Publishes c) := by
  obtain ⟨x, now⟩ := r
  cases c with
  | outbox c =>
    cases c with
    | findMany sel take => exact Or.inr ⟨h, fun hpub => hpub⟩
    | claim id' =>
      cases x with
      | ok n =>
        simp only [History.publishing] at h
        split at h
        · cases h
        · next hn =>
          cases h
          exact Or.inl ⟨n, now, rfl, hn⟩
      | error err => cases h
    | findUnique id' => cases x <;> cases h
    | update id' u =>
      cases x with
      | ok row => cases h
      | error err => exact absurd h (afterFailedUpdate_ne_claimed _)
  | kafka c =>
    cases c with
    | send topic m =>
      cases topic with
      | dlq => exact Or.inr ⟨h, fun hpub => hpub⟩
      | events => cases x <;> exact absurd h (afterSend_ne_claimed _ _)
    | _ => exact Or.inr ⟨h, fun hpub => hpub⟩
  | _ => exact Or.inr ⟨h, fun hpub => hpub⟩

/-- A claim that counted has raised the attempts of its row. -/
theorem claim_counted {n : Nat} {now : Time}
    (h : exec env p (.outbox (.claim id)) ch w = some (w', (.ok n, now))) (hn : n ≠ 0) :
    ∃ e ∈ w.outbox, e.id = id ∧ { e with attempts := e.attempts + 1 } ∈ w'.outbox := by
  rcases exec_reply h with ⟨m, hm⟩ | ⟨w₁, hrun, rfl⟩
  · cases hm
  · simp only [Call.run, OutboxCall.run, Option.map_some, Option.some.injEq, Prod.mk.injEq,
      Except.ok.injEq] at hrun
    obtain ⟨rfl, rfl⟩ := hrun
    split at hn
    · next hany =>
      obtain ⟨e, he, hk⟩ := Table.any_iff.mp hany
      have hraised : { e with attempts := e.attempts + 1 } ∈ w.outbox.modify
          (fun e => e.id == id && e.status == .PENDING)
          (fun e => { e with attempts := e.attempts + 1 })
          ⟨fun _ _ => rfl⟩ := Table.mem_modify.mpr ⟨e, he, (if_pos hk).symm⟩
      exact ⟨e, he, by simpa using (Bool.and_eq_true_iff.mp hk).1, hraised⟩
    · exact absurd rfl hn

/-- A row was there with no more attempts, or is committed now. -/
theorem Effect.attempts_before (heff : Effect p newId w c w₁)
    (hu : ∀ id u, c = .outbox (.update id u) → u.attempts = none) (he' : e' ∈ w₁.outbox) :
    (∃ e ∈ w.outbox, e.id = e'.id ∧ e.attempts ≤ e'.attempts) ∨
      (c = .tx .commit ∧ ∀ e ∈ w.outbox, e.id ≠ e'.id) := by
  by_cases hold : ∃ e ∈ w.outbox, e.id = e'.id
  · obtain ⟨e, he, hid⟩ := hold
    have huniq : ∀ {e₁ : OutboxEvent}, e₁ ∈ w₁.outbox → e₁.id = e.id → e' = e₁ :=
      fun he₁ hid₁ => Table.eq_of_clash he' he₁ (by simp [Indexed.clash, hid₁, hid])
    refine Or.inl ⟨e, he, hid, ?_⟩
    rcases heff.outbox_kept he with he₁ | ⟨-, -, he₁⟩ | ⟨u, hc, he₁⟩
    · rw [huniq he₁ rfl]
    · rw [huniq he₁ rfl]
      exact Nat.le_succ _
    · rw [huniq he₁ rfl]
      simp only [OutboxUpdate.apply, hu e.id u hc, Option.getD_none, le_refl]
  · have hnone : ∀ e ∈ w.outbox, e.id ≠ e'.id := fun e he hid => hold ⟨e, he, hid⟩
    rcases heff.outbox_origin he' with ⟨e, he, hcore, -⟩ | ⟨hc, -⟩
    · exact absurd (OutboxEvent.id_of_core hcore).symm (hnone e he)
    · exact Or.inr ⟨hc, hnone⟩

/-! ## A call -/

theorem aboutToSend_put : AboutToSend (s.put w p pr) id q ↔
    (q = p ∧ stage (some pr) = .claimed id) ∨ (q ≠ p ∧ AboutToSend s id q) := by
  unfold AboutToSend
  rw [stage_put]
  split
  · next heq => simp [heq]
  · next hne => simp [hne]

/-- The sends that are next after a call were next before, or are put next by the claim that it
    is. -/
theorem AboutToSend.of_call {k : Reply c → Prog Call Reply Outcome}
    (hp : s.proc p = some ⟨t, l, .call c k, true⟩)
    (h : AboutToSend (s.put w p ⟨t, ⟨c, r⟩ :: l, k r, true⟩) id q) :
    (q = p ∧ ∃ n now, (⟨c, r⟩ : Σ c, Reply c) = ⟨.outbox (.claim id), (.ok n, now)⟩ ∧ n ≠ 0) ∨
      (AboutToSend s id q ∧ (q = p → ¬ Publishes c)) := by
  rcases aboutToSend_put.mp h with ⟨rfl, hstage⟩ | ⟨hne, hold⟩
  · rcases claimed_cons hstage with hnew | ⟨hold, hpub⟩
    · exact Or.inl ⟨rfl, hnew⟩
    · refine Or.inr ⟨?_, fun _ => hpub⟩
      unfold AboutToSend
      rw [hp]
      exact hold
  · exact Or.inr ⟨hold, fun heq => absurd heq hne⟩

/-- A send that is next is of a stored row. -/
theorem CopiesCounted.stored_call {k : Reply c → Prog Call Reply Outcome} (hI : CopiesCounted s)
    (hp : s.proc p = some ⟨t, l, .call c k, true⟩) (hx : exec env p c ch s.world = some (w, r))
    (h : AboutToSend (s.put w p ⟨t, ⟨c, r⟩ :: l, k r, true⟩) id q) :
    ∃ e ∈ s.world.outbox, e.id = id := by
  rcases h.of_call hp with ⟨-, n, now, heq, hn⟩ | ⟨hold, -⟩
  · cases heq
    obtain ⟨e, he, hid, -⟩ := claim_counted hx hn
    exact ⟨e, he, hid⟩
  · exact hI.stored q id hold

/-- The permits of a row after a call that sends nothing. -/
theorem CopiesCounted.kept_call {k : Reply c → Prog Call Reply Outcome} (hI : CopiesCounted s)
    (hp : s.proc p = some ⟨t, l, .call c k, true⟩) (hx : exec env p c ch s.world = some (w, r))
    (he : e ∈ s.world.outbox) (he' : e' ∈ w.outbox) (hid : e.id = e'.id)
    (hle : e.attempts ≤ e'.attempts) :
    Permitted (AboutToSend (s.put w p ⟨t, ⟨c, r⟩ :: l, k r, true⟩) e'.id)
      (copiesOf e'.id s.world.broker.events).length e'.attempts := by
  have hold := hid ▸ hI.permitted e he
  by_cases hclaim : ∃ n now, (⟨c, r⟩ : Σ c, Reply c) =
    ⟨.outbox (.claim e'.id), (.ok n, now)⟩ ∧ n ≠ 0
  · obtain ⟨n, now, heq, hn⟩ := hclaim
    cases heq
    obtain ⟨e₀, he₀, hid₀, hraised⟩ := claim_counted hx hn
    have hrow : e₀ = e := Table.eq_of_clash he₀ he (by simp [Indexed.clash, hid₀, hid])
    have hrow' : e' = { e₀ with attempts := e₀.attempts + 1 } :=
      Table.eq_of_clash he' hraised (by simp [Indexed.clash, hid₀])
    have hnext : e'.attempts = e.attempts + 1 := by rw [hrow', hrow]
    rw [hnext]
    exact hold.take fun q hq => (hq.of_call hp).imp And.left And.left
  · refine hold.mono (fun q hq => ?_) hle
    rcases hq.of_call hp with ⟨-, hnew⟩ | ⟨hq, -⟩
    · exact absurd hnew hclaim
    · exact hq

/-- The permits of a row after the send of the row at hand. -/
theorem CopiesCounted.send_call
    {k : Reply (.kafka (.send .events (outboxMessage env e'))) → Prog Call Reply Outcome}
    {r : Reply (.kafka (.send .events (outboxMessage env e')))} (hI : CopiesCounted s)
    (hp : s.proc p = some ⟨t, l, .call (.kafka (.send .events (outboxMessage env e'))) k, true⟩)
    (hat : l.publishing = .claimed e'.id) (he : e ∈ s.world.outbox) :
    Permitted
      (AboutToSend
        (s.put w p ⟨t, ⟨.kafka (.send .events (outboxMessage env e')), r⟩ :: l, k r, true⟩) e.id)
      (copiesOf e.id (s.world.broker.events ++ [outboxMessage env e'])).length e.attempts := by
  have hsends : AboutToSend s e'.id p := by
    unfold AboutToSend
    rw [hp]
    exact hat
  have hothers : ∀ q, AboutToSend
      (s.put w p ⟨t, ⟨.kafka (.send .events (outboxMessage env e')), r⟩ :: l, k r, true⟩)
      e.id q → q ≠ p ∧ AboutToSend s e.id q := by
    intro q hq
    rcases hq.of_call hp with ⟨-, n, now, heq, -⟩ | ⟨hq, hpub⟩
    · cases heq
    · exact ⟨fun heq => hpub heq trivial, hq⟩
  unfold copiesOf
  rw [List.filter_append, List.length_append]
  by_cases hid : e'.id = e.id
  · rw [hid] at hsends
    have hcopy : messageId (outboxMessage env e') = some e.id.text := by
      rw [messageId_outboxMessage, hid]
    rw [List.filter_singleton, hcopy, beq_self_eq_true]
    exact (hI.permitted e he).use hsends hothers
  · have hother : (messageId (outboxMessage env e') == some e.id.text) = false := by
      rw [messageId_outboxMessage]
      exact beq_eq_false_iff_ne.mpr fun heq => hid (Uuid.text_inj (Option.some_inj.mp heq))
    rw [List.filter_singleton, hother]
    exact (hI.permitted e he).mono (fun q hq => (hothers q hq).2) (Nat.le_refl _)

theorem CopiesCounted.call {k : Reply c → Prog Call Reply Outcome} (hI : CopiesCounted s)
    (hs : Sound env s) (hstores : Stores env s.world) (hp : s.proc p = some ⟨t, l, .call c k, true⟩)
    (hc : t.Calls env l c) (hpub : t.Publishes env l c) (hreplay : ∀ argv, t ≠ .replay argv)
    (hx : exec env p c ch s.world = some (w, r)) :
    CopiesCounted (s.put w p ⟨t, ⟨c, r⟩ :: l, k r, true⟩) := by
  obtain ⟨w₁, heff, hw⟩ := exec_effect (hs.shaped hp hc) hx
  have hupdates : ∀ id u, c = .outbox (.update id u) → u.attempts = none := by
    rintro id u rfl
    exact (hpub.1 (hc.publisher trivial hreplay)).2
  constructor
  · intro q id hq
    obtain ⟨e, he, hid⟩ := hI.stored_call hp hx hq
    rw [Pool.put_world, hw]
    obtain ⟨e', he', hcore⟩ := heff.grows.outbox e he
    exact ⟨e', he', (OutboxEvent.id_of_core hcore).trans hid⟩
  · intro e' he'
    have hevents : w.broker.events = w₁.broker.events := by rw [hw]; rfl
    have hrow : e' ∈ w₁.outbox := by rw [hw] at he'; exact he'
    rw [Pool.put_world, hevents]
    rcases heff.attempts_before hupdates hrow with ⟨e, he, hid, hle⟩ | ⟨rfl, hnew⟩
    · rcases heff.events_origin with heq | ⟨m, rfl, heq⟩
      · rw [heq]
        exact hI.kept_call hp hx he he' hid hle
      · obtain ⟨e₀, rfl, hat⟩ := hpub.1 hc.publish.1
        rw [heq]
        have hold := hI.send_call (w := w) (r := r) hp hat he
        rw [hid] at hold
        exact hold.mono (fun q hq => hq) hle
    · -- the row is new: no claim and no message is about it
      have heq : w₁.broker.events = s.world.broker.events := by
        rcases heff.events_origin with heq | ⟨m, hm, -⟩
        · exact heq
        · cases hm
      have hcopies : copiesOf e'.id s.world.broker.events = [] := by
        refine List.filter_eq_nil_iff.mpr fun m hm hcopy => ?_
        obtain ⟨e, he, rfl⟩ := hstores.topic m hm
        rw [messageId_outboxMessage, beq_iff_eq, Option.some_inj] at hcopy
        exact hnew e he (Uuid.text_inj hcopy)
      rw [heq, hcopies]
      refine .of_none (fun q hq => ?_) (Nat.zero_le _)
      obtain ⟨e, he, hid⟩ := hI.stored_call hp hx hq
      exact hnew e he hid

/-! ## Every run -/

/-- A process that starts or dies has no send to make. -/
theorem CopiesCounted.put_idle (hI : CopiesCounted s) (houtbox : w.outbox = s.world.outbox)
    (hevents : w.broker.events = s.world.broker.events) (hidle : stage (some pr) = .between) :
    CopiesCounted (s.put w p pr) := by
  have hold : ∀ q id, AboutToSend (s.put w p pr) id q → AboutToSend s id q := by
    intro q id hq
    rcases aboutToSend_put.mp hq with ⟨-, hstage⟩ | ⟨-, hq⟩
    · rw [hidle] at hstage
      cases hstage
    · exact hq
  constructor
  · intro q id hq
    rw [Pool.put_world, houtbox]
    exact hI.stored q id (hold q id hq)
  · intro e he
    rw [Pool.put_world, hevents]
    exact (hI.permitted e (houtbox ▸ he)).mono (fun q => hold q e.id) (Nat.le_refl _)

theorem copiesCounted
    (h : Reach (system env) (fun _ lb => ownTopic lb = true ∧ unreplayed lb = true)
      (· = initial) s) : CopiesCounted s := by
  have hidle : ∀ s : State, s = initial → s.Idle := fun s hs => (fresh_of_initial s hs).1
  refine Reach.invariant
    (fun t => (task_sat env t).and (task_publishing env t)) hidle ?_ ?_ ?_ ?_ ?_ h
  · rintro s rfl
    exact ⟨fun p id hp => (nomatch hp), fun e he => (nomatch he)⟩
  · exact fun s p t _ hI _ _ => hI.put_idle rfl rfl rfl
  · intro s p ch t l c k w r hr hI _ hp hc hx _
    exact hI.call (sound fresh_of_initial hr) (stores (fun _ _ hmet => hmet.1) hr) hp hc.1 hc.2
      (tasks_unreplayed (fun _ _ hmet => hmet.2) hidle hr hp) hx
  · -- the permit of a publisher that dies is lost
    exact fun s p t l x _ hI _ _ => hI.put_idle rfl rfl rfl
  · intro s x w _ hI hmet hw
    cases x with
    | tick ms =>
      cases hw
      exact ⟨hI.stored, hI.permitted⟩
    | produce m => cases hmet.1
    | rewind offset =>
      cases hw
      exact ⟨hI.stored, hI.permitted⟩

/-- Where nobody else writes to the topic and nothing is replayed, whatever fails and however many
    publishers overlap: the copies of a row's message on the topic, with those that are about to be
    sent, are at most its attempts. So a SENT row with one attempt has exactly one copy. -/
theorem copies_are_counted (env : Env)
    (h : Reach (system env) (fun _ lb => ownTopic lb = true ∧ unreplayed lb = true)
      (· = initial) s) :
    ∀ e ∈ s.world.outbox,
      Permitted (AboutToSend s e.id) (copiesOf e.id s.world.broker.events).length e.attempts ∧
      (e.status = .SENT → e.attempts = 1 →
        copiesOf e.id s.world.broker.events = [outboxMessage env e]) := by
  intro e he
  have hcounted := (copiesCounted h).permitted e he
  refine ⟨hcounted, fun hsent hone => ?_⟩
  have hcopy : outboxMessage env e ∈ copiesOf e.id s.world.broker.events :=
    List.mem_filter.mpr ⟨(stores (fun _ _ hmet => hmet.1) h).sent e he hsent, by simp⟩
  have hle : (copiesOf e.id s.world.broker.events).length ≤ 1 := hone ▸ hcounted.acts_le
  obtain ⟨m, hm⟩ := List.length_eq_one_iff.mp
    (Nat.le_antisymm hle (List.length_pos_of_mem hcopy))
  rw [hm, List.mem_singleton] at hcopy
  rw [hm, hcopy]

end

open Platform in
/-- Publisher 2 claims the event and dies, then 3 and 4 claim it, and 3 sends it. -/
def claimedThrice : List Step :=
  createAndConfirm ++ .spawn 2 .publishOnce ::
    serves 2 3 ++ .crash 2 :: .spawn 3 .publishOnce :: serves 3 3 ++
    .spawn 4 .publishOnce :: serves 4 3 ++ serves 3 1

/-- Three attempts, one copy, and one more about to be sent. -/
theorem copies_are_counted_run : ∃ s e, (system (platform id)).run initial claimedThrice = some s ∧
    e ∈ s.world.outbox ∧ e.attempts = 3 ∧ (copiesOf e.id s.world.broker.events).length = 1 ∧
    AboutToSend s e.id 4 ∧
    Permitted (AboutToSend s e.id) (copiesOf e.id s.world.broker.events).length e.attempts := by
  have hrun :
      (((system (platform id)).run initial claimedThrice).map fun s => s.world.outbox.any fun e =>
      decide (e.attempts = 3 ∧ (copiesOf e.id s.world.broker.events).length = 1 ∧
        stage (s.proc 4) = .claimed e.id)) = some true := by decide +kernel
  obtain ⟨s, hs, hany⟩ := Option.map_eq_some_iff.mp hrun
  obtain ⟨e, he, hthree⟩ := Table.any_iff.mp hany
  obtain ⟨hthree, hone, habout⟩ := of_decide_eq_true hthree
  have hok : ∀ lb ∈ claimedThrice, ownTopic lb = true ∧ unreplayed lb = true := by decide +kernel
  have h0 : Reach (system (platform id)) (fun _ lb => ownTopic lb = true ∧ unreplayed lb = true)
      (· = initial) initial := .start rfl
  obtain ⟨hcounted, -⟩ := copies_are_counted (platform id)
    (h0.of_run claimedThrice (fun lb hm _ => hok lb hm) hs) e he
  exact ⟨s, e, hs, he, hthree, hone, habout, hcounted⟩

end CashbackLedger
