import CashbackLedger.Safety.SentStable

/-
  The retry budget of an outbox event.

  `attempts` counts claims: it is incremented before the message is sent, and the `catch` block
  compares it with the limit whichever call has failed. `Tally` counts what became of the sends,
  since the event was created or last replayed with `resetAttempts`. In runs of one publisher in
  which every counted claim leads to a send, no call fails on an event that has been sent, and
  replays do not interfere, a row is parked only after `maxAttempts` failed sends
  (`parked_after_budget`).
-/

namespace CashbackLedger

open Lib History

/-- What became of the sends of an event. -/
structure Tally where
  failed : Nat
  sent : Nat
deriving DecidableEq

/-- One more send: only a send that is answered has succeeded. -/
def Tally.count (t : Tally) : Fate → Tally
  | .ok => { t with sent := t.sent + 1 }
  | .fail _ => { t with failed := t.failed + 1 }
  | .lost _ => { t with failed := t.failed + 1 }

/-- The outbox row whose attempts a replay is about to reset. -/
def resetting : Option Process → Option Uuid
  | some ⟨t, _, .call (.outbox (.update id _)) _, true⟩ =>
    if t.resetsAttempts then some id else none
  | _ => none

/-- The message a process is about to send to `order.events`. -/
def sending : Option Process → Option KafkaMessage
  | some ⟨_, _, .call (.kafka (.send .events m)) _, true⟩ => some m
  | _ => none

/-- The tallies after a step. -/
def countSends (s : State) (lb : Step) (_ : State) (g : Uuid → Tally) : Uuid → Tally :=
  match lb with
  | .step p ch =>
      match sending (s.proc p), resetting (s.proc p) with
      | some m, _ => fun id => if messageId m = some id.text then (g id).count ch.fate else g id
      | none, some id => if ch.fate.takesEffect then Function.update g id ⟨0, 0⟩ else g
      | none, none => g
  | _ => g

/-- A live publisher that has not finished its pass. -/
def publishes : Option Process → Bool
  | some ⟨.publishOnce, _, .call _ _, true⟩ => true
  | _ => false

/-- A pass starts only after the one before has finished or died. -/
def OnePublisher (s : State) : Step → Prop
  | .spawn _ .publishOnce => ∀ q, publishes (s.proc q) = false
  | _ => True

/-- What keeps `attempts` within the failed sends, for a call. -/
structure CountsFailures (env : Env) (s : State) (g : Uuid → Tally) (p : Pid)
    (ch : Choice) : Prop where
  /-- a claim that counts keeps its reply -/
  claims : ∀ id m, s.nextCall p = some (.outbox (.claim id)) → ch.fate = .lost m →
    ∀ e ∈ s.world.outbox, e.id = id → e.status ≠ .PENDING
  /-- no call fails on an event that has been sent -/
  unsent : ch.fate ≠ .ok → ∀ id, trying (s.proc p) = some id → (g id).sent = 0
  /-- a replay does not raise `attempts` -/
  replays : ch.fate.takesEffect = true → ∀ id u n, s.nextCall p = some (.outbox (.update id u)) →
    u.attempts = some n → ∀ e ∈ s.world.outbox, e.id = id → n ≤ e.attempts
  /-- a reset does not come between the publisher's look at used-up attempts and its update -/
  resets : ch.fate.takesEffect = true → ∀ id, resetting (s.proc p) = some id →
    ∀ q n, stage (s.proc q) = .counted id n → n < env.maxAttempts

/-- The condition on a step. -/
def SpendsBudget (env : Env) (s : State) (g : Uuid → Tally) : Step → Prop
  | .step p ch => CountsFailures env s g p ch
  -- no publisher dies between a claim and its send
  | .crash p => ∀ id, stage (s.proc p) ≠ .claimed id
  | _ => True

/-- `attempts` of a row does not exceed the failed sends, but for the claim under way. -/
def Covers (s : State) (g : Uuid → Tally) (e : OutboxEvent) : Prop :=
  e.attempts ≤ (g e.id).failed ∨
    (e.attempts ≤ (g e.id).failed + 1 ∧ ∃ p, stage (s.proc p) = .claimed e.id)

structure Budgeted (env : Env) (s : State) (g : Uuid → Tally) : Prop where
  alone : ∀ p q, publishes (s.proc p) = true → publishes (s.proc q) = true → p = q
  rows : ∀ e ∈ s.world.outbox, (g e.id).sent = 0 → Covers s g e
  unsent : ∀ p id, (stage (s.proc p)).catching = some id → (g id).sent = 0
  counted : ∀ p id n, stage (s.proc p) = .counted id n → n < env.maxAttempts ∨ n ≤ (g id).failed

/-- The publisher is about to park the row. -/
def Parks (s : State) (p : Pid) (id : Uuid) : Prop :=
  ∃ u, s.nextCall p = some (.outbox (.update id u)) ∧ u.status = some .FAILED

section

variable {env : Env} {p : Pid} {newId : Uuid} {w w₁ : World} {t : Task} {l : History} {c : Call}
  {id : Uuid}

/-- Where a row with its attempts comes from. -/
theorem Effect.attempts_origin (hl : LogSound env w l) (htx : w.txOf p = l.tx)
    (hc : t.Calls env l c) (h : Effect p newId w c w₁) {e' : OutboxEvent} (he' : e' ∈ w₁.outbox) :
    e'.attempts = 0 ∨ ∃ e ∈ w.outbox, e.id = e'.id ∧ (e' = e ∨
      (c = .outbox (.claim e.id) ∧ e.status = .PENDING ∧ e'.attempts = e.attempts + 1) ∨
      ∃ u, c = .outbox (.update e.id u) ∧ e' = u.apply e) := by
  rcases h.outbox_origin he' with ⟨e, he, hcore, heq⟩ | ⟨rfl, tx, id, hmine, hab, hw, -⟩
  · have hid : e'.id = e.id := OutboxEvent.id_of_core hcore
    have huniq : ∀ {e₁ : OutboxEvent}, e₁ ∈ w₁.outbox → e₁.id = e.id → e' = e₁ :=
      fun he₁ hid₁ => Table.eq_of_clash he' he₁ (by simp [Indexed.clash, hid, hid₁])
    refine Or.inr ⟨e, he, hid.symm, ?_⟩
    rcases h.outbox_kept he with he₁ | ⟨hcl, hst, he₁⟩ | ⟨u, hu, he₁⟩
    · exact Or.inl (huniq he₁ rfl)
    · exact Or.inr (Or.inl ⟨hcl, hst, by rw [huniq he₁ rfl]⟩)
    · exact Or.inr (Or.inr ⟨u, hu, huniq he₁ rfl⟩)
  · have hk := hc.commit (htx ▸ hmine) hab
    rw [hw] at hk
    exact Or.inl (hk.event hl).2

/-- An update that is served reaches every row with its id. -/
theorem update_applied {u : OutboxUpdate} {x : Except Fault OutboxEvent}
    (h : Call.run env p newId w (.outbox (.update id u)) = some (w₁, x)) {e' : OutboxEvent}
    (he' : e' ∈ w₁.outbox) (hid : e'.id = id) : ∃ e ∈ w.outbox, e.id = id ∧ e' = u.apply e := by
  obtain ⟨⟨tbl, y⟩, hy, heq⟩ := Option.map_eq_some_iff.mp h
  cases heq
  simp only [OutboxCall.run] at hy
  split at hy
  · next hnone =>
    cases hy
    have hne := Table.find?_none hnone he'
    simp [hid] at hne
  · cases hy
    simp only [Table.mem_modify] at he'
    obtain ⟨e, he, rfl⟩ := he'
    by_cases heid : e.id = id
    · exact ⟨e, he, heid, if_pos (by simpa using heid)⟩
    · rw [if_neg (by simpa using heid)] at hid
      exact absurd hid heid

end

section

variable {env : Env} {s : State} {g g' : Uuid → Tally} {p : Pid} {ch : Choice} {t : Task}
  {l : History} {c : Call} {k : Reply c → Prog Call Reply Outcome} {w : World} {r : Reply c}
  {id : Uuid}

theorem stage_put (w : World) (p : Pid) (pr : Process) (q : Pid) :
    stage ((s.put w p pr).proc q) = if q = p then stage (some pr) else stage (s.proc q) := by
  rw [Pool.put_proc]
  split <;> rfl

/-- Only a publisher that is running has a row at hand. -/
theorem publishes_of_stage {ok : State → Step → Prop} {start : State → Prop}
    (hidle : ∀ s, start s → s.Idle) (h : Reach (system env) ok start s)
    (hp : stage (s.proc p) ≠ .between) : publishes (s.proc p) = true := by
  cases hpr : s.proc p with
  | none =>
    rw [hpr] at hp
    exact absurd rfl hp
  | some pr =>
    obtain ⟨t, l, x, alive⟩ := pr
    have hs := h.sat (task_publishing env) hidle hpr
    cases alive with
    | false =>
      rw [hpr] at hp
      exact absurd rfl hp
    | true =>
      rw [hpr] at hp
      cases x with
      | ret a => exact absurd hs hp
      | call c k =>
        by_cases ht : t = .publishOnce
        · rw [ht]
          rfl
        · exact absurd (hs.1.2 ht) hp

/-- What one call has to establish: about its own process, and about the others where the tallies
    change under them. -/
theorem Budgeted.put (hI : Budgeted env s g) {pr : Process}
    (halone : publishes (some pr) = true → publishes (s.proc p) = true)
    (hrows : ∀ e ∈ w.outbox, (g' e.id).sent = 0 → Covers (s.put w p pr) g' e)
    (hunsent : ∀ id, (stage (some pr)).catching = some id → (g' id).sent = 0)
    (hcounted : ∀ id n, stage (some pr) = .counted id n → n < env.maxAttempts ∨ n ≤ (g' id).failed)
    (hothers : ∀ q, q ≠ p → stage (s.proc q) ≠ .between →
      (∀ id, (stage (s.proc q)).catching = some id → (g' id).sent = 0) ∧
      ∀ id n, stage (s.proc q) = .counted id n → n < env.maxAttempts ∨ n ≤ (g' id).failed) :
    Budgeted env (s.put w p pr) g' := by
  have hpub : ∀ q, publishes ((s.put w p pr).proc q) = true → publishes (s.proc q) = true := by
    intro q hq
    rw [Pool.put_proc] at hq
    split at hq
    · next heq => exact heq ▸ halone hq
    · exact hq
  refine ⟨fun q q' hq hq' => hI.alone q q' (hpub q hq) (hpub q' hq'), hrows, ?_, ?_⟩
  · intro q id hcatch
    rw [stage_put] at hcatch
    split at hcatch
    · exact hunsent id hcatch
    · next hne =>
      refine (hothers q hne fun heq => ?_).1 id hcatch
      rw [heq] at hcatch
      cases hcatch
  · intro q id n hat
    rw [stage_put] at hat
    split at hat
    · exact hcounted id n hat
    · next hne => exact (hothers q hne fun heq => by rw [heq] at hat; cases hat).2 id n hat

/-- A process that is between events works on no row. -/
theorem Budgeted.put_between (hI : Budgeted env s g) {pr : Process}
    (hstage : stage (some pr) = .between)
    (halone : publishes (some pr) = true → publishes (s.proc p) = true)
    (hrows : ∀ e ∈ w.outbox, (g' e.id).sent = 0 → Covers (s.put w p pr) g' e)
    (hothers : ∀ q, q ≠ p → stage (s.proc q) ≠ .between →
      (∀ id, (stage (s.proc q)).catching = some id → (g' id).sent = 0) ∧
      ∀ id n, stage (s.proc q) = .counted id n → n < env.maxAttempts ∨ n ≤ (g' id).failed) :
    Budgeted env (s.put w p pr) g' := by
  refine hI.put halone hrows (fun id hc => ?_) (fun id n hat => ?_) hothers
  · rw [hstage] at hc
    cases hc
  · rw [hstage] at hat
    cases hat

/-- A row stays covered when its attempts do not grow, the failures do not shrink and the claim of
    the row is still under way. -/
theorem Covers.mono {e e' : OutboxEvent} {s' : State} (h : Covers s g e) (hid : e.id = e'.id)
    (hle : e'.attempts ≤ e.attempts) (hfailed : (g e.id).failed ≤ (g' e.id).failed)
    (hclaim : (∃ p, stage (s.proc p) = .claimed e.id) → ∃ p, stage (s'.proc p) = .claimed e.id) :
    Covers s' g' e' := by
  unfold Covers
  rw [← hid]
  rcases h with h | ⟨h, hp⟩
  · exact Or.inl (hle.trans (h.trans hfailed))
  · exact Or.inr ⟨hle.trans (h.trans (Nat.add_le_add_right hfailed 1)), hclaim hp⟩

/-- What is known when a call of `p` is served. -/
structure Serving (env : Env) (s : State) (g : Uuid → Tally) (p : Pid) (ch : Choice) (t : Task)
    (l : History) (c : Call) (k : Reply c → Prog Call Reply Outcome) : Prop where
  inv : Budgeted env s g
  met : CountsFailures env s g p ch
  at_call : s.proc p = some ⟨t, l, .call c k, true⟩
  sound : Sound env s
  calls : t.Calls env l c
  publishing : t.Publishes env l c
  resets : t.resetsAttempts = true → Resets c
  running : ∀ q, stage (s.proc q) ≠ .between → publishes (s.proc q) = true

namespace Serving

theorem stage_eq (h : Serving env s g p ch t l c k) : stage (s.proc p) = l.publishing := by
  rw [h.at_call]
  rfl

theorem nextCall (h : Serving env s g p ch t l c k) : s.nextCall p = some c :=
  Pool.nextCall_of h.at_call

theorem txOf (h : Serving env s g p ch t l c k) : s.world.txOf p = l.tx := by
  rw [h.sound.txs p, h.at_call]
  rfl

theorem log (h : Serving env s g p ch t l c k) : LogSound env s.world l :=
  h.sound.logs p _ h.at_call

/-- The publisher is alone. -/
theorem others (h : Serving env s g p ch .publishOnce l c k) (q : Pid) (hq : q ≠ p) :
    stage (s.proc q) = .between := by
  by_contra hne
  have hp : publishes (s.proc p) = true := by
    rw [h.at_call]
    rfl
  exact hq (h.inv.alone q p (h.running q hne) hp)

/-- The row a publisher works on is stored. -/
theorem stored (h : Serving env s g p ch t l c k) (hrow : ∃ e, OutboxBatch l e ∧ e.id = id) :
    ∃ e ∈ s.world.outbox, e.id = id := by
  obtain ⟨e, hbatch, rfl⟩ := hrow
  obtain ⟨e', he', hcore⟩ := hbatch.row h.log
  exact ⟨e', he', OutboxEvent.id_of_core hcore⟩

/-- Where the rows come from after the call. -/
theorem rows (h : Serving env s g p ch t l c k) (hx : exec env p c ch s.world = some (w, r))
    {e' : OutboxEvent} (he' : e' ∈ w.outbox) :
    e'.attempts = 0 ∨ ∃ e ∈ s.world.outbox, e.id = e'.id ∧ (e' = e ∨
      (c = .outbox (.claim e.id) ∧ e.status = .PENDING ∧ e'.attempts = e.attempts + 1) ∨
      ∃ u, c = .outbox (.update e.id u) ∧ e' = u.apply e) := by
  obtain ⟨w₁, heff, rfl⟩ := exec_effect (h.sound.shaped h.at_call h.calls) hx
  exact heff.attempts_origin h.log h.txOf h.calls he'

/-- A claim that is under way is still so after a call of another process, or when the caller's
    own row is kept. -/
theorem claim_kept (h : Serving env s g p ch t l c k) {w : World} {r : Reply c} {id : Uuid}
    (hown : l.publishing = .claimed id → History.publishing (⟨c, r⟩ :: l) = .claimed id) :
    (∃ q, stage (s.proc q) = .claimed id) →
      ∃ q, stage ((s.put w p ⟨t, ⟨c, r⟩ :: l, k r, true⟩).proc q) = .claimed id := by
  rintro ⟨q, hq⟩
  refine ⟨q, ?_⟩
  rw [stage_put]
  split
  · next heq =>
    rw [heq, h.stage_eq] at hq
    exact hown hq
  · exact hq

/-- Only a publisher has a claim under way. -/
theorem between_kept (h : Serving env s g p ch t l c k) {r : Reply c} {id : Uuid}
    (ht : t ≠ .publishOnce) (hclaimed : l.publishing = .claimed id) :
    History.publishing (⟨c, r⟩ :: l) = .claimed id := by
  rw [h.publishing.2 ht] at hclaimed
  cases hclaimed

theorem alone (h : Serving env s g p ch t l c k) {r : Reply c} :
    publishes (some ⟨t, ⟨c, r⟩ :: l, k r, true⟩) = true → publishes (s.proc p) = true := by
  intro hpub
  rw [h.at_call]
  cases t with
  | publishOnce => rfl
  | _ => cases hpub

/-- A call that has nothing to do with outbox rows and messages. -/
theorem other (h : Serving env s g p ch t l c k) (hx : exec env p c ch s.world = some (w, r))
    (hno : ¬ Publishes c) (hread : ∀ id, c ≠ .outbox (.findUnique id)) :
    Budgeted env (s.put w p ⟨t, ⟨c, r⟩ :: l, k r, true⟩) g := by
  have hsame : stage (some ⟨t, ⟨c, r⟩ :: l, k r, true⟩) = stage (s.proc p) := by
    rw [h.stage_eq]
    exact publishing_cons hno hread r l
  refine h.inv.put h.alone (fun e' he' hsent => ?_) (fun id hc => ?_) (fun id n hat => ?_)
    fun q _ _ => ⟨h.inv.unsent q, h.inv.counted q⟩
  · rcases h.rows hx he' with hzero | ⟨e, he, hid, rfl | ⟨rfl, -⟩ | ⟨u, rfl, -⟩⟩
    · exact Or.inl (hzero ▸ Nat.zero_le _)
    · refine (h.inv.rows e' he hsent).mono rfl (le_refl _) (le_refl _) (h.claim_kept fun hat => ?_)
      rw [publishing_cons hno hread]
      exact hat
    · exact absurd trivial hno
    · exact absurd trivial hno
  · exact h.inv.unsent p id (hsame ▸ hc)
  · exact h.inv.counted p id n (hsame ▸ hat)

/-- The `catch` block is entered only for an event that has not been sent. -/
theorem caught_unsent (h : Serving env s g p ch .publishOnce l c k)
    (hx : exec env p c ch s.world = some (w, r))
    (hcatch : (stage (some ⟨.publishOnce, ⟨c, r⟩ :: l, k r, true⟩)).catching = some id) :
    (g id).sent = 0 := by
  rcases h.publishing.catching_origin h.calls hcatch with hold | ⟨hcall, htry, e, he⟩
  · exact h.inv.unsent p id (by rw [h.stage_eq]; exact hold)
  · have htrying : trying (s.proc p) = some id := by
      rw [h.at_call]
      exact htry
    cases exec_served hx with
    | failed fate => exact h.met.unsent (by rw [fate]; exact nofun) id htrying
    | lost fate run => exact h.met.unsent (by rw [fate]; exact nofun) id htrying
    | ok fate run =>
      -- only an update can be refused, and its row is stored
      have hnone := try_refused hcall htry run he
      cases c with
      | outbox c =>
        cases c with
        | update id' u =>
          obtain ⟨-, -, row, hbatch, hrow, -⟩ := h.calls
          obtain ⟨row', hrow', hid'⟩ := h.stored ⟨row, hbatch, hrow⟩
          have hgrow := (run_effect (h.sound.shaped h.at_call h.calls) run).grows
          obtain ⟨row'', hrow'', hcore⟩ := hgrow.outbox row' hrow'
          have hid : id' = id := by
            rcases hcall.1 with ⟨hat, -⟩ | ⟨hat, -⟩ | ⟨hat, -⟩ <;> rw [hat] at htry <;> cases htry
            rfl
          exact absurd (((OutboxEvent.id_of_core hcore).trans hid').trans hid) (hnone row'' hrow'')
        | claim id' =>
          cases run
          cases he
        | findMany sel take =>
          rw [show l.publishing = .between from hcall] at htry
          cases htry
        | findUnique id' =>
          rw [show l.publishing = .failing id' from hcall] at htry
          cases htry
      | kafka c =>
        cases c with
        | send topic m => cases topic <;> cases run <;> cases he
        | _ => exact hcall.elim
      | proc c =>
        cases run
        cases he
      | _ => exact hcall.elim

/-- The claim of a row: it counts, and the row's message is next. -/
theorem claim {k : Reply (.outbox (.claim id)) → Prog Call Reply Outcome}
    {r : Reply (.outbox (.claim id))}
    (h : Serving env s g p ch .publishOnce l (.outbox (.claim id)) k)
    (hx : exec env p (.outbox (.claim id)) ch s.world = some (w, r)) :
    Budgeted env (s.put w p ⟨.publishOnce, ⟨.outbox (.claim id), r⟩ :: l, k r, true⟩) g := by
  have hbetween : l.publishing = .between := h.publishing.1 rfl
  have hnone : ∀ q id', stage (s.proc q) ≠ .claimed id' := by
    intro q id' hq
    by_cases hqp : q = p
    · rw [hqp, h.stage_eq, hbetween] at hq
      cases hq
    · rw [h.others q hqp] at hq
      cases hq
  refine h.inv.put h.alone (fun e' he' hsent => ?_)
    (fun _ => h.caught_unsent hx) (fun id' n hat => ?_)
    fun q hq hne => absurd (h.others q hq) hne
  · rcases h.rows hx he' with hzero | ⟨e, he, hid, rfl | ⟨heq, hpending, hadd⟩ | ⟨u, heq, -⟩⟩
    · exact Or.inl (hzero ▸ Nat.zero_le _)
    · exact (h.inv.rows e' he hsent).mono rfl (le_refl _) (le_refl _)
        fun ⟨q, hq⟩ => absurd hq (hnone q _)
    · cases heq
      -- before the claim nothing was under way, so the row was covered by its failures alone
      have hle : e.attempts ≤ (g e.id).failed := by
        rcases h.inv.rows e he (hid ▸ hsent) with hle | ⟨-, q, hq⟩
        · exact hle
        · exact absurd hq (hnone q _)
      cases exec_served hx with
      | failed fate =>
        have hsame : e' = e := Table.eq_of_clash he' he (by simp [Indexed.clash, hid])
        exact Or.inl (by rw [hsame]; exact hle)
      | lost fate run => exact absurd hpending (h.met.claims _ _ h.nextCall fate e he rfl)
      | ok fate run =>
        refine Or.inr ⟨by rw [hadd, ← hid]; exact Nat.add_le_add_right hle 1, p, ?_⟩
        simp only [Call.run, OutboxCall.run, Option.map_some,
          Option.some.injEq, Prod.mk.injEq] at run
        obtain ⟨-, rfl⟩ := run
        have hany : (s.world.outbox.any fun e₁ => e₁.id == e.id && e₁.status == .PENDING) = true :=
          Table.any_iff.mpr ⟨e, he, by simp [hpending]⟩
        rw [if_pos hany, Pool.put_self, ← hid]
        rfl
    · cases heq
  · obtain ⟨x, now⟩ := r
    cases x with
    | error e => cases hat
    | ok m =>
      simp only [stage, History.publishing] at hat
      split at hat <;> cases hat

/-- The send of a row: answered, it ends the counting; failed, it pays for the claim. -/
theorem send {e₀ : OutboxEvent}
    {k : Reply (.kafka (.send .events (outboxMessage env e₀))) → Prog Call Reply Outcome}
    {r : Reply (.kafka (.send .events (outboxMessage env e₀)))}
    (h : Serving env s g p ch .publishOnce l (.kafka (.send .events (outboxMessage env e₀))) k)
    (hat : l.publishing = .claimed e₀.id)
    (hx : exec env p (.kafka (.send .events (outboxMessage env e₀))) ch s.world = some (w, r)) :
    Budgeted env
      (s.put w p ⟨.publishOnce, ⟨.kafka (.send .events (outboxMessage env e₀)), r⟩ :: l, k r, true⟩)
      fun id => if messageId (outboxMessage env e₀) =
        some id.text then (g id).count ch.fate else g id := by
  have hcount : ∀ id, (if messageId (outboxMessage env e₀) = some id.text then (g id).count ch.fate
      else g id) = if id = e₀.id then (g id).count ch.fate else g id := by
    intro id
    refine if_congr ⟨fun heq => ?_, fun heq => by rw [heq]; rfl⟩ rfl rfl
    exact (Uuid.text_inj (Option.some_inj.mp heq)).symm
  simp only [hcount]
  refine h.inv.put h.alone (fun e' he' hsent => ?_) (fun id hcatch => ?_) (fun id n hn => ?_)
    fun q hq hne => absurd (h.others q hq) hne
  · rcases h.rows hx he' with hzero | ⟨e, he, hid, rfl | ⟨heq, -⟩ | ⟨u, heq, -⟩⟩
    · exact Or.inl (hzero ▸ Nat.zero_le _)
    · by_cases hrow : e'.id = e₀.id
      · unfold Covers
        dsimp only
        rw [if_pos hrow] at hsent ⊢
        cases hfate : ch.fate with
        | ok =>
          rw [hfate] at hsent
          cases hsent
        | fail m =>
          rw [hfate] at hsent
          rcases h.inv.rows e' he hsent with hle | ⟨hle, -⟩
          · exact Or.inl (Nat.le_succ_of_le hle)
          · exact Or.inl hle
        | lost m =>
          rw [hfate] at hsent
          rcases h.inv.rows e' he hsent with hle | ⟨hle, -⟩
          · exact Or.inl (Nat.le_succ_of_le hle)
          · exact Or.inl hle
      · rw [if_neg hrow] at hsent
        refine (h.inv.rows e' he hsent).mono rfl (le_refl _) (by rw [if_neg hrow]) (h.claim_kept ?_)
        rw [hat, Publishing.claimed.injEq]
        exact fun heq => absurd heq.symm hrow
    · cases heq
    · cases heq
  · -- a send that failed had not succeeded before
    have hunsent := h.caught_unsent hx hcatch
    split
    · obtain ⟨x, now⟩ := r
      cases x with
      | ok x =>
        simp only [stage, History.publishing, hat] at hcatch
        cases hcatch
      | error err =>
        cases hfate : ch.fate with
        | ok =>
          cases exec_served hx with
          | ok fate run => cases run
          | failed fate => rw [hfate] at fate; cases fate
          | lost fate run => rw [hfate] at fate; cases fate
        | fail m => exact hunsent
        | lost m => exact hunsent
    · exact hunsent
  · obtain ⟨x, now⟩ := r
    cases x <;> simp only [stage, History.publishing, hat] at hn <;> cases hn

/-- The look at a row after a failure. -/
theorem reread {k : Reply (.outbox (.findUnique id)) → Prog Call Reply Outcome}
    {r : Reply (.outbox (.findUnique id))}
    (h : Serving env s g p ch .publishOnce l (.outbox (.findUnique id)) k)
    (hx : exec env p (.outbox (.findUnique id)) ch s.world = some (w, r)) :
    Budgeted env (s.put w p ⟨.publishOnce, ⟨.outbox (.findUnique id), r⟩ :: l, k r, true⟩) g := by
  have hfailing : l.publishing = .failing id := h.publishing.1 rfl
  have hunsent : (g id).sent = 0 := h.inv.unsent p id (by rw [h.stage_eq, hfailing]; rfl)
  refine h.inv.put h.alone (fun e' he' hsent => ?_)
    (fun _ => h.caught_unsent hx) (fun id' n hat => ?_)
    fun q hq hne => absurd (h.others q hq) hne
  · rcases h.rows hx he' with hzero | ⟨e, he, hid, rfl | ⟨heq, -⟩ | ⟨u, heq, -⟩⟩
    · exact Or.inl (hzero ▸ Nat.zero_le _)
    · refine (h.inv.rows e' he hsent).mono rfl (le_refl _) (le_refl _) (h.claim_kept fun hat => ?_)
      rw [hfailing] at hat
      cases hat
    · cases heq
    · cases heq
  · obtain ⟨x, now⟩ := r
    cases x with
    | error e => cases hat
    | ok row =>
      cases hat
      refine Or.inr ?_
      rcases exec_reply hx with ⟨m, hm⟩ | ⟨w₁, run, -⟩
      · cases hm
      · simp only [Call.run, OutboxCall.run, Option.map_some, Option.some.injEq, Prod.mk.injEq,
          Except.ok.injEq] at run
        obtain ⟨-, rfl⟩ := run
        obtain ⟨-, hrow⟩ := h.calls
        obtain ⟨e, he, hid⟩ := h.stored hrow
        have hfound : (s.world.outbox.find? fun e => e.id == id) = some e :=
          Table.find?_of_mem he (by simpa using hid) fun b _ hb => by
            simp only [beq_iff_eq] at hb
            simp [Indexed.clash, hid, hb]
        rw [hfound]
        rcases h.inv.rows e he (by rw [hid]; exact hunsent) with hle | ⟨-, q, hq⟩
        · exact hid ▸ hle
        · by_cases hqp : q = p
          · rw [hqp, h.stage_eq, hfailing] at hq
            cases hq
          · rw [h.others q hqp] at hq
            cases hq

/-- An update of the publisher leaves `attempts` as it is. -/
theorem update {u : OutboxUpdate} {k : Reply (.outbox (.update id u)) → Prog Call Reply Outcome}
    {r : Reply (.outbox (.update id u))}
    (h : Serving env s g p ch .publishOnce l (.outbox (.update id u)) k)
    (hx : exec env p (.outbox (.update id u)) ch s.world = some (w, r)) :
    Budgeted env (s.put w p ⟨.publishOnce, ⟨.outbox (.update id u), r⟩ :: l, k r, true⟩) g := by
  obtain ⟨hupdate, hattempts⟩ := h.publishing.1 rfl
  have hidle : ∀ id', l.publishing ≠ .claimed id' := by
    intro id' heq
    rcases hupdate with ⟨hat, -⟩ | ⟨hat, -⟩ | ⟨hat, -⟩ <;> rw [hat] at heq <;> cases heq
  have hkept : ∀ {id'}, l.publishing = .claimed id' →
      History.publishing (⟨.outbox (.update id u), r⟩ :: l) = .claimed id' :=
    fun heq => absurd heq (hidle _)
  refine h.inv.put h.alone (fun e' he' hsent => ?_)
    (fun _ => h.caught_unsent hx) (fun id' n hat => ?_)
    fun q hq hne => absurd (h.others q hq) hne
  · rcases h.rows hx he' with hzero | ⟨e, he, hid, rfl | ⟨heq, -⟩ | ⟨u, heq, rfl⟩⟩
    · exact Or.inl (hzero ▸ Nat.zero_le _)
    · exact (h.inv.rows e' he hsent).mono rfl (le_refl _) (le_refl _) (h.claim_kept hkept)
    · cases heq
    · cases heq
      have hle : (u.apply e).attempts ≤ e.attempts := by
        simp only [OutboxUpdate.apply, hattempts, Option.getD_none, le_refl]
      exact (h.inv.rows e he hsent).mono rfl hle (le_refl _) (h.claim_kept hkept)
  · obtain ⟨x, now⟩ := r
    cases x with
    | ok row => cases hat
    | error e =>
      simp only [stage, History.publishing] at hat
      rcases hupdate with ⟨hat', -⟩ | ⟨hat', -⟩ | ⟨hat', -⟩ <;> rw [hat'] at hat <;> cases hat

section

variable {u : OutboxUpdate} {k : Reply (.outbox (.update id u)) → Prog Call Reply Outcome}
  {r : Reply (.outbox (.update id u))}

/-- An update of the replay CLI leaves no row with more attempts, whatever became of the call. -/
theorem replay_row (h : Serving env s g p ch t l (.outbox (.update id u)) k)
    (hx : exec env p (.outbox (.update id u)) ch s.world = some (w, r)) {e' : OutboxEvent}
    (he' : e' ∈ w.outbox) :
    e'.attempts = 0 ∨ ∃ e ∈ s.world.outbox, e.id = e'.id ∧ e'.attempts ≤ e.attempts := by
  rcases h.rows hx he' with hzero | ⟨e, he, hid, rfl | ⟨heq, -⟩ | ⟨u', heq, rfl⟩⟩
  · exact Or.inl hzero
  · exact Or.inr ⟨e', he, rfl, le_refl _⟩
  · cases heq
  · cases heq
    refine Or.inr ⟨e, he, rfl, ?_⟩
    cases hn : u.attempts with
    | none => simp only [OutboxUpdate.apply, hn, Option.getD_none, le_refl]
    | some n =>
      simp only [OutboxUpdate.apply, hn, Option.getD_some]
      cases hfate : ch.fate.takesEffect with
      | true => exact h.met.replays hfate e.id u n h.nextCall hn e he rfl
      | false =>
        cases exec_served hx with
        | failed fate =>
          have hsame : u.apply e = e :=
            Table.eq_of_clash he' he (by simp [Indexed.clash, OutboxUpdate.apply])
          have heq := congrArg OutboxEvent.attempts hsame
          simp only [OutboxUpdate.apply, hn, Option.getD_some] at heq
          exact le_of_eq heq
        | ok fate run => rw [fate] at hfate; cases hfate
        | lost fate run => rw [fate] at hfate; cases hfate

/-- A reset that takes effect leaves its row without attempts. -/
theorem reset_row (h : Serving env s g p ch t l (.outbox (.update id u)) k)
    (htask : t.resetsAttempts = true) (hfate : ch.fate.takesEffect = true)
    (hx : exec env p (.outbox (.update id u)) ch s.world = some (w, r)) {e : OutboxEvent}
    (he : e ∈ w.outbox) (hid : e.id = id) : e.attempts = 0 := by
  obtain ⟨w₁, x, run, hw⟩ : ∃ w₁ x, Call.run env p ch.newId s.world (.outbox (.update id u)) =
      some (w₁, x) ∧ w.outbox = w₁.outbox := by
    cases exec_served hx with
    | failed fate => rw [fate] at hfate; cases hfate
    | ok fate run => exact ⟨_, _, run, rfl⟩
    | lost fate run => exact ⟨_, _, run, rfl⟩
  obtain ⟨e, -, -, rfl⟩ := update_applied run (hw ▸ he) hid
  have hu : u.attempts = some 0 := h.resets htask
  simp only [OutboxUpdate.apply, hu, Option.getD_some]

/-- An update of the replay CLI that keeps the tallies. -/
theorem replay_kept (h : Serving env s g p ch t l (.outbox (.update id u)) k)
    (ht : t ≠ .publishOnce) (hx : exec env p (.outbox (.update id u)) ch s.world = some (w, r)) :
    Budgeted env (s.put w p ⟨t, ⟨.outbox (.update id u), r⟩ :: l, k r, true⟩) g := by
  refine h.inv.put_between (h.calls.between ht (h.publishing.2 ht) r) h.alone
    (fun e' he' hsent => ?_) fun q _ _ => ⟨h.inv.unsent q, h.inv.counted q⟩
  rcases h.replay_row hx he' with hzero | ⟨e, he, heid, hle⟩
  · exact Or.inl (hzero ▸ Nat.zero_le _)
  · exact (h.inv.rows e he (by rw [heid]; exact hsent)).mono heid hle (by rw [heid])
      (h.claim_kept (h.between_kept ht))

/-- A reset starts the count of its row again. -/
theorem replay_reset (h : Serving env s g p ch t l (.outbox (.update id u)) k)
    (ht : t ≠ .publishOnce) (htask : t.resetsAttempts = true) (hfate : ch.fate.takesEffect = true)
    (hx : exec env p (.outbox (.update id u)) ch s.world = some (w, r)) :
    Budgeted env (s.put w p ⟨t, ⟨.outbox (.update id u), r⟩ :: l, k r, true⟩)
      (Function.update g id ⟨0, 0⟩) := by
  have hresetting : resetting (s.proc p) = some id := by
    rw [h.at_call]
    exact if_pos htask
  have hother : ∀ {id'}, id' ≠ id → Function.update g id ⟨0, 0⟩ id' = g id' :=
    fun hne => Function.update_of_ne hne _ _
  refine h.inv.put_between (h.calls.between ht (h.publishing.2 ht) r) h.alone
    (fun e' he' hsent => ?_) fun q _ _ => ⟨fun id' hc => ?_, fun id' n hat => ?_⟩
  · by_cases hid : e'.id = id
    · exact Or.inl (by rw [h.reset_row htask hfate hx he' hid]; exact Nat.zero_le _)
    · rw [hother hid] at hsent
      rcases h.replay_row hx he' with hzero | ⟨e, he, heid, hle⟩
      · exact Or.inl (by rw [hzero]; exact Nat.zero_le _)
      · refine (h.inv.rows e he (by rw [heid]; exact hsent)).mono heid hle ?_
          (h.claim_kept (h.between_kept ht))
        rw [heid, hother hid]
  · by_cases hid : id' = id
    · rw [hid, Function.update_self]
    · rw [hother hid]
      exact h.inv.unsent q id' hc
  · by_cases hid : id' = id
    · exact Or.inl (h.met.resets hfate id hresetting q n (hid ▸ hat))
    · rw [hother hid]
      exact h.inv.counted q id' n hat

/-- An update of the replay CLI does not raise `attempts`; a reset starts the count again. -/
theorem replay (h : Serving env s g p ch t l (.outbox (.update id u)) k) (ht : t ≠ .publishOnce)
    (hx : exec env p (.outbox (.update id u)) ch s.world = some (w, r)) :
    Budgeted env (s.put w p ⟨t, ⟨.outbox (.update id u), r⟩ :: l, k r, true⟩)
      (if t.resetsAttempts && ch.fate.takesEffect then Function.update g id ⟨0, 0⟩ else g) := by
  split
  · next hreset =>
    obtain ⟨htask, hfate⟩ := Bool.and_eq_true_iff.mp hreset
    exact h.replay_reset ht htask hfate hx
  · exact h.replay_kept ht hx

end

/-- Every call keeps the invariant. -/
theorem step (h : Serving env s g p ch t l c k) (hx : exec env p c ch s.world = some (w, r))
    (s' : State) :
    Budgeted env (s.put w p ⟨t, ⟨c, r⟩ :: l, k r, true⟩) (countSends s (.step p ch) s' g) := by
  unfold countSends
  dsimp only
  rw [h.at_call]
  cases c with
  | outbox c =>
    cases c with
    | findMany sel take => exact h.other hx id nofun
    | claim id =>
      obtain rfl := h.calls.claim.1
      exact h.claim hx
    | findUnique id =>
      obtain rfl := h.calls.reread
      exact h.reread hx
    | update id u =>
      by_cases ht : t = .publishOnce
      · subst ht
        exact h.update hx
      · have hb := h.replay ht hx
        cases hreset : t.resetsAttempts with
        | false =>
          rw [hreset] at hb
          simp only [resetting, sending, hreset]
          exact hb
        | true =>
          rw [hreset] at hb
          simp only [resetting, sending, hreset, if_true]
          exact hb
  | kafka c =>
    cases c with
    | send topic m =>
      cases topic with
      | events =>
        obtain rfl := h.calls.publish.1
        obtain ⟨e, rfl, hat⟩ := h.publishing.1 rfl
        exact h.send hat hx
      | dlq => exact h.other hx id nofun
    | fetch offset => exact h.other hx id nofun
    | commitOffset offset => exact h.other hx id nofun
  | _ => exact h.other hx id nofun

end Serving

end

/-! ## Runs -/

/-- No process runs, and the tallies know the failed sends behind every row's attempts. -/
def Counted₀ (s : State) (g : Uuid → Tally) : Prop :=
  Fresh s ∧ ∀ e ∈ s.world.outbox, e.attempts ≤ (g e.id).failed

/-- The runs of one publisher that meet the condition, with the tallies. -/
def Paid (env : Env) : State → (Uuid → Tally) → Prop :=
  Traced (system env) countSends
    (fun s g lb => OnePublisher s lb ∧ SpendsBudget env s g lb) Counted₀

section

variable {env : Env} {s : State} {g : Uuid → Tally}

theorem budgeted (h : Paid env s g) : Budgeted env s g := by
  have hidle : ∀ s g, Counted₀ s g → s.Idle := fun _ _ h => h.1.1
  refine Traced.invariant
    (fun t => ((task_sat env t).and (task_publishing env t)).and (task_resets env t))
    hidle ?_ ?_ ?_ ?_ ?_ h
  · intro s g hs
    have hnone : ∀ p, s.proc p = none := hs.1.1
    refine ⟨fun p q hp => ?_, fun e he _ => Or.inl (hs.2 e he),
      fun p id hc => ?_, fun p id n hat => ?_⟩
    · rw [hnone p] at hp
      cases hp
    · rw [hnone p] at hc
      cases hc
    · rw [hnone p] at hat
      cases hat
  · intro s g p t _ hI hmet hfree
    have hstage : ∀ q, stage ((s.put s.world p ((system env).start t)).proc q) =
        stage (s.proc q) := by
      intro q
      rw [stage_put]
      split
      · next heq =>
        rw [heq, hfree]
        rfl
      · rfl
    have hcovers : ∀ e, Covers s g e → Covers (s.put s.world p ((system env).start t)) g e :=
      fun e hc => hc.mono rfl (le_refl _) (le_refl _) fun ⟨q, hq⟩ => ⟨q, (hstage q).trans hq⟩
    refine ⟨Pool.alone_put (M := fun o => publishes o = true) hI.alone fun q _ hpub => ?_,
      fun e he hsent => hcovers e (hI.rows e he hsent), fun q id hc => ?_, fun q id n hat => ?_⟩
    · -- a pass starts when no other is running
      cases t with
      | publishOnce =>
        rw [hmet.1 q]
        exact Bool.false_ne_true
      | _ => cases hpub
    · exact hI.unsent q id (hstage q ▸ hc)
    · exact hI.counted q id n (hstage q ▸ hat)
  · intro s g p ch t l c k w r hr hI hmet hp hc hx
    have hstart : ∀ s, (∃ g, Counted₀ s g) → Fresh s := fun _ ⟨_, hs⟩ => hs.1
    have hserving : Serving env s g p ch t l c k :=
      ⟨hI, hmet.2, hp, sound hstart hr.reach, hc.1.1, hc.1.2, hc.2,
        fun q hq => publishes_of_stage (fun s ⟨g, hs⟩ => hidle s g hs) hr.reach hq⟩
    exact hserving.step hx _
  · intro s g p t l x _ hI hmet hp
    have hdead : stage (some (⟨t, l, x, false⟩ : Process)) = .between := rfl
    have hnone : publishes (some (⟨t, l, x, false⟩ : Process)) = true →
        publishes (s.proc p) = true := by
      intro hpub
      cases t <;> cases x <;> cases hpub
    refine hI.put_between hdead hnone (fun e he hsent => ?_) fun q _ _ =>
      ⟨hI.unsent q, hI.counted q⟩
    refine (hI.rows e he hsent).mono rfl (le_refl _) (le_refl _) ?_
    rintro ⟨q, hq⟩
    refine ⟨q, ?_⟩
    rw [stage_put]
    split
    · next heq => exact absurd (heq ▸ hq) (hmet.2 e.id)
    · exact hq
  · intro s g e w _ hI _ hw
    have hsame : w.outbox = s.world.outbox := by cases e <;> cases hw <;> rfl
    exact ⟨hI.alone, fun e he hsent => hI.rows e (hsame ▸ he) hsent, hI.unsent, hI.counted⟩

/-- A row becomes FAILED only as a publisher parks it. -/
theorem failed_by_park {ok : State → Step → Prop} {start : State → Prop}
    (hstart : ∀ s, start s → Fresh s) (h : Reach (system env) ok start s) {lb : Step} {s' : State}
    (hstep : (system env).step s lb = some s') {e' : OutboxEvent} (he' : e' ∈ s'.world.outbox)
    (hst : e'.status = .FAILED) : (∃ e ∈ s.world.outbox, e.id = e'.id ∧ e.status = .FAILED) ∨
      ∃ p ch, lb = .step p ch ∧ Parks s p e'.id := by
  cases Machine.step_cases hstep with
  | spawn free => exact Or.inl ⟨e', he', rfl, hst⟩
  | @call p ch t l c k w r hp hx =>
    have hs := sound hstart h
    have hc := (obeys hstart h hp).1
    have htx := hs.txOf hp
    obtain ⟨w₁, heff, rfl⟩ := exec_effect (hs.shaped hp hc) hx
    rcases heff.outbox_origin he' with ⟨e, he, hcore, rfl | ⟨rfl, heq⟩ | ⟨u, rfl, rfl⟩⟩ |
      ⟨rfl, tx, id, hmine, hab, hw, -⟩
    · exact Or.inl ⟨e', he, rfl, hst⟩
    · exact Or.inl ⟨e, he, (OutboxEvent.id_of_core hcore).symm, heq ▸ hst⟩
    · rcases OutboxUpdate.status_apply hst with hold | hu
      · exact Or.inl ⟨e, he, rfl, hold⟩
      · exact Or.inr ⟨p, ch, rfl, u, Pool.nextCall_of hp, hu⟩
    · have hk := hc.commit (htx ▸ hmine) hab
      rw [hw] at hk
      rw [(hk.event (hs.logs p _ hp)).1] at hst
      cases hst
  | crash alive => exact Or.inl ⟨e', he', rfl, hst⟩
  | @move e w moved =>
    cases e <;> cases moved <;> exact Or.inl ⟨e', he', rfl, hst⟩

/-- In runs of one publisher that meet the condition, from any outbox table whose attempts are
    failed sends: an event is parked only after `maxAttempts` failed sends and no successful one,
    since it was created or last reset; and rows become FAILED in no other way. -/
theorem parked_after_budget (env : Env) (h : Paid env s g) :
    (∀ p id, Parks s p id → env.maxAttempts ≤ (g id).failed ∧ (g id).sent = 0) ∧
    ∀ lb s', (system env).step s lb = some s' → ∀ e' ∈ s'.world.outbox, e'.status = .FAILED →
      (∃ e ∈ s.world.outbox, e.id = e'.id ∧ e.status = .FAILED) ∨
      ∃ p ch, lb = .step p ch ∧ Parks s p e'.id := by
  have hI := budgeted h
  have hstart : ∀ s, (∃ g, Counted₀ s g) → Fresh s := fun _ ⟨_, hs⟩ => hs.1
  refine ⟨?_, fun lb s' hstep e' he' hst => failed_by_park hstart h.reach hstep he' hst⟩
  rintro p id ⟨u, hnext, hu⟩
  cases hp : s.proc p with
  | none =>
    rw [Pool.nextCall, hp] at hnext
    cases hnext
  | some pr =>
    obtain ⟨t, l, x, alive⟩ := pr
    rw [Pool.nextCall, hp] at hnext
    cases alive with
    | false => cases hnext
    | true =>
      cases x with
      | ret a => cases hnext
      | call c k =>
        cases hnext
        have hc := (h.reach.sat (fun t => (task_sat env t).and (task_publishing env t))
          (fun s hs => (hstart s hs).1) hp).1
        have hstage : stage (s.proc p) = History.publishing l := by rw [hp]; rfl
        rcases hc.1.outboxUpdate with ⟨rfl, -⟩ | ⟨argv, rfl, hpending, -⟩
        · rcases (hc.2.1 rfl).1 with ⟨-, hst⟩ | ⟨hat, hmax, -⟩ | ⟨-, -, hst⟩
          · rw [hu] at hst
            cases hst
          · refine ⟨?_, hI.unsent p id (by rw [hstage, hat]; rfl)⟩
            rcases hI.counted p id _ (hstage.trans hat) with hlt | hle
            · exact absurd hmax (Nat.not_le_of_lt hlt)
            · exact hmax.trans hle
          · rw [hu] at hst
            cases hst
        · rw [hu] at hpending
          cases hpending

end

/-! ## A budget that is not spent on sends -/

open Platform in
/-- Half a minute later, pass `p` claims the event and dies before it sends it. -/
def dyingPass (p : Pid) : List Step :=
  .move (.tick 30000) :: .spawn p .publishOnce :: serves p 3 ++ [.crash p]

open Platform in
/-- Half a minute later, the send of pass `p` fails, and the pass reads the row again. -/
def failingSend (p : Pid) : List Step :=
  .move (.tick 30000) :: .spawn p .publishOnce :: serves p 3 ++ [fail p, serve p]

/-- The step does not start a pass while the process runs one. -/
def startsAfter (pr : Option Process) : Step → Bool
  | .spawn _ .publishOnce => !publishes pr
  | _ => true

def onePublisherCheck (n : Nat) : Check n OnePublisher :=
  (Check.each (fun _ lb _ pr => startsAfter pr lb) fun _ lb _ => by
    unfold startsAfter
    split <;> rfl).imp fun s lb h => by
    cases lb with
    | spawn p t =>
      cases t with
      | publishOnce =>
        intro q
        simpa [startsAfter] using h q
      | _ => trivial
    | _ => trivial

/-- No tally has begun. -/
def noSends : Uuid → Tally := fun _ => ⟨0, 0⟩

open Platform in
/-- Four passes die with a claim each; the first send that fails parks the event. -/
def parkedEarly : List Step :=
  createAndConfirm ++ dyingPass 2 ++ dyingPass 3 ++ dyingPass 4 ++ dyingPass 5 ++ failingSend 6 ++
    [serve 6]

/-- One publisher parks an event after a single failed send. -/
theorem parked_before_budget :
    ∃ s g, Traced (system (platform id)) countSends (fun s _ lb => OnePublisher s lb)
        (fun s g => s = initial ∧ g = noSends) s g ∧
      ∃ e ∈ s.world.outbox, e.status = .FAILED ∧ g e.id = ⟨1, 0⟩ ∧
        (g e.id).failed < (platform id).maxAttempts := by
  let check := onePublisherCheck 7
  have hrun : (((system (platform id)).runTraced 7 countSends (fun s _ lb => check.test s lb)
      initial noSends parkedEarly).map fun x =>
        x.1.world.outbox.any fun e => e.status == .FAILED && x.2 e.id == ⟨1, 0⟩) = some true := by
    decide +kernel
  obtain ⟨⟨s, g⟩, hs, hany⟩ := Option.map_eq_some_iff.mp hrun
  obtain ⟨e, he, hk⟩ := Table.any_iff.mp hany
  simp only [Bool.and_eq_true, beq_iff_eq] at hk
  refine ⟨s, g, check.traced (fun _ _ _ h => h) hs (initial_below 7) ⟨rfl, rfl⟩,
    e, he, hk.1, hk.2, ?_⟩
  rw [hk.2]
  decide

/-- No replays and no deaths; calls may fail without effect on events that have not been sent. -/
def paysPlainly (n : Nat) (s : State) (g : Uuid → Tally) (lb : Step) : Bool :=
  (onePublisherCheck n).test s lb && match lb with
    | .step p ch =>
        (match ch.fate with
          | .ok => true
          | .fail _ => (trying (s.proc p)).all fun id => (g id).sent == 0
          | .lost _ => false) &&
        (resetting (s.proc p)).isNone &&
        match s.nextCall p with
          | some (.outbox (.update _ u)) => u.attempts.isNone
          | _ => true
    | .crash _ => false
    | _ => true

theorem paid_of_plainly {n : Nat} {s : State} {g : Uuid → Tally} {lb : Step} (hs : s.Below n)
    (h : paysPlainly n s g lb = true) : OnePublisher s lb ∧ SpendsBudget (platform id) s g lb := by
  obtain ⟨hone, hplain⟩ := Bool.and_eq_true_iff.mp h
  refine ⟨(onePublisherCheck n).sound s lb hs hone, ?_⟩
  cases lb with
  | step p ch =>
    obtain ⟨hfirst, hnext⟩ := Bool.and_eq_true_iff.mp hplain
    obtain ⟨hfate, hreset⟩ := Bool.and_eq_true_iff.mp hfirst
    refine ⟨fun id m _ heq => ?_, fun hne id htry => ?_,
      fun _ id u n hcall hu => ?_, fun _ id hid => ?_⟩
    · rw [heq] at hfate
      cases hfate
    · split at hfate
      · next heq => exact absurd heq hne
      · rw [htry] at hfate
        simpa using hfate
      · cases hfate
    · rw [hcall] at hnext
      dsimp only at hnext
      rw [hu] at hnext
      cases hnext
    · rw [hid] at hreset
      cases hreset
  | crash p => cases hplain
  | spawn p t => trivial
  | move e => trivial

/-- Five failed sends, and the publisher is about to park the event. -/
def budgetSpent : List Step :=
  createAndConfirm ++
    (List.range 4).flatMap (fun i => failingSend (i + 2) ++ [Platform.serve (i + 2)]) ++
    failingSend 6

theorem parked_after_budget_run :
    ∃ s g,
      (system (platform id)).runTraced 7 countSends (paysPlainly 7) initial noSends budgetSpent =
        some (s, g) ∧
      ∃ e, Parks s 6 e ∧ (platform id).maxAttempts ≤ (g e).failed ∧ (g e).sent = 0 := by
  have hrun : (((system (platform id)).runTraced 7 countSends (paysPlainly 7) initial noSends
      budgetSpent).map fun x => match x.1.nextCall 6 with
        | some (.outbox (.update _ u)) => u.status == some .FAILED
        | _ => false) = some true := by
    decide +kernel
  obtain ⟨⟨s, g⟩, hs, hnext⟩ := Option.map_eq_some_iff.mp hrun
  have hempty : Counted₀ initial noSends := ⟨initial_fresh, nofun⟩
  have h0 : Paid (platform id) initial noSends := .start hempty
  have hpaid : Paid (platform id) s g :=
    h0.of_runTraced (fun _ _ _ hbelow hmet => paid_of_plainly hbelow hmet) (initial_below 7) hs
  dsimp only at hnext
  split at hnext
  · next e u hcall =>
    have hparks : Parks s 6 e := ⟨u, hcall, by simpa using hnext⟩
    exact ⟨s, g, hs, e, hparks, (parked_after_budget (platform id) hpaid).1 6 e hparks⟩
  · cases hnext

end CashbackLedger
