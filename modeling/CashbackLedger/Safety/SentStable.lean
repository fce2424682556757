import CashbackLedger.Safety.Publishing

/-
  SENT rows and the publisher's `catch` block.

  The `catch` block of `publishOnce` sets the status of its row by id alone, to PENDING or FAILED,
  whatever the row has become. So a row stays SENT as long as no publisher is in its `catch` block
  for it: no call of a `try` block fails on a SENT row, the SENT mark keeps its reply, and a row
  is marked only while no other publisher is in the `catch` block for it (`sent_is_stable`).
-/

namespace CashbackLedger

open Lib History

/-- The row is stored and SENT. -/
def World.Sent (w : World) (id : Uuid) : Prop := ∃ e ∈ w.outbox, e.id = id ∧ e.status = .SENT

/-- Nothing is replayed. -/
def unreplayed : Step → Bool
  | .spawn _ (.replay _) => false
  | _ => true

/-- No call of a `try` block fails on a row that is SENT; the SENT mark does not lose its reply and
    is not served while a publisher is in its `catch` block for the row. -/
def KeepsSent (s : State) : Step → Prop
  | .step p ch =>
      (ch.fate ≠ .ok → ∀ id, trying (s.proc p) = some id → ¬ s.world.Sent id) ∧
      ∀ id, stage (s.proc p) = .sent id → match ch.fate with
        | .ok => ∀ q, (stage (s.proc q)).catching ≠ some id
        | .fail _ => True
        | .lost _ => False
  | _ => True

/-- No publisher is in its `catch` block for a SENT row. -/
def CatchesUnsent (s : State) : Prop :=
  ∀ p id, (stage (s.proc p)).catching = some id → ¬ s.world.Sent id

section

variable {env : Env} {p : Pid} {newId : Uuid} {ch : Choice} {w w' w₁ : World} {t : Task}
  {l : History} {c : Call} {r : Reply c} {id : Uuid}

theorem World.Sent.settled (h : w.Sent id) : w.Settled id := by
  obtain ⟨e, he, hid, hst⟩ := h
  exact ⟨e, he, hid, by rw [hst]; exact nofun⟩

/-- A row that is SENT was SENT before, or was marked by this call. -/
theorem Effect.sent_origin (hl : LogSound env w l) (htx : w.txOf p = l.tx) (hc : t.Calls env l c)
    (h : Effect p newId w c w₁) (hs : w₁.Sent id) :
    w.Sent id ∨ ∃ u, c = .outbox (.update id u) ∧ u.status = some .SENT := by
  obtain ⟨e', he', rfl, hst⟩ := hs
  rcases h.outbox_origin he' with ⟨e, he, hcore, rfl | ⟨rfl, heq⟩ | ⟨u, rfl, rfl⟩⟩ |
    ⟨rfl, tx, id, hmine, hab, hw, -⟩
  · exact Or.inl ⟨e', he, rfl, hst⟩
  · exact Or.inl ⟨e, he, (OutboxEvent.id_of_core hcore).symm, heq ▸ hst⟩
  · rcases OutboxUpdate.status_apply hst with hold | hu
    · exact Or.inl ⟨e, he, rfl, hold⟩
    · exact Or.inr ⟨u, rfl, hu⟩
  · -- a new row is PENDING
    have hk := hc.commit (htx ▸ hmine) hab
    rw [hw] at hk
    rw [(hk.event hl).1] at hst
    cases hst

/-- A SENT row stays SENT unless an update sets another status. -/
theorem Effect.sent_kept (h : Effect p newId w c w₁)
    (hu : ∀ u, c = .outbox (.update id u) → u.status = some .SENT) (hs : w.Sent id) :
    w₁.Sent id := by
  obtain ⟨e, he, rfl, hst⟩ := hs
  rcases h.outbox_kept he with he' | ⟨-, hpending, -⟩ | ⟨u, hc, he'⟩
  · exact ⟨e, he', rfl, hst⟩
  · rw [hst] at hpending
    cases hpending
  · refine ⟨u.apply e, he', rfl, ?_⟩
    simp only [OutboxUpdate.apply, hu u hc, Option.getD_some]

/-- The SENT mark is made by a publisher that has sent the row's message. -/
theorem Task.Calls.marks {u : OutboxUpdate} (hc : t.Calls env l (.outbox (.update id u)))
    (hpub : t.Publishes env l (.outbox (.update id u)))
    (hreplay : ∀ argv, t ≠ .replay argv) :
    (l.publishing = .sent id ∧ u.status = some .SENT) ∨ l.publishing.catching = some id := by
  have ht := hc.publisher trivial hreplay
  rcases (hpub.1 ht).1 with ⟨hat, hst⟩ | ⟨hat, -⟩ | ⟨hat, -⟩
  · exact Or.inl ⟨hat, hst⟩
  · exact Or.inr (by rw [hat]; rfl)
  · exact Or.inr (by rw [hat]; rfl)

/-- A pass claims only rows that are PENDING. -/
theorem claims_origin (hx : exec env p c ch w = some (w', r))
    (hid : id ∈ History.claims (⟨c, r⟩ :: l)) : id ∈ l.claims ∨ ¬ w.Settled id := by
  by_cases hpub : Publishes c
  · obtain ⟨x, now⟩ := r
    cases c with
    | outbox c =>
      cases c with
      | claim id' =>
        cases x with
        | error e => exact Or.inl hid
        | ok n =>
          simp only [History.claims] at hid
          split at hid
          · exact Or.inl hid
          · next hn =>
            rcases List.mem_cons.mp hid with rfl | hid
            · exact Or.inr (claim_pending hx hn)
            · exact Or.inl hid
      | update id' u => exact Or.inl hid
      | _ => exact hpub.elim
    | kafka c =>
      cases c with
      | send topic m => exact Or.inl hid
      | _ => exact hpub.elim
    | _ => exact hpub.elim
  · rw [(claiming_cons hpub r l).2] at hid
    exact Or.inl hid

/-- An update that is refused has met no row. -/
theorem update_refused {u : OutboxUpdate} {x : Except Fault OutboxEvent} {e : Fault}
    (h : Call.run env p newId w (.outbox (.update id u)) = some (w₁, x)) (hx : x = .error e) :
    ∀ row ∈ w₁.outbox, row.id ≠ id := by
  obtain ⟨⟨tbl, y⟩, hy, heq⟩ := Option.map_eq_some_iff.mp h
  cases heq
  simp only [OutboxCall.run] at hy
  split at hy
  · next hnone =>
    cases hy
    intro row hrow hid
    have hne := Table.find?_none hnone hrow
    simp [hid] at hne
  · cases hy
    cases hx

/-- A call of a `try` block that is served and refused has met no row. -/
theorem try_refused {x : Except Fault c.Result} {e : Fault} (hc : PublishingCall env l c)
    (htry : l.publishing.trying c = some id) (h : c.run env p newId w = some (w₁, x))
    (hx : x = .error e) : ∀ row ∈ w₁.outbox, row.id ≠ id := by
  cases c with
  | proc c =>
    cases h
    cases hx
  | outbox c =>
    cases c with
    | findMany sel take =>
      rw [show l.publishing = .between from hc] at htry
      cases htry
    | claim id' =>
      cases h
      cases hx
    | findUnique id' =>
      rw [show l.publishing = .failing id' from hc] at htry
      cases htry
    | update id' u =>
      have hid : id' = id := by
        rcases hc.1 with ⟨hat, -⟩ | ⟨hat, -⟩ | ⟨hat, -⟩ <;> rw [hat] at htry <;> cases htry
        rfl
      exact hid ▸ update_refused h hx
  | kafka c =>
    cases c with
    | send topic m => cases topic <;> cases h <;> cases hx
    | fetch offset => exact hc.elim
    | commitOffset offset => exact hc.elim
  | _ => exact hc.elim

end

section

variable {env : Env} {s : State} {p : Pid} {ch : Choice} {t : Task} {l : History} {c : Call}
  {k : Reply c → Prog Call Reply Outcome} {w : World} {r : Reply c} {id : Uuid}

/-- A call under the condition makes a row SENT only as a mark that is answered, while nobody is in
    the `catch` block for the row. -/
theorem KeepsSent.sent_by (hmet : KeepsSent s (.step p ch))
    (hp : s.proc p = some ⟨t, l, .call c k, true⟩) (hs : Sound env s) (hc : t.Calls env l c)
    (hpub : t.Publishes env l c) (hreplay : ∀ argv, t ≠ .replay argv)
    (hx : exec env p c ch s.world = some (w, r)) (hsent : w.Sent id) :
    s.world.Sent id ∨ (l.publishing = .sent id ∧ (∃ x, r.1 = .ok x) ∧
      ∀ q, (stage (s.proc q)).catching ≠ some id) := by
  have htx := hs.txOf hp
  have hstage : stage (s.proc p) = l.publishing := by rw [hp]; rfl
  -- where the row comes from when the call takes effect
  have horigin : ∀ {w₁ x}, c.run env p ch.newId s.world = some (w₁, x) → w₁.Sent id →
      s.world.Sent id ∨ ((∃ u, c = .outbox (.update id u)) ∧ l.publishing = .sent id) := by
    intro w₁ x hrun hsent
    have heff := run_effect (hs.shaped hp hc) hrun
    rcases heff.sent_origin (hs.logs p _ hp) htx hc hsent with hold | ⟨u, rfl, hu⟩
    · exact Or.inl hold
    · have ht := hc.publisher trivial hreplay
      rcases (hpub.1 ht).1 with ⟨hat, -⟩ | ⟨-, -, hst⟩ | ⟨-, -, hst⟩
      · exact Or.inr ⟨⟨u, rfl⟩, hat⟩
      · rw [hu] at hst
        cases hst
      · rw [hu] at hst
        cases hst
  cases exec_served hx with
  | failed fate => exact Or.inl hsent
  | @lost w₁ x m fate run =>
    rcases horigin run hsent with hold | ⟨-, hat⟩
    · exact Or.inl hold
    · have hmark := hmet.2 id (hstage.trans hat)
      rw [fate] at hmark
      exact hmark.elim
  | @ok w₁ x fate run =>
    rcases horigin run hsent with hold | ⟨⟨u, rfl⟩, hat⟩
    · exact Or.inl hold
    · have hmark := hmet.2 id (hstage.trans hat)
      rw [fate] at hmark
      cases x with
      | ok row => exact Or.inr ⟨hat, ⟨row, rfl⟩, hmark⟩
      | error e =>
        obtain ⟨row, hrow, hid, -⟩ := hsent
        exact absurd hid (update_refused run rfl row hrow)

theorem CatchesUnsent.call (hI : CatchesUnsent s) (hmet : KeepsSent s (.step p ch))
    (hp : s.proc p = some ⟨t, l, .call c k, true⟩) (hs : Sound env s) (hc : t.Calls env l c)
    (hpub : t.Publishes env l c) (hreplay : ∀ argv, t ≠ .replay argv)
    (hx : exec env p c ch s.world = some (w, r)) :
    CatchesUnsent (s.put w p ⟨t, ⟨c, r⟩ :: l, k r, true⟩) := by
  intro q id hq hsent
  have hstage : stage (s.proc p) = l.publishing := by rw [hp]; rfl
  have hby := hmet.sent_by hp hs hc hpub hreplay hx hsent
  rw [Pool.put_proc] at hq
  split at hq
  · rcases hpub.catching_origin hc hq with hold | ⟨hcall, htry, e, he⟩
    · rcases hby with hsent | ⟨-, -, hnone⟩
      · exact hI p id (by rw [hstage]; exact hold) hsent
      · exact hnone p (by rw [hstage]; exact hold)
    · rcases hby with hsent₀ | ⟨-, ⟨x, hok⟩, -⟩
      · have hfails : ch.fate ≠ .ok → False := fun hfate =>
          hmet.1 hfate id (by rw [hp]; exact htry) hsent₀
        cases exec_served hx with
        | failed fate => exact hfails (by rw [fate]; exact nofun)
        | lost fate run => exact hfails (by rw [fate]; exact nofun)
        | ok fate run =>
          obtain ⟨row, hrow, hid, -⟩ := hsent
          exact try_refused hcall htry run he row hrow hid
      · rw [hok] at he
        cases he
  · rcases hby with hsent | ⟨-, -, hnone⟩
    · exact hI q id hq hsent
    · exact hnone q hq

end

/-! ## Runs -/

/-- The condition on the runs: nothing is replayed, and SENT rows meet no `catch` block. -/
def StepKeepsSent (s : State) (lb : Step) : Prop := unreplayed lb = true ∧ KeepsSent s lb

section

variable {env : Env} {s s₀ s' : State} {id : Uuid}

/-- Where nothing is replayed, no process replays. -/
theorem tasks_unreplayed {ok : State → Step → Prop} {start : State → Prop}
    (hok : ∀ s lb, ok s lb → unreplayed lb = true) (hidle : ∀ s, start s → s.Idle)
    (h : Reach (system env) ok start s) {p : Pid} {pr : Process} (hp : s.proc p = some pr)
    (argv : List String) : pr.task ≠ .replay argv := by
  refine h.tasks (K := fun t => t ≠ .replay argv) ?_ hidle hp
  rintro s p t hmet rfl
  cases hok _ _ hmet

theorem catchesUnsent (hfresh : Fresh s₀) (h : Reach (system env) StepKeepsSent (· = s₀) s) :
    CatchesUnsent s := by
  have hstart : ∀ s, s = s₀ → Fresh s := fun _ heq => heq ▸ hfresh
  refine Reach.invariant (fun t => (task_sat env t).and (task_publishing env t))
    (fun s hs => (hstart s hs).1) ?_ ?_ ?_ ?_ ?_ h
  · rintro s rfl p id hcatch
    rw [hfresh.1 p] at hcatch
    cases hcatch
  · intro s p t _ hI _ _ q id hcatch
    rw [Pool.put_proc] at hcatch
    split at hcatch
    · cases hcatch
    · exact hI q id hcatch
  · intro s p ch t l c k w r hr hI hmet hp hc hx _
    exact hI.call hmet.2 hp (sound hstart hr) hc.1 hc.2
      (tasks_unreplayed (fun _ _ hmet => hmet.1) (fun s hs => (hstart s hs).1) hr hp) hx
  · intro s p t l x _ hI _ hp q id hcatch
    rw [Pool.put_proc] at hcatch
    split at hcatch
    · cases hcatch
    · exact hI q id hcatch
  · intro s e w _ hI _ hw q id hcatch
    cases e <;> cases hw <;> exact hI q id hcatch

/-- One step leaves a SENT row SENT, and no pass claims it. -/
theorem sent_step (hfresh : Fresh s₀) (h : Reach (system env) StepKeepsSent (· = s₀) s)
    {lb : Step} (hmet : StepKeepsSent s lb) (hstep : (system env).step s lb = some s')
    (hsent : s.world.Sent id) :
    s'.world.Sent id ∧ ∀ p pr', s'.proc p = some pr' → id ∈ History.claims pr'.log →
      ∃ pr, s.proc p = some pr ∧ id ∈ History.claims pr.log := by
  have hstart : ∀ s, s = s₀ → Fresh s := fun _ heq => heq ▸ hfresh
  have hidle : ∀ s, s = s₀ → s.Idle := fun s hs => (hstart s hs).1
  cases Machine.step_cases hstep with
  | @spawn p t free =>
    exact ⟨hsent, Pool.forall_put (fun hid => absurd hid List.not_mem_nil)
      fun q pr' _ hq hid => ⟨pr', hq, hid⟩⟩
  | @call p ch t l c k w r hp hx =>
    have hs := sound hstart h
    have hc := (h.sat (fun t => (task_sat env t).and (task_publishing env t)) hidle hp).1
    obtain ⟨w₁, heff, hw⟩ := exec_effect (hs.shaped hp hc.1) hx
    refine ⟨?_, Pool.forall_put (fun hid => ⟨_, hp, ?_⟩) fun q pr' _ hq hid => ⟨pr', hq, hid⟩⟩
    · have hkept : w₁.Sent id := by
        refine heff.sent_kept (fun u heq => ?_) hsent
        subst heq
        rcases hc.1.marks hc.2 (tasks_unreplayed (fun _ _ hmet => hmet.1) hidle h hp)
          with ⟨-, hst⟩ | hcatch
        · exact hst
        · -- a publisher in its `catch` block would rewrite the status
          have hstage : stage (s.proc p) = History.publishing l := by rw [hp]; rfl
          exact absurd hsent (catchesUnsent hfresh h p id (by rw [hstage]; exact hcatch))
      rw [Pool.put_world, hw]
      exact hkept
    · exact (claims_origin hx hid).resolve_right fun hfree => hfree hsent.settled
  | crash alive =>
    exact ⟨hsent, Pool.forall_put (fun hid => ⟨_, alive, hid⟩) fun q pr' _ hq hid => ⟨pr', hq, hid⟩⟩
  | @move e w moved =>
    refine ⟨?_, fun q pr' hq hid => ⟨pr', hq, hid⟩⟩
    cases e <;> cases moved <;> exact hsent

/-- In runs without replays in which no publisher comes to be in its `catch` block for a SENT row,
    from any outbox table: a row that is SENT stays SENT, and no pass claims it any more. -/
theorem sent_is_stable (env : Env) (hfresh : Fresh s₀)
    (h : Reach (system env) StepKeepsSent (· = s₀) s) (hsent : s.world.Sent id)
    (h' : Reach (system env) StepKeepsSent (· = s) s') :
    s'.world.Sent id ∧ ∀ p pr', s'.proc p = some pr' → id ∈ History.claims pr'.log →
      ∃ pr, s.proc p = some pr ∧ id ∈ History.claims pr.log := by
  induction h' with
  | start heq =>
    subst heq
    exact ⟨hsent, fun p pr' hp hid => ⟨pr', hp, hid⟩⟩
  | next hr met hstep ih =>
    obtain ⟨hsent', hclaims⟩ := ih
    obtain ⟨hsent'', hclaims'⟩ := sent_step hfresh (h.trans hr) met hstep hsent'
    refine ⟨hsent'', fun p pr'' hp hid => ?_⟩
    obtain ⟨pr', hp', hid'⟩ := hclaims' p pr'' hp hid
    exact hclaims p pr' hp' hid'

end

/-! ## A mark that is undone -/

open Platform in
/-- Publishers 2 and 3 both claim the event of a confirmed order, and 2 marks it SENT. -/
def markedWhileClaimed : List Step :=
  createAndConfirm ++ .spawn 2 .publishOnce :: serves 2 3 ++ .spawn 3 .publishOnce :: serves 3 3 ++
    serves 2 2

open Platform in
/-- The send of publisher 3 fails, and its `catch` block postpones the row. -/
def postponeSent : List Step := fail 3 :: serves 3 2

open Platform in
/-- A later pass sends the event again. -/
def sendAgain : List Step := .move (.tick 30000) :: .spawn 4 .publishOnce :: serves 4 5

/-- The row goes from SENT back to PENDING, and its message is sent twice. -/
theorem sent_is_reopened :
    ∃ s s' s'', Reach (system (platform id)) (fun _ lb => unreplayed lb = true) (· = initial) s ∧
      Reach (system (platform id)) (fun _ lb => unreplayed lb = true) (· = s) s' ∧
      Reach (system (platform id)) (fun _ lb => unreplayed lb = true) (· = s') s'' ∧
      ∃ e : Uuid, s.world.Sent e ∧ (∃ row ∈ s'.world.outbox, row.id = e ∧ row.status = .PENDING) ∧
        s''.world.broker.events.map messageId = [some e.text, some e.text] := by
  have hrun : (((system (platform id)).run initial markedWhileClaimed).bind fun s =>
      ((system (platform id)).run s postponeSent).bind fun s' =>
        ((system (platform id)).run s' sendAgain).map fun s'' =>
          (s.world.outbox.any fun e => e.id == Platform.uuid 1 && e.status == .SENT,
            s'.world.outbox.any fun e => e.id == Platform.uuid 1 && e.status == .PENDING,
            s''.world.broker.events.map messageId)) =
      some (true, true, [some (Platform.uuid 1).text, some (Platform.uuid 1).text]) := by
    decide +kernel
  obtain ⟨s, hs, hrest⟩ := Option.bind_eq_some_iff.mp hrun
  obtain ⟨s', hs', hrest'⟩ := Option.bind_eq_some_iff.mp hrest
  obtain ⟨s'', hs'', heq⟩ := Option.map_eq_some_iff.mp hrest'
  obtain ⟨hsent, hboth⟩ := Prod.mk.inj heq
  obtain ⟨hpending, hevents⟩ := Prod.mk.inj hboth
  have hreach : ∀ {a b : State} (ls : List Step), (∀ lb ∈ ls, unreplayed lb = true) →
      (system (platform id)).run a ls = some b →
      Reach (system (platform id)) (fun _ lb => unreplayed lb = true) (· = a) b := by
    intro a b ls hls hrun
    have h0 : Reach (system (platform id)) (fun _ lb => unreplayed lb = true) (· = a) a :=
      .start rfl
    exact h0.of_run ls (fun lb hm _ => hls lb hm) hrun
  obtain ⟨e, he, hk⟩ := Table.any_iff.mp hsent
  obtain ⟨row, hrow, hk'⟩ := Table.any_iff.mp hpending
  simp only [Bool.and_eq_true, beq_iff_eq] at hk hk'
  exact ⟨s, s', s'', hreach _ (by decide) hs, hreach _ (by decide) hs', hreach _ (by decide) hs'',
    Platform.uuid 1, ⟨e, he, hk⟩, ⟨row, hrow, hk'⟩, hevents⟩

/-- No send of a SENT row fails, and no mark loses its reply. -/
def failsUnsent (s : State) : Step → Bool
  | .step p ch =>
      (match ch.fate with
        | .ok => true
        | _ => (trying (s.proc p)).all fun id =>
            !(s.world.outbox.any fun e => e.id == id && e.status == .SENT)) &&
      match stage (s.proc p), ch.fate with
        | .sent _, .lost _ => false
        | _, _ => true
  | _ => true

/-- The step does not mark a row while the process is in its `catch` block for it. -/
def marksUncaught (s : State) (pr : Option Process) : Step → Bool
  | .step p ch =>
      match stage (s.proc p), ch.fate with
      | .sent id, .ok => (stage pr).catching != some id
      | _, _ => true
  | _ => true

def keepsSentCheck (n : Nat) : Check n StepKeepsSent :=
  ((Check.of fun _ lb => unreplayed lb).and ((Check.of failsUnsent).and
    (Check.each (fun s lb _ pr => marksUncaught s pr lb) fun s lb _ => by
      unfold marksUncaught
      split
      · split <;> rfl
      · rfl))).imp fun s lb h => by
    obtain ⟨hreplay, hfails, hmarks⟩ := h
    refine ⟨hreplay, ?_⟩
    cases lb with
    | step p ch =>
      obtain ⟨hsend, hreply⟩ := Bool.and_eq_true_iff.mp hfails
      constructor
      · rintro hfate id htry ⟨e, he, hid, hst⟩
        have hunsent : ((trying (s.proc p)).all fun id =>
            !(s.world.outbox.any fun e => e.id == id && e.status == .SENT)) = true := by
          split at hsend
          · next heq => exact absurd heq hfate
          · exact hsend
        rw [htry] at hunsent
        have hany : (s.world.outbox.any fun e => e.id == id && e.status == .SENT) = true :=
          Table.any_iff.mpr ⟨e, he, by simp [hid, hst]⟩
        simp [hany] at hunsent
      · intro id hat
        rw [hat] at hreply
        cases hfate : ch.fate with
        | ok =>
          intro q
          simpa [marksUncaught, hat, hfate] using hmarks q
        | fail m => trivial
        | lost m =>
          rw [hfate] at hreply
          cases hreply
    | _ => trivial

open Platform in
/-- A send fails and is repeated later, then another pass starts. -/
def sentLater : List Step :=
  createAndConfirm ++ .spawn 2 .publishOnce :: serves 2 3 ++ fail 2 :: serves 2 2 ++
    .move (.tick 30000) :: .spawn 3 .publishOnce :: serves 3 5

theorem sent_is_stable_run :
    ∃ s s', Reach (system (platform id)) StepKeepsSent (· = initial) s ∧
      Reach (system (platform id)) StepKeepsSent (· = s) s' ∧
      (s'.proc 4).map (fun pr => History.claims pr.log) = some [] ∧
      s.world.Sent (Platform.uuid 1) ∧ s'.world.Sent (Platform.uuid 1) := by
  let check := keepsSentCheck 5
  have hrun : (((system (platform id)).runChecked 5 check.test initial sentLater).bind fun s =>
      ((system (platform id)).runChecked 5 check.test s
        (.spawn 4 .publishOnce :: Platform.serves 4 2)).map fun s' =>
          (s.world.outbox.any fun e => e.id == Platform.uuid 1 && e.status == .SENT,
            (s'.proc 4).map fun pr => History.claims pr.log)) = some (true, some []) := by
    decide +kernel
  obtain ⟨s, hs, hrest⟩ := Option.bind_eq_some_iff.mp hrun
  obtain ⟨s', hs', heq⟩ := Option.map_eq_some_iff.mp hrest
  obtain ⟨hany, hclaims⟩ := Prod.mk.inj heq
  obtain ⟨e, he, hk⟩ := Table.any_iff.mp hany
  simp only [Bool.and_eq_true, beq_iff_eq] at hk
  have hsent : s.world.Sent (Platform.uuid 1) := ⟨e, he, hk⟩
  have h := check.reach hs (initial_below 5)
  have h' := check.reach hs' ((initial_below 5).runChecked hs)
  exact ⟨s, s', h, h', hclaims, hsent, (sent_is_stable (platform id) initial_fresh h hsent h').1⟩

end CashbackLedger
