import CashbackLedger.Lib.Windows
import CashbackLedger.Protocol.Publisher
import CashbackLedger.Safety.Confirmation

/-
  Two publishers on one outbox.

  A publisher's claim increments `attempts` of a row that is still PENDING and leaves it PENDING,
  so it reserves nothing: between the claim and the SENT mark another publisher that has read
  the row can claim and send it too. The claim is a check whose window closes with the mark
  (`claimWindows`). In runs in which no window is opened while another is open, each event is
  claimed by one run and sent once (`claim_is_exclusive`).
-/

namespace CashbackLedger

open Lib History

/-- The outbox row whose claim a process has under way. -/
def claimed : Option Process → Option Uuid
  | none => none
  | some pr => (History.claiming pr.log).map Prod.fst

/-- No run claims a row while another run is between its own claim of it and its mark. -/
def ClaimsAlone (s : State) : Step → Prop
  | .step p _ => ∀ id, s.nextCall p = some (.outbox (.claim id)) →
      ∀ q, q ≠ p → claimed (s.proc q) ≠ some id
  | _ => True

/-- The event a message on the topic announces. -/
def messageId (m : KafkaMessage) : Option String :=
  match m.value.bind fun evt => evt.field "id" with
  | some (.str id) => some id
  | _ => none

/-- The row is stored and no longer PENDING. -/
def World.Settled (w : World) (id : Uuid) : Prop :=
  ∃ e ∈ w.outbox, e.id = id ∧ e.status ≠ .PENDING

@[simp] theorem messageId_outboxMessage (env : Env) (e : OutboxEvent) :
    messageId (outboxMessage env e) = some e.id.text := rfl

section

variable {env : Env} {p : Pid} {newId : Uuid} {ch : Choice} {w w' w₁ : World} {t : Task}
  {l : History} {c : Call} {r : Reply c}

/-- A row that is settled was settled before, or was updated by this call. -/
theorem settled_origin (hl : LogSound env w l) (htx : w.txOf p = l.tx) (hc : t.Calls env l c)
    (h : Effect p newId w c w₁) {id : Uuid} (hs : w₁.Settled id) :
    w.Settled id ∨ ∃ u, c = .outbox (.update id u) := by
  obtain ⟨e', he', rfl, hst⟩ := hs
  rcases h.outbox_origin he' with ⟨e, he, hcore, rfl | ⟨rfl, heq⟩ | ⟨u, rfl, rfl⟩⟩ |
    ⟨rfl, tx, id, hmine, hab, hw, -⟩
  · exact Or.inl ⟨e', he, rfl, hst⟩
  · exact Or.inl ⟨e, he, (OutboxEvent.id_of_core hcore).symm, heq ▸ hst⟩
  · exact Or.inr ⟨u, rfl⟩
  · -- a new row is PENDING
    have hk := hc.commit (htx ▸ hmine) hab
    rw [hw] at hk
    exact absurd (hk.event hl).1 hst

/-- Rows stay settled as long as updates mark them SENT. -/
theorem Effect.settled (h : Effect p newId w c w₁)
    (hu : ∀ id u, c = .outbox (.update id u) → u.status = some .SENT) {id : Uuid}
    (hs : w.Settled id) : w₁.Settled id := by
  obtain ⟨e, he, rfl, hst⟩ := hs
  rcases h.outbox_kept he with he' | ⟨-, hpending, -⟩ | ⟨u, hc, he'⟩
  · exact ⟨e, he', rfl, hst⟩
  · exact absurd hpending hst
  · refine ⟨u.apply e, he', rfl, ?_⟩
    simp only [OutboxUpdate.apply, hu e.id u hc, Option.getD_some]
    exact nofun

/-- What a publisher's pass asks for is answered, as long as nothing has failed. -/
theorem publisher_answered (hl : LogSound env w l) (hclean : ¬ AnyFailed l)
    (hc : PublisherCall env l c) (hfate : ch.fate = .ok)
    (h : exec env p c ch w = some (w', r)) : ∃ x now, r = (.ok x, now) := by
  cases exec_served h with
  | failed fate =>
    rw [hfate] at fate
    cases fate
  | lost fate run =>
    rw [hfate] at fate
    cases fate
  | ok fate run =>
    cases c with
    | proc c =>
      cases run
      exact ⟨(), _, rfl⟩
    | kafka c =>
      cases c with
      | send topic m => cases topic <;> cases run <;> exact ⟨(), _, rfl⟩
      | _ => exact hc.elim
    | outbox c =>
      obtain ⟨⟨tbl, y⟩, hy, heq⟩ := Option.map_eq_some_iff.mp run
      cases heq
      cases c with
      | findMany sel take =>
        obtain ⟨⟨now, rfl⟩, rfl⟩ := hc
        cases hy
        exact ⟨_, _, rfl⟩
      | claim id =>
        cases hy
        exact ⟨_, _, rfl⟩
      | findUnique id => exact absurd hc.1 hclean
      | update id u =>
        obtain ⟨-, -, e, hbatch, rfl, -⟩ := hc
        obtain ⟨e', he', hcore⟩ := hbatch.row hl
        simp only [OutboxCall.run] at hy
        split at hy
        · next hnone =>
          have hne := Table.find?_none hnone he'
          rw [OutboxEvent.id_of_core hcore, beq_self_eq_true] at hne
          cases hne
        · cases hy
          exact ⟨_, _, rfl⟩
    | _ => exact hc.elim

/-- A claim counts only on a row that is PENDING. -/
theorem claim_pending {id : Uuid} {n : Nat} {now : Time}
    (h : exec env p (.outbox (.claim id)) ch w = some (w', (.ok n, now))) (hn : n ≠ 0) :
    ¬ w.Settled id := by
  rintro ⟨e, he, rfl, hst⟩
  rcases exec_reply h with ⟨m, hm⟩ | ⟨w₁, hrun, -⟩
  · cases hm
  · simp only [Call.run, OutboxCall.run, Option.map_some, Option.some.injEq, Prod.mk.injEq,
      Except.ok.injEq] at hrun
    obtain ⟨-, rfl⟩ := hrun
    split at hn
    · next hany =>
      obtain ⟨e', he', hk⟩ := Table.any_iff.mp hany
      obtain ⟨hid, hpending⟩ := Bool.and_eq_true_iff.mp hk
      have heq : e' = e := Table.eq_of_clash he' he hid
      rw [heq] at hpending
      exact hst (by simpa using hpending)
    · exact hn rfl

/-- A mark settles its row. -/
theorem mark_settles {id : Uuid} {u : OutboxUpdate} {row : OutboxEvent} {now : Time}
    (h : exec env p (.outbox (.update id u)) ch w = some (w', (.ok row, now)))
    (hu : u.status = some .SENT) : w'.Settled id := by
  rcases exec_reply h with ⟨m, hm⟩ | ⟨w₁, hrun, rfl⟩
  · cases hm
  · obtain ⟨⟨tbl, y⟩, hy, heq⟩ := Option.map_eq_some_iff.mp hrun
    cases heq
    simp only [OutboxCall.run] at hy
    split at hy
    · cases hy
    · next e he =>
      cases hy
      have hid : e.id = id := by simpa using Table.of_find? he
      have hm : u.apply e ∈ w.outbox.modify (fun e => e.id == id) u.apply ⟨fun _ _ => rfl⟩ := by
        simp only [Table.mem_modify]
        exact ⟨e, Table.mem_of_find? he, by simp [hid]⟩
      refine ⟨u.apply e, hm, hid, ?_⟩
      simp only [OutboxUpdate.apply, hu, Option.getD_some]
      intro heq
      cases heq

/-- What a call of an undisturbed run does to claims and marks: the log becomes `l'`. -/
structure ClaimStep (env : Env) (w w' : World) (l : History) (c : Call) (l' : History) : Prop where
  settled : ∀ id, w.Settled id → w'.Settled id
  settling : ∀ id, w'.Settled id →
    w.Settled id ∨ (l.claiming = some (id, true) ∧ l'.claiming = none)
  entering : ∀ id b, l'.claiming = some (id, b) →
    (∃ b', l.claiming = some (id, b')) ∨ (c = .outbox (.claim id) ∧ ¬ w.Settled id)
  leaving : ∀ id b, l.claiming = some (id, b) →
    (∃ b', l'.claiming = some (id, b') ∧ (b = true → b' = true)) ∨ w'.Settled id
  claims : l'.claims = l.claims ∨ ∃ id, l'.claims = id :: l.claims ∧ c = .outbox (.claim id) ∧
    ¬ w.Settled id ∧ l'.claiming = some (id, false)
  events : w'.broker.events = w.broker.events ∨
    ∃ e, w'.broker.events = w.broker.events ++ [outboxMessage env e] ∧
      l.claiming = some (e.id, false) ∧ l'.claiming = some (e.id, true)

namespace ClaimStep

/-- A claim counts when nobody has settled its row, and then the publisher holds the row. -/
theorem claim {id : Uuid} {n : Nat} {now : Time} (hnone : l.claiming = none)
    (h : exec env p (.outbox (.claim id)) ch w = some (w', (.ok n, now)))
    (hsettled : ∀ id, w.Settled id → w'.Settled id) (hsettling : ∀ id, w'.Settled id → w.Settled id)
    (hevents : w'.broker.events = w.broker.events) :
    ClaimStep env w w' l (.outbox (.claim id)) (⟨.outbox (.claim id), (.ok n, now)⟩ :: l) := by
  have hleaving : ∀ id b, l.claiming ≠ some (id, b) := by
    intro id b heq
    rw [hnone] at heq
    cases heq
  by_cases hn : n = 0
  · have hfree : History.claiming (⟨.outbox (.claim id), (.ok n, now)⟩ :: l) = none := by
      rw [History.claiming, if_pos hn, hnone]
    refine ⟨hsettled, fun id hs => Or.inl (hsettling id hs), fun id' b heq => ?_,
      fun id' b heq => absurd heq (hleaving id' b), Or.inl ?_, Or.inl hevents⟩
    · rw [hfree] at heq
      cases heq
    · rw [History.claims, if_pos hn]
  · have hheld : History.claiming (⟨.outbox (.claim id), (.ok n, now)⟩ :: l) = some (id, false) :=
      if_neg hn
    have hpending := claim_pending h hn
    refine ⟨hsettled, fun id hs => Or.inl (hsettling id hs), fun id' b heq => ?_,
      fun id' b heq => absurd heq (hleaving id' b), Or.inr ⟨id, ?_, rfl, hpending, hheld⟩,
      Or.inl hevents⟩
    · rw [hheld] at heq
      cases heq
      exact Or.inr ⟨rfl, hpending⟩
    · rw [History.claims, if_neg hn]

/-- The mark settles the row that the publisher holds. -/
theorem mark {id : Uuid} {u : OutboxUpdate} {row : OutboxEvent} {now : Time}
    (hheld : l.claiming = some (id, true)) (hu : u.status = some .SENT)
    (h : exec env p (.outbox (.update id u)) ch w = some (w', (.ok row, now)))
    (hsettled : ∀ id, w.Settled id → w'.Settled id)
    (hsettling : ∀ id', w'.Settled id' → w.Settled id' ∨ id' = id)
    (hevents : w'.broker.events = w.broker.events) :
    ClaimStep env w w' l (.outbox (.update id u))
      (⟨.outbox (.update id u), (.ok row, now)⟩ :: l) := by
  refine ⟨hsettled, fun id' hs => (hsettling id' hs).imp_right ?_, fun id' b heq => ?_,
    fun id' b heq => ?_, Or.inl rfl, Or.inl hevents⟩
  · rintro rfl
    exact ⟨hheld, rfl⟩
  · cases heq
  · rw [hheld] at heq
    cases heq
    exact Or.inr (mark_settles h hu)

/-- The send puts the held row's message on the topic, or nothing. -/
theorem send {e : OutboxEvent} {now : Time} (hheld : l.claiming = some (e.id, false))
    (hsettled : ∀ id, w.Settled id → w'.Settled id) (hsettling : ∀ id, w'.Settled id → w.Settled id)
    (hevents : w'.broker.events = w.broker.events ∨
      w'.broker.events = w.broker.events ++ [outboxMessage env e]) :
    ClaimStep env w w' l (.kafka (.send .events (outboxMessage env e)))
      (⟨.kafka (.send .events (outboxMessage env e)), (.ok (), now)⟩ :: l) := by
  have hout :
      History.claiming (⟨.kafka (.send .events (outboxMessage env e)), (.ok (), now)⟩ :: l) =
      some (e.id, true) := by
    rw [History.claiming, hheld]
    rfl
  refine ⟨hsettled, fun id hs => Or.inl (hsettling id hs), fun id b heq => ?_, fun id b heq => ?_,
    Or.inl rfl, hevents.imp_right fun heq => ⟨e, heq, hheld, hout⟩⟩
  · rw [hout] at heq
    cases heq
    exact Or.inl ⟨false, hheld⟩
  · rw [hheld] at heq
    cases heq
    exact Or.inl ⟨true, hout, fun _ => rfl⟩

/-- Every other call leaves the claim as it was. -/
theorem other (hpub : ¬ Publishes c) (hsettled : ∀ id, w.Settled id → w'.Settled id)
    (hsettling : ∀ id, w'.Settled id → w.Settled id)
    (hevents : w'.broker.events = w.broker.events) : ClaimStep env w w' l c (⟨c, r⟩ :: l) := by
  obtain ⟨hsame, hclaims⟩ := claiming_cons hpub r l
  refine ⟨hsettled, fun id hs => Or.inl (hsettling id hs), fun id b heq => ?_, fun id b heq => ?_,
    Or.inl hclaims, Or.inl hevents⟩
  · rw [hsame] at heq
    exact Or.inl ⟨b, heq⟩
  · exact Or.inl ⟨b, hsame.trans heq, fun hb => hb⟩

end ClaimStep

theorem claim_step (hl : LogSound env w l) (htx : w.txOf p = l.tx) (hc : t.Calls env l c)
    (hshaped : CommitsShaped p w c) (hreplay : ∀ argv, t ≠ .replay argv)
    (hclean : t = .publishOnce → ¬ AnyFailed l) (hfate : ch.fate = .ok)
    (h : exec env p c ch w = some (w', r)) : ClaimStep env w w' l c (⟨c, r⟩ :: l) := by
  obtain ⟨w₁, heff, hw'⟩ := exec_effect hshaped h
  have hmarks : ∀ id u, c = .outbox (.update id u) → u.status = some .SENT := by
    rintro id u rfl
    obtain rfl := hc.publisher trivial hreplay
    by_contra hne
    exact hclean rfl (hc.1 hne)
  have hsettled : ∀ id, w.Settled id → w'.Settled id := by
    intro id hs
    rw [hw']
    exact heff.settled hmarks hs
  have hsettling : ∀ id, w'.Settled id → w.Settled id ∨ ∃ u, c = .outbox (.update id u) := by
    intro id hs
    rw [hw'] at hs
    exact settled_origin hl htx hc heff hs
  have hunmarked : (∀ id u, c ≠ .outbox (.update id u)) → ∀ id, w'.Settled id → w.Settled id := by
    intro hne id hs
    rcases hsettling id hs with hs | ⟨u, hu⟩
    · exact hs
    · exact absurd hu (hne id u)
  have hevents : w'.broker.events = w.broker.events ∨
      ∃ m, c = .kafka (.send .events m) ∧ w'.broker.events = w.broker.events ++ [m] := by
    rw [hw']
    exact heff.events_origin
  have hunsent : (∀ m, c ≠ .kafka (.send .events m)) → w'.broker.events = w.broker.events := by
    intro hne
    rcases hevents with heq | ⟨m, hm, -⟩
    · exact heq
    · exact absurd hm (hne m)
  by_cases hpub : Publishes c
  · obtain rfl := hc.publisher hpub hreplay
    obtain ⟨x, now, rfl⟩ := publisher_answered hl (hclean rfl) hc hfate h
    cases c with
    | outbox c =>
      cases c with
      | claim id =>
        exact .claim (hc.1.resolve_right (hclean rfl)) h hsettled
          (hunmarked fun _ _ heq => by cases heq) (hunsent fun _ heq => by cases heq)
      | update id u =>
        have hu := hmarks id u rfl
        refine .mark (hc.2.1 hu) hu h hsettled (fun id' hs => (hsettling id' hs).imp_right ?_)
          (hunsent fun _ heq => by cases heq)
        rintro ⟨u', heq⟩
        cases heq
        rfl
      | findMany sel take => exact hpub.elim
      | findUnique id => exact hpub.elim
    | kafka c =>
      cases c with
      | send topic m =>
        cases topic with
        | dlq => exact hpub.elim
        | events =>
          obtain ⟨e, -, rfl, hheld⟩ := hc
          refine .send hheld hsettled (hunmarked fun _ _ heq => by cases heq) (hevents.imp_right ?_)
          rintro ⟨m, hm, heq⟩
          cases hm
          exact heq
      | fetch offset => exact hpub.elim
      | commitOffset offset => exact hpub.elim
    | _ => exact hpub.elim
  · refine .other hpub hsettled (hunmarked ?_) (hunsent ?_)
    · rintro id u rfl
      exact hpub trivial
    · rintro m rfl
      exact hpub trivial

end

/-! ## The invariant -/

/-- The windows between a claim and its mark. -/
def claimWindows (s : State) : Windows Pid Uuid where
  inside p id := claimed (s.proc p) = some id
  taken := s.world.Settled

/-- The messages sent since the topic held `base` are about different events, and the row of each
    is settled or about to be marked. -/
def SentOnce (base : List KafkaMessage) (s : State) : Prop :=
  ∃ sent, s.world.broker.events = base ++ sent ∧
    sent.Pairwise (fun m m' => messageId m ≠ messageId m') ∧
    ∀ m ∈ sent, ∃ id : Uuid, messageId m = some id.text ∧ (s.world.Settled id ∨
      ∃ p pr, s.proc p = some pr ∧ History.claiming pr.log = some (id, true))

structure ClaimInv (base : List KafkaMessage) (s : State) : Prop where
  apart : (claimWindows s).Apart
  tasks : ∀ p pr, s.proc p = some pr → ∀ argv, pr.task ≠ .replay argv
  clean : ∀ p pr, s.proc p = some pr → pr.task = .publishOnce → ¬ AnyFailed pr.log
  held : ∀ p pr, s.proc p = some pr → ∀ id ∈ History.claims pr.log,
    claimed (some pr) = some id ∨ s.world.Settled id
  once : ∀ p q pr qr, s.proc p = some pr → s.proc q = some qr → ∀ id ∈ History.claims pr.log,
    id ∈ History.claims qr.log → p = q
  sent : SentOnce base s

theorem claimed_iff {pr : Process} {id : Uuid} :
    claimed (some pr) = some id ↔ ∃ b, History.claiming pr.log = some (id, b) := by
  simp [claimed, Option.map_eq_some_iff]

section

variable {env : Env} {base : List KafkaMessage} {s : State} {p : Pid} {ch : Choice} {t : Task}
  {l : History} {c : Call} {k : Reply c → Prog Call Reply Outcome} {w : World} {r : Reply c}

/-- The process of a call, as its claims are seen. -/
theorem inside_self (hp : s.proc p = some ⟨t, l, .call c k, true⟩) {id : Uuid} :
    (claimWindows s).inside p id ↔ ∃ b, l.claiming = some (id, b) := by
  show claimed (s.proc p) = some id ↔ _
  rw [hp]
  exact claimed_iff

/-- A row that is claimed now is nobody else's. -/
theorem claims_alone (hp : s.proc p = some ⟨t, l, .call c k, true⟩)
    (halone : ClaimsAlone s (.step p ch)) {id : Uuid} (hc : c = .outbox (.claim id)) :
    ∀ q, q ≠ p → claimed (s.proc q) ≠ some id := by
  subst hc
  exact halone id (Pool.nextCall_of hp)

/-- The windows after a call. -/
theorem ClaimInv.apart_call (hI : ClaimInv base s) (hp : s.proc p = some ⟨t, l, .call c k, true⟩)
    (halone : ClaimsAlone s (.step p ch)) (hstep : ClaimStep env s.world w l c (⟨c, r⟩ :: l)) :
    (claimWindows (s.put w p ⟨t, ⟨c, r⟩ :: l, k r, true⟩)).Apart := by
  have hself : ∀ id, (claimWindows (s.put w p ⟨t, ⟨c, r⟩ :: l, k r, true⟩)).inside p id ↔
      ∃ b, History.claiming (⟨c, r⟩ :: l) = some (id, b) := by
    intro id
    show claimed ((s.put w p ⟨t, ⟨c, r⟩ :: l, k r, true⟩).proc p) = some id ↔ _
    rw [Pool.put_self]
    exact claimed_iff
  refine hI.apart.step p (fun q id hq hin => ?_) (fun id hin => ?_) fun id ht => ?_
  · have heq : claimed ((s.put w p ⟨t, ⟨c, r⟩ :: l, k r, true⟩).proc q) = some id := hin
    rwa [Pool.put_other _ _ _ _ hq] at heq
  · obtain ⟨b, heq⟩ := (hself id).mp hin
    rcases hstep.entering id b heq with hold | ⟨hc, hpending⟩
    · exact Or.inl ((inside_self hp).mpr hold)
    · exact Or.inr ⟨hpending, claims_alone hp halone hc⟩
  · rcases hstep.settling id ht with hold | ⟨hin, hnone⟩
    · exact Or.inl hold
    · refine Or.inr ⟨(inside_self hp).mpr ⟨true, hin⟩, fun hin' => ?_⟩
      obtain ⟨b, heq⟩ := (hself id).mp hin'
      rw [hnone] at heq
      cases heq

/-- What the process of a call has claimed is in its hands or settled. -/
theorem ClaimInv.held_call (hI : ClaimInv base s) (hp : s.proc p = some ⟨t, l, .call c k, true⟩)
    (hstep : ClaimStep env s.world w l c (⟨c, r⟩ :: l)) :
    ∀ id ∈ History.claims (⟨c, r⟩ :: l),
      claimed (some ⟨t, ⟨c, r⟩ :: l, k r, true⟩) = some id ∨ w.Settled id := by
  have hold : ∀ id ∈ History.claims l,
      claimed (some ⟨t, ⟨c, r⟩ :: l, k r, true⟩) = some id ∨ w.Settled id := by
    intro id hid
    rcases hI.held p _ hp id hid with hin | hset
    · obtain ⟨b, hb⟩ := claimed_iff.mp hin
      rcases hstep.leaving id b hb with ⟨b', hb', -⟩ | hset
      · exact Or.inl (claimed_iff.mpr ⟨b', hb'⟩)
      · exact Or.inr hset
    · exact Or.inr (hstep.settled id hset)
  intro id hid
  rcases hstep.claims with heq | ⟨id', heq, -, -, hb⟩
  · exact hold id (heq ▸ hid)
  · rw [heq] at hid
    rcases List.mem_cons.mp hid with rfl | hid
    · exact Or.inl (claimed_iff.mpr ⟨false, hb⟩)
    · exact hold id hid

/-- A fresh claim meets no older one: its row is PENDING and no window is open on it. -/
theorem ClaimInv.fresh_call (hI : ClaimInv base s) (hp : s.proc p = some ⟨t, l, .call c k, true⟩)
    (halone : ClaimsAlone s (.step p ch)) (hstep : ClaimStep env s.world w l c (⟨c, r⟩ :: l))
    {q : Pid} {qr : Process} (hne : q ≠ p) (hq : s.proc q = some qr) :
    ∀ id ∈ History.claims (⟨c, r⟩ :: l), id ∉ History.claims qr.log := by
  intro id hid hid'
  rcases hstep.claims with heq | ⟨id', heq, hc, hpending, -⟩
  · exact hne (hI.once q p qr _ hq hp id hid' (heq ▸ hid))
  · rw [heq] at hid
    rcases List.mem_cons.mp hid with rfl | hid
    · rcases hI.held q qr hq id hid' with hin | hset
      · exact claims_alone hp halone hc q hne (hq ▸ hin)
      · exact hpending hset
    · exact hne (hI.once q p qr _ hq hp id hid' hid)

/-- The messages sent, after a call: an earlier message of its event has a settled row or another
    window. -/
theorem ClaimInv.sent_call (hI : ClaimInv base s) (hp : s.proc p = some ⟨t, l, .call c k, true⟩)
    (hstep : ClaimStep env s.world w l c (⟨c, r⟩ :: l)) :
    SentOnce base (s.put w p ⟨t, ⟨c, r⟩ :: l, k r, true⟩) := by
  obtain ⟨sent, hevents, hpair, hsent⟩ := hI.sent
  have hkeep : ∀ m ∈ sent, ∃ id : Uuid, messageId m = some id.text ∧ (w.Settled id ∨ ∃ q pr,
      (s.put w p ⟨t, ⟨c, r⟩ :: l, k r, true⟩).proc q = some pr ∧
        History.claiming pr.log = some (id, true)) := by
    intro m hm
    obtain ⟨id, hid, hset | ⟨q, pr, hq, hb⟩⟩ := hsent m hm
    · exact ⟨id, hid, Or.inl (hstep.settled id hset)⟩
    · by_cases hqp : q = p
      · subst hqp
        rw [hp] at hq
        cases hq
        rcases hstep.leaving id true hb with ⟨b', hb', htrue⟩ | hset
        · rw [htrue rfl] at hb'
          exact ⟨id, hid, Or.inr ⟨q, _, Pool.put_self _ _ _ _, hb'⟩⟩
        · exact ⟨id, hid, Or.inl hset⟩
      · exact ⟨id, hid, Or.inr ⟨q, pr, (Pool.put_other _ _ _ _ hqp).trans hq, hb⟩⟩
  rcases hstep.events with heq | ⟨e, heq, hheld, hout⟩
  · exact ⟨sent, heq.trans hevents, hpair, hkeep⟩
  · refine ⟨sent ++ [outboxMessage env e], ?_, ?_, ?_⟩
    · show w.broker.events = _
      rw [heq, hevents, List.append_assoc]
    · refine List.pairwise_append.mpr ⟨hpair, List.pairwise_singleton _ _, fun m hm m' hm' => ?_⟩
      rw [List.mem_singleton.mp hm', messageId_outboxMessage]
      obtain ⟨id, hid, hwhere⟩ := hsent m hm
      rw [hid]
      intro htext
      obtain rfl := Uuid.text_inj (Option.some_inj.mp htext)
      have hin : (claimWindows s).inside p e.id := (inside_self hp).mpr ⟨false, hheld⟩
      rcases hwhere with hset | ⟨q, pr, hq, hb⟩
      · exact hI.apart.free p e.id hin hset
      · have hin' : (claimWindows s).inside q e.id := by
          show claimed (s.proc q) = some e.id
          rw [hq, claimed_iff]
          exact ⟨true, hb⟩
        obtain rfl := hI.apart.alone p q e.id hin hin'
        rw [hp] at hq
        cases hq
        rw [hheld] at hb
        cases hb
    · intro m hm
      rcases List.mem_append.mp hm with hm | hm
      · exact hkeep m hm
      · rw [List.mem_singleton.mp hm]
        exact ⟨e.id, rfl, Or.inr ⟨p, _, Pool.put_self _ _ _ _, hout⟩⟩

/-- A call whose process claims alone keeps the invariant. -/
theorem ClaimInv.call (hI : ClaimInv base s) (hp : s.proc p = some ⟨t, l, .call c k, true⟩)
    (halone : ClaimsAlone s (.step p ch)) (hstep : ClaimStep env s.world w l c (⟨c, r⟩ :: l))
    (hclean : t = .publishOnce → ¬ AnyFailed (⟨c, r⟩ :: l)) :
    ClaimInv base (s.put w p ⟨t, ⟨c, r⟩ :: l, k r, true⟩) := by
  have htask : ∀ argv, t ≠ .replay argv := hI.tasks p _ hp
  refine ⟨hI.apart_call hp halone hstep, Pool.forall_put htask fun q pr _ => hI.tasks q pr,
    Pool.forall_put hclean fun q pr _ => hI.clean q pr,
      Pool.forall_put (hI.held_call hp hstep) ?_, ?_,
    hI.sent_call hp hstep⟩
  · intro q pr _ hq id hid
    exact (hI.held q pr hq id hid).imp_right (hstep.settled id)
  · intro q q' qr qr' hq hq' id hid hid'
    refine Pool.alone_put (M := fun o => ∃ qr, o = some qr ∧ id ∈ History.claims qr.log) ?_ ?_ q q'
      ⟨qr, hq, hid⟩ ⟨qr', hq', hid'⟩
    · rintro q q' ⟨qr, hq, hid⟩ ⟨qr', hq', hid'⟩
      exact hI.once q q' qr qr' hq hq' id hid hid'
    · rintro q hne ⟨pr, heq, hid⟩ ⟨qr, hq, hid'⟩
      cases heq
      exact hI.fresh_call hp halone hstep hne hq id hid hid'

/-- A process that has just started has claimed nothing. -/
theorem ClaimInv.spawn (hI : ClaimInv base s) (ht : ∀ argv, t ≠ .replay argv)
    (hfree : s.proc p = none) : ClaimInv base (s.put s.world p ((system env).start t)) := by
  have hinside : ∀ q id, (claimWindows (s.put s.world p ((system env).start t))).inside q id →
      (claimWindows s).inside q id := by
    intro q id hin
    have heq : claimed ((s.put s.world p ((system env).start t)).proc q) = some id := hin
    rw [Pool.put_proc] at heq
    split at heq
    · cases heq
    · exact heq
  refine ⟨hI.apart.mono hinside fun id ht => ht, Pool.forall_put ht fun q pr _ => hI.tasks q pr,
    Pool.forall_put (fun _ => not_anyFailed_nil) fun q pr _ => hI.clean q pr,
    Pool.forall_put (fun id hid => absurd hid List.not_mem_nil) fun q pr _ => hI.held q pr, ?_, ?_⟩
  · intro q q' pr qr hq hq' id hid hid'
    refine Pool.alone_put (M := fun o => ∃ pr, o = some pr ∧ id ∈ History.claims pr.log) ?_ ?_ q q'
      ⟨pr, hq, hid⟩ ⟨qr, hq', hid'⟩
    · rintro q q' ⟨pr, hq, hid⟩ ⟨qr, hq', hid'⟩
      exact hI.once q q' pr qr hq hq' id hid hid'
    · rintro q - ⟨pr, heq, hid⟩
      cases heq
      exact absurd hid List.not_mem_nil
  · obtain ⟨sent, hevents, hpair, hsent⟩ := hI.sent
    refine ⟨sent, hevents, hpair, fun m hm => ?_⟩
    obtain ⟨id, hid, hwhere⟩ := hsent m hm
    refine ⟨id, hid, hwhere.imp_right ?_⟩
    rintro ⟨q, pr, hq, hb⟩
    have hne : q ≠ p := by
      rintro rfl
      rw [hfree] at hq
      cases hq
    exact ⟨q, pr, (Pool.put_other _ _ _ _ hne).trans hq, hb⟩

/-- Where no process has started nothing is claimed. -/
theorem claimInv_fresh (hfresh : Fresh s) : ClaimInv s.world.broker.events s := by
  have hempty : ∀ p id, ¬ (claimWindows s).inside p id := by
    intro p id hin
    have heq : claimed (s.proc p) = some id := hin
    rw [hfresh.1 p] at heq
    cases heq
  have hnone : ∀ {p pr}, s.proc p ≠ some pr := fun {p pr} hp => by
    rw [hfresh.1 p] at hp
    cases hp
  exact ⟨⟨fun p q id hp => absurd hp (hempty p id), fun p id hp => absurd hp (hempty p id)⟩,
    fun p pr hp => absurd hp hnone, fun p pr hp => absurd hp hnone, fun p pr hp => absurd hp hnone,
    fun p q pr qr hp => absurd hp hnone, [], (List.append_nil _).symm, List.Pairwise.nil,
    fun m hm => absurd hm List.not_mem_nil⟩

theorem claimInv {s₀ : State} (hfresh : Fresh s₀)
    (h : Reach (system env) (fun s lb => undisturbed lb = true ∧ ClaimsAlone s lb) (· = s₀) s) :
    ClaimInv s₀.world.broker.events s := by
  have hstart : ∀ s, s = s₀ → Fresh s := fun _ heq => heq ▸ hfresh
  refine Reach.invariant (task_sat env) (fun s hs => (hstart s hs).1) ?_ ?_ ?_ ?_ ?_ h
  · rintro s rfl
    exact claimInv_fresh hfresh
  · intro s p t _ hI hmet hfree
    refine hI.spawn (fun argv heq => ?_) hfree
    subst heq
    cases hmet.1
  · intro s p ch t l c k w r hr hI hmet hp hc hx _
    have hs := sound hstart hr
    have hfate : ch.fate = .ok := by
      have hu := hmet.1
      unfold undisturbed at hu
      dsimp only at hu
      split at hu
      · assumption
      · cases hu
    have htx := hs.txOf hp
    have hclean : t = .publishOnce → ¬ AnyFailed l := hI.clean p _ hp
    refine hI.call hp hmet.2 (claim_step (hs.logs p _ hp) htx hc (hs.shaped hp hc) (hI.tasks p _ hp)
      hclean hfate hx) ?_
    rintro rfl hf
    obtain ⟨x, now, rfl⟩ := publisher_answered (hs.logs p _ hp) (hclean rfl) hc hfate hx
    exact hclean rfl (anyFailed_of_cons hf)
  · intro s p t l x _ _ hmet _
    cases hmet.1
  · intro s e w _ hI hmet hw
    cases e with
    | tick ms =>
      cases hw
      exact ⟨⟨hI.apart.alone, hI.apart.free⟩, hI.tasks, hI.clean, hI.held, hI.once, hI.sent⟩
    | produce m => cases hmet.1
    | rewind offset =>
      cases hw
      exact ⟨⟨hI.apart.alone, hI.apart.free⟩, hI.tasks, hI.clean, hI.held, hI.once, hI.sent⟩

/-- In undisturbed runs in which claims do not overlap, every event is claimed by at most one run,
    and the messages sent are about different events. -/
theorem claim_is_exclusive (env : Env) {s₀ : State} (hfresh : Fresh s₀)
    (h : Reach (system env) (fun s lb => undisturbed lb = true ∧ ClaimsAlone s lb) (· = s₀) s) :
    (∀ p q pr qr, s.proc p = some pr → s.proc q = some qr → ∀ id ∈ History.claims pr.log,
      id ∈ History.claims qr.log → p = q) ∧
    ∃ sent, s.world.broker.events = s₀.world.broker.events ++ sent ∧
      sent.Pairwise fun m m' => messageId m ≠ messageId m' := by
  have hI := claimInv hfresh h
  obtain ⟨sent, hevents, hpair, -⟩ := hI.sent
  exact ⟨hI.once, sent, hevents, hpair⟩

end

/-! ## Two publishers -/

/-- The process that makes a step, and the row that it claims with it. -/
def claimOf (s : State) : Step → Option (Pid × Uuid)
  | .step p _ =>
      match s.nextCall p with
      | some (.outbox (.claim id)) => some (p, id)
      | _ => none
  | _ => none

def claimsAloneCheck (n : Nat) : Check n ClaimsAlone :=
  (Check.others claimOf claimed rfl).imp fun s lb h => by
    cases lb with
    | step p ch =>
      intro id hid
      exact h p id (by simp only [claimOf, hid])
    | _ => trivial

open Platform in
/-- Publishers 2 and 3 both claim the event of a confirmed order before either marks it. -/
def overlappingClaims : List Step :=
  createAndConfirm ++ .spawn 2 .publishOnce :: serves 2 3 ++ .spawn 3 .publishOnce :: serves 3 3 ++
    serves 2 2 ++ serves 3 2

open Platform in
/-- Both runs claim the event, and its message is sent twice. -/
theorem claim_is_shared :
    ∃ s, Reach (system (platform id)) (fun _ lb => undisturbed lb = true) (· = initial) s ∧
      (∃ p q pr qr id, p ≠ q ∧ s.proc p = some pr ∧ s.proc q = some qr ∧
        id ∈ History.claims pr.log ∧ id ∈ History.claims qr.log) ∧
      s.world.broker.events.map messageId = [some (uuid 1).text, some (uuid 1).text] := by
  have hrun : (((system (platform id)).runChecked 4 (fun _ lb => undisturbed lb) initial
      overlappingClaims).map fun s => ((s.proc 2).map fun pr => History.claims pr.log,
        (s.proc 3).map fun pr => History.claims pr.log, s.world.broker.events.map messageId)) =
      some (some [uuid 1], some [uuid 1], [some (uuid 1).text, some (uuid 1).text]) := by
    decide +kernel
  obtain ⟨s, hs, heq⟩ := Option.map_eq_some_iff.mp hrun
  obtain ⟨h2, h34⟩ := Prod.mk.inj heq
  obtain ⟨h3, hevents⟩ := Prod.mk.inj h34
  obtain ⟨pr, hpr, hclaims⟩ := Option.map_eq_some_iff.mp h2
  obtain ⟨qr, hqr, hclaims'⟩ := Option.map_eq_some_iff.mp h3
  refine ⟨s, (Check.of fun _ lb => undisturbed lb).reach hs (initial_below 4),
    ⟨2, 3, pr, qr, uuid 1, by decide, hpr, hqr, ?_, ?_⟩, hevents⟩
  · rw [hclaims]
    exact List.mem_singleton_self _
  · rw [hclaims']
    exact List.mem_singleton_self _

open Platform in
/-- Publisher 3 has read the event, but claims it only after publisher 2 has marked it. -/
def successiveClaims : List Step :=
  createAndConfirm ++ .spawn 2 .publishOnce :: serves 2 2 ++ .spawn 3 .publishOnce :: serves 3 2 ++
    serves 2 3 ++ serves 3 1

theorem claim_is_exclusive_run :
    ∃ s, Reach (system (platform id)) (fun s lb => undisturbed lb = true ∧ ClaimsAlone s lb)
        (· = initial) s ∧
      (∀ p q pr qr, s.proc p = some pr → s.proc q = some qr → ∀ id ∈ History.claims pr.log,
        id ∈ History.claims qr.log → p = q) ∧
      ∃ sent, s.world.broker.events = initial.world.broker.events ++ sent ∧ sent.length = 1 ∧
        sent.Pairwise fun m m' => messageId m ≠ messageId m' := by
  let check := (Check.of fun _ lb => undisturbed lb).and (claimsAloneCheck 4)
  have hrun : (((system (platform id)).runChecked 4 check.test initial successiveClaims).map
      fun s => s.world.broker.events.length) = some 1 := by decide +kernel
  obtain ⟨s, hs, hlength⟩ := Option.map_eq_some_iff.mp hrun
  have hreach := check.reach hs (initial_below 4)
  obtain ⟨honce, sent, hevents, hpair⟩ := claim_is_exclusive (platform id) initial_fresh hreach
  refine ⟨s, hreach, honce, sent, hevents, ?_, hpair⟩
  rw [hevents] at hlength
  exact hlength

end CashbackLedger
