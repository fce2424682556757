import CashbackLedger.Protocol.Tasks

/-
  Where a publisher stands.

  `History.publishing` reads off the log of a pass how far it is with the row at hand: claimed,
  sent, in the `catch` block, or between two rows. `PublishingCall` says which call a pass may
  issue from where; unlike `PublisherCall` it ties the `catch` block to the row whose call failed
  and to the attempts it has read.
-/

namespace CashbackLedger

open Lib History

/-- How far a pass is with the row at hand. -/
inductive Publishing where
  /-- no row is at hand -/
  | between
  /-- the claim counted, the message is next -/
  | claimed (id : Uuid)
  /-- the message is out, the SENT mark is next -/
  | sent (id : Uuid)
  /-- a call of the `try` block failed, the row is read again next -/
  | failing (id : Uuid)
  /-- the row's attempts were read after the failure, its update is next -/
  | counted (id : Uuid) (attempts : Nat)
deriving DecidableEq

namespace Publishing

/-- A send has been answered, or has failed. -/
def afterSend (answered : Bool) : Publishing → Publishing
  | .claimed id => if answered then .sent id else .failing id
  | _ => .between

/-- An update has failed. -/
def afterFailedUpdate : Publishing → Publishing
  | .sent id => .failing id
  | _ => .between

/-- The row whose `catch` block is under way. -/
def catching : Publishing → Option Uuid
  | .failing id => some id
  | .counted id _ => some id
  | _ => none

end Publishing

/-- How far the pass is, by its log. -/
def History.publishing : History → Publishing
  | [] => .between
  | ⟨.outbox (.claim id), (.ok n, _)⟩ :: _ => if n = 0 then .between else .claimed id
  | ⟨.outbox (.claim id), (.error _, _)⟩ :: _ => .failing id
  | ⟨.kafka (.send .events _), (.ok _, _)⟩ :: l => (publishing l).afterSend true
  | ⟨.kafka (.send .events _), (.error _, _)⟩ :: l => (publishing l).afterSend false
  | ⟨.outbox (.findUnique id), (.ok row, _)⟩ :: _ =>
      .counted id ((row.map OutboxEvent.attempts).getD 1)
  | ⟨.outbox (.findUnique _), (.error _, _)⟩ :: _ => .between
  | ⟨.outbox (.update _ _), (.ok _, _)⟩ :: _ => .between
  | ⟨.outbox (.update _ _), (.error _, _)⟩ :: l => (publishing l).afterFailedUpdate
  | _ :: l => publishing l

/-- The updates of a pass: SENT after the message, in the `catch` block by the attempts it read. -/
inductive PublishingUpdate (env : Env) (l : History) (id : Uuid) (u : OutboxUpdate) : Prop where
  | mark (at_row : l.publishing = .sent id) (status : u.status = some .SENT)
  | park {attempts : Nat} (at_row : l.publishing = .counted id attempts)
      (used_up : env.maxAttempts ≤ attempts) (status : u.status = some .FAILED)
  | postpone {attempts : Nat} (at_row : l.publishing = .counted id attempts)
      (left : attempts < env.maxAttempts) (status : u.status = some .PENDING)

/-- The row of the `try` block to which the next call belongs. -/
def Publishing.trying (c : Call) : Publishing → Option Uuid
  | .claimed id => some id
  | .sent id => some id
  | .between =>
      match c with
      | .outbox (.claim id) => some id
      | _ => none
  | _ => none

/-- How far a live process is with the row at hand. -/
def stage : Option Process → Publishing
  | some ⟨_, l, _, true⟩ => History.publishing l
  | _ => .between

/-- The row whose `try` block a live process is about to call for. -/
def trying : Option Process → Option Uuid
  | some ⟨_, l, .call c _, true⟩ => (History.publishing l).trying c
  | _ => none

/-- The calls that move an outbox row on its way. -/
def Publishes : Call → Prop
  | .outbox (.claim _) => True
  | .outbox (.update _ _) => True
  | .kafka (.send .events _) => True
  | _ => False

/-- The calls of a pass, by how far it is. -/
def PublishingCall (env : Env) (l : History) : Call → Prop
  | .proc .now => l.publishing = .between
  | .outbox (.findMany _ _) => l.publishing = .between
  | .outbox (.claim _) => l.publishing = .between
  | .kafka (.send .events m) => ∃ e : OutboxEvent, m = outboxMessage env e ∧
      l.publishing = .claimed e.id
  | .outbox (.findUnique id) => l.publishing = .failing id
  | .outbox (.update id u) => PublishingUpdate env l id u ∧ u.attempts = none
  | _ => False

section

variable {env : Env} {l : History}

/-- What the `try` block of `e` leaves behind. -/
def SendEnd (e : OutboxEvent) (l : History) : Except Fault Unit → Prop
  | .ok _ => l.publishing = .between
  | .error _ => l.publishing = .failing e.id

theorem sat_sendEvent_publishing (e : OutboxEvent) (h : l.publishing = .between) :
    Sat (PublishingCall env) (SendEnd e) l (sendEvent env e).run := by
  refine sat_await_bind h (fun claimed now => ?_) fun _ _ => rfl
  dsimp only
  split
  · next hzero => exact if_pos hzero
  · next hclaimed =>
    have hheld : History.publishing (⟨.outbox (.claim e.id), (.ok claimed, now)⟩ :: l) =
        .claimed e.id := if_neg hclaimed
    refine sat_awaitAt_bind ⟨e, rfl, hheld⟩ (fun _ now' => ?_) fun _ _ => ?_
    · have hout :
          History.publishing (⟨.kafka (.send .events (outboxMessage env e)), (.ok (), now')⟩ ::
          ⟨.outbox (.claim e.id), (.ok claimed, now)⟩ :: l) = .sent e.id := by
        rw [History.publishing, hheld]
        rfl
      refine sat_await_bind ⟨.mark hout rfl, rfl⟩ (fun _ _ => rfl) fun _ _ => ?_
      show History.publishing _ = _
      rw [History.publishing, hout]
      rfl
    · show History.publishing _ = _
      rw [History.publishing, hheld]
      rfl

theorem sat_sendFailed_publishing (e : OutboxEvent) (h : l.publishing = .failing e.id) :
    Sat (PublishingCall env) (fun l' _ => History.publishing l' = .between) l
      (sendFailed env e).run := by
  refine sat_awaitAt_bind h (fun refreshed now => ?_) fun _ _ => rfl
  have hcounted : History.publishing (⟨.outbox (.findUnique e.id), (.ok refreshed, now)⟩ :: l) =
      .counted e.id ((refreshed.map OutboxEvent.attempts).getD 1) := rfl
  dsimp only
  split
  · next hmax =>
    refine sat_await_bind ⟨.park hcounted hmax rfl, rfl⟩ (fun _ _ => rfl) fun _ _ => rfl
  · next hleft =>
    refine sat_await_bind ⟨.postpone hcounted (Nat.lt_of_not_le hleft) rfl, rfl⟩ (fun _ _ => rfl)
      fun _ _ => rfl

theorem sat_publishEvents_publishing (events : List OutboxEvent) (h : l.publishing = .between) :
    Sat (PublishingCall env) (fun l' _ => History.publishing l' = .between) l
      (publishEvents env events).run := by
  induction events generalizing l with
  | nil => exact h
  | cons e events ih =>
    have htry : Sat (PublishingCall env) (fun l' _ => History.publishing l' = .between) l
        (tryCatch (sendEvent env e) fun _ => sendFailed env e).run :=
      Sat.act_tryCatch (sat_sendEvent_publishing e h) (fun _ _ h => h)
        fun _ _ h => sat_sendFailed_publishing e h
    exact Sat.act_bind htry (fun _ _ h => ih h) fun _ _ h => h

theorem sat_publishOnce_publishing (env : Env) (h : l.publishing = .between) :
    Sat (PublishingCall env) (fun l' _ => History.publishing l' = .between) l
      (publishOnce env).run := by
  refine sat_tell_bind h fun r now => ?_
  exact sat_await_bind h (fun events _ => sat_publishEvents_publishing events h) fun _ _ => h

theorem claiming_cons {c : Call} (h : ¬ Publishes c) (r : Reply c) (l : History) :
    History.claiming (⟨c, r⟩ :: l) = l.claiming ∧ History.claims (⟨c, r⟩ :: l) = l.claims := by
  cases c with
  | outbox c => cases c <;> first | exact ⟨rfl, rfl⟩ | exact absurd trivial h
  | kafka c =>
    cases c with
    | send topic m => cases topic <;> first | exact ⟨rfl, rfl⟩ | exact absurd trivial h
    | _ => exact ⟨rfl, rfl⟩
  | _ => exact ⟨rfl, rfl⟩

/-- Only the publisher and the replay CLI move outbox rows. -/
theorem Task.Calls.publisher {t : Task} {c : Call} (h : t.Calls env l c) (hc : Publishes c)
    (hreplay : ∀ argv, t ≠ .replay argv) : t = .publishOnce := by
  cases c with
  | outbox c =>
    cases c with
    | claim id => exact h.claim.1
    | update id u =>
      rcases h.outboxUpdate with ⟨ht, -⟩ | ⟨argv, ht, -⟩
      · exact ht
      · exact absurd ht (hreplay argv)
    | _ => exact hc.elim
  | kafka c =>
    cases c with
    | send topic m =>
      cases topic with
      | events => exact h.publish.1
      | dlq => exact hc.elim
    | _ => exact hc.elim
  | _ => exact hc.elim

/-- Only the publisher reads an outbox row again. -/
theorem Task.Calls.reread {t : Task} {id : Uuid} (h : t.Calls env l (.outbox (.findUnique id))) :
    t = .publishOnce := by
  cases t with
  | publishOnce => rfl
  | _ => exact h.uses.elim

/-- Calls that change how far a pass is are made by the publisher, apart from updates. -/
theorem publishing_cons {c : Call} (h : ¬ Publishes c) (hread : ∀ id, c ≠ .outbox (.findUnique id))
    (r : Reply c) (l : History) : History.publishing (⟨c, r⟩ :: l) = l.publishing := by
  cases c with
  | outbox c =>
    cases c with
    | findMany sel take => rfl
    | findUnique id => exact absurd rfl (hread id)
    | _ => exact absurd trivial h
  | kafka c =>
    cases c with
    | send topic m => cases topic <;> first | rfl | exact absurd trivial h
    | _ => rfl
  | _ => rfl

/-- Other tasks have no row at hand. -/
theorem Task.Calls.between {t : Task} {c : Call} (hc : t.Calls env l c) (ht : t ≠ .publishOnce)
    (h : l.publishing = .between) (r : Reply c) : History.publishing (⟨c, r⟩ :: l) = .between := by
  have hread : ∀ id, c ≠ .outbox (.findUnique id) := by
    rintro id rfl
    exact ht hc.reread
  by_cases hpub : Publishes c
  · cases c with
    | outbox c =>
      cases c with
      | claim id => exact absurd hc.claim.1 ht
      | update id u =>
        obtain ⟨x, now⟩ := r
        cases x with
        | ok row => rfl
        | error e =>
          rw [History.publishing, h]
          rfl
      | _ => exact hpub.elim
    | kafka c =>
      cases c with
      | send topic m =>
        cases topic with
        | events => exact absurd hc.publish.1 ht
        | dlq => exact hpub.elim
      | _ => exact hpub.elim
    | _ => exact hpub.elim
  · rw [publishing_cons hpub hread]
    exact h

/-- How a task calls with respect to the row at hand. -/
def Task.Publishes (env : Env) (t : Task) (l : History) (c : Call) : Prop :=
  (t = .publishOnce → PublishingCall env l c) ∧ (t ≠ .publishOnce → l.publishing = .between)

/-- A pass calls by how far it is, other tasks have no row at hand. -/
theorem task_publishing (env : Env) (t : Task) :
    Sat (t.Publishes env) (fun l _ => History.publishing l = .between) [] (t.program env).run := by
  have h0 : History.publishing [] = .between := rfl
  by_cases ht : t = .publishOnce
  · subst ht
    have hs := sat_silent (sat_publishOnce_publishing env h0)
    exact hs.mono (fun _ _ hc => ⟨fun _ => hc, fun h => absurd rfl h⟩) fun _ _ hl => hl
  · have hs := (task_sat env t).along (I := fun l => History.publishing l = .between) h0
      fun l c r hl hc => hc.between ht hl r
    exact hs.mono (fun _ _ hc => ⟨fun h => absurd h ht, fun _ => hc.2⟩) fun _ _ hl => hl.2

/-- A pass enters the `catch` block of a row by a call of its `try` block that fails. -/
theorem catching_origin {c : Call} {r : Reply c} {id : Uuid} (hc : PublishingCall env l c)
    (h : (History.publishing (⟨c, r⟩ :: l)).catching = some id) :
    l.publishing.catching = some id ∨ (l.publishing.trying c = some id ∧ ∃ e, r.1 = .error e) := by
  obtain ⟨x, now⟩ := r
  cases c with
  | proc c => exact Or.inl h
  | outbox c =>
    cases c with
    | findMany sel take => exact Or.inl h
    | claim id' =>
      cases x with
      | ok n =>
        simp only [History.publishing] at h
        split at h <;> cases h
      | error e =>
        cases h
        refine Or.inr ⟨?_, e, rfl⟩
        rw [show l.publishing = .between from hc]
        rfl
    | findUnique id' =>
      cases x with
      | ok row =>
        cases h
        refine Or.inl ?_
        rw [show l.publishing = .failing id from hc]
        rfl
      | error e => cases h
    | update id' u =>
      cases x with
      | ok row => cases h
      | error e =>
        simp only [History.publishing] at h
        rcases hc with ⟨hat | ⟨hat, -⟩ | ⟨hat, -⟩, -⟩
        · rw [hat] at h ⊢
          cases h
          exact Or.inr ⟨rfl, e, rfl⟩
        · rw [hat] at h
          cases h
        · rw [hat] at h
          cases h
  | kafka c =>
    cases c with
    | send topic m =>
      cases topic with
      | dlq => exact hc.elim
      | events =>
        obtain ⟨e, rfl, hat⟩ := hc
        cases x with
        | ok x =>
          simp only [History.publishing, hat] at h
          cases h
        | error err =>
          simp only [History.publishing, hat] at h
          cases h
          refine Or.inr ⟨?_, err, rfl⟩
          rw [hat]
          rfl
    | fetch offset => exact hc.elim
    | commitOffset offset => exact hc.elim
  | _ => exact hc.elim

/-- Whatever the task, the `catch` block of a row is entered by a failed call of its `try` block. -/
theorem Task.Publishes.catching_origin {t : Task} {c : Call} {r : Reply c} {id : Uuid}
    (h : t.Publishes env l c) (hc : t.Calls env l c)
    (hcatch : (History.publishing (⟨c, r⟩ :: l)).catching = some id) :
    l.publishing.catching = some id ∨
      (PublishingCall env l c ∧ l.publishing.trying c = some id ∧ ∃ e, r.1 = .error e) := by
  by_cases ht : t = .publishOnce
  · have htry := CashbackLedger.catching_origin (h.1 ht) hcatch
    exact htry.imp_right fun htry => ⟨h.1 ht, htry⟩
  · rw [hc.between ht (h.2 ht)] at hcatch
    cases hcatch

/-! ## Resets -/

/-- Was the replay CLI told to reset the attempts? -/
def Task.resetsAttempts : Task → Bool
  | .replay (_ :: rest) => (parseArgs rest).resetAttempts
  | _ => false

/-- An update of an outbox row sets its attempts to zero. -/
def Resets : Call → Prop
  | .outbox (.update _ u) => u.attempts = some 0
  | _ => True

theorem sat_replayOutboxRows_resets (rows : List OutboxEvent) (now : Time) :
    Sat (fun _ c => Resets c) (fun _ _ => True) l (replayOutboxRows true rows now).run := by
  induction rows generalizing l now with
  | nil => trivial
  | cons e rows ih => exact sat_awaitAt_bind rfl (fun _ now => ih now) fun _ _ => trivial

theorem sat_replayInboxRows_resets (reset : Bool) (rows : List InboxEvent) (now : Time) :
    Sat (fun _ c => Resets c) (fun _ _ => True) l (replayInboxRows reset rows now).run := by
  induction rows generalizing l now with
  | nil => trivial
  | cons e rows ih => exact sat_awaitAt_bind trivial (fun _ now => ih now) fun _ _ => trivial

/-- A replay that was told so resets every outbox row it updates. -/
theorem task_resets (env : Env) (t : Task) :
    Sat (fun _ c => t.resetsAttempts = true → Resets c)
      (fun _ _ => True) [] (t.program env).run := by
  have hidle : ∀ t : Task, t.resetsAttempts = false →
      Sat (fun _ c => t.resetsAttempts = true → Resets c)
        (fun _ _ => True) [] (t.program env).run := by
    intro t ht
    refine (task_sat env t).mono (fun _ _ _ h => ?_) fun _ _ _ => trivial
    rw [ht] at h
    cases h
  cases hreset : t.resetsAttempts with
  | false =>
    have hs := hidle t hreset
    rwa [hreset] at hs
  | true =>
    cases t with
    | replay argv =>
      cases argv with
      | nil => cases hreset
      | cons cmd rest =>
        have hargs : (parseArgs rest).resetAttempts = true := hreset
        have hs : Sat (fun _ c => Resets c) (fun _ _ => True)
            [] (replay env (cmd :: rest)).run := by
          simp only [replay]
          split
          · trivial
          split
          · exact sat_awaitAt_bind trivial (fun rows now => sat_replayInboxRows_resets _ rows now)
              fun _ _ => trivial
          split
          · refine sat_awaitAt_bind trivial (fun rows now => ?_) fun _ _ => trivial
            dsimp only
            rw [hargs]
            exact sat_replayOutboxRows_resets rows now
          · trivial
        exact (sat_silent hs).mono (fun _ _ h _ => h) fun _ _ h => h
    | _ => cases hreset

end

end CashbackLedger
