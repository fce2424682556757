import CashbackLedger.Protocol.Tasks

/-
  What the worker does to the attempts of an inbox row.

  The consumer leaves them alone, the retry loop counts them up, one for each failure, in the
  database (`increment: 1`), and parks a row only after the answer to such a count has reached the
  limit. Only the replay CLI sets them (`counting_sat`).
-/

namespace CashbackLedger

open Lib History

/-- An update that leaves the attempts as they are, or counts a failure. -/
def InboxUpdate.Counting (u : InboxUpdate) : Prop := u.attempts = none ∨ ∃ err, u = countFailure err

def CountingCall : Call → Prop
  | .inbox (.update _ u) => u.Counting
  | _ => True

/-- A row that was just parked had just been counted to the limit. -/
def ParkedAtLimit (env : Env) (l : History) : Prop :=
  ∀ e updated row now l', l =
    ⟨.inbox (.update e.id { status := some .FAILED }), (.ok row, now)⟩ :: l' →
    Counted l' e updated → env.maxAttempts ≤ updated.attempts

/-- What a task may do, with what it may do to attempts. -/
def Task.Counts (env : Env) (t : Task) (l : History) (c : Call) : Prop :=
  t.Calls env l c ∧ ((∀ argv, t ≠ .replay argv) → CountingCall c) ∧ ParkedAtLimit env l

section

variable {env : Env} {t : Task} {l : History} {c : Call}

/-! ## The worker -/

theorem HandlerCall.counting {x : Option Json} (h : HandlerCall x l c) : CountingCall c := by
  cases c with
  | inbox c => exact h.elim
  | _ => trivial

/-- The code leaves attempts alone or counts them up. -/
abbrev CountsUp {α : Type} (l : History) (x : Async α) : Prop :=
  Sat (fun _ c => CountingCall c) (fun _ _ => True) l x.run

theorem countsUp_handler (x : Option Json) : CountsUp l (processOrderConfirmed env x) :=
  (sat_processOrderConfirmed env x).mono (fun _ _ h => h.counting) fun _ _ _ => trivial

theorem countsUp_tryCatch {α : Type} {x : Async α} {handler : Fault → Async α} (hx : CountsUp l x)
    (hhandler : ∀ l e, CountsUp l (handler e)) : CountsUp l (tryCatch x handler) :=
  Sat.act_tryCatch hx (fun _ _ _ => trivial) fun l' e _ => hhandler l' e

theorem countsUp_eachMessage (m : KafkaMessage) : CountsUp l (eachMessage env m) := by
  refine countsUp_tryCatch ?_ fun _ _ => trivial
  cases m.value with
  | none => trivial
  | some evt =>
    dsimp only
    split
    · refine sat_ofExcept_bind (fun sid _ => ?_) fun _ _ => trivial
      refine sat_await_bind trivial (fun inbox now => ?_) fun _ _ => trivial
      refine Sat.act_bind (countsUp_handler _) (fun _ _ _ => ?_) fun _ _ _ => trivial
      exact sat_await_bind (Or.inl rfl) (fun _ _ => trivial) fun _ _ => trivial
    · trivial

theorem countsUp_consume (offset : Nat) : CountsUp l (consume env offset) := by
  refine sat_await_bind trivial (fun m now => ?_) fun _ _ => trivial
  refine Sat.act_bind (countsUp_eachMessage m) (fun _ _ _ => ?_) fun _ _ _ => trivial
  exact sat_await (c := .kafka (.commitOffset offset)) trivial
    (fun _ _ => trivial) fun _ _ => trivial

theorem countsUp_attemptEvent (e : InboxEvent) : CountsUp l (attemptEvent env e) := by
  unfold attemptEvent
  dsimp only
  split
  · trivial
  · refine Sat.act_bind (countsUp_handler _) (fun _ _ _ => ?_) fun _ _ _ => trivial
    exact sat_await_bind (Or.inl rfl) (fun _ _ => trivial) fun _ _ => trivial

theorem countsUp_attemptFailed (e : InboxEvent) (err : Fault) :
    CountsUp l (attemptFailed env e err) := by
  refine sat_awaitAt_bind (Or.inr ⟨err, rfl⟩) (fun updated now => ?_) fun _ _ => trivial
  dsimp only
  split
  · refine sat_awaitAt_bind (Or.inl rfl) (fun _ now => ?_) fun _ _ => trivial
    exact sat_await_bind trivial (fun _ _ => trivial) fun _ _ => trivial
  · exact sat_await_bind (Or.inl rfl) (fun _ _ => trivial) fun _ _ => trivial

theorem countsUp_retryEvents (events : List InboxEvent) : CountsUp l (retryEvents env events) := by
  induction events generalizing l with
  | nil => trivial
  | cons e events ih =>
    refine sat_tell_bind trivial fun r now => ?_
    have hone : CountsUp (⟨.proc (.inboxRetriesInc e), (r, now)⟩ :: l)
        (tryCatch (attemptEvent env e) fun err => attemptFailed env e err) :=
      countsUp_tryCatch (countsUp_attemptEvent e) fun _ err => countsUp_attemptFailed e err
    exact Sat.act_bind hone (fun _ _ _ => ih) fun _ _ _ => trivial

theorem countsUp_retryInbox : CountsUp l (retryInbox env) := by
  refine sat_tell_bind trivial fun r now => ?_
  exact sat_await_bind trivial (fun events now => countsUp_retryEvents events) fun _ _ => trivial

/-- The other tasks do not update inbox rows. -/
theorem Task.Calls.counting (h : t.Calls env l c) (hconsume : ∀ offset, t ≠ .consume offset)
    (hretry : t ≠ .retryInbox) (hreplay : ∀ argv, t ≠ .replay argv) : CountingCall c := by
  unfold CountingCall
  split
  · cases t with
    | consume offset => exact absurd rfl (hconsume offset)
    | retryInbox => exact absurd rfl hretry
    | replay argv => exact absurd rfl (hreplay argv)
    | _ => exact h.uses.elim
  · trivial

/-! ## The limit -/

theorem parkedAtLimit_nil : ParkedAtLimit env [] := fun _ _ _ _ _ heq => by cases heq

theorem Counted.unique {e e' updated updated' : InboxEvent} (h : Counted l e updated)
    (h' : Counted l e' updated') : updated = updated' := by
  obtain ⟨err, now, l', rfl⟩ := h
  obtain ⟨err', now', l'', heq⟩ := h'
  generalize e'.id = id', countFailure err' = u' at heq
  generalize e.id = id, countFailure err = u at heq
  cases heq
  rfl

theorem parkedAtLimit_cons {r : Reply c} (hc : t.Calls env l c) :
    ParkedAtLimit env (⟨c, r⟩ :: l) := by
  rintro e updated row now l' heq hcounted
  cases heq
  obtain ⟨-, -, e', updated', -, -, hcounted', hlimit⟩ := hc.failed rfl
  rw [hcounted.unique hcounted']
  exact hlimit

/-- Every task keeps to what it may do to attempts. -/
theorem counting_sat (env : Env) (t : Task) :
    Sat (t.Counts env) (t.Ends env) [] (t.program env).run := by
  have hcounting : Sat (fun _ c => (∀ argv, t ≠ .replay argv) → CountingCall c) (fun _ _ => True) []
      (t.program env).run := by
    cases t with
    | consume offset =>
      have hconsume : CountsUp [] (consume env offset) := countsUp_consume offset
      exact (sat_silent (q := fun _ => True) hconsume).mono (fun _ _ h _ => h) fun _ _ _ => trivial
    | retryInbox =>
      have hretry : CountsUp [] (retryInbox env) := countsUp_retryInbox
      exact (sat_silent (q := fun _ => True) hretry).mono (fun _ _ h _ => h) fun _ _ _ => trivial
    | replay argv =>
      exact (sat_trivial _).mono (fun _ _ _ h => absurd rfl (h argv)) fun _ _ _ => trivial
    | _ =>
      exact (task_sat env _).mono (fun _ _ h hreplay => h.counting nofun nofun hreplay)
        fun _ _ _ => trivial
  have hboth := (task_sat env t).and hcounting
  have halong := hboth.along parkedAtLimit_nil fun l c r _ hc => parkedAtLimit_cons hc.1
  exact halong.mono (fun l c h => ⟨h.1.1, h.1.2, h.2⟩) fun l r h => h.1.1

end

end CashbackLedger
