import CashbackLedger.Protocol.Worker

/-
  A pass of the retry loop, step by step.

  `History.retryStage` says from the log of a pass where it stands with which event, and
  `History.toRetry` which events of its batch it has not started. As long as no call on the inbox or
  to Kafka has failed, the two determine what the pass does next (`PassCall`): every event of the
  batch is attempted once, in order, a failed attempt is counted, then the row is put off by the
  backoff of the new count or parked and dead-lettered. A pass of which such a call has failed may
  do anything here.
-/

namespace CashbackLedger

open Lib History

/-- Where a pass stands. -/
inductive RetryStage where
  | between
  | trying (e : InboxEvent)
  /-- the failure is counted: the row as it is now -/
  | counted (e updated : InboxEvent) (now : Time)
  /-- the row is marked FAILED -/
  | parked (e updated : InboxEvent) (now : Time)

/-- The event in hand. -/
def RetryStage.event : RetryStage → Option InboxEvent
  | .between => none
  | .trying e => some e
  | .counted e _ _ => some e
  | .parked e _ _ => some e

/-- The stage after an update of the row was answered. -/
def RetryStage.updated (u : InboxUpdate) (row : InboxEvent) (now : Time) : RetryStage → RetryStage
  | .trying e => if u.attempts.isSome then .counted e row now else .between
  | .counted e updated _ => if u.status = some .FAILED then .parked e updated now else .between
  | stage => stage

def History.retryStage : History → RetryStage
  | ⟨.proc (.inboxRetriesInc e), _⟩ :: _ => .trying e
  | ⟨.inbox (.update _ u), (.ok row, now)⟩ :: l => (History.retryStage l).updated u row now
  | ⟨.kafka (.send .dlq _), _⟩ :: _ => .between
  | _ :: l => History.retryStage l
  | [] => .between

/-- What is left of the batch. -/
def History.toRetry : History → List InboxEvent
  | ⟨.inbox (.findMany _ _), (.ok rows, _)⟩ :: _ => rows
  | ⟨.proc (.inboxRetriesInc _), _⟩ :: l => (History.toRetry l).tail
  | _ :: l => History.toRetry l
  | [] => []

/-- A call of the loop itself has failed. -/
def OwnFailure : (Σ c, Reply c) → Prop
  | ⟨.inbox _, (.error _, _)⟩ => True
  | ⟨.kafka _, (.error _, _)⟩ => True
  | _ => False

def OwnFailed (l : History) : Prop := ∃ x ∈ l, OwnFailure x

/-- A call of the handler. -/
def InHandler : Call → Prop
  | .inbox _ => False
  | .kafka _ => False
  | .proc (.inboxRetriesInc _) => False
  | _ => True

/-- The mark of a success. -/
def markProcessed (now : Time) : InboxUpdate :=
  { status := some .PROCESSED, processedAt := some (some now), lastError := some none }

/-- What follows a failure that brought the row to these attempts. -/
def settleFailure (env : Env) (attempts : Nat) (now : Time) : InboxUpdate :=
  if env.maxAttempts ≤ attempts then { status := some .FAILED }
  else { availableAt := some (now + backoffMs attempts) }

/-- What a pass may do at a stage with this left of its batch. -/
def StageCall (env : Env) (rest : List InboxEvent) : RetryStage → Call → Prop
  | .between, c => ∃ e, c = .proc (.inboxRetriesInc e) ∧ rest.head? = some e
  | .trying e, c => InHandler c ∨ (∃ now, c = .inbox (.update e.id (markProcessed now))) ∨
      ∃ err, c = .inbox (.update e.id (countFailure err))
  | .counted e updated now, c => c = .inbox (.update e.id (settleFailure env updated.attempts now))
  | .parked _ updated now, c => c = .kafka (.send .dlq (dlqMessage env updated now))

/-- What a pass of which no call has failed may do. -/
def PassCall (env : Env) (l : History) (c : Call) : Prop :=
  (l = [] ∧ c = .proc .now) ∨
    (∃ r now, l = [⟨.proc .now, (r, now)⟩] ∧
      c = .inbox (.findMany (.due now) (some env.retryBatchSize))) ∨
    StageCall env (History.toRetry l) (History.retryStage l) c

/-- The pass is at this stage with this left of its batch. -/
def StandsAt (l : History) (stage : RetryStage) (rest : List InboxEvent) : Prop :=
  History.retryStage l = stage ∧ History.toRetry l = rest

/-- `p`, unless a call of the loop has failed. -/
abbrev UnlessFailed (p : History → Prop) (l : History) : Prop := ¬ OwnFailed l → p l

section

variable {env : Env} {l : History} {c : Call} {e : InboxEvent} {rest : List InboxEvent}

theorem OwnFailed.cons (h : OwnFailed l) (x : Σ c, Reply c) : OwnFailed (x :: l) := by
  obtain ⟨y, hy, hf⟩ := h
  exact ⟨y, List.mem_cons_of_mem x hy, hf⟩

theorem ownFailed_inbox {c : InboxCall} (err : Fault) (now : Time) (l : History) :
    OwnFailed (⟨.inbox c, (.error err, now)⟩ :: l) := ⟨_, List.mem_cons_self, trivial⟩

theorem ownFailed_kafka {c : KafkaCall} (err : Fault) (now : Time) (l : History) :
    OwnFailed (⟨.kafka c, (.error err, now)⟩ :: l) := ⟨_, List.mem_cons_self, trivial⟩

/-- The handler does not move the pass. -/
theorem InHandler.stands (h : InHandler c) (r : Reply c) {stage : RetryStage}
    (hl : StandsAt l stage rest) : StandsAt (⟨c, r⟩ :: l) stage rest := by
  cases c with
  | inbox c => exact h.elim
  | kafka c => exact h.elim
  | proc c =>
    cases c with
    | inboxRetriesInc e => exact h.elim
    | _ => exact hl
  | _ => exact hl

theorem HandlerCall.inHandler {x : Option Json} (h : HandlerCall x l c) : InHandler c := by
  cases c with
  | inbox c => exact h.elim
  | kafka c => exact h.elim
  | proc c =>
    cases c with
    | inboxRetriesInc e => exact h.elim
    | _ => trivial
  | _ => trivial

/-- A pass obeys the protocol of its loop unless a call of the loop fails. -/
abbrev SatPass (env : Env) (Q : History → Except Fault α → Prop)
    (l : History) (x : Async α) : Prop :=
  Sat (fun l c => ¬ OwnFailed l → PassCall env l c) (fun l r => ¬ OwnFailed l → Q l r) l x.run

/-- The `try` block: it ends between events, or throws with the event in hand. -/
theorem sat_attemptEvent_pass (h : UnlessFailed (StandsAt · (.trying e) rest) l) :
    SatPass env (fun l' r => match r with
      | .ok _ => StandsAt l' .between rest
      | .error _ => StandsAt l' (.trying e) rest) l (attemptEvent env e) := by
  have htrying : ∀ {l' : History} {c : Call}, UnlessFailed (StandsAt · (.trying e) rest) l' →
      (InHandler c ∨ (∃ now, c = .inbox (.update e.id (markProcessed now))) ∨
        ∃ err, c = .inbox (.update e.id (countFailure err))) →
          ¬ OwnFailed l' → PassCall env l' c := by
    intro l' c hl hc hok
    obtain ⟨hstage, -⟩ := hl hok
    refine Or.inr (Or.inr ?_)
    rw [hstage]
    exact hc
  have hkeep : ∀ {l' : History} {c : Call} (r : Reply c), InHandler c →
      UnlessFailed (StandsAt · (.trying e) rest) l' →
      UnlessFailed (StandsAt · (.trying e) rest) (⟨c, r⟩ :: l') := fun r hc hl hok =>
    hc.stands r (hl fun hf => hok (hf.cons _))
  unfold attemptEvent
  dsimp only
  split
  · exact h
  · refine Sat.act_bind (M := fun l' _ => UnlessFailed (StandsAt · (.trying e) rest) l') ?_ ?_ ?_
    · have hhandler := (sat_processOrderConfirmed (l := l) env (e.payload.field "orderId")).along
        (I := UnlessFailed (StandsAt · (.trying e) rest)) h fun l' c r hl hc =>
        hkeep r hc.inHandler hl
      exact hhandler.mono (fun l' c hc => htrying hc.2 (Or.inl hc.1.inHandler)) fun l' r hr => hr.2
    · rintro l' ⟨res, now⟩ hl
      refine sat_await_bind (htrying hl (Or.inr (Or.inl ⟨now, rfl⟩))) (fun row now' hok => ?_)
        fun err now' hok => absurd (ownFailed_inbox _ _ _) hok
      obtain ⟨hstage, hrest⟩ := hl fun hf => hok (hf.cons _)
      refine ⟨?_, hrest⟩
      show (History.retryStage l').updated _ _ _ = _
      rw [hstage]
      rfl
    · exact fun l' err hl => hl

/-- The `catch` block: it ends between events. -/
theorem sat_attemptFailed_pass {err : Fault} (h : UnlessFailed (StandsAt · (.trying e) rest) l) :
    SatPass env (fun l' r => r = .ok () ∧ StandsAt l' .between rest) l
      (attemptFailed env e err) := by
  have hcall : ∀ {l' : History} {stage : RetryStage} {c : Call},
      UnlessFailed (StandsAt · stage rest) l' → StageCall env rest stage c → ¬ OwnFailed l' →
      PassCall env l' c := by
    intro l' stage c hl hc hok
    obtain ⟨hstage, hrest⟩ := hl hok
    exact Or.inr (Or.inr (by rwa [hstage, hrest]))
  have hnext : ∀ {l' : History} {id : Uuid} {u : InboxUpdate} {row : InboxEvent} {now : Time}
      {stage stage' : RetryStage}, UnlessFailed (StandsAt · stage rest) l' →
      stage.updated u row now = stage' →
      UnlessFailed (StandsAt · stage' rest) (⟨.inbox (.update id u), (.ok row, now)⟩ :: l') := by
    intro l' id u row now stage stage' hl heq hok
    obtain ⟨hstage, hrest⟩ := hl fun hf => hok (hf.cons _)
    refine ⟨?_, hrest⟩
    show (History.retryStage l').updated _ _ _ = _
    rw [hstage, heq]
  refine sat_awaitAt_bind (hcall h (Or.inr (Or.inr ⟨err, rfl⟩))) (fun updated now => ?_)
    fun e' now hok => absurd (ownFailed_inbox _ _ _) hok
  have hcounted : UnlessFailed (StandsAt · (.counted e updated now) rest)
      (⟨.inbox (.update e.id (countFailure err)), (.ok updated, now)⟩ :: l) := hnext h rfl
  dsimp only
  split
  · next hmax =>
    have hsettle : settleFailure env updated.attempts now = { status := some .FAILED } :=
      if_pos hmax
    refine sat_awaitAt_bind (hcall hcounted (congrArg _ (congrArg _ hsettle.symm)))
      (fun row now' => ?_) fun e' now' hok => absurd (ownFailed_inbox _ _ _) hok
    have hparked : UnlessFailed (StandsAt · (.parked e updated now') rest)
        (⟨.inbox (.update e.id { status := some .FAILED }), (.ok row, now')⟩ ::
          ⟨.inbox (.update e.id (countFailure err)), (.ok updated, now)⟩ :: l) := hnext hcounted rfl
    refine sat_await_bind (hcall hparked rfl) (fun _ now'' hok => ?_)
      fun e' now'' hok => absurd (ownFailed_kafka _ _ _) hok
    obtain ⟨-, hrest⟩ := hparked fun hf => hok (hf.cons _)
    exact ⟨rfl, rfl, hrest⟩
  · next hmax =>
    have hsettle : settleFailure env updated.attempts now =
        { availableAt := some (now + backoffMs updated.attempts) } := if_neg hmax
    refine sat_await_bind (hcall hcounted (congrArg _ (congrArg _ hsettle.symm)))
      (fun row now' hok => ⟨rfl, ?_⟩) fun e' now' hok => absurd (ownFailed_inbox _ _ _) hok
    exact hnext hcounted rfl hok

theorem sat_retryEvents_pass (events : List InboxEvent)
    (h : UnlessFailed (StandsAt · .between events) l) :
    SatPass env (fun l' r => r = .ok () ∧ StandsAt l' .between []) l (retryEvents env events) := by
  induction events generalizing l with
  | nil => exact fun hok => ⟨rfl, h hok⟩
  | cons e events ih =>
    refine sat_tell_bind (fun hok => ?_) fun r now => ?_
    · obtain ⟨hstage, hrest⟩ := h hok
      refine Or.inr (Or.inr ?_)
      rw [hstage, hrest]
      exact ⟨e, rfl, rfl⟩
    · have htrying : UnlessFailed (StandsAt · (.trying e) events)
          (⟨.proc (.inboxRetriesInc e), (r, now)⟩ :: l) := fun hok => by
        obtain ⟨-, hrest⟩ := h fun hf => hok (hf.cons _)
        exact ⟨rfl, congrArg List.tail hrest⟩
      have htry : SatPass env (fun l' r => r = .ok () ∧ StandsAt l' .between events)
          (⟨.proc (.inboxRetriesInc e), (r, now)⟩ :: l)
          (tryCatch (attemptEvent env e) fun err => attemptFailed env e err) :=
        Sat.act_tryCatch (sat_attemptEvent_pass htrying) (fun l' _ hl hok => ⟨rfl, hl hok⟩)
          fun l' err hl => sat_attemptFailed_pass hl
      refine Sat.act_bind htry (fun l' _ hl => ih fun hok => (hl hok).2) fun l' err hl hok => ?_
      obtain ⟨heq, -⟩ := hl hok
      cases heq

/-- A pass handles its whole batch, one event after the other. -/
theorem sat_retryInbox_pass :
    SatPass env (fun l' _ => StandsAt l' .between []) [] (retryInbox env) := by
  refine sat_tell_bind (fun _ => Or.inl ⟨rfl, rfl⟩) fun r now => ?_
  refine sat_await_bind (fun _ => Or.inr (Or.inl ⟨r, now, rfl, rfl⟩)) (fun events now' => ?_)
    fun e now' hok => absurd (ownFailed_inbox _ _ _) hok
  exact (sat_retryEvents_pass events fun _ => ⟨rfl, rfl⟩).post fun l' r hr hok => (hr hok).2

/-! ## What a failure is counted for -/

/-- The attempt on the event has thrown `err`. -/
def Threw (env : Env) (e : InboxEvent) (l : History) (err : Fault) : Prop :=
  ∃ r l₀, Ran (attemptEvent env e).run (⟨.proc (.inboxRetriesInc e), r⟩ :: l₀) l (.error err)

/-- A row is counted up for what the attempt on it has thrown. -/
def CountsThrown (env : Env) (l : History) : Call → Prop
  | .inbox (.update id u) => u.attempts = none ∨
      ∃ e err, id = e.id ∧ u = countFailure err ∧ InboxBatch l e ∧ Threw env e l err
  | _ => True

/-- An attempt counts nothing. -/
def CountsNothing : Call → Prop
  | .inbox (.update _ u) => u.attempts = none
  | _ => True

theorem HandlerCall.countsNothing {x : Option Json} (h : HandlerCall x l c) : CountsNothing c := by
  cases c with
  | inbox c => exact h.elim
  | _ => trivial

theorem CountsNothing.thrown (h : CountsNothing c) : CountsThrown env l c := by
  cases c with
  | inbox c =>
    cases c with
    | update id u => exact Or.inl h
    | _ => trivial
  | _ => trivial

theorem sat_attemptEvent_countsNothing (env : Env) (e : InboxEvent) (l : History) :
    Sat (fun _ c => CountsNothing c) (fun _ _ => True) l (attemptEvent env e).run := by
  unfold attemptEvent
  dsimp only
  split
  · trivial
  · refine Sat.act_bind (M := fun _ _ => True) ?_ (fun _ _ _ => ?_) fun _ _ _ => trivial
    · exact (sat_processOrderConfirmed env _).mono
        (fun _ _ h => h.countsNothing) fun _ _ _ => trivial
    · exact sat_await_bind rfl (fun _ _ => trivial) fun _ _ => trivial

theorem sat_attemptFailed_thrown {err : Fault} (he : InboxBatch l e) (h : Threw env e l err) :
    Sat (CountsThrown env) (fun _ _ => True) l (attemptFailed env e err).run := by
  refine sat_awaitAt_bind (Or.inr ⟨e, err, rfl, rfl, he, h⟩)
    (fun updated now => ?_) fun _ _ => trivial
  dsimp only
  split
  · refine sat_awaitAt_bind (Or.inl rfl) (fun _ now => ?_) fun _ _ => trivial
    exact sat_await_bind trivial (fun _ _ => trivial) fun _ _ => trivial
  · exact sat_await_bind (Or.inl rfl) (fun _ _ => trivial) fun _ _ => trivial

theorem sat_retryEvents_thrown (events : List InboxEvent) (h : ∀ e ∈ events, InboxBatch l e) :
    Sat (CountsThrown env) (fun _ _ => True) l (retryEvents env events).run := by
  induction events generalizing l with
  | nil => trivial
  | cons e events ih =>
    refine sat_tell_bind trivial fun r now => ?_
    have hattempt :=
      (sat_attemptEvent_countsNothing env e (⟨.proc (.inboxRetriesInc e), (r, now)⟩ :: l)).and_ran
    have hone : Sat (CountsThrown env) (fun _ _ => True)
        (⟨.proc (.inboxRetriesInc e), (r, now)⟩ :: l)
        (tryCatch (attemptEvent env e) fun err => attemptFailed env e err).run := by
      refine Sat.act_tryCatch (hattempt.mono (fun _ _ hc => hc.thrown) fun _ _ hr => hr.2)
        (fun _ _ _ => trivial) fun l' err hran => ?_
      exact sat_attemptFailed_thrown
        (((h e List.mem_cons_self).cons _).mono hran.suffix) ⟨_, _, hran⟩
    refine Sat.act_bind hone.suffix (fun l' _ hl => ih fun e' he' => ?_) fun _ _ _ => trivial
    exact (h e' (List.mem_cons_of_mem e he')).mono ((List.suffix_cons _ l).trans hl.2)

theorem sat_retryInbox_thrown :
    Sat (CountsThrown env) (fun _ _ => True) [] (retryInbox env).run := by
  refine sat_tell_bind trivial fun r now => ?_
  refine sat_await_bind trivial (fun events now' => ?_) fun _ _ => trivial
  exact sat_retryEvents_thrown events fun e he => ⟨_, _, events, got_head _ _ _, he⟩

end

end CashbackLedger
