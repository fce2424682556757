import CashbackLedger.Protocol.Retry
import CashbackLedger.Safety.Attempts
import CashbackLedger.Safety.Replay

/-
  How often an inbox event is retried.

  A single retry loop runs beside everything else; its own calls succeed, nothing is replayed, and
  the event with the id in question is never marked PROCESSED, so each of its attempts throws. The
  ghost value of a run is the course of the event: when a pass selected it, when an attempt started,
  when a failure was counted. In every such run the event is attempted once for each selection,
  never before the backoff of its last failure has passed, until the attempts reach the limit; then
  its row is FAILED for good and one dead letter has been sent (`retries_bounded`).
-/

namespace CashbackLedger

open Lib History

/-- What befalls the event. -/
inductive RetryEvent where
  | selected
  | started (now : Time)
  | failed (error : String) (attempts : Nat) (now : Time)

/-- The course of an event, newest first. -/
abbrev RetryCourse : Type := List RetryEvent

/-- What a reply to a pass means for the event. -/
def retryEvent (id : Uuid) : (Σ c, Reply c) → Option RetryEvent
  | ⟨.inbox (.findMany _ _), (.ok rows, _)⟩ =>
    if rows.any fun e => e.id == id then some .selected else none
  | ⟨.proc (.inboxRetriesInc e), (_, now)⟩ => if e.id = id then some (.started now) else none
  | ⟨.inbox (.update id' u), (.ok row, now)⟩ =>
      match u.attempts, u.lastError with
      | some (.increment 1), some (some error) =>
          if id' = id then some (.failed error row.attempts now) else none
      | _, _ => none
  | _ => none

/-- What the last reply to a pass means for the event. -/
def lastRetryEvent (id : Uuid) : Option Process → Option RetryEvent
  | some ⟨.retryInbox, x :: _, _, _⟩ => retryEvent id x
  | _ => none

def retryCourse (id : Uuid) (_ : State) (lb : Step) (s' : State)
    (course : RetryCourse) : RetryCourse :=
  match lb with
  | .step p _ => (lastRetryEvent id (s'.proc p)).toList ++ course
  | _ => course

namespace RetryCourse

def selections (course : RetryCourse) : Nat := course.countP fun | .selected => true | _ => false

def starts (course : RetryCourse) : Nat := course.countP fun | .started _ => true | _ => false

def failures (course : RetryCourse) : Nat := course.countP fun | .failed _ _ _ => true | _ => false

/-- The error, the attempts and the time of the last failure. -/
def lastFailure : RetryCourse → Option (String × Nat × Time)
  | .failed error attempts now :: _ => some (error, attempts, now)
  | _ :: course => lastFailure course
  | [] => none

/-- The backoff of the last failure ends by this time. -/
def DueBy (course : RetryCourse) (time : Time) : Prop :=
  ∀ error attempts failed, course.lastFailure = some (error, attempts, failed) →
    failed + backoffMs attempts ≤ time

/-- No attempt started before the backoff of the failure before it had passed. -/
def Spaced : RetryCourse → Prop
  | .started now :: course => DueBy course now ∧ Spaced course
  | _ :: course => Spaced course
  | [] => True

end RetryCourse

/-- A pass of the retry loop that is not finished. -/
def retrying : Option Process → Bool
  | some ⟨.retryInbox, _, .call _ _, true⟩ => true
  | _ => false

/-- A call of the loop itself. -/
def Call.ofLoop : Call → Bool
  | .inbox _ => true
  | .kafka _ => true
  | _ => false

/-- One retry loop whose own calls succeed; no replay; the event is never marked PROCESSED. -/
def SoleRetry (id : Uuid) (s : State) (_ : RetryCourse) : Step → Prop
  | .spawn _ t => (∀ argv, t ≠ .replay argv) ∧ (t = .retryInbox → ∀ q, retrying (s.proc q) = false)
  | .step p ch =>
      (retrying (s.proc p) = true → ∀ c, s.nextCall p = some c → c.ofLoop = true → ch.fate = .ok) ∧
      ∀ u, s.nextCall p = some (.inbox (.update id u)) → u.status ≠ some .PROCESSED
  | .crash p => retrying (s.proc p) = false
  | .move _ => True

/-- Nothing runs; the event is a PENDING row, and this is on the DLQ topic. -/
structure RetryStart (x₀ : InboxEvent) (before : List KafkaMessage) (s : State)
    (course : RetryCourse) : Prop where
  fresh : Fresh s
  row : x₀ ∈ s.world.inbox
  pending : x₀.status = .PENDING
  dlq : s.world.broker.dlq = before
  course : course = []

/-- How often an event with these attempts is tried. -/
def attemptBudget (env : Env) (x₀ : InboxEvent) : Nat := max 1 (env.maxAttempts - x₀.attempts)

/-- The dead letters of the event. -/
def lettersOf (x₀ : InboxEvent) (dlq : List KafkaMessage) : List KafkaMessage :=
  dlq.filter fun m => m.key == some x₀.sourceEventId

/-- The message is a dead letter of the row: its key and the fields of its value. -/
structure DeadLettered (env : Env) (m : KafkaMessage) (e : InboxEvent) (attempts : Nat)
    (error : String) (evt : Json) : Prop where
  key : m.key = some e.sourceEventId
  value : m.value = some evt
  sourceEventId : evt.field "sourceEventId" = some (.str e.sourceEventId)
  type : evt.field "type" = some (.str e.type)
  payload : evt.field "payload" = some e.payload
  attempts : evt.field "attempts" = some (.num attempts)
  lastError : evt.field "lastError" = some (.str error)
  time : ∃ now, evt.field "at" = some (.str (env.isoText now))

/-- An attempt on the event threw `err`, and the row that counted the failure was answered with
    these attempts. -/
def AttemptThrew (env : Env) (x₀ : InboxEvent) (s : State) (err : Fault) (attempts : Nat)
    (now : Time) : Prop :=
  ∃ p e l row, s.InLog p (⟨.inbox (.update x₀.id (countFailure err)), (.ok row, now)⟩ :: l) ∧
    e.core = x₀.core ∧ Threw env e l err ∧ row.attempts = attempts

/-- What the row of the event is while no pass is concerned with it. -/
structure RowBetween (env : Env) (x₀ : InboxEvent) (before : List KafkaMessage) (w : World)
    (course : RetryCourse) (x : InboxEvent) : Prop where
  core : x.core = x₀.core
  /-- every selection was an attempt, every attempt failed and was counted -/
  tried : course.starts = course.selections ∧ course.failures = course.starts ∧
    x.attempts = x₀.attempts + course.starts
  /-- it waits for its backoff, or its attempts are used up and it is dead-lettered -/
  settled :
      (x.status = .PENDING ∧ course.starts < attemptBudget env x₀ ∧ course.DueBy x.availableAt ∧
      lettersOf x₀ w.broker.dlq = lettersOf x₀ before) ∨
    x.status = .FAILED ∧ course.starts = attemptBudget env x₀ ∧
      x.attempts = max (x₀.attempts + 1) env.maxAttempts ∧
      ∃ error attempts now m evt, course.lastFailure = some (error, attempts, now) ∧
        x.lastError = some error ∧ lettersOf x₀ w.broker.dlq = lettersOf x₀ before ++ [m] ∧
        DeadLettered env m x₀ (max (x₀.attempts + 1) env.maxAttempts) error evt

/-- Where the event is in a pass: with nobody, in the rest of the batch, or in hand. -/
inductive RetryPhase where
  | resting
  | waiting
  | inHand (stage : RetryStage)

def History.retryPhase (id : Uuid) (l : History) : RetryPhase :=
  if (History.retryStage l).event.any fun e => e.id == id then .inHand (History.retryStage l)
  else if (History.toRetry l).any fun e => e.id == id then .waiting
  else .resting

/-- Retries of the event are bounded, spaced and end in one dead letter. -/
structure RetriesBounded (env : Env) (x₀ : InboxEvent) (before : List KafkaMessage) (s : State)
    (course : RetryCourse) : Prop where
  /-- the event is attempted at most as often as its budget allows -/
  budget : course.starts ≤ attemptBudget env x₀
  spaced : course.Spaced
  /-- a failure is counted with the text of what the attempt threw -/
  thrown : ∀ error attempts now, .failed error attempts now ∈ course →
    ∃ err, AttemptThrew env x₀ s err attempts now ∧ error = err.text
  /-- an event without an order id fails with this text -/
  missing : Json.truthy (x₀.payload.field "orderId") = false →
    ∀ error attempts now, .failed error attempts now ∈ course →
      error = "Error: Missing orderId in inbox payload for event " ++ x₀.id.text
  /-- while no pass has the event in hand or in the rest of its batch, the row tells how often it
      was tried and what came of it -/
  between : (∀ p l c k, s.proc p = some ⟨.retryInbox, l, .call c k, true⟩ →
      History.retryPhase x₀.id l = .resting) →
    ∃ x ∈ s.world.inbox, RowBetween env x₀ before s.world course x
  /-- a parked row is not touched again -/
  untouched : ∀ x ∈ s.world.inbox, x.id = x₀.id → x.status = .FAILED → ∀ lb s',
    SoleRetry x₀.id s course lb → (system env).step s lb = some s' → x ∈ s'.world.inbox
  /-- what is done for the event leaves the rows of all others as they are -/
  others : ∀ p ch l c k, s.proc p = some ⟨.retryInbox, l, .call c k, true⟩ →
    (History.retryStage l).event.map InboxEvent.id = some x₀.id → ∀ s',
    (system env).step s (.step p ch) = some s' →
      ∀ y ∈ s.world.inbox, y.id ≠ x₀.id → y ∈ s'.world.inbox

/-! ## The phases of an event -/

/-- What holds of the row in every phase but the resting one. -/
structure Underway (x₀ : InboxEvent) (before : List KafkaMessage) (w : World) (course : RetryCourse)
    (x : InboxEvent) : Prop where
  core : x.core = x₀.core
  attempts : x.attempts = x₀.attempts + course.failures
  letters : lettersOf x₀ w.broker.dlq = lettersOf x₀ before

def InPhase (env : Env) (x₀ : InboxEvent) (before : List KafkaMessage) (w : World)
    (course : RetryCourse) (x : InboxEvent) : RetryPhase → Prop
  | .resting => RowBetween env x₀ before w course x
  | .waiting => Underway x₀ before w course x ∧ x.status = .PENDING ∧
      course.failures < attemptBudget env x₀ ∧ course.starts = course.failures ∧
      course.selections = course.starts + 1 ∧ course.DueBy w.clock
  | .inHand .between => False
  | .inHand (.trying _) => Underway x₀ before w course x ∧ x.status = .PENDING ∧
      course.failures < attemptBudget env x₀ ∧ course.starts = course.failures + 1 ∧
      course.selections = course.starts
  | .inHand (.counted _ updated now) => Underway x₀ before w course x ∧ x.status = .PENDING ∧
      updated = x ∧ 0 < course.failures ∧ course.failures ≤ attemptBudget env x₀ ∧
      course.starts = course.failures ∧ course.selections = course.starts ∧
      ∃ error, course.lastFailure = some (error, x.attempts, now) ∧ x.lastError = some error
  | .inHand (.parked _ updated _) => Underway x₀ before w course x ∧ x.status = .FAILED ∧
      (∀ now, dlqMessage env updated now = dlqMessage env x now) ∧
      course.failures = attemptBudget env x₀ ∧
      course.starts = course.failures ∧ course.selections = course.starts ∧
      ∃ error attempts now, course.lastFailure = some (error, attempts, now) ∧
        x.lastError = some error

/-- The state of the loop and of the row. -/
structure RetryInv (env : Env) (x₀ : InboxEvent) (before : List KafkaMessage) (s : State)
    (course : RetryCourse) : Prop where
  alone : ∀ p q, retrying (s.proc p) = true → retrying (s.proc q) = true → p = q
  unfailed : ∀ p pr, s.proc p = some pr → pr.task = .retryInbox → ¬ OwnFailed pr.log
  times : ∀ p pr, s.proc p = some pr → ∀ x ∈ pr.log, x.2.2 ≤ s.world.clock
  batch : ∀ p l c k, s.proc p = some ⟨.retryInbox, l, .call c k, true⟩ →
    (((History.retryStage l).event.toList ++ History.toRetry l).map InboxEvent.id).Nodup
  spaced : course.Spaced
  row : ∃ x ∈ s.world.inbox,
    ((∀ p, retrying (s.proc p) = false) → InPhase env x₀ before s.world course x .resting) ∧
    ∀ p l c k, s.proc p = some ⟨.retryInbox, l, .call c k, true⟩ →
      InPhase env x₀ before s.world course x (History.retryPhase x₀.id l)

theorem backoffMs_bounds (k : Nat) : 1000 ≤ backoffMs k ∧ backoffMs k ≤ 30000 := by
  have hpow : 1 ≤ 2 ^ k := Nat.one_le_two_pow
  unfold backoffMs
  omega

theorem backoffMs_mono : Monotone backoffMs := fun a b hab => by
  have hpow : 2 ^ a ≤ 2 ^ b := Nat.pow_le_pow_right (by decide) hab
  unfold backoffMs
  omega

section

variable {env : Env} {x₀ x : InboxEvent} {before : List KafkaMessage} {w w' : World}
  {course : RetryCourse} {p : Pid} {ch : Choice} {l : History} {c : Call} {r : Reply c}
  {e : InboxEvent} {rest : List InboxEvent} {phase : RetryPhase}

theorem RetryCourse.DueBy.mono {t t' : Time} (h : course.DueBy t) (hle : t ≤ t') :
    course.DueBy t' :=
  fun error attempts failed hlast => (h error attempts failed hlast).trans hle

@[simp] theorem starts_selected : RetryCourse.starts (.selected :: course) = course.starts := rfl

@[simp] theorem starts_started (now : Time) :
    RetryCourse.starts (.started now :: course) = course.starts + 1 := List.countP_cons_of_pos rfl

@[simp] theorem starts_failed (error : String) (attempts : Nat) (now : Time) :
    RetryCourse.starts (.failed error attempts now :: course) = course.starts := rfl

@[simp] theorem failures_selected : RetryCourse.failures (.selected :: course) = course.failures :=
  rfl

@[simp] theorem failures_started (now : Time) :
    RetryCourse.failures (.started now :: course) = course.failures := rfl

@[simp] theorem failures_failed (error : String) (attempts : Nat) (now : Time) :
    RetryCourse.failures (.failed error attempts now :: course) = course.failures + 1 :=
  List.countP_cons_of_pos rfl

@[simp] theorem selections_selected :
    RetryCourse.selections (.selected :: course) = course.selections + 1 :=
    List.countP_cons_of_pos rfl

@[simp] theorem selections_started (now : Time) :
    RetryCourse.selections (.started now :: course) = course.selections := rfl

@[simp] theorem selections_failed (error : String) (attempts : Nat) (now : Time) :
    RetryCourse.selections (.failed error attempts now :: course) = course.selections := rfl

theorem InPhase.core (h : InPhase env x₀ before w course x phase) : x.core = x₀.core := by
  cases phase with
  | resting => exact RowBetween.core h
  | waiting => exact h.1.core
  | inHand stage =>
    cases stage with
    | between => exact h.elim
    | _ => exact h.1.core

theorem Underway.keep (h : Underway x₀ before w course x)
    (hletters : lettersOf x₀ w'.broker.dlq = lettersOf x₀ w.broker.dlq) :
    Underway x₀ before w' course x := ⟨h.core, h.attempts, hletters.trans h.letters⟩

/-- The phase depends on the dead letters and, while the event waits, on time. -/
theorem InPhase.keep (h : InPhase env x₀ before w course x phase)
    (hletters : lettersOf x₀ w'.broker.dlq = lettersOf x₀ w.broker.dlq)
    (hclock : w.clock ≤ w'.clock) : InPhase env x₀ before w' course x phase := by
  cases phase with
  | resting =>
    obtain ⟨hcore, htried, hsettled⟩ := h
    refine ⟨hcore, htried, ?_⟩
    rw [hletters]
    exact hsettled
  | waiting =>
    obtain ⟨hunder, hpending, hleft, hstarts, hselections, hdue⟩ := h
    exact ⟨hunder.keep hletters, hpending, hleft, hstarts, hselections, hdue.mono hclock⟩
  | inHand stage =>
    cases stage with
    | between => exact h.elim
    | _ => exact ⟨h.1.keep hletters, h.2⟩

theorem InPhase.starts_le (h : InPhase env x₀ before w course x phase) :
    course.starts ≤ attemptBudget env x₀ := by
  cases phase with
  | resting =>
    rcases RowBetween.settled h with ⟨-, hlt, -⟩ | ⟨-, heq, -⟩
    · exact Nat.le_of_lt hlt
    · exact Nat.le_of_eq heq
  | waiting =>
    obtain ⟨-, -, hleft, hstarts, -⟩ := h
    omega
  | inHand stage =>
    cases stage with
    | between => exact h.elim
    | trying e =>
      obtain ⟨-, -, hleft, hstarts, -⟩ := h
      omega
    | counted e updated now =>
      obtain ⟨-, -, -, -, hle, hstarts, -⟩ := h
      omega
    | parked e updated now =>
      obtain ⟨-, -, -, heq, hstarts, -⟩ := h
      omega

/-- An update of the row that is served and does not fail. -/
theorem exec_update {u : InboxUpdate} {r : Reply (.inbox (.update x.id u))} (hx : x ∈ w.inbox)
    (hexec : exec env p (.inbox (.update x.id u)) ch w = some (w', r)) (hfate : ch.fate = .ok) :
    r = (.ok (u.apply x), w.clock) ∧ u.apply x ∈ w'.inbox ∧ w'.broker = w.broker := by
  have hmem : u.apply x ∈ w.inbox.modify (fun e => e.id == x.id) u.apply ⟨fun _ _ => rfl⟩ :=
    Table.mem_modify.mpr ⟨x, hx, (if_pos (by simp)).symm⟩
  obtain ⟨w₁, hrun, rfl⟩ := exec_run hfate hexec
  have hnow := (exec_clock hexec).2
  obtain ⟨⟨t, y⟩, hy, heq⟩ := Option.map_eq_some_iff.mp hrun
  simp only [InboxCall.run] at hy
  split at hy
  · next hnone =>
    have hne := Table.find?_none hnone hx
    simp at hne
  · next e hfound =>
    have hid : e.id = x.id := by simpa using Table.of_find? hfound
    obtain rfl : e = x :=
      Table.eq_of_clash (Table.mem_of_find? hfound) hx (by simp [Indexed.clash, hid])
    cases hy
    obtain ⟨rfl, hr⟩ := Prod.mk.inj heq
    exact ⟨Prod.ext hr.symm hnow, hmem, rfl⟩

/-- The rows a pass is given. -/
theorem select_ok {sel : Time} {take : Int} {r : Reply (.inbox (.findMany (.due sel) (some take)))}
    (hexec : exec env p (.inbox (.findMany (.due sel) (some take))) ch w = some (w', r))
    (hfate : ch.fate = .ok) : ∃ rows now, r = (.ok rows, now) := by
  obtain ⟨w₁, hrun, -⟩ := exec_run hfate hexec
  have hreply : Except.ok _ = r.1 := (Prod.mk.inj (Option.some_inj.mp hrun)).2
  exact ⟨_, r.2, Prod.ext hreply.symm rfl⟩

/-- A dead letter that is served and does not fail. -/
theorem deadLetter_appended {m : KafkaMessage} {r : Reply (.kafka (.send .dlq m))}
    (hexec : exec env p (.kafka (.send .dlq m)) ch w = some (w', r)) (hfate : ch.fate = .ok) :
    w'.broker.dlq = w.broker.dlq ++ [m] := by
  obtain ⟨x, now⟩ := r
  obtain ⟨w₁, hrun, rfl⟩ := exec_run hfate hexec
  cases hrun
  rfl

/-- A call about another event, outside the handler's reach, leaves the row as it is. -/
theorem Effect.row_kept {newId : Uuid} {w₁ : World} (heff : Effect p newId w c w₁)
    (hx : x ∈ w.inbox) (hother : ∀ u, c ≠ .inbox (.update x.id u)) : x ∈ w₁.inbox := by
  rcases heff.inbox_kept hx with hx | ⟨u, rfl, -⟩
  · exact hx
  · exact absurd rfl (hother u)

theorem Effect.letters_kept {newId : Uuid} {w₁ : World} (heff : Effect p newId w c w₁)
    (hother : ∀ m, c = .kafka (.send .dlq m) → m.key ≠ some x₀.sourceEventId) :
    lettersOf x₀ w₁.broker.dlq = lettersOf x₀ w.broker.dlq := by
  rcases heff.dlq_origin with heq | ⟨m, rfl, heq⟩
  · rw [heq]
  · have hkey : (m.key == some x₀.sourceEventId) = false := beq_eq_false_iff_ne.mpr (hother m rfl)
    rw [heq, lettersOf, List.filter_append, List.filter_cons_of_neg (by simp [hkey])]
    exact List.append_nil _

/-- What an update of another row means for the event. -/
theorem retryEvent_update_ne {id id' : Uuid} {u : InboxUpdate} {r : Reply (.inbox (.update id' u))}
    (h : id' ≠ id) : retryEvent id ⟨.inbox (.update id' u), r⟩ = none := by
  obtain ⟨x, now⟩ := r
  cases x with
  | error e => rfl
  | ok row =>
    unfold retryEvent
    dsimp only
    split
    · exact if_neg h
    · rfl

theorem InHandler.retryEvent (h : InHandler c) (id : Uuid) : retryEvent id ⟨c, r⟩ = none := by
  cases c with
  | inbox c => exact h.elim
  | kafka c => rfl
  | proc c =>
    cases c with
    | inboxRetriesInc e => exact h.elim
    | _ => rfl
  | _ => rfl

theorem retryPhase_inHand {id : Uuid} {stage : RetryStage} (hstage : History.retryStage l = stage)
    (he : stage.event = some e) (hid : e.id = id) : History.retryPhase id l = .inHand stage := by
  unfold History.retryPhase
  rw [hstage, he]
  simp [hid]

/-- An event that is not in hand is in the rest of the batch or with nobody. -/
theorem retryPhase_out {id : Uuid} (h : ∀ e, (History.retryStage l).event = some e → e.id ≠ id) :
    History.retryPhase id l = if (History.toRetry l).any fun e =>
      e.id == id then .waiting else .resting := by
  unfold History.retryPhase
  cases hevent : (History.retryStage l).event with
  | none => rfl
  | some e => exact if_neg (by simpa using h e hevent)

end

/-! ## One step of a pass -/

/-- The next call of a pass as it is served. -/
structure PassStep (env : Env) (x₀ : InboxEvent) (x : InboxEvent) (w w' : World) (p : Pid)
    (ch : Choice) (l : History) (c : Call) (r : Reply c) : Prop where
  served : exec env p c ch w = some (w', r)
  shaped : CommitsShaped p w c
  calls : RetryCall env l c
  pass : PassCall env l c
  sound : LogSound env w l
  succeeds : c.ofLoop = true → ch.fate = .ok
  unmarked : ∀ u, c = .inbox (.update x₀.id u) → u.status ≠ some .PROCESSED
  row : x ∈ w.inbox
  batch : (((History.retryStage l).event.toList ++ History.toRetry l).map InboxEvent.id).Nodup
  times : ∀ y ∈ l, y.2.2 ≤ w.clock

/-- The event after the reply. -/
def After (env : Env) (x₀ : InboxEvent) (before : List KafkaMessage) (w' : World)
    (course : RetryCourse) (l : History) : Prop :=
  ∃ x' ∈ w'.inbox, InPhase env x₀ before w' course x' (History.retryPhase x₀.id l)

section

variable {env : Env} {x₀ x : InboxEvent} {before : List KafkaMessage} {w w' : World}
  {course : RetryCourse} {p : Pid} {ch : Choice} {l : History} {c : Call} {r : Reply c}
  {e : InboxEvent} {rest : List InboxEvent}

/-- A step that does not concern the event. -/
theorem PassStep.stay (h : PassStep env x₀ x w w' p ch l c r)
    (hx : InPhase env x₀ before w course x (History.retryPhase x₀.id l))
    (hrow : ∀ u, c ≠ .inbox (.update x.id u))
    (hletters : ∀ m, c = .kafka (.send .dlq m) → m.key ≠ some x₀.sourceEventId)
    (hevent : retryEvent x₀.id ⟨c, r⟩ = none)
    (hphase : History.retryPhase x₀.id (⟨c, r⟩ :: l) = History.retryPhase x₀.id l) :
    After env x₀ before w' ((retryEvent x₀.id ⟨c, r⟩).toList ++ course) (⟨c, r⟩ :: l) := by
  obtain ⟨w₁, heff, rfl⟩ := exec_effect h.shaped h.served
  refine ⟨x, heff.row_kept h.row hrow, ?_⟩
  rw [hevent, hphase]
  exact hx.keep (heff.letters_kept hletters) (Nat.le_of_eq (exec_clock h.served).1.symm)

/-- The row that a pass updates is stored, so the update is answered. -/
theorem PassStep.update {id : Uuid} {u : InboxUpdate} {r : Reply (.inbox (.update id u))}
    (h : PassStep env x₀ x w w' p ch l (.inbox (.update id u)) r) :
    ∃ y ∈ w.inbox, y.id = id ∧ r = (.ok (u.apply y), w.clock) ∧
      u.apply y ∈ w'.inbox ∧ w'.broker = w.broker := by
  obtain ⟨-, e, hatt, rfl, -⟩ := h.calls
  obtain ⟨y, hy, hcore⟩ := hatt.2.row h.sound
  have hid := InboxEvent.id_of_core hcore
  have hserved := h.served
  have hok := h.succeeds rfl
  revert r
  rw [← hid]
  intro r h hserved
  exact ⟨y, hy, rfl, exec_update hy hserved hok⟩

/-- A call of the handler. -/
theorem PassStep.handler (h : PassStep env x₀ x w w' p ch l c r)
    (hx : InPhase env x₀ before w course x (History.retryPhase x₀.id l)) (hc : InHandler c) :
    After env x₀ before w' ((retryEvent x₀.id ⟨c, r⟩).toList ++ course) (⟨c, r⟩ :: l) := by
  have hl : StandsAt l (History.retryStage l) (History.toRetry l) := ⟨rfl, rfl⟩
  obtain ⟨hstage, hrest⟩ := hc.stands r hl
  refine h.stay hx ?_ ?_ (hc.retryEvent _) ?_
  · rintro u rfl
    exact hc
  · rintro m rfl
    exact hc.elim
  · unfold History.retryPhase
    rw [hstage, hrest]

/-- An attempt starts. -/
theorem PassStep.start {r : Reply (.proc (.inboxRetriesInc e))}
    (h : PassStep env x₀ x w w' p ch l (.proc (.inboxRetriesInc e)) r)
    (hx : InPhase env x₀ before w course x (History.retryPhase x₀.id l))
    (hstage : History.retryStage l = .between) (hrest : (History.toRetry l).head? = some e) :
    After env x₀ before w' ((retryEvent x₀.id ⟨_, r⟩).toList ++ course) (⟨_, r⟩ :: l) := by
  have hout : ∀ e', (History.retryStage l).event = some e' → e'.id ≠ x₀.id := by
    rw [hstage]
    exact fun _ => nofun
  obtain ⟨rest, hrest⟩ : ∃ rest, History.toRetry l = e :: rest := List.head?_eq_some_iff.mp hrest
  by_cases hid : e.id = x₀.id
  · rw [retryPhase_out hout, hrest, List.any_cons, beq_iff_eq.mpr hid] at hx
    obtain ⟨hunder, hpending, hleft, hstarts, hselections, -⟩ := hx
    obtain ⟨w₁, heff, rfl⟩ := exec_effect h.shaped h.served
    have hevent : retryEvent x₀.id ⟨.proc (.inboxRetriesInc e), r⟩ = some (.started r.2) :=
      if_pos hid
    refine ⟨x, heff.row_kept h.row fun _ => nofun, ?_⟩
    have hphase : History.retryPhase x₀.id (⟨.proc (.inboxRetriesInc e), r⟩ :: l) =
        .inHand (.trying e) :=
      retryPhase_inHand rfl rfl hid
    rw [hphase, hevent]
    show InPhase env x₀ before _ (.started r.2 :: course) x (.inHand (.trying e))
    refine ⟨⟨hunder.core, hunder.attempts, ?_⟩, hpending, hleft, ?_, ?_⟩
    · exact (heff.letters_kept fun _ => nofun).trans hunder.letters
    · rw [starts_started, failures_started, hstarts]
    · rw [selections_started, starts_started, hselections]
  · refine h.stay hx (fun _ => nofun) (fun _ => nofun) (if_neg hid) ?_
    rw [retryPhase_out hout, retryPhase_out]
    · show (if List.any (List.tail (History.toRetry l)) _ then _ else _) = _
      rw [hrest, List.any_cons, beq_eq_false_iff_ne.mpr hid]
      rfl
    · intro e' heq
      cases heq
      exact hid

/-- The batch is selected. -/
theorem PassStep.select {r₀ : Except Fault Unit} {now : Time}
    {r : Reply (.inbox (.findMany (.due now) (some env.retryBatchSize)))}
    (h : PassStep env x₀ x w w' p ch [⟨.proc .now, (r₀, now)⟩] (.inbox (.findMany (.due now) _)) r)
    (hx : InPhase env x₀ before w course x (History.retryPhase x₀.id [⟨.proc .now, (r₀, now)⟩])) :
    After env x₀ before w' ((retryEvent x₀.id ⟨_, r⟩).toList ++ course)
      [⟨_, r⟩, ⟨.proc .now, (r₀, now)⟩] := by
  have hid := InboxEvent.id_of_core hx.core
  obtain ⟨rows, now', rfl⟩ := select_ok h.served (h.succeeds rfl)
  obtain ⟨n, -, hrows, -⟩ := select_reply h.served
  obtain ⟨w₁, heff, rfl⟩ := exec_effect h.shaped h.served
  have hclock := (exec_clock h.served).1
  have hletters : lettersOf x₀ _ = lettersOf x₀ w.broker.dlq := heff.letters_kept fun _ => nofun
  refine ⟨x, heff.row_kept h.row fun _ => nofun, ?_⟩
  have hphase : History.retryPhase x₀.id
      [⟨.inbox (.findMany (.due now) (some env.retryBatchSize)), (.ok rows, now')⟩,
      ⟨.proc .now, (r₀, now)⟩] = if rows.any fun e => e.id == x₀.id then .waiting else .resting :=
    retryPhase_out fun _ => nofun
  rw [hphase]
  unfold retryEvent
  dsimp only
  by_cases hany : (rows.any fun e => e.id == x₀.id) = true
  · rw [if_pos hany, if_pos hany]
    obtain ⟨e, he, heid⟩ := List.any_eq_true.mp hany
    have hdue := mem_of_orderByCreatedAt (hrows ▸ he)
    obtain ⟨hmem, hselects⟩ := List.mem_filter.mp hdue
    obtain rfl : e = x := Table.eq_of_clash hmem h.row (by
      simp only [Indexed.clash, Bool.or_eq_true, beq_iff_eq] at heid ⊢
      exact Or.inl (heid.trans hid.symm))
    obtain ⟨hpending, hpast⟩ := Bool.and_eq_true_iff.mp hselects
    obtain ⟨hcore, ⟨hstarts, hfailures, hattempts⟩, hsettled⟩ := hx
    rcases hsettled with ⟨-, hleft, hdueby, hbefore⟩ | ⟨hfailed, -⟩
    · have hnow : now ≤ w.clock := h.times _ (List.mem_singleton.mpr rfl)
      show InPhase env x₀ before _ (.selected :: course) e .waiting
      refine ⟨⟨hcore, ?_, hletters.trans hbefore⟩, beq_iff_eq.mp hpending, ?_, ?_, ?_, ?_⟩
      · rw [failures_selected, hfailures, hattempts]
      · rwa [failures_selected, hfailures]
      · rw [starts_selected, failures_selected, hfailures]
      · rw [selections_selected, starts_selected, hstarts]
      · exact (hdueby.mono (of_decide_eq_true hpast)).mono (hnow.trans (Nat.le_of_eq hclock.symm))
    · rw [hfailed] at hpending
      cases hpending
  · rw [if_neg hany, if_neg hany]
    have hresting : InPhase env x₀ before w course x .resting := hx
    exact hresting.keep hletters (Nat.le_of_eq hclock.symm)

/-- The dead letter of a row that has an error. -/
theorem deadLettered_of (env : Env) (now : Time) {error : String} (hcore : x.core = x₀.core)
    (herror : x.lastError = some error) :
    ∃ evt, DeadLettered env (dlqMessage env x now) x₀ x.attempts error evt := by
  obtain ⟨-, hsid, htype, hpayload, -⟩ := InboxEvent.of_core hcore
  have hvalue : (dlqMessage env x now).value = some (.obj [
      ("sourceEventId", .str x₀.sourceEventId), ("type", .str x₀.type), ("payload", x₀.payload),
      ("attempts", .num x.attempts), ("lastError", .str error),
      ("at", .str (env.isoText now))]) := by
    simp only [dlqMessage, hsid, htype, hpayload, herror]
  exact ⟨_, congrArg some hsid, hvalue, rfl, rfl, rfl, rfl, rfl, now, rfl⟩

theorem RetryStage.event_updated {stage : RetryStage} {u : InboxUpdate} {row : InboxEvent}
    {now : Time} (h : (stage.updated u row now).event = some e) : stage.event = some e := by
  cases stage with
  | between => exact h
  | trying e' =>
    change (if u.attempts.isSome then RetryStage.counted e' row now else .between).event = _ at h
    split at h
    · exact h
    · cases h
  | counted e' updated now' =>
    change (if u.status = some .FAILED then RetryStage.parked e' updated now else .between).event =
      _ at h
    split at h
    · exact h
    · cases h
  | parked e' updated now' => exact h

/-- An update takes no new event in hand. -/
theorem event_of_update {id : Uuid} {u : InboxUpdate} {r : Reply (.inbox (.update id u))}
    (h : (History.retryStage (⟨.inbox (.update id u), r⟩ :: l)).event = some e) :
    (History.retryStage l).event = some e := by
  obtain ⟨x, now⟩ := r
  cases x with
  | error err => exact h
  | ok row => exact RetryStage.event_updated h

/-- The event in hand is the one the last attempt was started on. -/
theorem attempting_of_event (h : (History.retryStage l).event = some e) :
    History.attempting l = some e := by
  induction l with
  | nil => cases h
  | cons y l ih =>
    obtain ⟨c, r, now⟩ := y
    cases c with
    | proc c =>
      cases c with
      | inboxRetriesInc e' => exact h
      | _ => exact ih h
    | inbox c =>
      cases c with
      | update id u => exact ih (event_of_update h)
      | _ => exact ih h
    | kafka c =>
      cases c with
      | send topic m =>
        cases topic with
        | dlq => cases h
        | events => exact ih h
      | _ => exact ih h
    | _ => exact ih h

/-- The row of another event is updated. -/
theorem PassStep.elsewhere {u : InboxUpdate} {r : Reply (.inbox (.update e.id u))}
    (h : PassStep env x₀ x w w' p ch l (.inbox (.update e.id u)) r)
    (hx : InPhase env x₀ before w course x (History.retryPhase x₀.id l))
    (hevent : (History.retryStage l).event = some e) (hne : e.id ≠ x₀.id) :
    After env x₀ before w' ((retryEvent x₀.id ⟨_, r⟩).toList ++ course) (⟨_, r⟩ :: l) := by
  have hout : ∀ e', (History.retryStage l).event = some e' → e'.id ≠ x₀.id := fun e' he' => by
    rw [hevent] at he'
    cases he'
    exact hne
  refine h.stay hx (fun u heq => ?_) (fun _ => nofun) (retryEvent_update_ne hne) ?_
  · simp only [Call.inbox.injEq, InboxCall.update.injEq] at heq
    exact hne (heq.1.trans (InboxEvent.id_of_core hx.core))
  · rw [retryPhase_out hout, retryPhase_out fun e' he' => hout e' (event_of_update he')]
    rfl

/-- A failure of the event is counted. -/
theorem PassStep.count {err : Fault} {r : Reply (.inbox (.update e.id (countFailure err)))}
    (h : PassStep env x₀ x w w' p ch l (.inbox (.update e.id (countFailure err))) r)
    (hx : InPhase env x₀ before w course x (History.retryPhase x₀.id l))
    (hstage : History.retryStage l = .trying e) (hid : e.id = x₀.id) :
    After env x₀ before w' ((retryEvent x₀.id ⟨_, r⟩).toList ++ course) (⟨_, r⟩ :: l) := by
  rw [retryPhase_inHand hstage rfl hid] at hx
  obtain ⟨hunder, hpending, hleft, hstarts, hselections⟩ := hx
  obtain ⟨y, hy, hyid, rfl, hmem, hbroker⟩ := h.update
  obtain rfl : y = x := Table.eq_of_clash hy h.row (by
    simp [Indexed.clash, hyid, hid, InboxEvent.id_of_core hunder.core])
  have hphase : History.retryStage (⟨.inbox (.update e.id (countFailure err)),
      (.ok ((countFailure err).apply y), w.clock)⟩ :: l) =
        .counted e ((countFailure err).apply y) w.clock := by
    show (History.retryStage l).updated _ _ _ = _
    rw [hstage]
    rfl
  have hcourse : retryEvent x₀.id ⟨.inbox (.update e.id (countFailure err)),
      (.ok ((countFailure err).apply y), w.clock)⟩ =
      some (.failed err.text (y.attempts + 1) w.clock) :=
    if_pos hid
  refine ⟨_, hmem, ?_⟩
  rw [retryPhase_inHand hphase rfl hid, hcourse]
  show InPhase env x₀ before w' (.failed err.text (y.attempts + 1) w.clock :: course) _
    (.inHand (.counted e _ _))
  refine ⟨⟨hunder.core, ?_, ?_⟩, hpending, rfl, ?_, ?_, ?_, ?_, err.text, rfl, rfl⟩
  · show y.attempts + 1 = _
    rw [failures_failed, hunder.attempts, Nat.add_assoc]
  · rw [hbroker]
    exact hunder.letters
  · rw [failures_failed]
    exact Nat.succ_pos _
  · rwa [failures_failed, Nat.succ_le_iff]
  · rw [starts_failed, failures_failed, hstarts]
  · rw [selections_failed, starts_failed, hselections]

/-- The event in hand is not in the rest of the batch. -/
theorem PassStep.gone (h : PassStep env x₀ x w w' p ch l c r)
    (hevent : (History.retryStage l).event = some e) (hid : e.id = x₀.id) :
    (History.toRetry l).any (fun e => e.id == x₀.id) = false := by
  have hnodup := h.batch
  rw [hevent] at hnodup
  have hnot := (List.nodup_cons.mp hnodup).1
  refine List.any_eq_false.mpr fun e' he' heq => hnot ?_
  rw [hid, ← beq_iff_eq.mp heq]
  exact List.mem_map_of_mem he'

/-- A counted failure is settled: the row is put off, or parked. -/
theorem PassStep.settle {updated : InboxEvent} {now : Time}
    {r : Reply (.inbox (.update e.id (settleFailure env updated.attempts now)))}
    (h : PassStep env x₀ x w w' p ch l
      (.inbox (.update e.id (settleFailure env updated.attempts now))) r)
    (hx : InPhase env x₀ before w course x (History.retryPhase x₀.id l))
    (hstage : History.retryStage l = .counted e updated now) (hid : e.id = x₀.id) :
    After env x₀ before w' ((retryEvent x₀.id ⟨_, r⟩).toList ++ course) (⟨_, r⟩ :: l) := by
  rw [retryPhase_inHand hstage rfl hid] at hx
  obtain ⟨hunder, hpending, rfl, hsome, hle, hstarts, hselections, error, hlast, herror⟩ := hx
  obtain ⟨y, hy, hyid, rfl, hmem, hbroker⟩ := h.update
  obtain rfl : y = updated := Table.eq_of_clash hy h.row (by
    simp [Indexed.clash, hyid, hid, InboxEvent.id_of_core hunder.core])
  have hattempts := hunder.attempts
  have hletters : lettersOf x₀ w'.broker.dlq = lettersOf x₀ before := by
    rw [hbroker, hunder.letters]
  have hbudget : attemptBudget env x₀ = max 1 (env.maxAttempts - x₀.attempts) := rfl
  refine ⟨_, hmem, ?_⟩
  by_cases hmax : env.maxAttempts ≤ y.attempts
  · have hsettle : settleFailure env y.attempts now = { status := some .FAILED } := if_pos hmax
    rw [hsettle]
    have hphase : History.retryStage (⟨.inbox (.update e.id { status := some .FAILED }),
        (.ok (InboxUpdate.apply { status := some .FAILED } y), w.clock)⟩ :: l) =
        .parked e y w.clock := by
      show (History.retryStage l).updated _ _ _ = _
      rw [hstage]
      rfl
    rw [retryPhase_inHand hphase rfl hid]
    show InPhase env x₀ before w' course _ (.inHand (.parked e y w.clock))
    refine ⟨⟨hunder.core, hattempts, hletters⟩, rfl, fun _ => rfl, ?_, hstarts, hselections,
      error, y.attempts, now, hlast, herror⟩
    omega
  · have hsettle : settleFailure env y.attempts now =
        { availableAt := some (now + backoffMs y.attempts) } :=
      if_neg hmax
    rw [hsettle]
    have hphase : History.retryStage
        (⟨.inbox (.update e.id { availableAt := some (now + backoffMs y.attempts) }),
        (.ok (InboxUpdate.apply { availableAt := some (now + backoffMs y.attempts) } y),
          w.clock)⟩ :: l) =
          .between := by
      show (History.retryStage l).updated _ _ _ = _
      rw [hstage]
      rfl
    have hgone := h.gone (congrArg RetryStage.event hstage) hid
    rw [retryPhase_out (by rw [hphase]; exact fun _ => nofun)]
    show InPhase env x₀ before w' course _ (if (History.toRetry l).any _ then _ else _)
    rw [hgone]
    refine ⟨hunder.core, ⟨hselections.symm, hstarts.symm, ?_⟩, Or.inl ⟨hpending, ?_, ?_, hletters⟩⟩
    · rw [hstarts]
      exact hattempts
    · omega
    · intro error' attempts failed hlast'
      rw [hlast] at hlast'
      cases hlast'
      exact Nat.le_refl _

/-- The dead letter of an event is sent. -/
theorem PassStep.letter {updated : InboxEvent} {now : Time} {m : KafkaMessage}
    {r : Reply (.kafka (.send .dlq m))}
    (h : PassStep env x₀ x w w' p ch l (.kafka (.send .dlq m)) r)
    (hx : InPhase env x₀ before w course x (History.retryPhase x₀.id l))
    (hstage : History.retryStage l = .parked e updated now) (hm : m = dlqMessage env updated now) :
    After env x₀ before w' ((retryEvent x₀.id ⟨_, r⟩).toList ++ course) (⟨_, r⟩ :: l) := by
  have hevent : (History.retryStage l).event = some e := congrArg RetryStage.event hstage
  have hphase : History.retryPhase x₀.id (⟨.kafka (.send .dlq m), r⟩ :: l) =
      if (History.toRetry l).any fun e => e.id == x₀.id then .waiting else .resting :=
    retryPhase_out fun _ => nofun
  by_cases hid : e.id = x₀.id
  · rw [retryPhase_inHand hstage rfl hid] at hx
    obtain ⟨hunder, hfailed, hsame, hbudget, hstarts, hselections, hlast⟩ := hx
    obtain ⟨w₁, heff, rfl⟩ := exec_effect h.shaped h.served
    have hsent := deadLetter_appended h.served (h.succeeds rfl)
    have hkey : (m.key == some x₀.sourceEventId) = true := by
      have hkey := congrArg KafkaMessage.key (hm.trans (hsame now))
      rw [hkey, ← (InboxEvent.of_core hunder.core).2.1]
      exact beq_self_eq_true _
    have hunfold : attemptBudget env x₀ = max 1 (env.maxAttempts - x₀.attempts) := rfl
    have hattempts := hunder.attempts
    obtain ⟨error, attempts, time, hfailure, herror⟩ := hlast
    have hmax : x.attempts = max (x₀.attempts + 1) env.maxAttempts := by omega
    obtain ⟨evt, hevt⟩ := deadLettered_of env now hunder.core herror
    refine ⟨x, heff.row_kept h.row fun _ => nofun, ?_⟩
    rw [hphase, h.gone hevent hid]
    refine ⟨hunder.core, ⟨hselections.symm, hstarts.symm, ?_⟩,
      Or.inr ⟨hfailed, ?_, hmax, error, attempts, time, _, evt, hfailure, herror, ?_, hmax ▸ hevt⟩⟩
    · show x.attempts = x₀.attempts + course.starts
      rw [hstarts]
      exact hattempts
    · exact hstarts.trans hbudget
    · have hone : lettersOf x₀ [m] = [m] := List.filter_cons_of_pos hkey
      rw [hsent, lettersOf, List.filter_append, ← hsame now, ← hm]
      exact congrArg₂ (· ++ ·) hunder.letters hone
  · have hout : ∀ e', (History.retryStage l).event = some e' → e'.id ≠ x₀.id := fun e' he' => by
      rw [hevent] at he'
      cases he'
      exact hid
    refine h.stay hx (fun _ => nofun) (fun m' heq hkey => ?_) rfl
      (hphase.trans (retryPhase_out hout).symm)
    cases heq
    rw [← (InboxEvent.of_core hx.core).2.1] at hkey
    obtain ⟨e₀, hatt, -, hid₀⟩ := DeadLetters.row h.sound h.calls h.row hkey
    have heq := (attempting_of_event hevent).symm.trans hatt.1
    cases heq
    exact hid (hid₀.trans (InboxEvent.id_of_core hx.core))

/-- What a pass does with the event at its next call. -/
theorem PassStep.after (h : PassStep env x₀ x w w' p ch l c r)
    (hx : InPhase env x₀ before w course x (History.retryPhase x₀.id l)) :
    After env x₀ before w' ((retryEvent x₀.id ⟨c, r⟩).toList ++ course) (⟨c, r⟩ :: l) := by
  rcases h.pass with ⟨rfl, rfl⟩ | ⟨r₀, now, rfl, rfl⟩ | hcall
  · exact h.handler hx trivial
  · exact h.select hx
  · cases hstage : History.retryStage l with
    | between =>
      rw [hstage] at hcall
      obtain ⟨e, rfl, hrest⟩ := hcall
      exact h.start hx hstage hrest
    | trying e =>
      rw [hstage] at hcall
      have hevent : (History.retryStage l).event = some e := congrArg RetryStage.event hstage
      rcases hcall with hc | ⟨now, rfl⟩ | ⟨err, rfl⟩
      · exact h.handler hx hc
      · refine h.elsewhere hx hevent fun hid => ?_
        exact h.unmarked (markProcessed now) (by rw [hid]) rfl
      · by_cases hid : e.id = x₀.id
        · exact h.count hx hstage hid
        · exact h.elsewhere hx hevent hid
    | counted e updated now =>
      rw [hstage] at hcall
      obtain rfl : c = .inbox (.update e.id (settleFailure env updated.attempts now)) := hcall
      by_cases hid : e.id = x₀.id
      · exact h.settle hx hstage hid
      · exact h.elsewhere hx (congrArg RetryStage.event hstage) hid
    | parked e updated now =>
      rw [hstage] at hcall
      obtain rfl : c = .kafka (.send .dlq (dlqMessage env updated now)) := hcall
      exact h.letter hx hstage rfl

/-- The kinds of calls of a pass. -/
inductive PassMove (env : Env) (l : History) : Call → Prop where
  | handler {c : Call} (inside : InHandler c) : PassMove env l c
  | select {r₀ : Except Fault Unit} {now : Time} (begun : l = [⟨.proc .now, (r₀, now)⟩]) :
      PassMove env l (.inbox (.findMany (.due now) (some env.retryBatchSize)))
  | start {e : InboxEvent} {rest : List InboxEvent} (between : History.retryStage l = .between)
      (next : History.toRetry l = e :: rest) : PassMove env l (.proc (.inboxRetriesInc e))
  | update {e : InboxEvent} {u : InboxUpdate} (event : (History.retryStage l).event = some e)
      (unparked : ∀ e updated now, History.retryStage l ≠ .parked e updated now) :
      PassMove env l (.inbox (.update e.id u))
  | letter {e updated : InboxEvent} {now : Time}
      (parked : History.retryStage l = .parked e updated now) :
      PassMove env l (.kafka (.send .dlq (dlqMessage env updated now)))

theorem PassCall.move (h : PassCall env l c) : PassMove env l c := by
  rcases h with ⟨-, rfl⟩ | ⟨r₀, now, rfl, rfl⟩ | hcall
  · exact .handler trivial
  · exact .select rfl
  · cases hstage : History.retryStage l with
    | between =>
      rw [hstage] at hcall
      obtain ⟨e, rfl, hhead⟩ := hcall
      obtain ⟨rest, hrest⟩ := List.head?_eq_some_iff.mp hhead
      exact .start hstage hrest
    | trying e =>
      rw [hstage] at hcall
      have hevent : (History.retryStage l).event = some e := congrArg RetryStage.event hstage
      have hunparked : ∀ e updated now, History.retryStage l ≠ .parked e updated now := by
        rw [hstage]
        exact fun _ _ _ => nofun
      rcases hcall with hc | ⟨now, rfl⟩ | ⟨err, rfl⟩
      · exact .handler hc
      · exact .update hevent hunparked
      · exact .update hevent hunparked
    | counted e updated now =>
      rw [hstage] at hcall
      obtain rfl : c = .inbox (.update e.id (settleFailure env updated.attempts now)) := hcall
      refine .update (congrArg RetryStage.event hstage) ?_
      rw [hstage]
      exact fun _ _ _ => nofun
    | parked e updated now =>
      rw [hstage] at hcall
      obtain rfl : c = .kafka (.send .dlq (dlqMessage env updated now)) := hcall
      exact .letter hstage

/-- A row is updated for the event in hand. -/
theorem PassMove.of_update {id : Uuid} {u : InboxUpdate}
    (h : PassMove env l (.inbox (.update id u))) :
    ∃ e, (History.retryStage l).event = some e ∧ e.id = id ∧
      ∀ e updated now, History.retryStage l ≠ .parked e updated now := by
  generalize hc : Call.inbox (.update id u) = c at h
  cases h with
  | handler inside =>
    subst hc
    exact inside.elim
  | select begun => cases hc
  | start between next => cases hc
  | @update e u event unparked =>
    simp only [Call.inbox.injEq, InboxCall.update.injEq] at hc
    exact ⟨e, event, hc.1.symm, unparked⟩
  | letter parked => cases hc

/-- No call of the loop fails. -/
theorem PassStep.unfailed (h : PassStep env x₀ x w w' p ch l c r) : ¬ OwnFailure ⟨c, r⟩ := by
  cases h.pass.move with
  | handler inside =>
    cases c with
    | inbox c => exact inside.elim
    | kafka c => exact inside.elim
    | _ => exact id
  | select begun =>
    obtain ⟨rows, now, rfl⟩ := select_ok h.served (h.succeeds rfl)
    exact id
  | start between next => exact id
  | update event unparked =>
    obtain ⟨y, -, -, rfl, -⟩ := h.update
    exact id
  | letter parked =>
    obtain ⟨x, now⟩ := r
    obtain ⟨w₁, hrun, -⟩ := exec_run (h.succeeds rfl) h.served
    cases hrun
    exact id

/-- No event is twice in hand or in the rest of the batch. -/
theorem PassStep.batch_next (h : PassStep env x₀ x w w' p ch l c r) :
    (((History.retryStage (⟨c, r⟩ :: l)).event.toList ++ History.toRetry (⟨c, r⟩ :: l)).map
      InboxEvent.id).Nodup := by
  have hbatch := h.batch
  have hsub : ∀ stage : RetryStage,
      (∀ e, stage.event = some e → (History.retryStage l).event = some e) →
      ((stage.event.toList ++ History.toRetry l).map InboxEvent.id).Nodup := fun stage hevent => by
    cases he : stage.event with
    | none => exact hbatch.sublist ((List.sublist_append_right _ _).map _)
    | some e =>
      rw [hevent e he] at hbatch
      exact hbatch
  cases h.pass.move with
  | handler inside =>
    have hl : StandsAt l (History.retryStage l) (History.toRetry l) := ⟨rfl, rfl⟩
    obtain ⟨hstage, hrest⟩ := inside.stands r hl
    rw [hstage, hrest]
    exact hbatch
  | select begun =>
    obtain ⟨rows, now, rfl⟩ := select_ok h.served (h.succeeds rfl)
    obtain ⟨n, -, rfl, -⟩ := select_reply h.served
    rw [begun]
    exact ids_orderByCreatedAt _ _ _
  | @start e rest between next =>
    rw [between, next] at hbatch
    show ((e :: (History.toRetry l).tail).map InboxEvent.id).Nodup
    rw [next]
    exact hbatch
  | update event => exact hsub _ fun e he => event_of_update he
  | letter parked => exact hsub .between fun _ => nofun

/-- A start comes after the backoff. -/
theorem PassStep.spaced (h : PassStep env x₀ x w w' p ch l c r)
    (hx : InPhase env x₀ before w course x (History.retryPhase x₀.id l)) (hspaced : course.Spaced) :
    RetryCourse.Spaced ((retryEvent x₀.id ⟨c, r⟩).toList ++ course) := by
  have hother : ∀ ev : Option RetryEvent, (∀ now, ev ≠ some (.started now)) →
      RetryCourse.Spaced (ev.toList ++ course) := fun ev hev => by
    cases ev with
    | none => exact hspaced
    | some ev =>
      cases ev with
      | started now => exact absurd rfl (hev now)
      | _ => exact hspaced
  cases h.pass.move with
  | handler inside =>
    refine hother _ fun now => ?_
    rw [inside.retryEvent]
    exact nofun
  | @start e rest between next =>
    by_cases hid : e.id = x₀.id
    · have hout : ∀ e', (History.retryStage l).event = some e' → e'.id ≠ x₀.id := by
        rw [between]
        exact fun _ => nofun
      rw [retryPhase_out hout, next, List.any_cons, beq_iff_eq.mpr hid] at hx
      have hevent : retryEvent x₀.id ⟨.proc (.inboxRetriesInc e), r⟩ = some (.started r.2) :=
        if_pos hid
      rw [hevent]
      refine ⟨?_, hspaced⟩
      rw [(exec_clock h.served).2]
      exact hx.2.2.2.2.2
    · have hevent : retryEvent x₀.id ⟨.proc (.inboxRetriesInc e), r⟩ = none := if_neg hid
      rw [hevent]
      exact hspaced
  | select begun =>
    refine hother _ fun now => ?_
    obtain ⟨rows, now', rfl⟩ := select_ok h.served (h.succeeds rfl)
    unfold retryEvent
    dsimp only
    split <;> exact nofun
  | update event unparked =>
    refine hother _ fun now => ?_
    obtain ⟨y, -, -, rfl, -⟩ := h.update
    unfold retryEvent
    dsimp only
    split
    · split <;> exact nofun
    · exact nofun
  | letter parked => exact hspaced

end

/-! ## Runs -/

/-- A pass obeys the protocol of its loop. -/
theorem task_pass (env : Env) (t : Task) :
    Sat (fun l c => t = .retryInbox → ¬ OwnFailed l → PassCall env l c)
      (fun l _ => t = .retryInbox → ¬ OwnFailed l → StandsAt l .between [])
      [] (t.program env).run := by
  by_cases ht : t = .retryInbox
  · subst ht
    have hpass : SatPass env (fun l _ => StandsAt l .between []) [] (retryInbox env) :=
      sat_retryInbox_pass
    exact (sat_silent hpass).mono (fun l c hc _ => hc) fun l _ hl _ => hl
  · exact (sat_trivial _).mono (fun _ _ _ heq => absurd heq ht) fun _ _ _ heq => absurd heq ht

section

variable {env : Env} {x₀ x : InboxEvent} {before : List KafkaMessage} {s : State} {w : World}
  {course course' : RetryCourse} {p : Pid} {pr : Process}

theorem retrying_iff {pr : Option Process} :
    retrying pr = true ↔ ∃ l c k, pr = some ⟨.retryInbox, l, .call c k, true⟩ := by
  constructor
  · intro h
    unfold retrying at h
    split at h
    · exact ⟨_, _, _, rfl⟩
    · cases h
  · rintro ⟨l, c, k, rfl⟩
    rfl

theorem retrying_task (h : retrying (some pr) = true) : pr.task = .retryInbox := by
  obtain ⟨l, c, k, heq⟩ := retrying_iff.mp h
  cases heq
  rfl

/-- The event is in some phase. -/
theorem inPhase_of
    (hquiet : (∀ p, retrying (s.proc p) = false) → InPhase env x₀ before w course x .resting)
    (hlive : ∀ p l c k, s.proc p = some ⟨.retryInbox, l, .call c k, true⟩ →
      InPhase env x₀ before w course x (History.retryPhase x₀.id l)) :
    ∃ phase, InPhase env x₀ before w course x phase := by
  by_cases hall : ∀ q, retrying (s.proc q) = false
  · exact ⟨_, hquiet hall⟩
  · obtain ⟨q, hq⟩ := not_forall.mp hall
    obtain ⟨l, c, k, hq⟩ := retrying_iff.mp (Bool.eq_true_of_not_eq_false hq)
    exact ⟨_, hlive q l c k hq⟩

/-- A process goes on. -/
theorem RetryInv.put (h : RetryInv env x₀ before s course)
    (halone : retrying (some pr) = true → ∀ q, q ≠ p → retrying (s.proc q) = false)
    (hunfailed : pr.task = .retryInbox → ¬ OwnFailed pr.log)
    (htimes : ∀ y ∈ pr.log, y.2.2 ≤ w.clock) (hclock : s.world.clock ≤ w.clock)
    (hspaced : course'.Spaced) (hx : x ∈ w.inbox)
    (hquiet : retrying (some pr) = false → (∀ q, q ≠ p → retrying (s.proc q) = false) →
      InPhase env x₀ before w course' x .resting)
    (hmine : ∀ l c k, pr = ⟨.retryInbox, l, .call c k, true⟩ →
      (((History.retryStage l).event.toList ++ History.toRetry l).map InboxEvent.id).Nodup ∧
        InPhase env x₀ before w course' x (History.retryPhase x₀.id l))
    (hothers : ∀ q l c k, q ≠ p → s.proc q = some ⟨.retryInbox, l, .call c k, true⟩ →
      InPhase env x₀ before w course' x (History.retryPhase x₀.id l)) :
    RetryInv env x₀ before (s.put w p pr) course' := by
  have hput : ∀ q, q ≠ p → (s.put w p pr).proc q = s.proc q :=
    fun q hq => Pool.put_other s w p pr hq
  have hself : (s.put w p pr).proc p = some pr := Pool.put_self s w p pr
  have halone' : ∀ q, q ≠ p → retrying (some pr) = true → ¬ retrying (s.proc q) = true :=
    fun q hq hpr => Bool.eq_false_iff.mp (halone hpr q hq)
  refine ⟨Pool.alone_put (M := fun o => retrying o = true) h.alone halone',
    Pool.forall_put hunfailed fun q pr' _ => h.unfailed q pr',
    Pool.forall_put htimes fun q pr' _ hq y hy => (h.times q pr' hq y hy).trans hclock,
      fun q l c k hq => ?_,
    hspaced, x, hx, fun hnone => ?_, fun q l c k hq => ?_⟩
  · rw [Pool.put_proc] at hq
    split at hq
    · cases hq
      exact (hmine l c k rfl).1
    · exact h.batch q l c k hq
  · refine hquiet ?_ fun q hq => ?_
    · rw [← hself]
      exact hnone p
    · rw [← hput q hq]
      exact hnone q
  · rw [Pool.put_proc] at hq
    split at hq
    · cases hq
      exact (hmine l c k rfl).2
    · next hne => exact hothers q l c k hne hq

/-- A process that is no pass goes on without touching the event. -/
theorem RetryInv.other {pr₀ : Process} (h : RetryInv env x₀ before s course)
    (hp : s.proc p = some pr₀) (hno : retrying (some pr₀) = false)
    (hno' : retrying (some pr) = false) (hunfailed : pr.task = .retryInbox → ¬ OwnFailed pr.log)
    (htimes : ∀ y ∈ pr.log, y.2.2 ≤ w.clock) (hclock : s.world.clock ≤ w.clock)
    (hrow : ∀ x ∈ s.world.inbox, x.core = x₀.core → x ∈ w.inbox)
    (hletters : lettersOf x₀ w.broker.dlq = lettersOf x₀ s.world.broker.dlq) :
    RetryInv env x₀ before (s.put w p pr) course := by
  obtain ⟨x, hx, hquiet, hlive⟩ := h.row
  obtain ⟨phase, hphase⟩ := inPhase_of hquiet hlive
  have hcore := hphase.core
  refine h.put (fun ht => ?_) hunfailed htimes hclock h.spaced
    (hrow x hx hcore) (fun _ hothers => ?_)
    (fun l c k heq => ?_) fun q l c k _ hq => (hlive q l c k hq).keep hletters hclock
  · rw [hno'] at ht
    cases ht
  · refine (hquiet fun q => ?_).keep hletters hclock
    by_cases hq : q = p
    · rw [hq, hp]
      exact hno
    · exact hothers q hq
  · rw [heq] at hno'
    cases hno'

theorem RetryInv.spawn (h : RetryInv env x₀ before s course) {t : Task} (hfree : s.proc p = none)
    (hmet : SoleRetry x₀.id s course (.spawn p t)) :
    RetryInv env x₀ before (s.put s.world p ((system env).start t)) course := by
  obtain ⟨x, hx, hquiet, hlive⟩ := h.row
  have hall : (∀ q, q ≠ p → retrying (s.proc q) = false) →
      ∀ q, retrying (s.proc q) = false := fun ho q => by
    by_cases hq : q = p
    · rw [hq, hfree]
      rfl
    · exact ho q hq
  refine h.put (fun ht q _ => hmet.2 (retrying_task ht) q)
    (fun _ ⟨y, hy, _⟩ => absurd hy List.not_mem_nil)
    (fun y hy => absurd hy List.not_mem_nil) (Nat.le_refl _) h.spaced hx
      (fun _ ho => hquiet (hall ho))
    (fun l c k heq => ?_) fun q l c k _ hq => hlive q l c k hq
  have hl : l = [] := (congrArg Proc.log heq).symm
  subst hl
  exact ⟨List.nodup_nil, hquiet fun q => hmet.2 (congrArg Proc.task heq) q⟩

/-- A process obeys the protocol of its task and of its loop. -/
abbrev Obeys (env : Env) (t : Task) (l : History) (c : Call) : Prop :=
  t.Calls env l c ∧ (t = .retryInbox → ¬ OwnFailed l → PassCall env l c)

/-- A served call of a pass. -/
theorem RetryInv.pass {ch : Choice} {l : History} {c : Call} {r : Reply c}
    {k : Reply c → Prog Call Reply Outcome} (h : RetryInv env x₀ before s course) (hs : Sound env s)
    (hp : s.proc p = some ⟨.retryInbox, l, .call c k, true⟩) (hc : Obeys env .retryInbox l c)
    (hmet : SoleRetry x₀.id s course (.step p ch)) (hexec : exec env p c ch s.world = some (w, r))
    (hend : ∀ a, k r = .ret a → ¬ OwnFailed (⟨c, r⟩ :: l) → StandsAt (⟨c, r⟩ :: l) .between []) :
    RetryInv env x₀ before (s.put w p ⟨.retryInbox, ⟨c, r⟩ :: l, k r, true⟩)
      (retryCourse x₀.id s (.step p ch)
        (s.put w p ⟨.retryInbox, ⟨c, r⟩ :: l, k r, true⟩) course) := by
  obtain ⟨x, hx, hquiet, hlive⟩ := h.row
  have hnext : s.nextCall p = some c := Pool.nextCall_of hp
  have hlive₀ : retrying (s.proc p) = true := retrying_iff.mpr ⟨l, c, k, hp⟩
  have hok : ¬ OwnFailed l := h.unfailed p _ hp rfl
  have hcalls : Task.Calls env .retryInbox l c := hc.1
  have hstep : PassStep env x₀ x s.world w p ch l c r :=
    ⟨hexec, hs.shaped hp hcalls, hc.1, hc.2 rfl hok, hs.logs p _ hp,
      fun hloop => hmet.1 hlive₀ c hnext hloop,
        fun u hu => hmet.2 u (hnext.trans (congrArg some hu)), hx,
      h.batch p l c k hp, h.times p _ hp⟩
  have hphase := hlive p l c k hp
  have hcourse :
      retryCourse x₀.id s (.step p ch) (s.put w p ⟨.retryInbox, ⟨c, r⟩ :: l, k r, true⟩) course =
      (retryEvent x₀.id ⟨c, r⟩).toList ++ course := by
    unfold retryCourse
    dsimp only
    rw [Pool.put_self]
    rfl
  have hothers : ∀ q, q ≠ p → retrying (s.proc q) = false := fun q hq => by
    refine Bool.eq_false_of_not_eq_true fun hq' => hq (h.alone q p hq' hlive₀)
  obtain ⟨hclock, hnow⟩ := exec_clock hexec
  obtain ⟨x', hx', hafter⟩ := hstep.after hphase
  have hok' : ¬ OwnFailed (⟨c, r⟩ :: l) := by
    rintro ⟨y, hy, hf⟩
    rcases List.mem_cons.mp hy with rfl | hy
    · exact hstep.unfailed hf
    · exact hok ⟨y, hy, hf⟩
  rw [hcourse]
  refine h.put (fun _ => hothers) (fun _ => hok') (fun y hy => ?_) (Nat.le_of_eq hclock.symm)
    (hstep.spaced hphase h.spaced) hx' (fun hdone _ => ?_) (fun l' c' k' heq => ?_)
    fun q l' c' k' hq hq' => ?_
  · rw [hclock]
    rcases List.mem_cons.mp hy with rfl | hy
    · exact Nat.le_of_eq hnow
    · exact h.times p _ hp y hy
  · cases hk : k r with
    | call c' k' =>
      rw [hk] at hdone
      cases hdone
    | ret a =>
      obtain ⟨hstage, hrest⟩ := hend a hk hok'
      have hresting : History.retryPhase x₀.id (⟨c, r⟩ :: l) = .resting := by
        unfold History.retryPhase
        rw [hstage, hrest]
        rfl
      rwa [hresting] at hafter
  · have hl : l' = ⟨c, r⟩ :: l := (congrArg Proc.log heq).symm
    subst hl
    exact ⟨hstep.batch_next, hafter⟩
  · have hno := hothers q hq
    rw [hq'] at hno
    cases hno

/-- Who updates inbox rows. -/
theorem Task.Calls.inboxUpdate {t : Task} {l : History} {id : Uuid} {u : InboxUpdate}
    (h : t.Calls env l (.inbox (.update id u))) :
    t = .retryInbox ∨ (∃ argv, t = .replay argv) ∨ u.status = some .PROCESSED := by
  cases t with
  | retryInbox => exact Or.inl rfl
  | replay argv => exact Or.inr (Or.inl ⟨argv, rfl⟩)
  | consume offset => exact Or.inr (Or.inr h.1)
  | _ => exact h.uses.elim

/-- A served call of another task. -/
theorem RetryInv.call {t : Task} {ch : Choice} {l : History} {c : Call} {r : Reply c}
    {k : Reply c → Prog Call Reply Outcome} (h : RetryInv env x₀ before s course) (hs : Sound env s)
    (hp : s.proc p = some ⟨t, l, .call c k, true⟩) (hc : t.Calls env l c) (ht : t ≠ .retryInbox)
    (hreplay : ∀ argv, t ≠ .replay argv) (hmet : SoleRetry x₀.id s course (.step p ch))
    (hexec : exec env p c ch s.world = some (w, r)) :
    RetryInv env x₀ before (s.put w p ⟨t, ⟨c, r⟩ :: l, k r, true⟩)
      (retryCourse x₀.id s (.step p ch) (s.put w p ⟨t, ⟨c, r⟩ :: l, k r, true⟩) course) := by
  have hno : ∀ {l x alive}, retrying (some ⟨t, l, x, alive⟩) = false := fun {l x alive} =>
    Bool.eq_false_of_not_eq_true fun hr => ht (retrying_task hr)
  have hcourse : retryCourse x₀.id s (.step p ch) (s.put w p ⟨t, ⟨c, r⟩ :: l, k r, true⟩) course =
      course := by
    unfold retryCourse
    dsimp only
    rw [Pool.put_self]
    unfold lastRetryEvent
    split
    · next heq =>
      cases heq
      exact absurd rfl ht
    · rfl
  obtain ⟨hclock, hnow⟩ := exec_clock hexec
  obtain ⟨w₁, heff, rfl⟩ := exec_effect (hs.shaped hp hc) hexec
  rw [hcourse]
  refine h.other hp hno hno (fun heq => absurd heq ht) (fun y hy => ?_) (Nat.le_of_eq hclock.symm)
    (fun x hx hcore => ?_) (heff.letters_kept fun m hm => ?_)
  · rw [hclock]
    rcases List.mem_cons.mp hy with rfl | hy
    · exact Nat.le_of_eq hnow
    · exact h.times p _ hp y hy
  · refine heff.row_kept hx fun u heq => ?_
    subst heq
    rcases hc.inboxUpdate with hretry | ⟨argv, hrep⟩ | hmark
    · exact ht hretry
    · exact hreplay argv hrep
    · refine hmet.2 u ?_ hmark
      rw [← InboxEvent.id_of_core hcore]
      exact Pool.nextCall_of hp
  · subst hm
    exact absurd hc.deadLetter.1 ht

/-- No process replays. -/
theorem not_replaying
    (h : Traced (system env) (retryCourse x₀.id) (SoleRetry x₀.id) (RetryStart x₀ before) s course)
    (hp : s.proc p = some pr) (argv : List String) : pr.task ≠ .replay argv :=
  h.reach.tasks (K := fun t => ∀ argv, t ≠ .replay argv) (fun _ _ _ ⟨_, hmet⟩ => hmet.1)
    (fun _ ⟨_, hs⟩ => hs.fresh.1) hp argv

theorem retryInv
    (h : Traced (system env) (retryCourse x₀.id)
      (SoleRetry x₀.id) (RetryStart x₀ before) s course) : RetryInv env x₀ before s course := by
  refine h.invariant (P := Obeys env) (fun t => (task_sat env t).and (task_pass env t))
    (fun s course hs => hs.fresh.1) (fun s course hs => ?_)
    (fun s course p t _ hi hmet hfree => hi.spawn hfree hmet)
    (fun s course p ch t l c k w r hr hi hmet hp hc hexec => ?_)
    (fun s course p t l x hr hi hmet hp => ?_) fun s course o w _ hi _ hmove => ?_
  · obtain ⟨⟨hidle, -⟩, hrow, hpending, rfl, rfl⟩ := hs
    have hnone : ∀ {p pr}, s.proc p ≠ some pr := fun {p pr} hp => by
      rw [hidle p] at hp
      cases hp
    refine ⟨fun p _ hp => ?_, fun _ _ hp => absurd hp hnone, fun _ _ hp => absurd hp hnone,
      fun _ _ _ _ hp => absurd hp hnone, trivial,
        x₀, hrow, fun _ => ?_, fun _ _ _ _ hp => absurd hp hnone⟩
    · rw [hidle p] at hp
      cases hp
    · refine ⟨rfl, ⟨rfl, rfl, rfl⟩, Or.inl ⟨hpending, ?_, fun _ _ _ => nofun, rfl⟩⟩
      exact Nat.lt_of_lt_of_le Nat.one_pos (Nat.le_max_left _ _)
  · have hs := sound (fun s ⟨_, hs⟩ => hs.fresh) hr.reach
    by_cases ht : t = .retryInbox
    · subst ht
      refine hi.pass hs hp hc hmet hexec fun a hk hok => ?_
      have hrest := (hr.reach.sat (fun t => (task_sat env t).and (task_pass env t))
        (fun s ⟨_, hs⟩ => hs.fresh.1) hp).2 r
      rw [hk] at hrest
      exact hrest.2 rfl hok
    · exact hi.call hs hp hc.1 ht (not_replaying hr hp) hmet hexec
  · rw [show retryCourse x₀.id s (.crash p) _ course = course from rfl]
    have hno : retrying (some (⟨t, l, x, true⟩ : Process)) = false := hp ▸ hmet
    have hdead : retrying (some (⟨t, l, x, false⟩ : Process)) = false :=
      Bool.eq_false_of_not_eq_true fun hr => by
        obtain ⟨_, _, _, heq⟩ := retrying_iff.mp hr
        cases heq
    have hunfailed : t = .retryInbox → ¬ OwnFailed l := hi.unfailed p _ hp
    have htimes : ∀ y ∈ l, y.2.2 ≤ s.world.clock := hi.times p _ hp
    exact hi.other hp hno hdead hunfailed htimes (Nat.le_refl _) (fun _ hx _ => hx) rfl
  · rw [show retryCourse x₀.id s (.move o) _ course = course from rfl]
    obtain ⟨hinbox, hdlq, hclock⟩ : w.inbox = s.world.inbox ∧ w.broker.dlq = s.world.broker.dlq ∧
        s.world.clock ≤ w.clock := by
      cases o <;> cases hmove
      · exact ⟨rfl, rfl, Nat.le_add_right _ _⟩
      · exact ⟨rfl, rfl, Nat.le_refl _⟩
      · exact ⟨rfl, rfl, Nat.le_refl _⟩
    have hletters : lettersOf x₀ w.broker.dlq = lettersOf x₀ s.world.broker.dlq := by rw [hdlq]
    obtain ⟨x, hx, hquiet, hlive⟩ := hi.row
    refine ⟨hi.alone, hi.unfailed, fun p pr hp y hy => (hi.times p pr hp y hy).trans hclock,
      hi.batch, hi.spaced,
      x, hinbox ▸ hx, fun hall => (hquiet hall).keep hletters hclock, fun p l c k hp => ?_⟩
    exact (hlive p l c k hp).keep hletters hclock

theorem obeys_pass
    (h : Traced (system env) (retryCourse x₀.id) (SoleRetry x₀.id) (RetryStart x₀ before) s course)
    {l : History} {c : Call} {k : Reply c → Prog Call Reply Outcome} {t : Task}
    (hp : s.proc p = some ⟨t, l, .call c k, true⟩) : Obeys env t l c :=
  (h.reach.sat (fun t => (task_sat env t).and (task_pass env t)) (fun _ ⟨_, hs⟩ => hs.fresh.1) hp).1

/-- A pass that updates an inbox row has its event in hand. -/
theorem updates_inHand
    (h : Traced (system env) (retryCourse x₀.id) (SoleRetry x₀.id) (RetryStart x₀ before) s course)
    {l : History} {id : Uuid} {u : InboxUpdate}
    {k : Reply (.inbox (.update id u)) → Prog Call Reply Outcome}
    (hp : s.proc p = some ⟨.retryInbox, l, .call (.inbox (.update id u)) k, true⟩) :
    ∃ e, (History.retryStage l).event = some e ∧ e.id = id ∧
      ∀ e' updated now, History.retryStage l ≠ .parked e' updated now := by
  have hc : Obeys env .retryInbox l (.inbox (.update id u)) := obeys_pass h hp
  have hpass : PassMove env l (.inbox (.update id u)) :=
    (hc.2 rfl ((retryInv h).unfailed p _ hp rfl)).move
  exact hpass.of_update

/-- A FAILED row is not touched again. -/
theorem failed_untouched
    (h : Traced (system env) (retryCourse x₀.id) (SoleRetry x₀.id) (RetryStart x₀ before) s course)
    {x : InboxEvent} (hx : x ∈ s.world.inbox) (hid : x.id = x₀.id) (hfailed : x.status = .FAILED)
    {lb : Step} {s' : State} (hmet : SoleRetry x₀.id s course lb)
    (hstep : (system env).step s lb = some s') : x ∈ s'.world.inbox := by
  have hs := sound (fun s ⟨_, hs⟩ => hs.fresh) h.reach
  obtain ⟨y, hy, hquiet, hlive⟩ := (retryInv h).row
  obtain ⟨phase, hphase⟩ := inPhase_of hquiet hlive
  obtain rfl : x = y := Table.eq_of_clash hx hy (by
    simp [Indexed.clash, hid, InboxEvent.id_of_core hphase.core])
  cases Machine.step_cases hstep with
  | spawn free => exact hx
  | crash alive => exact hx
  | @move o w moved => cases o <;> cases moved <;> exact hx
  | @call p ch t l c k w r at_call served =>
    have hc := obeys_pass h at_call
    obtain ⟨w₁, heff, rfl⟩ := exec_effect (hs.shaped at_call hc.1) served
    refine heff.row_kept hx fun u heq => ?_
    subst heq
    rcases hc.1.inboxUpdate with ht | ⟨argv, ht⟩ | hmark
    · obtain rfl : t = .retryInbox := ht
      obtain ⟨e, hevent, heid, hunparked⟩ := updates_inHand h at_call
      -- the row is PENDING while the pass has its event in hand and has not parked it
      have hphase := hlive p l _ k at_call
      rw [retryPhase_inHand rfl hevent (heid.trans hid)] at hphase
      cases hstage : History.retryStage l with
      | between =>
        rw [hstage] at hphase
        exact hphase
      | trying e' =>
        rw [hstage] at hphase
        have hpending := hphase.2.1
        rw [hfailed] at hpending
        cases hpending
      | counted e' updated now =>
        rw [hstage] at hphase
        have hpending := hphase.2.1
        rw [hfailed] at hpending
        cases hpending
      | parked e' updated now => exact hunparked e' updated now hstage
    · exact not_replaying h at_call argv ht
    · refine hmet.2 u ?_ hmark
      rw [← hid]
      exact Pool.nextCall_of at_call

/-- What a pass does for the event in hand leaves the rows of all others as they are. -/
theorem others_untouched
    (h : Traced (system env) (retryCourse x₀.id) (SoleRetry x₀.id) (RetryStart x₀ before) s course)
    {ch : Choice} {l : History} {c : Call} {k : Reply c → Prog Call Reply Outcome}
    (hp : s.proc p = some ⟨.retryInbox, l, .call c k, true⟩)
    (hevent : (History.retryStage l).event.map InboxEvent.id = some x₀.id) {s' : State}
    (hstep : (system env).step s (.step p ch) = some s') {y : InboxEvent} (hy : y ∈ s.world.inbox)
    (hne : y.id ≠ x₀.id) : y ∈ s'.world.inbox := by
  have hs := sound (fun s ⟨_, hs⟩ => hs.fresh) h.reach
  cases Machine.step_cases hstep with
  | @call _ _ t l' c' k' w r at_call served =>
    rw [hp] at at_call
    cases at_call
    have hcalls : Task.Calls env .retryInbox l c := (obeys_pass h hp).1
    obtain ⟨w₁, heff, rfl⟩ := exec_effect (hs.shaped hp hcalls) served
    refine heff.row_kept hy fun u heq => ?_
    subst heq
    obtain ⟨e, hevent', heid, -⟩ := updates_inHand h hp
    rw [hevent'] at hevent
    exact hne (heid.symm.trans (Option.some_inj.mp hevent))

/-! ## The errors -/

/-- A failure that is counted now was thrown by the attempt on the event. -/
theorem retryEvent_failed {id : Uuid} {c : Call} {r : Reply c} {error : String}
    {attempts : Nat} {now : Time} (h : retryEvent id ⟨c, r⟩ = some (.failed error attempts now)) :
    ∃ u row, (⟨c, r⟩ : Σ c, Reply c) = ⟨.inbox (.update id u), (.ok row, now)⟩ ∧
      u.attempts = some (.increment 1) ∧ u.lastError = some (some error) ∧
      row.attempts = attempts := by
  unfold retryEvent at h
  split at h
  · split at h <;> cases h
  · split at h <;> cases h
  · next id' u row now' heq =>
    split at h
    · next error' hattempts herror =>
      split at h
      · next hid =>
        cases h
        subst hid
        exact ⟨u, row, heq, hattempts, herror, rfl⟩
      · cases h
    · cases h
  · cases h

/-- Every failure in the course was thrown by an attempt on the event. -/
def CourseThrown (env : Env) (x₀ : InboxEvent) (s : State) (course : RetryCourse) : Prop :=
  ∀ error attempts now, .failed error attempts now ∈ course →
    ∃ err, AttemptThrew env x₀ s err attempts now ∧ error = err.text

theorem CourseThrown.put (h : CourseThrown env x₀ s course) (w : World) (p : Pid) (pr : Process)
    (hpr : ∀ pr', s.proc p = some pr' → pr'.log <:+ pr.log) :
    CourseThrown env x₀ (s.put w p pr) course := by
  intro error attempts now hfailed
  obtain ⟨err, ⟨q, e, l, row, hlog, hrest⟩, htext⟩ := h error attempts now hfailed
  exact ⟨err, ⟨q, e, l, row, hlog.put hpr, hrest⟩, htext⟩

/-- A count by the retry loop. -/
theorem CourseThrown.count {l : History} {c : Call} {r : Reply c}
    {k : Reply c → Prog Call Reply Outcome}
    (h : Traced (system env) (retryCourse x₀.id) (SoleRetry x₀.id) (RetryStart x₀ before) s course)
    (hp : s.proc p = some ⟨.retryInbox, l, .call c k, true⟩) (hc : CountsThrown env l c)
    {error : String} {attempts : Nat} {now : Time}
    (hevent : retryEvent x₀.id ⟨c, r⟩ = some (.failed error attempts now)) :
    ∃ err, AttemptThrew env x₀ (s.put w p ⟨.retryInbox, ⟨c, r⟩ :: l, k r, true⟩) err attempts now ∧
      error = err.text := by
  obtain ⟨u, row, heq, hattempts, herror, hrow⟩ := retryEvent_failed hevent
  cases heq
  rcases hc with hnone | ⟨e, err, hid, rfl, hbatch, hthrew⟩
  · rw [hnone] at hattempts
    cases hattempts
  cases herror
  have hs := sound (fun s ⟨_, hs⟩ => hs.fresh) h.reach
  obtain ⟨y, hy, hcore⟩ := hbatch.row (hs.logs p _ hp)
  obtain ⟨x, hx, hquiet, hlive⟩ := (retryInv h).row
  obtain ⟨phase, hphase⟩ := inPhase_of hquiet hlive
  obtain rfl : y = x := Table.eq_of_clash hy hx (by
    simp [Indexed.clash, InboxEvent.id_of_core hcore, InboxEvent.id_of_core hphase.core, hid])
  exact ⟨err,
    ⟨p, e, l, row, ⟨_, Pool.put_self s w p _, List.suffix_refl _⟩, hcore.symm.trans hphase.core,
    hthrew, hrow⟩, rfl⟩

/-- The protocol of a task, with what the retry loop counts. -/
theorem task_thrown (env : Env) (t : Task) :
    Sat (fun l c => t = .retryInbox → CountsThrown env l c)
      (fun _ _ => True) [] (t.program env).run := by
  by_cases ht : t = .retryInbox
  · subst ht
    have hretry : Sat (CountsThrown env) (fun _ _ => True) [] (retryInbox env).run :=
      sat_retryInbox_thrown
    exact (sat_silent (q := fun _ => True) hretry).mono (fun _ _ hc _ => hc) fun _ _ _ => trivial
  · exact (sat_trivial _).mono (fun _ _ _ heq => absurd heq ht) fun _ _ _ => trivial

theorem course_thrown
    (h : Traced (system env) (retryCourse x₀.id)
      (SoleRetry x₀.id) (RetryStart x₀ before) s course) : CourseThrown env x₀ s course := by
  refine h.invariant (fun t => task_thrown env t)
    (fun s course hs => hs.fresh.1) (fun s course hs => ?_)
    (fun s course p t _ hi _ hfree => ?_) (fun s course p ch t l c k w r hr hi _ hp hc _ => ?_)
    (fun s course p t l x _ hi _ hp => ?_)
      fun s course o w _ hi _ _ error attempts now hfailed => ?_
  · rw [hs.course]
    exact fun _ _ _ => nofun
  · exact hi.put _ p _ fun pr' hp => by cases hfree.symm.trans hp
  · have hkept := hi.put w p ⟨t, ⟨c, r⟩ :: l, k r, true⟩ fun pr' hp' => by
      cases hp.symm.trans hp'
      exact List.suffix_cons _ l
    intro error attempts now hfailed
    unfold retryCourse at hfailed
    dsimp only at hfailed
    rw [Pool.put_self] at hfailed
    rcases List.mem_append.mp hfailed with hnew | hold
    · unfold lastRetryEvent at hnew
      split at hnew
      · next heq =>
        cases heq
        exact CourseThrown.count hr hp (hc rfl) (Option.mem_toList.mp hnew)
      · cases hnew
    · exact hkept error attempts now hold
  · refine hi.put _ p _ fun pr' hp' => ?_
    cases hp.symm.trans hp'
    exact List.suffix_refl l
  · exact hi error attempts now hfailed

/-- An event without an order id throws before it calls anything. -/
theorem threw_missing {e : InboxEvent} {l : History} {err : Fault} (h : Threw env e l err)
    (hmissing : Json.truthy (e.payload.field "orderId") = false) :
    err = .error ("Missing orderId in inbox payload for event " ++ e.id.text) := by
  obtain ⟨r, l₀, hran⟩ := h
  unfold attemptEvent at hran
  dsimp only at hran
  rw [hmissing] at hran
  cases hran
  rfl

/-- In every run of a single retry loop whose own calls succeed, without replays: an event that no
    attempt brings to PROCESSED is attempted once for each selection and at most as often as its
    budget allows, never before the backoff of its last failure has passed; a failure is counted
    with the text of the exception; between its attempts it waits with attempts left, or it is
    FAILED and exactly one dead letter has been sent for it, with its attempts and the last error;
    once FAILED its row is not touched again, and nothing done for it touches another row. The
    backoff is between 1 and 30 seconds and grows with the attempts. -/
theorem retries_bounded (env : Env) (x₀ : InboxEvent) (before : List KafkaMessage)
    (h : Traced (system env) (retryCourse x₀.id)
      (SoleRetry x₀.id) (RetryStart x₀ before) s course) :
    RetriesBounded env x₀ before s course ∧
      (∀ k, 1000 ≤ backoffMs k ∧ backoffMs k ≤ 30000) ∧ Monotone backoffMs := by
  have hinv := retryInv h
  obtain ⟨x, hx, hquiet, hlive⟩ := hinv.row
  obtain ⟨phase, hphase⟩ := inPhase_of hquiet hlive
  have hthrown := course_thrown h
  refine ⟨⟨hphase.starts_le, hinv.spaced, hthrown, fun hmissing error attempts now hfailed => ?_,
    fun hresting => ⟨x, hx, ?_⟩, ?_, ?_⟩, backoffMs_bounds, backoffMs_mono⟩
  · obtain ⟨err, ⟨q, e, l, row, -, hcore, hthrew, -⟩, rfl⟩ := hthrown error attempts now hfailed
    have hpayload := (InboxEvent.of_core hcore).2.2.2.1
    rw [threw_missing hthrew (hpayload ▸ hmissing), InboxEvent.id_of_core hcore]
    rfl
  · by_cases hall : ∀ q, retrying (s.proc q) = false
    · exact hquiet hall
    · obtain ⟨q, hq⟩ := not_forall.mp hall
      obtain ⟨l, c, k, hq⟩ := retrying_iff.mp (Bool.eq_true_of_not_eq_false hq)
      have hphase := hlive q l c k hq
      rwa [hresting q l c k hq] at hphase
  · intro x' hx' hid hfailed lb s' hmet hstep
    exact failed_untouched h hx' hid hfailed hmet hstep
  · intro p ch l c k hp hevent s' hstep y hy hne
    exact others_untouched h hp hevent hstep hy hne

end

/-! ## A run -/

/-- The step does not start a pass while the process retries. -/
def retriesAfter (pr : Option Process) : Step → Bool
  | .spawn _ .retryInbox => !retrying pr
  | _ => true

/-- Nothing is replayed, the event is not marked PROCESSED, and no pass dies or has a failing
    call. -/
def retryUndisturbed (id : Uuid) (s : State) : Step → Bool
  | .spawn _ (.replay _) => false
  | .spawn _ _ => true
  | .step p ch =>
      (match s.nextCall p with
        | some (.inbox (.update id' u)) => id' != id || u.status != some .PROCESSED
        | _ => true) &&
      match (s.nextCall p).map Call.ofLoop, ch.fate with
        | some true, .fail _ => false
        | some true, .lost _ => false
        | _, _ => true
  | .crash p => !retrying (s.proc p)
  | .move _ => true

def soleRetryCheck (id : Uuid) (n : Nat) : Check n fun s lb => ∀ course, SoleRetry id s course lb :=
  ((Check.of (retryUndisturbed id)).and
    (Check.each (fun _ lb _ pr => retriesAfter pr lb) fun _ lb _ => by
    unfold retriesAfter
    split <;> rfl)).imp fun s lb ⟨h, hafter⟩ course => by
    cases lb with
    | spawn p t =>
      cases t with
      | replay argv => cases h
      | retryInbox => exact ⟨fun _ => nofun, fun _ q => by simpa [retriesAfter] using hafter q⟩
      | _ => exact ⟨fun _ => nofun, nofun⟩
    | step p ch =>
      obtain ⟨hmark, hfate⟩ := Bool.and_eq_true_iff.mp h
      refine ⟨fun _ c hc hloop => ?_, fun u hu => ?_⟩
      · rw [hc, Option.map_some, hloop] at hfate
        split at hfate
        · cases hfate
        · cases hfate
        · next hfail hlost =>
          cases hch : ch.fate with
          | ok => rfl
          | fail m => exact absurd hch (hfail m rfl)
          | lost m => exact absurd hch (hlost m rfl)
      · rw [hu] at hmark
        simpa using hmark
    | crash p =>
      show retrying (s.proc p) = false
      simpa [retryUndisturbed] using h
    | move o => trivial

/-- An event that was tried three times. -/
def triedThrice : InboxEvent := { eventAs .PENDING 1 with attempts := 3 }

/-- Two passes cannot open their transactions; the second one parks the event. -/
def lastAttempts : List Step := failedAttempt 0 ++ failedAttempt 1 ++ [Platform.serve 1]

/-- The dead letter tells this error. -/
def saysError (error : String) (m : KafkaMessage) : Bool :=
  Json.isStr (m.value.bind fun evt => evt.field "lastError") error

theorem retries_bounded_run :
    ∃ s course, Traced (system (platform id)) (retryCourse triedThrice.id)
      (SoleRetry triedThrice.id)
        (RetryStart triedThrice []) s course ∧
      course.starts = 2 ∧
      s.world.broker.dlq.map (saysError "connection lost") = [true] ∧
      RetriesBounded (platform id) triedThrice [] s course ∧
      (∀ k, 1000 ≤ backoffMs k ∧ backoffMs k ≤ 30000) ∧ Monotone backoffMs := by
  let check := soleRetryCheck triedThrice.id 2
  have hrun : (((system (platform id)).runTraced 2 (retryCourse triedThrice.id)
      (fun s _ lb => check.test s lb) (storing [triedThrice]) [] lastAttempts).map
        fun x => (x.2.starts, x.1.world.broker.dlq.map (saysError "connection lost"))) =
        some (2, [true]) := by
    decide +kernel
  obtain ⟨⟨s, course⟩, hs, heq⟩ := Option.map_eq_some_iff.mp hrun
  obtain ⟨hstarts, herrors⟩ := Prod.mk.inj heq
  have hrow : triedThrice ∈ (storing [triedThrice]).world.inbox := List.mem_singleton.mpr rfl
  have h : Traced (system (platform id)) (retryCourse triedThrice.id) (SoleRetry triedThrice.id)
      (RetryStart triedThrice []) s course :=
    check.traced (fun _ course _ h => h course) hs (fun _ _ => rfl)
      ⟨⟨fun _ => rfl, fun _ => rfl⟩, hrow, rfl, rfl, rfl⟩
  exact ⟨s, course, h, hstarts, herrors, retries_bounded (platform id) triedThrice [] h⟩

end CashbackLedger
