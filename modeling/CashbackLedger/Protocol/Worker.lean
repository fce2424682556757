import CashbackLedger.Protocol.Handler

/-
  What the worker's passes do, call by call: the publisher, the consumer, the retry loop and
  the replay CLI.

  Each `…Call` predicate lists the calls a pass may issue after a log and what the log then
  holds. The consumer and the retry loop run the handler, so their lists contain its list for
  the order named in the payload at hand.
-/

namespace CashbackLedger

open Lib History

/-- The outbox row is in the batch the process read. -/
def OutboxBatch (l : History) (e : OutboxEvent) : Prop :=
  ∃ sel take es, Got l (.outbox (.findMany sel take)) es ∧ e ∈ es

/-- The inbox row is in the batch the process read. -/
def InboxBatch (l : History) (e : InboxEvent) : Prop :=
  ∃ sel take es, Got l (.inbox (.findMany sel take)) es ∧ e ∈ es

/-- The message is an `OrderConfirmed` event with this id and payload for the inbox. -/
def Carries (env : Env) (m : KafkaMessage) (sid : String) (payload : Json) : Prop :=
  ∃ evt, m.value = some evt ∧ Json.isStr (evt.field "type") "OrderConfirmed" = true ∧
    (Json.orElse (evt.field "id") (.str (m.key.getD "unknown"))).text env.numberText = some sid ∧
    payload = Json.orElse (evt.field "payload") (.obj [])

section

variable {l l' : History}

theorem OutboxBatch.mono {e : OutboxEvent} (h : OutboxBatch l e) (hl : l <:+ l') :
    OutboxBatch l' e := by
  obtain ⟨sel, take, es, hg, hm⟩ := h
  exact ⟨sel, take, es, hg.mono hl, hm⟩

theorem InboxBatch.mono {e : InboxEvent} (h : InboxBatch l e) (hl : l <:+ l') :
    InboxBatch l' e := by
  obtain ⟨sel, take, es, hg, hm⟩ := h
  exact ⟨sel, take, es, hg.mono hl, hm⟩

theorem OutboxBatch.cons {e : OutboxEvent} (h : OutboxBatch l e) (y : Σ c, Reply c) :
    OutboxBatch (y :: l) e := h.mono (List.suffix_cons y l)

theorem InboxBatch.cons {e : InboxEvent} (h : InboxBatch l e) (y : Σ c, Reply c) :
    InboxBatch (y :: l) e := h.mono (List.suffix_cons y l)

end

/-! ## The publisher -/

/-- A row becomes SENT only after its message was sent. -/
def OutboxUpdated (env : Env) (l : History) (e : OutboxEvent) (u : OutboxUpdate) : Prop :=
  (u.status = some .SENT ∧ Got l (.kafka (.send .events (outboxMessage env e))) ()) ∨
    u.status = some .FAILED ∨ u.status = some .PENDING

/-- No claim is under way, unless a call has failed. -/
def Unclaimed (l : History) : Prop := l.claiming = none ∨ AnyFailed l

def PublisherCall (env : Env) (l : History) : Call → Prop
  | .proc .now => True
  | .outbox (.findMany sel take) => (∃ now, sel = .due now) ∧ take = some (env.batchSize : Int)
  | .outbox (.claim id) => Unclaimed l ∧ ∃ e, OutboxBatch l e ∧ e.id = id
  | .outbox (.findUnique id) => AnyFailed l ∧ ∃ e, OutboxBatch l e ∧ e.id = id
  | .outbox (.update id u) => (u.status ≠ some .SENT → AnyFailed l) ∧
      (u.status = some .SENT → l.claiming = some (id, true)) ∧
      ∃ e, OutboxBatch l e ∧ e.id = id ∧ OutboxUpdated env l e u
  | .kafka (.send .events m) => ∃ e, OutboxBatch l e ∧ m = outboxMessage env e ∧
      l.claiming = some (e.id, false)
  | _ => False

section

variable {env : Env} {l : History}

theorem sat_sendEvent {e : OutboxEvent} (h : OutboxBatch l e) (hfree : Unclaimed l) :
    Sat (PublisherCall env)
      (fun l' r => (Unclaimed l' ∧ ∀ err, r = .error err → AnyFailed l') ∧ l <:+ l') l
      (sendEvent env e).run := by
  have hfailed : ∀ {c : Call} (err : Fault) (now : Time) (l' : History),
      Unclaimed (⟨c, (.error err, now)⟩ :: l') ∧
        ∀ err', (.error err : Except Fault Unit) = .error err' →
        AnyFailed (⟨c, (.error err, now)⟩ :: l') :=
    fun err now l' => ⟨Or.inr (anyFailed_head _ _ _), fun _ _ => anyFailed_head _ _ _⟩
  refine Sat.suffix (Q := fun l' (r : Except Fault Unit) =>
    Unclaimed l' ∧ ∀ err, r = .error err → AnyFailed l') ?_
  refine sat_await_bind ⟨hfree, e, h, rfl⟩ (fun claimed now => ?_) fun _ _ => hfailed _ _ _
  dsimp only
  split
  · next hzero =>
    refine ⟨?_, nofun⟩
    subst hzero
    exact hfree.imp id fun hf => hf.mono (List.suffix_cons _ l)
  · next hclaimed =>
    have hheld : History.claiming (⟨.outbox (.claim e.id), (.ok claimed, now)⟩ :: l) =
        some (e.id, false) := if_neg hclaimed
    refine sat_awaitAt_bind ⟨e, h.cons _, rfl, hheld⟩ (fun _ now' => ?_) fun _ _ => hfailed _ _ _
    have hout : History.claiming (⟨.kafka (.send .events (outboxMessage env e)), (.ok (), now')⟩ ::
        ⟨.outbox (.claim e.id), (.ok claimed, now)⟩ :: l) = some (e.id, true) := by
      rw [History.claiming, hheld]
      rfl
    refine sat_await_bind ⟨fun hne => absurd rfl hne, fun _ => hout, e, (h.cons _).cons _, rfl, ?_⟩
      (fun _ _ => ⟨Or.inl rfl, nofun⟩) fun _ _ => hfailed _ _ _
    exact Or.inl ⟨rfl, got_head _ _ _⟩

theorem sat_sendFailed {e : OutboxEvent} (h : OutboxBatch l e) (hf : AnyFailed l) :
    Sat (PublisherCall env) (fun l' _ => l <:+ l') l (sendFailed env e).run := by
  suffices hs : Sat (PublisherCall env) (fun _ _ => True) l (sendFailed env e).run from
    hs.suffix.post fun _ _ h => h.2
  refine sat_awaitAt_bind ⟨hf, e, h, rfl⟩ (fun refreshed now => ?_) fun _ _ => trivial
  have hf' := hf.mono (List.suffix_cons (⟨.outbox (.findUnique e.id), (.ok refreshed, now)⟩ :
    Σ c, Reply c) l)
  dsimp only
  split
  · refine sat_await_bind ?_ (fun _ _ => trivial) fun _ _ => trivial
    exact ⟨fun _ => hf', nofun, e, h.cons _, rfl, Or.inr (Or.inl rfl)⟩
  · refine sat_await_bind ?_ (fun _ _ => trivial) fun _ _ => trivial
    exact ⟨fun _ => hf', nofun, e, h.cons _, rfl, Or.inr (Or.inr rfl)⟩

theorem sat_publishEvents (events : List OutboxEvent) (h : ∀ e ∈ events, OutboxBatch l e)
    (hfree : Unclaimed l) :
    Sat (PublisherCall env) (fun _ _ => True) l (publishEvents env events).run := by
  induction events generalizing l with
  | nil => trivial
  | cons e events ih =>
    have he := h e List.mem_cons_self
    have hsend : Sat (PublisherCall env) (fun l' _ => Unclaimed l' ∧ l <:+ l') l
        (tryCatch (sendEvent env e) fun _ => sendFailed env e).run := by
      refine Sat.act_tryCatch (sat_sendEvent he hfree)
        (fun _ _ h => ⟨h.1.1, h.2⟩) fun l' err hs => ?_
      have hf := hs.1.2 err rfl
      refine (sat_sendFailed (he.mono hs.2) hf).post fun _ _ hl' => ?_
      exact ⟨Or.inr (hf.mono hl'), hs.2.trans hl'⟩
    refine Sat.act_bind hsend (fun l' _ hl => ih (fun e' he' => ?_) hl.1) fun _ _ _ => trivial
    exact (h e' (List.mem_cons_of_mem e he')).mono hl.2

theorem sat_publishOnce (h : l.claiming = none) :
    Sat (PublisherCall env) (fun _ _ => True) l (publishOnce env).run := by
  refine sat_tell_bind trivial fun r now => ?_
  refine sat_await_bind ⟨⟨now, rfl⟩, rfl⟩ (fun events now' => ?_) fun _ _ => trivial
  exact sat_publishEvents events (fun e he => ⟨_, _, events, got_head _ _ _, he⟩) (Or.inl h)

end

/-! ## The consumer -/

/-- The consumer was handed this message, which carries this event. -/
def Delivered (env : Env) (offset : Nat) (l : History) (sid : String) (payload : Json) : Prop :=
  ∃ m, Got l (.kafka (.fetch offset)) m ∧ Carries env m sid payload

def ConsumerCall (env : Env) (offset : Nat) (l : History) : Call → Prop
  | .kafka (.fetch off) => off = offset
  | .kafka (.commitOffset off) => off = offset ∧ ∃ m, Got l (.kafka (.fetch offset)) m ∧
      ∀ sid payload, Carries env m sid payload →
        Issued l (.inbox (.upsert sid "OrderConfirmed" payload))
  | .inbox (.upsert sid type payload) => type = "OrderConfirmed" ∧
      Delivered env offset l sid payload
  | .inbox (.update id u) => u.status = some .PROCESSED ∧ ∃ sid payload row,
      Delivered env offset l sid payload ∧
      Got l (.inbox (.upsert sid "OrderConfirmed" payload)) row ∧ row.id = id ∧
      Credited l (payload.field "orderId")
  | c => ∃ sid payload, Delivered env offset l sid payload ∧
      HandlerCall (payload.field "orderId") l c

section

variable {env : Env} {offset : Nat} {l l' : History} {sid : String} {payload : Json}

theorem Delivered.mono (h : Delivered env offset l sid payload) (hl : l <:+ l') :
    Delivered env offset l' sid payload := by
  obtain ⟨m, hg, hc⟩ := h
  exact ⟨m, hg.mono hl, hc⟩

/-- The handler runs inside the consumer. -/
theorem HandlerCall.consumer {c : Call} (hd : Delivered env offset l sid payload)
    (h : HandlerCall (payload.field "orderId") l c) : ConsumerCall env offset l c := by
  have hc := (⟨sid, payload, hd, h⟩ : ∃ sid payload, Delivered env offset l sid payload ∧
    HandlerCall (payload.field "orderId") l c)
  cases c with
  | inbox c => exact h.elim
  | kafka c => exact h.elim
  | _ => exact hc

/-- A program that obeys a protocol obeys any weaker one that its own past implies. -/
theorem sat_lift {α : Type} {P P' : History → Call → Prop} {Q : History → α → Prop}
    {x : Prog Call Reply α} (h : Sat P Q l x) (hP : ∀ l' c, l <:+ l' → P l' c → P' l' c) :
    Sat P' (fun l' a => Q l' a ∧ l <:+ l') l x := by
  have hs := h.along (List.suffix_refl l) fun l' _ _ hl _ => hl.trans (List.suffix_cons _ l')
  exact hs.mono (fun l' c hc => hP l' c hc.2 hc.1) fun _ _ h => h

/-- The inbox is asked to hold the event before anything can fail. -/
def Recorded (l : History) (sid : String) (payload : Json) : Prop :=
  Issued l (.inbox (.upsert sid "OrderConfirmed" payload))

theorem sat_handleEvent {m : KafkaMessage} {evt : Json}
    (hm : Got l (.kafka (.fetch offset)) m) (hv : m.value = some evt)
    (ht : Json.isStr (evt.field "type") "OrderConfirmed" = true) :
    Sat (ConsumerCall env offset)
      (fun l' _ => l <:+ l' ∧ ∀ sid payload, Carries env m sid payload → Recorded l' sid payload) l
      (handleEvent env (m.key.getD "unknown") evt).run := by
  refine sat_ofExcept_bind (fun sid hsid => ?_) fun f hsid => ⟨List.suffix_refl l, ?_⟩
  · have htext := stringOf_ok.mp hsid
    have hrec : ∀ {l₁ : History} {r}, (⟨.inbox (.upsert sid "OrderConfirmed"
        (Json.orElse (evt.field "payload") (.obj []))), r⟩ :: l) <:+ l₁ →
        l <:+ l₁ ∧ ∀ sid payload, Carries env m sid payload → Recorded l₁ sid payload := by
      intro l₁ r hl
      refine ⟨(List.suffix_cons _ l).trans hl, ?_⟩
      rintro sid' payload ⟨evt', hv', -, htext', rfl⟩
      rw [hv] at hv'
      cases hv'
      rw [htext] at htext'
      cases htext'
      exact (issued_head r l).mono hl
    have hd : Delivered env offset l _ _ := ⟨m, hm, evt, hv, ht, htext, rfl⟩
    refine sat_await_bind ⟨rfl, hd⟩ (fun inbox now => ?_) fun e now => hrec (List.suffix_refl _)
    have hd' :=
      hd.mono (List.suffix_cons (⟨.inbox (.upsert _ _ _), (.ok inbox, now)⟩ : Σ c, Reply c) l)
    refine Sat.act_bind (sat_lift (sat_processOrderConfirmed env _) fun l' c hl hc => ?_) ?_ ?_
    · exact hc.consumer (hd'.mono hl)
    · rintro l' ⟨res, now'⟩ ⟨hcredited, hl⟩
      refine sat_await_bind ?_ (fun _ _ => hrec (hl.trans (List.suffix_cons _ _)))
        fun _ _ => hrec (hl.trans (List.suffix_cons _ _))
      exact ⟨rfl, _, _, inbox, hd'.mono hl, (got_head _ _ _).mono hl, rfl, hcredited⟩
    · exact fun l' e h => hrec h.2
  · -- an id that has no text is filed nowhere
    rintro sid payload ⟨evt', hv', -, htext, -⟩
    rw [hv] at hv'
    cases hv'
    rw [stringOf_ok.mpr htext] at hsid
    cases hsid

theorem sat_eachMessage {m : KafkaMessage} (hm : Got l (.kafka (.fetch offset)) m) :
    Sat (ConsumerCall env offset)
      (fun l' _ => l <:+ l' ∧ ∀ sid payload, Carries env m sid payload → Recorded l' sid payload) l
      (eachMessage env m).run := by
  refine sat_act_tryCatch.mpr ?_
  cases hv : m.value with
  | none =>
    refine ⟨List.suffix_refl l, ?_⟩
    rintro sid payload ⟨evt, hv', -⟩
    rw [hv] at hv'
    cases hv'
  | some evt =>
    by_cases ht : Json.isStr (evt.field "type") "OrderConfirmed" = true
    · simp only [ht, if_true]
      refine (sat_handleEvent hm hv ht).post fun l' r h => ?_
      cases r <;> exact h
    · simp only [ht]
      refine ⟨List.suffix_refl l, ?_⟩
      rintro sid payload ⟨evt', hv', ht', -⟩
      rw [hv] at hv'
      cases hv'
      exact absurd ht' ht

theorem sat_consume :
    Sat (ConsumerCall env offset) (fun _ _ => True) l (consume env offset).run := by
  refine sat_await_bind rfl (fun m now => ?_) fun _ _ => trivial
  refine Sat.act_bind (sat_eachMessage (got_head m now l)) ?_ fun _ _ _ => trivial
  rintro l' - ⟨hl, hrec⟩
  refine sat_await ⟨rfl, m, (got_head m now l).mono hl, hrec⟩
    (fun _ _ => trivial) fun _ _ => trivial

end

/-! ## The retry loop -/

/-- The attempt on `e` is under way. -/
def Attempting (l : History) (e : InboxEvent) : Prop := l.attempting = some e ∧ InboxBatch l e

/-- The attempt under way has not succeeded, or could not record its success. -/
def Unsettled (l : History) : Prop := l.committed = true → l.markFailed = true

/-- The update that counts a failed attempt. -/
def countFailure (err : Fault) : InboxUpdate :=
  { attempts := some (.increment 1), lastError := some (some err.text) }

/-- The failed attempt has just been counted. -/
def Counted (l : History) (e updated : InboxEvent) : Prop :=
  ∃ err now l', l = ⟨.inbox (.update e.id (countFailure err)), (.ok updated, now)⟩ :: l'

/-- A row becomes PROCESSED only after its order is credited, FAILED only when its attempts
    have just reached the limit. -/
def InboxUpdated (env : Env) (l : History) (e : InboxEvent) (u : InboxUpdate) : Prop :=
  (u.status = some .PROCESSED ∧ Credited l (e.payload.field "orderId")) ∨
    Unsettled l ∧ (u.status = none ∨
      u.status = some .FAILED ∧ ∃ updated, Counted l e updated ∧ env.maxAttempts ≤ updated.attempts)

/-- The dead letter of the attempt on `e`: sent right after its row became FAILED. -/
def DeadLetters (env : Env) (l : History) (m : KafkaMessage) : Prop :=
  ∃ e updated row now now' l',
    l = ⟨.inbox (.update e.id { status := some .FAILED }), (.ok row, now)⟩ :: l' ∧
    Attempting l e ∧ Unsettled l ∧ Counted l' e updated ∧ m = dlqMessage env updated now'

def RetryCall (env : Env) (l : History) : Call → Prop
  | .kafka (.send .dlq m) => DeadLetters env l m
  | .proc .now => l.parked = false
  | .proc (.inboxRetriesInc e) => l.parked = false ∧ InboxBatch l e
  | .inbox (.findMany sel take) => l.parked = false ∧ (∃ now, sel = .due now) ∧
      take = some (env.retryBatchSize : Int)
  | .inbox (.update id u) => l.parked = false ∧
      ∃ e, Attempting l e ∧ e.id = id ∧ InboxUpdated env l e u
  | c => l.parked = false ∧ ∃ e, Attempting l e ∧ HandlerCall (e.payload.field "orderId") l c

section

variable {env : Env} {l l' : History} {e : InboxEvent}

/-- The entry that starts an attempt. -/
def StartsAttempt : (Σ c, Reply c) → Prop
  | ⟨.proc (.inboxRetriesInc _), _⟩ => True
  | _ => False

theorem attempting_cons {x : Σ c, Reply c} (h : ¬ StartsAttempt x) (l : History) :
    History.attempting (x :: l) = l.attempting := by
  obtain ⟨c, r⟩ := x
  cases c with
  | proc c => cases c <;> first | rfl | exact absurd trivial h
  | _ => rfl

theorem committed_cons {x : Σ c, Reply c} (h : ¬ StartsAttempt x ∧ ¬ IsCommit x) (l : History) :
    History.committed (x :: l) = l.committed := by
  obtain ⟨c, r, now⟩ := x
  cases c with
  | proc c => cases c <;> first | rfl | exact absurd trivial h.1
  | tx c => cases c <;> cases r <;> first | rfl | exact absurd trivial h.2
  | _ => rfl

theorem HandlerCall.not_startsAttempt {x : Option Json} {c : Call} (h : HandlerCall x l c)
    (r : Reply c) : ¬ StartsAttempt ⟨c, r⟩ := by
  cases c with
  | proc c => cases c <;> first | exact id | exact h.elim
  | _ => exact id

theorem HandlerCall.calm {x : Option Json} {c : Call} (h : HandlerCall x l c) (r : Reply c) :
    History.parked (⟨c, r⟩ :: l) = false := by
  cases c with
  | inbox c => exact h.elim
  | _ => rfl

/-- The handler runs inside an attempt. -/
theorem HandlerCall.retry {c : Call} (hp : l.parked = false) (ha : Attempting l e)
    (h : HandlerCall (e.payload.field "orderId") l c) : RetryCall env l c := by
  have hc := (⟨hp, e, ha, h⟩ : l.parked = false ∧ ∃ e, Attempting l e ∧
    HandlerCall (e.payload.field "orderId") l c)
  cases c with
  | inbox c => exact h.elim
  | kafka c => exact h.elim
  | proc c => cases c <;> first | exact hc | exact h.elim
  | _ => exact hc

theorem Attempting.inbox {c : InboxCall} (h : Attempting l e) (r : Reply (.inbox c)) :
    Attempting (⟨.inbox c, r⟩ :: l) e := ⟨h.1, h.2.cons _⟩

/-- The handler inside the attempt on `e`: the attempt is still under way when it ends, and
    uncommitted when it threw. -/
theorem sat_retryHandler (hp : l.parked = false) (h : Attempting l e) :
    Sat (RetryCall env)
      (fun l' r => HandlerEnd (e.payload.field "orderId") l l' r ∧ History.parked l' = false ∧
        Since (fun x => ¬ StartsAttempt x) l l') l
      (processOrderConfirmed env (e.payload.field "orderId")).run := by
  have hs := (sat_processOrderConfirmed env (e.payload.field "orderId")).along
    (I := fun l' => History.parked l' = false ∧ Since (fun x => ¬ StartsAttempt x) l l')
    ⟨hp, Since.refl l⟩ fun l' c r hl hc => ⟨hc.calm r, hl.2.cons (hc.not_startsAttempt r)⟩
  refine hs.mono (fun l' c hc => ?_) fun l' r hr => hr
  obtain ⟨hc, hp', hl⟩ := hc
  exact hc.retry hp' ⟨(hl.const _ fun x l hx => attempting_cons hx l).trans h.1, h.2.mono hl.suffix⟩

/-- What the `try` block of an attempt leaves behind. -/
def AttemptEnd (e : InboxEvent) (l l' : History) (r : Except Fault Unit) : Prop :=
  Attempting l' e ∧ History.parked l' = false ∧ l <:+ l' ∧ ∀ err, r = .error err → Unsettled l'

theorem sat_attemptEvent (hp : l.parked = false) (h : Attempting l e) (hc : l.committed = false) :
    Sat (RetryCall env) (AttemptEnd e l) l (attemptEvent env e).run := by
  unfold attemptEvent
  dsimp only
  split
  · exact ⟨h, hp, List.suffix_refl l, fun _ _ hcom => by rw [hc] at hcom; cases hcom⟩
  · have hatt : ∀ {l'}, Since (fun x => ¬ StartsAttempt x) l l' → Attempting l' e := fun hl =>
      ⟨(hl.const _ fun x l hx => attempting_cons hx l).trans h.1, h.2.mono hl.suffix⟩
    refine Sat.act_bind (sat_retryHandler hp h) ?_ ?_
    · rintro l' ⟨res, now⟩ ⟨hcredited, hp', hl⟩
      have hsuffix := fun y => hl.suffix.trans (List.suffix_cons y l')
      refine sat_await_bind ⟨hp', e, hatt hl, rfl, Or.inl ⟨rfl, hcredited⟩⟩ (fun row now' => ?_)
        fun err now' => ?_
      · exact ⟨(hatt hl).inbox _, rfl, hsuffix _, nofun⟩
      · exact ⟨(hatt hl).inbox _, rfl, hsuffix _, fun _ _ _ => rfl⟩
    · rintro l' err ⟨hno, hp', hl⟩
      refine ⟨hatt hl, hp', hl.suffix, fun _ _ hcom => ?_⟩
      have heq : History.committed l' = l.committed :=
        (hl.and hno).const _ fun x l hx => committed_cons hx l
      rw [heq, hc] at hcom
      cases hcom

theorem sat_attemptFailed {err : Fault} (hp : l.parked = false) (h : Attempting l e)
    (hu : Unsettled l) :
    Sat (RetryCall env) (fun l' _ => History.parked l' = false ∧ l <:+ l') l
      (attemptFailed env e err).run := by
  refine Sat.suffix (Q := fun l' _ => History.parked l' = false) ?_
  refine sat_awaitAt_bind ⟨hp, e, h, rfl, Or.inr ⟨hu, Or.inl rfl⟩⟩ (fun updated now => ?_)
    fun _ _ => rfl
  have ha := h.inbox (c := .update e.id (countFailure err)) (.ok updated, now)
  have hc :
      Counted (⟨.inbox (.update e.id (countFailure err)), (.ok updated, now)⟩ :: l) e updated :=
    ⟨err, now, l, rfl⟩
  dsimp only
  split
  · next hmax =>
    refine sat_awaitAt_bind ?_ (fun row now' => ?_) fun _ _ => rfl
    · exact ⟨rfl, e, ha, rfl, Or.inr ⟨hu, Or.inr ⟨rfl, updated, hc, hmax⟩⟩⟩
    · refine sat_await_bind ?_ (fun _ _ => rfl) fun _ _ => rfl
      exact ⟨e, updated, row, now', now', _, rfl, ha.inbox _, hu, hc, rfl⟩
  · refine sat_await_bind ?_ (fun _ _ => rfl) fun _ _ => rfl
    exact ⟨rfl, e, ha, rfl, Or.inr ⟨hu, Or.inl rfl⟩⟩

theorem sat_retryEvents (events : List InboxEvent) (hp : l.parked = false)
    (h : ∀ e ∈ events, InboxBatch l e) :
    Sat (RetryCall env) (fun l' _ => History.parked l' = false) l (retryEvents env events).run := by
  induction events generalizing l with
  | nil => exact hp
  | cons e events ih =>
    have he := h e List.mem_cons_self
    refine sat_tell_bind ⟨hp, he⟩ fun r now => ?_
    have ha : Attempting (⟨.proc (.inboxRetriesInc e), (r, now)⟩ :: l) e := ⟨rfl, he.cons _⟩
    have htry : Sat (RetryCall env)
        (fun l' _ => History.parked l' = false ∧
          (⟨.proc (.inboxRetriesInc e), (r, now)⟩ :: l) <:+ l')
        (⟨.proc (.inboxRetriesInc e), (r, now)⟩ :: l)
        (tryCatch (attemptEvent env e) fun err => attemptFailed env e err).run := by
      refine Sat.act_tryCatch (sat_attemptEvent rfl ha rfl) ?_ ?_
      · exact fun l' _ hr => ⟨hr.2.1, hr.2.2.1⟩
      · rintro l' err ⟨ha', hp', hl, hu⟩
        exact (sat_attemptFailed hp' ha' (hu err rfl)).post fun _ _ hr => ⟨hr.1, hl.trans hr.2⟩
    refine Sat.act_bind htry (fun l' _ hl => ih hl.1 fun e' he' => ?_) fun _ _ hl => hl.1
    exact (h e' (List.mem_cons_of_mem e he')).mono ((List.suffix_cons _ l).trans hl.2)

theorem sat_retryInbox (hp : l.parked = false) :
    Sat (RetryCall env) (fun l' _ => History.parked l' = false) l (retryInbox env).run := by
  refine sat_tell_bind hp fun r now => ?_
  refine sat_await_bind ⟨rfl, ⟨now, rfl⟩, rfl⟩ (fun events now' => ?_) fun _ _ => rfl
  exact sat_retryEvents events rfl fun e he => ⟨_, _, events, got_head _ _ _, he⟩

end

/-! ## The replay CLI -/

def ReplayCall (l : History) : Call → Prop
  | .inbox (.findMany _ _) => True
  | .outbox (.findMany _ _) => True
  | .inbox (.update id u) => u.status = some .PENDING ∧ ∃ e, InboxBatch l e ∧ e.id = id
  | .outbox (.update id u) => u.status = some .PENDING ∧ ∃ e, OutboxBatch l e ∧ e.id = id
  | _ => False

section

variable {env : Env} {l : History}

theorem sat_replayInboxRows {reset : Bool} (rows : List InboxEvent) (now : Time)
    (h : ∀ e ∈ rows, InboxBatch l e) :
    Sat ReplayCall (fun _ _ => True) l (replayInboxRows reset rows now).run := by
  induction rows generalizing l now with
  | nil => trivial
  | cons e rows ih =>
    refine sat_awaitAt_bind ⟨rfl, e, h e List.mem_cons_self, rfl⟩
      (fun _ now => ?_) fun _ _ => trivial
    exact ih now fun e' he' => (h e' (List.mem_cons_of_mem e he')).cons _

theorem sat_replayOutboxRows {reset : Bool} (rows : List OutboxEvent) (now : Time)
    (h : ∀ e ∈ rows, OutboxBatch l e) :
    Sat ReplayCall (fun _ _ => True) l (replayOutboxRows reset rows now).run := by
  induction rows generalizing l now with
  | nil => trivial
  | cons e rows ih =>
    refine sat_awaitAt_bind ⟨rfl, e, h e List.mem_cons_self, rfl⟩
      (fun _ now => ?_) fun _ _ => trivial
    exact ih now fun e' he' => (h e' (List.mem_cons_of_mem e he')).cons _

theorem sat_replay (argv : List String) :
    Sat ReplayCall (fun _ _ => True) l (replay env argv).run := by
  cases argv with
  | nil => trivial
  | cons cmd rest =>
    simp only [replay]
    split
    · trivial
    split
    · refine sat_awaitAt_bind trivial (fun rows now => ?_) fun _ _ => trivial
      exact sat_replayInboxRows rows now fun e he => ⟨_, _, rows, got_head _ _ _, he⟩
    split
    · refine sat_awaitAt_bind trivial (fun rows now => ?_) fun _ _ => trivial
      exact sat_replayOutboxRows rows now fun e he => ⟨_, _, rows, got_head _ _ _, he⟩
    · trivial

end

end CashbackLedger
