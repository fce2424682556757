import CashbackLedger.Protocol.Rule
import CashbackLedger.Protocol.Tasks
import CashbackLedger.Run.Rules

/-
  Handling an event, from the start of the handler to the entry it inserts.

  `History.handled` lists the events a process has started to handle: the consumer right after it
  has stored them, the retry loop right after it has begun an attempt. Every entry a process inserts
  is `Sourced`: it was made while an event was handled, from the order its payload names and a rule
  that was read (`sourced_sat`). A delivery or a retry pass that runs to its end has run the handler
  on its events (`consume_ran`, `retryInbox_ran`).
-/

namespace CashbackLedger

open Lib

/-- An event at the handler. -/
structure Event where
  sourceEventId : String
  payload : Json

/-- The order it names. -/
def Event.orderId (ev : Event) : Option Json := ev.payload.field "orderId"

namespace History

/-- The event a process has just been handed and handles next. -/
def handed : History → Option Event
  | ⟨.inbox (.upsert sid _ payload), (.ok _, _)⟩ :: _ => some ⟨sid, payload⟩
  | ⟨.proc (.inboxRetriesInc e), _⟩ :: _ => some ⟨e.sourceEventId, e.payload⟩
  | _ => none

/-- The events a process has started to handle. -/
def handled : History → List Event
  | [] => []
  | ⟨.tx .begin, _⟩ :: l => (handed l).toList ++ handled l
  | _ :: l => handled l

variable {l l' : History}

theorem handled_subset_cons (x : Σ c, Reply c) : handled l ⊆ handled (x :: l) := by
  obtain ⟨c, r⟩ := x
  cases c with
  | tx c =>
    cases c with
    | begin => exact List.subset_append_right _ _
    | _ => exact List.Subset.refl _
  | _ => exact List.Subset.refl _

theorem handled_subset (h : l <:+ l') : handled l ⊆ handled l' := by
  obtain ⟨front, rfl⟩ := h
  induction front with
  | nil => exact List.Subset.refl _
  | cons x front ih => exact List.Subset.trans ih (handled_subset_cons x)

theorem handled_begin {ev : Event} (h : handed l = some ev) (r : Reply (.tx .begin)) :
    ev ∈ handled (⟨.tx .begin, r⟩ :: l) := by
  unfold handled
  rw [h]
  exact List.mem_append_left _ (List.mem_singleton_self ev)

end History

open History

/-- The entry is made from the order that the event names and a rule that was read. -/
def MadeFor (env : Env) (ev : Event) (l : History) (d : LedgerData) : Prop :=
  ∃ o entry rule, FoundConfirmed l ev.orderId o ∧ EntryRead env l o.merchantId entry ∧
    toDecimalRule env entry = .ok rule ∧ d = creditData o (cashbackOf o.amount rule)

/-- The entry is made in handling an event. -/
def Sourced (env : Env) (l : History) (d : LedgerData) : Prop :=
  ∃ ev ∈ l.handled, MadeFor env ev l d

/-- What a call may write to the cache and to the ledger. -/
def SourcedCall (env : Env) (l : History) (c : Call) : Prop :=
  CacheWrite env l c ∧ ∀ d, c = .stmt (.ledgerCreate d) → Sourced env l d

section

variable {env : Env} {t : Task} {l l₀ l' : History} {c : Call} {ev : Event} {d : LedgerData}

theorem Sourced.mono (h : Sourced env l d) (hl : l <:+ l') : Sourced env l' d := by
  obtain ⟨ev, hev, o, entry, rule, hf, hread, hrule, hd⟩ := h
  exact ⟨ev, handled_subset hl hev, o, entry, rule, hf.mono hl, hread.mono hl, hrule, hd⟩

/-- Neither a write to the cache nor an entry of the ledger. -/
def WritesNothing : Call → Prop
  | .redis (.set _ _ _) => False
  | .tx (.stmt (.ledgerCreate _)) => False
  | _ => True

theorem WritesNothing.sourced (h : WritesNothing c) : SourcedCall env l c := by
  refine ⟨?_, fun d hd => ?_⟩
  · unfold CacheWrite
    split
    · exact h.elim
    · trivial
  · subst hd
    exact h.elim

theorem ReadCall.sourced {m : String} (h : ReadCall env m l c) : SourcedCall env l c := by
  refine ⟨h.cacheWrite, fun d hd => ?_⟩
  subst hd
  exact h.elim

/-- The tasks that handle no event. -/
theorem Task.Calls.sourced (h : t.Calls env l c) (hconsume : ∀ offset, t ≠ .consume offset)
    (hretry : t ≠ .retryInbox) : SourcedCall env l c := by
  refine WritesNothing.sourced ?_
  unfold WritesNothing
  split
  · cases t with
    | consume offset => exact hconsume offset rfl
    | retryInbox => exact hretry rfl
    | _ => exact h
  · cases t with
    | consume offset => exact hconsume offset rfl
    | retryInbox => exact hretry rfl
    | _ => exact h
  · trivial

/-! ## The handler -/

theorem sat_createCredit_sourced {o : Order} {rule : Rule} {entry : CachedCashbackRule}
    (hev : ev ∈ l.handled) (hf : FoundConfirmed l ev.orderId o)
    (hread : EntryRead env l o.merchantId entry) (hrule : toDecimalRule env entry = .ok rule) :
    Sat (SourcedCall env) (fun _ _ => True) l (createCredit o (cashbackOf o.amount rule)).run := by
  have hcall :
      SourcedCall env l (.stmt (.ledgerCreate (creditData o (cashbackOf o.amount rule)))) := by
    refine ⟨trivial, fun d hd => ?_⟩
    cases hd
    exact ⟨ev, hev, o, entry, rule, hf, hread, hrule, rfl⟩
  refine sat_act_tryCatch.mpr (sat_await_bind hcall (fun entry now => trivial) fun e now => ?_)
  dsimp only
  split
  · exact sat_await_bind (WritesNothing.sourced trivial) (fun _ _ => trivial) fun _ _ => trivial
  · trivial

theorem sat_creditOrder_sourced (hev : ev ∈ l.handled) :
    Sat (SourcedCall env) (fun _ _ => True) l
      (creditOrder env (getCashbackRule env) ev.orderId).run := by
  refine sat_await_bind (WritesNothing.sourced trivial) (fun found now => ?_) fun _ _ => trivial
  refine sat_ofExcept_bind (fun o ho => ?_) fun _ _ => trivial
  obtain ⟨rfl, hstatus⟩ := guardOrder_ok ho
  have hf : FoundConfirmed (⟨.stmt (.orderFindUnique ev.orderId), (.ok (some o), now)⟩ :: l)
      ev.orderId o := ⟨got_head _ _ _, hstatus⟩
  refine Sat.act_bind (sat_getCashbackRule_from.suffix.mono (fun _ _ h => h.sourced) fun _ _ h => h)
    (fun l₁ rule h => ?_) fun _ _ _ => trivial
  obtain ⟨entry, hentry, hrule⟩ := h.1.entry rfl
  exact sat_createCredit_sourced (handled_subset ((List.suffix_cons _ _).trans h.2) hev)
    (hf.mono h.2)
    hentry hrule

theorem sat_handler_sourced (ev : Event) (h : l.handed = some ev) :
    Sat (SourcedCall env) (fun _ _ => True) l (processOrderConfirmed env ev.orderId).run := by
  refine sat_transaction (WritesNothing.sourced trivial) (fun _ _ => trivial) fun now => ?_
  refine (sat_creditOrder_sourced (handled_begin h (.ok (), now))).post fun l' r _ => ?_
  have hrolls : ∀ (l' : History) (e : Fault), Rolls (α := CreditResult × Time) (SourcedCall env)
      (fun _ _ => True) l' e := fun _ _ => ⟨WritesNothing.sourced trivial, fun _ => trivial⟩
  cases r with
  | ok res => exact ⟨WritesNothing.sourced trivial, fun _ => trivial, fun e _ => hrolls _ e⟩
  | error e => exact hrolls _ e

/-! ## The tasks -/

theorem sat_handleEvent_sourced {key : String} {evt : Json} :
    Sat (SourcedCall env) (fun _ _ => True) l (handleEvent env key evt).run := by
  refine sat_ofExcept_bind (fun sid _ => ?_) fun _ _ => trivial
  refine sat_await_bind (WritesNothing.sourced trivial) (fun inbox now => ?_) fun _ _ => trivial
  refine Sat.act_bind (sat_handler_sourced ⟨_, Json.orElse (evt.field "payload") (.obj [])⟩ rfl)
    (fun l' res _ => ?_) fun _ _ _ => trivial
  exact sat_await_bind (WritesNothing.sourced trivial) (fun _ _ => trivial) fun _ _ => trivial

theorem sat_consume_sourced {offset : Nat} :
    Sat (SourcedCall env) (fun _ _ => True) l (consume env offset).run := by
  refine sat_await_bind (WritesNothing.sourced trivial) (fun m now => ?_) fun _ _ => trivial
  refine Sat.act_bind (M := fun _ _ => True) (sat_act_tryCatch.mpr ?_) (fun l' _ _ => ?_)
    fun _ _ _ => trivial
  · cases hv : m.value with
    | none => trivial
    | some evt =>
      by_cases ht : Json.isStr (evt.field "type") "OrderConfirmed" = true
      · simp only [ht, if_true]
        refine sat_handleEvent_sourced.post fun l' r _ => ?_
        cases r <;> trivial
      · simp only [ht]
        trivial
  · exact sat_await (WritesNothing.sourced trivial) (fun _ _ => trivial) fun _ _ => trivial

theorem sat_attemptFailed_sourced {e : InboxEvent} {err : Fault} :
    Sat (SourcedCall env) (fun _ _ => True) l (attemptFailed env e err).run := by
  refine sat_awaitAt_bind (WritesNothing.sourced trivial) (fun updated now => ?_) fun _ _ => trivial
  dsimp only
  split
  · refine sat_awaitAt_bind (WritesNothing.sourced trivial) (fun row now' => ?_) fun _ _ => trivial
    exact sat_await_bind (WritesNothing.sourced trivial) (fun _ _ => trivial) fun _ _ => trivial
  · exact sat_await_bind (WritesNothing.sourced trivial) (fun _ _ => trivial) fun _ _ => trivial

/-- The attempt that has just begun. -/
theorem sat_attemptEvent_sourced {e : InboxEvent} {r : Reply (.proc (.inboxRetriesInc e))} :
    Sat (SourcedCall env) (fun _ _ => True) (⟨.proc (.inboxRetriesInc e), r⟩ :: l)
      (attemptEvent env e).run := by
  unfold attemptEvent
  dsimp only
  split
  · trivial
  · refine Sat.act_bind (sat_handler_sourced ⟨e.sourceEventId, e.payload⟩ rfl) (fun l' res _ => ?_)
      fun _ _ _ => trivial
    exact sat_await_bind (WritesNothing.sourced trivial) (fun _ _ => trivial) fun _ _ => trivial

theorem sat_retryEvents_sourced (events : List InboxEvent) :
    Sat (SourcedCall env) (fun _ _ => True) l (retryEvents env events).run := by
  induction events generalizing l with
  | nil => trivial
  | cons e events ih =>
    refine sat_tell_bind (WritesNothing.sourced trivial) fun r now => ?_
    refine Sat.act_bind (M := fun _ _ => True) ?_ (fun l' _ _ => ih) fun _ _ _ => trivial
    exact Sat.act_tryCatch sat_attemptEvent_sourced (fun _ _ _ => trivial)
      fun _ _ _ => sat_attemptFailed_sourced

theorem sat_retryInbox_sourced :
    Sat (SourcedCall env) (fun _ _ => True) l (retryInbox env).run := by
  refine sat_tell_bind (WritesNothing.sourced trivial) fun r now => ?_
  refine sat_await_bind (WritesNothing.sourced trivial) (fun events now' => ?_) fun _ _ => trivial
  exact sat_retryEvents_sourced events

end

/-- The entries a process has asked for are all sourced. -/
def AllSourced (env : Env) (l : History) : Prop :=
  ∀ d, Issued l (.stmt (.ledgerCreate d)) → Sourced env l d

/-- What a task may do, with what it may write to the cache and to the ledger. -/
def Task.Sources (env : Env) (t : Task) (l : History) (c : Call) : Prop :=
  t.Calls env l c ∧ SourcedCall env l c ∧ AllSourced env l

/-- Every task keeps to what it may write. -/
theorem sourced_sat (env : Env) (t : Task) :
    Sat (t.Sources env) (t.Ends env) [] (t.program env).run := by
  have hcalls : Sat (SourcedCall env) (fun _ _ => True) [] (t.program env).run := by
    cases t with
    | consume offset => exact sat_silent (q := fun _ => True) sat_consume_sourced
    | retryInbox => exact sat_silent (q := fun _ => True) sat_retryInbox_sourced
    | _ => exact (task_sat env _).mono (fun l c h => h.sourced nofun nofun) fun _ _ _ => trivial
  have hall := ((task_sat env t).and hcalls).along (I := AllSourced env)
    (fun d ⟨r, hm⟩ => absurd hm List.not_mem_nil) fun l c r hl hc d ⟨r', hm⟩ => ?_
  · exact hall.mono (fun l c h => ⟨h.1.1, h.1.2, h.2⟩) fun l r h => h.1.1
  · rcases List.mem_cons.mp hm with heq | hm
    · cases heq
      exact (hc.2.2 d rfl).mono (List.suffix_cons _ _)
    · exact (hl d ⟨r', hm⟩).mono (List.suffix_cons _ _)

/-! ## Handling to the end -/

/-- The process has run the handler on the event to its end. -/
def HandlerRan (env : Env) (l : History) (ev : Event) : Prop :=
  ∃ (l₀ l₁ : History) (r : _), l₀.handed = some ev ∧
    Ran (processOrderConfirmed env ev.orderId).run l₀ l₁ r ∧ l₁ <:+ l

/-- A call of a transaction has failed. -/
def txFailed : (Σ c, Reply c) → Bool
  | ⟨.tx _, (.error (.callFailed _), _)⟩ => true
  | _ => false

/-- The process has run the handler on the event to its end, and no call of the transaction has
    failed. -/
def HandledCleanly (env : Env) (l : History) (ev : Event) : Prop :=
  ∃ (l₀ l₁ : History) (r : _), l₀.handed = some ev ∧
    Ran (processOrderConfirmed env ev.orderId).run l₀ l₁ r ∧ l₁ <:+ l ∧
      Since (fun x => txFailed x = false) l₀ l₁

/-- It has done so with every event it has started to handle. -/
def HandlersRan (env : Env) (l : History) : Prop := ∀ ev ∈ l.handled, HandlerRan env l ev

def Begins : (Σ c, Reply c) → Prop
  | ⟨.tx .begin, _⟩ => True
  | _ => False

section

variable {env : Env} {l l' : History} {ev : Event}

theorem HandlerRan.mono (h : HandlerRan env l ev) (hl : l <:+ l') : HandlerRan env l' ev := by
  obtain ⟨l₀, l₁, r, hhanded, hran, hs⟩ := h
  exact ⟨l₀, l₁, r, hhanded, hran, hs.trans hl⟩

theorem HandlerRan.cleanly (h : HandlerRan env l ev) (hclean : ∀ x ∈ l, txFailed x = false) :
    HandledCleanly env l ev := by
  obtain ⟨l₀, l₁, r, hhanded, hran, hs⟩ := h
  obtain ⟨front, rfl⟩ := hran.suffix
  refine ⟨l₀, _, r, hhanded, hran, hs, front, rfl, fun x hx => ?_⟩
  exact hclean x (hs.subset (List.mem_append_left l₀ hx))

theorem handled_cons {x : Σ c, Reply c} (hx : ¬ Begins x) : handled (x :: l) = handled l := by
  obtain ⟨c, r⟩ := x
  cases c with
  | tx c =>
    cases c with
    | begin => exact absurd trivial hx
    | _ => rfl
  | _ => rfl

theorem handlersRan_nil : HandlersRan env [] := fun _ h => absurd h List.not_mem_nil

theorem HandlersRan.cons (h : HandlersRan env l) {x : Σ c, Reply c} (hx : ¬ Begins x) :
    HandlersRan env (x :: l) := by
  intro ev hev
  rw [handled_cons hx] at hev
  exact (h ev hev).mono (List.suffix_cons x l)

/-- Inside the body of the handler no transaction begins. -/
theorem BodyCall.not_begins {x : Option Json} {c : Call} (h : BodyCall x l c) (r : Reply c) :
    ¬ Begins ⟨c, r⟩ := by
  cases c with
  | tx c => cases c <;> first | exact id | exact h.elim
  | _ => exact id

/-- The handler begins its transaction first and no other. -/
theorem sat_handler_begins {x : Option Json} :
    Sat (fun _ _ => True) (fun l' _ => ∃ r, Since (fun y => ¬ Begins y) (⟨.tx .begin, r⟩ :: l) l') l
      (processOrderConfirmed env x).run := by
  refine sat_transaction trivial (fun e now => ⟨_, Since.refl _⟩) fun now => ?_
  have hrule : ∀ l m, Open l [] →
      Sat (fun _ c => ReadsRule c) RuleRead l (getCashbackRule env m).run :=
    fun l m h => sat_getCashbackRule m h
  have hbody :=
    (sat_creditOrder (x := x) env hrule (open_begin now l)).since (S := fun y => ¬ Begins y)
    fun l' c r hc => hc.not_begins r
  refine hbody.mono (fun _ _ _ => trivial) fun l' r ⟨_, hsince⟩ => ?_
  cases r with
  | error e => exact ⟨trivial, fun _ => ⟨_, hsince.cons id⟩⟩
  | ok res =>
    refine ⟨trivial, fun _ => ⟨_, hsince.cons id⟩,
      fun e now' => ⟨trivial, fun _ => ⟨(.ok (), now), ?_⟩⟩⟩
    exact (hsince.cons (x := ⟨.tx .commit, (.error e, now')⟩) id).cons id

theorem HandlersRan.handler (h : HandlersRan env l) {x : Option Json} {ev : Event}
    (hhanded : l.handed = some ev) (hx : x = ev.orderId) {r : Except Fault (CreditResult × Time)}
    (hran : Ran (processOrderConfirmed env x).run l l' r) : HandlersRan env l' := by
  subst hx
  obtain ⟨begun, hsince⟩ := sat_handler_begins.ran hran
  have hhandled : l'.handled = ev :: l.handled := by
    rw [hsince.const handled fun _ _ hy => handled_cons hy]
    show (handed l).toList ++ handled l = ev :: handled l
    rw [hhanded]
    rfl
  intro ev' hev'
  rw [hhandled] at hev'
  rcases List.mem_cons.mp hev' with rfl | hev'
  · exact ⟨l, l', r, hhanded, hran, List.suffix_refl l'⟩
  · exact (h ev' hev').mono hran.suffix

theorem HandlersRan.handleEvent (h : HandlersRan env l) {key : String} {evt : Json}
    {r : Except Fault Unit} (hran : Ran (handleEvent env key evt).run l l' r) :
    HandlersRan env l' := by
  rcases ran_ofExcept_bind hran with ⟨sid, -, hran⟩ | ⟨e, -, rfl, -⟩
  swap
  · exact h
  rcases ran_await_bind hran with ⟨row, now, hran⟩ | ⟨e, now, rfl, -⟩
  · have hstored := h.cons (x := ⟨.inbox (.upsert _ "OrderConfirmed" _), (.ok row, now)⟩) id
    rcases hran.act_bind with ⟨l₁, res, hhandler, hran⟩ | ⟨e, hhandler, -⟩
    · have hhandled := hstored.handler rfl rfl hhandler
      rcases ran_await_bind hran with ⟨x, now', hran⟩ | ⟨e, now', rfl, -⟩
      · cases hran
        exact hhandled.cons id
      · exact hhandled.cons id
    · exact hstored.handler rfl rfl hhandler
  · exact h.cons id

theorem HandlersRan.ofType (h : HandlersRan env l) {key : String} {evt : Json}
    {r : Except Fault Unit}
    (hran : Ran (if Json.isStr (evt.field "type") "OrderConfirmed" then
      CashbackLedger.handleEvent env key evt else pure ()).run l l' r) : HandlersRan env l' := by
  split at hran
  · exact h.handleEvent hran
  · cases hran
    exact h

theorem HandlersRan.eachMessage (h : HandlersRan env l) {m : KafkaMessage} {r : Except Fault Unit}
    (hran : Ran (eachMessage env m).run l l' r) : HandlersRan env l' := by
  unfold CashbackLedger.eachMessage at hran
  cases hvalue : m.value with
  | none =>
    rw [hvalue] at hran
    cases hran
    exact h
  | some evt =>
    rw [hvalue] at hran
    rcases hran.act_tryCatch with ⟨_, hended, -⟩ | ⟨l₁, e, hthrew, hcaught⟩
    · exact h.ofType hended
    · cases hcaught
      exact h.ofType hthrew

/-- A delivery that has ended has run the handler on its event if it has begun to. -/
theorem consume_handlersRan {offset : Nat} {r : Except Fault Unit}
    (hran : Ran (consume env offset).run [] l r) : HandlersRan env l := by
  rcases ran_await_bind hran with ⟨m, now, hran⟩ | ⟨e, now, rfl, -⟩
  · have hfetched : HandlersRan env [⟨.kafka (.fetch offset), (.ok m, now)⟩] :=
      handlersRan_nil.cons id
    rcases hran.act_bind with ⟨l₁, _, hmessage, hran⟩ | ⟨e, hmessage, -⟩
    · obtain ⟨now', rfl⟩ := ran_await hran
      exact (hfetched.eachMessage hmessage).cons id
    · exact hfetched.eachMessage hmessage
  · exact handlersRan_nil.cons id

theorem HandlersRan.attemptEvent (h : HandlersRan env l) {e : InboxEvent}
    (hhanded : l.handed = some ⟨e.sourceEventId, e.payload⟩) {r : Except Fault Unit}
    (hran : Ran (attemptEvent env e).run l l' r) : HandlersRan env l' := by
  unfold CashbackLedger.attemptEvent at hran
  dsimp only at hran
  split at hran
  · cases hran
    exact h
  · rcases Ran.act_bind hran with ⟨l₁, res, hhandler, hran⟩ | ⟨err, hhandler, -⟩
    · have hhandled := h.handler hhanded rfl hhandler
      rcases ran_await_bind hran with ⟨x, now, hran⟩ | ⟨err, now, rfl, -⟩
      · cases hran
        exact hhandled.cons id
      · exact hhandled.cons id
    · exact h.handler hhanded rfl hhandler

theorem HandlersRan.attemptFailed (h : HandlersRan env l) {e : InboxEvent} {err : Fault}
    {r : Except Fault Unit} (hran : Ran (attemptFailed env e err).run l l' r) :
    HandlersRan env l' := by
  rcases ran_awaitAt_bind hran with ⟨updated, now, hran⟩ | ⟨e', now, rfl, -⟩
  · have hcounted := h.cons (x := ⟨.inbox (.update e.id _), (.ok updated, now)⟩) id
    dsimp only at hran
    split at hran
    · rcases ran_awaitAt_bind hran with ⟨row, now', hran⟩ | ⟨e', now', rfl, -⟩
      · have hparked := hcounted.cons (x := ⟨.inbox (.update e.id _), (.ok row, now')⟩) id
        rcases ran_await_bind hran with ⟨_, now'', hran⟩ | ⟨e', now'', rfl, -⟩
        · cases hran
          exact hparked.cons id
        · exact hparked.cons id
      · exact hcounted.cons id
    · rcases ran_await_bind hran with ⟨row, now', hran⟩ | ⟨e', now', rfl, -⟩
      · cases hran
        exact hcounted.cons id
      · exact hcounted.cons id
  · exact h.cons id

theorem HandlersRan.retryEvents (h : HandlersRan env l) {events : List InboxEvent}
    {r : Except Fault Unit} (hran : Ran (retryEvents env events).run l l' r) :
    HandlersRan env l' := by
  induction events generalizing l with
  | nil =>
    cases hran
    exact h
  | cons e events ih =>
    obtain ⟨x, now, hran⟩ := ran_tell_bind hran
    have hbegun := h.cons (x := ⟨.proc (.inboxRetriesInc e), (x, now)⟩) id
    have hattempt : ∀ {l₁ : History} {r : Except Fault Unit},
        Ran (tryCatch (CashbackLedger.attemptEvent env e)
          fun err => CashbackLedger.attemptFailed env e err).run
          (⟨.proc (.inboxRetriesInc e), (x, now)⟩ :: l) l₁ r → HandlersRan env l₁ := by
      intro l₁ r hran
      rcases hran.act_tryCatch with ⟨_, hended, -⟩ | ⟨l₂, err, hthrew, hcaught⟩
      · exact hbegun.attemptEvent rfl hended
      · exact (hbegun.attemptEvent rfl hthrew).attemptFailed hcaught
    rcases hran.act_bind with ⟨l₁, _, hran, hrest⟩ | ⟨err, hran, -⟩
    · exact ih (hattempt hran) hrest
    · exact hattempt hran

/-- A retry pass that has ended has run the handler on every event it has begun to handle. -/
theorem retryInbox_handlersRan {r : Except Fault Unit} (hran : Ran (retryInbox env).run [] l r) :
    HandlersRan env l := by
  obtain ⟨x, now, hran⟩ := ran_tell_bind hran
  have hbegun : HandlersRan env [⟨.proc .now, (x, now)⟩] := handlersRan_nil.cons id
  rcases ran_await_bind hran with ⟨events, now', hran⟩ | ⟨e, now', rfl, -⟩
  · exact (hbegun.cons id).retryEvents hran
  · exact hbegun.cons id

end

end CashbackLedger
