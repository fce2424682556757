import CashbackLedger.Run.Effects

/-
  What a process knows from its own log.

  `History.tx` computes the transaction a process has open from the replies it received, `Got`
  and `Issued` say what it was told and what it asked for. The rules below turn a `Sat` goal
  about an async function into goals about its awaited calls.
-/

namespace CashbackLedger

open Lib

namespace History

/-- The transaction a process has open, by its log. -/
def tx : History → Option Tx
  | [] => none
  | ⟨c, r⟩ :: l => c.txAfter r.1 (tx l)

/-- The event of the retry attempt that is under way. -/
def attempting : History → Option InboxEvent
  | [] => none
  | ⟨.proc (.inboxRetriesInc e), _⟩ :: _ => some e
  | _ :: l => attempting l

/-- Has the attempt under way committed? -/
def committed : History → Bool
  | [] => false
  | ⟨.proc (.inboxRetriesInc _), _⟩ :: _ => false
  | ⟨.tx .commit, (.ok _, _)⟩ :: _ => true
  | _ :: l => committed l

/-- Has the attempt under way failed to mark its row PROCESSED? -/
def markFailed : History → Bool
  | [] => false
  | ⟨.proc (.inboxRetriesInc _), _⟩ :: _ => false
  | ⟨.inbox (.update _ u), (.error _, _)⟩ :: l => u.status == some .PROCESSED || markFailed l
  | _ :: l => markFailed l

/-- Has the process just marked a row FAILED? -/
def parked : History → Bool
  | ⟨.inbox (.update _ u), (.ok _, _)⟩ :: _ => u.status == some .FAILED
  | _ => false

/-- The outbox row the process has claimed and not yet marked, and whether its message is out. -/
def claiming : History → Option (Uuid × Bool)
  | [] => none
  | ⟨.outbox (.claim id), (.ok n, _)⟩ :: l => if n = 0 then claiming l else some (id, false)
  | ⟨.kafka (.send .events _), (.ok _, _)⟩ :: l => (claiming l).map fun x => (x.1, true)
  | ⟨.outbox (.update _ _), _⟩ :: _ => none
  | _ :: l => claiming l

/-- The outbox rows the process has claimed. -/
def claims : History → List Uuid
  | [] => []
  | ⟨.outbox (.claim id), (.ok n, _)⟩ :: l => if n = 0 then claims l else id :: claims l
  | _ :: l => claims l

/-- The order that the open transaction has read as CREATED. -/
def readCreated : History → Option Uuid
  | [] => none
  | ⟨.tx (.stmt (.orderFindUnique _)), (.ok (some o), _)⟩ :: _ =>
      if o.status = .CREATED then some o.id else none
  | ⟨.tx .begin, _⟩ :: _ => none
  | ⟨.tx .commit, _⟩ :: _ => none
  | ⟨.tx .rollback, _⟩ :: _ => none
  | _ :: l => readCreated l

/-- The orders the process has read as CREATED in a transaction that was committed. -/
def confirmed : History → List Uuid
  | [] => []
  | ⟨.tx .commit, (.ok _, _)⟩ :: l => (readCreated l).toList ++ confirmed l
  | _ :: l => confirmed l

/-- The key a request has looked up in vain and not saved since. -/
def missed : History → Option (String × String)
  | [] => none
  | ⟨.idem (.findUnique key scope), (.ok none, _)⟩ :: _ => some (key, scope)
  | ⟨.idem (.upsert _), _⟩ :: _ => none
  | _ :: l => missed l

/-- What a transaction adds to the outbox. -/
def events (tx : Tx) : List OutboxEvent :=
  if tx.aborted then []
  else tx.writes.filterMap fun
    | .outbox e => some e
    | _ => none

/-- The orders and the events that the process was told are stored. -/
def made : History → List (Order ⊕ OutboxEvent)
  | [] => []
  | ⟨.orders (.create _), (.ok o, _)⟩ :: l => .inl o :: made l
  | ⟨.tx .commit, (.ok _, _)⟩ :: l => ((tx l).elim [] events).map .inr ++ made l
  | _ :: l => made l

/-- The call was answered with `x`. -/
def Got (l : History) (c : Call) (x : c.Result) : Prop :=
  ∃ now, (⟨c, (.ok x, now)⟩ : Σ c, Reply c) ∈ l

/-- The call failed with `e`. -/
def Failed (l : History) (c : Call) (e : Fault) : Prop :=
  ∃ now, (⟨c, (.error e, now)⟩ : Σ c, Reply c) ∈ l

/-- The call was issued. -/
def Issued (l : History) (c : Call) : Prop := ∃ r, (⟨c, r⟩ : Σ c, Reply c) ∈ l

/-- Some call has failed. -/
def AnyFailed (l : History) : Prop := ∃ c err, Failed l c err

variable {l l' : History} {c : Call}

theorem Got.mono {x : c.Result} (h : Got l c x) (hl : l <:+ l') : Got l' c x := by
  obtain ⟨now, hm⟩ := h
  exact ⟨now, hl.subset hm⟩

theorem Failed.mono {e : Fault} (h : Failed l c e) (hl : l <:+ l') : Failed l' c e := by
  obtain ⟨now, hm⟩ := h
  exact ⟨now, hl.subset hm⟩

theorem Issued.mono (h : Issued l c) (hl : l <:+ l') : Issued l' c := by
  obtain ⟨r, hm⟩ := h
  exact ⟨r, hl.subset hm⟩

theorem Got.issued {x : c.Result} (h : Got l c x) : Issued l c := by
  obtain ⟨now, hm⟩ := h
  exact ⟨_, hm⟩

theorem got_head (x : c.Result) (now : Time) (l : History) :
    Got (⟨c, (.ok x, now)⟩ :: l) c x :=
  ⟨now, List.mem_cons_self⟩

theorem failed_head (e : Fault) (now : Time) (l : History) :
    Failed (⟨c, (.error e, now)⟩ :: l) c e :=
  ⟨now, List.mem_cons_self⟩

theorem issued_head (r : Reply c) (l : History) : Issued (⟨c, r⟩ :: l) c :=
  ⟨r, List.mem_cons_self⟩

theorem Got.cons {x : c.Result} (h : Got l c x) (y : Σ c, Reply c) : Got (y :: l) c x :=
  h.mono (List.suffix_cons y l)

theorem Failed.cons {e : Fault} (h : Failed l c e) (y : Σ c, Reply c) : Failed (y :: l) c e :=
  h.mono (List.suffix_cons y l)

theorem Issued.cons (h : Issued l c) (y : Σ c, Reply c) : Issued (y :: l) c :=
  h.mono (List.suffix_cons y l)

theorem AnyFailed.mono (h : AnyFailed l) (hl : l <:+ l') : AnyFailed l' := by
  obtain ⟨c, err, hf⟩ := h
  exact ⟨c, err, hf.mono hl⟩

theorem anyFailed_head (e : Fault) (now : Time) (l : History) :
    AnyFailed (⟨c, (.error e, now)⟩ :: l) := ⟨c, e, failed_head e now l⟩

theorem not_anyFailed_nil : ¬ AnyFailed [] := by
  rintro ⟨c, err, now, hm⟩
  exact absurd hm List.not_mem_nil

theorem anyFailed_of_cons {x : c.Result} {now : Time} (h : AnyFailed (⟨c, (.ok x, now)⟩ :: l)) :
    AnyFailed l := by
  obtain ⟨c', err, now', hm⟩ := h
  rcases List.mem_cons.mp hm with heq | hm
  · cases heq
  · exact ⟨c', err, now', hm⟩

/-- A log without failures stays so when a call is answered. -/
theorem not_anyFailed_cons (h : ¬ AnyFailed l) (x : c.Result) (now : Time) :
    ¬ AnyFailed (⟨c, (.ok x, now)⟩ :: l) :=
  fun hf => h (anyFailed_of_cons hf)

/-- The open transaction is sound and has written `ws`. -/
def Open (l : History) (ws : List TxWrite) : Prop := l.tx = some { writes := ws, aborted := false }

/-- The open transaction is aborted. -/
def Aborted (l : History) : Prop := ∃ ws, l.tx = some { writes := ws, aborted := true }

variable {ws : List TxWrite}

theorem open_begin (now : Time) (l : History) : Open (⟨.tx .begin, (.ok (), now)⟩ :: l) [] := rfl

theorem Open.stmt (h : Open l ws) (s : TxStmt) (x : s.Result) (now : Time) :
    Open (⟨.tx (.stmt s), (.ok x, now)⟩ :: l) (ws ++ s.write x) := by
  unfold Open at h
  simp only [Open, tx, Call.txAfter, TxCall.after, h, Option.map_some]

theorem Open.failed (h : Open l ws) (s : TxStmt) (e : Fault) (now : Time) :
    Aborted (⟨.tx (.stmt s), (.error e, now)⟩ :: l) := by
  unfold Open at h
  exact ⟨ws, by simp only [tx, Call.txAfter, TxCall.after, h, Option.map_some]⟩

theorem Aborted.stmt (h : Aborted l) (s : TxStmt) (x : s.Result) (now : Time) :
    Aborted (⟨.tx (.stmt s), (.ok x, now)⟩ :: l) := by
  obtain ⟨ws, h⟩ := h
  exact ⟨ws ++ s.write x, by simp only [tx, Call.txAfter, TxCall.after, h, Option.map_some]⟩

theorem Open.redis {c : RedisCall} (h : Open l ws) (r : Reply (.redis c)) :
    Open (⟨.redis c, r⟩ :: l) ws := h

theorem Open.proc {c : LocalCall} (h : Open l ws) (r : Reply (.proc c)) :
    Open (⟨.proc c, r⟩ :: l) ws := h

end History

/-! ## Rules for async functions -/

section

variable {α β : Type} {P : History → Call → Prop} {Q : History → Except Fault α → Prop}
  {l : History}

theorem sat_await_bind {c : Call} {f : c.Result → Async α} (hP : P l c)
    (hok : ∀ x now, Sat P Q (⟨c, (.ok x, now)⟩ :: l) (f x).run)
    (herr : ∀ e now, Q (⟨c, (.error e, now)⟩ :: l) (.error e)) : Sat P Q l (await c >>= f).run := by
  refine ⟨hP, ?_⟩
  rintro ⟨e | x, now⟩
  · exact herr e now
  · exact hok x now

theorem sat_awaitAt_bind {c : Call} {f : c.Result × Time → Async α} (hP : P l c)
    (hok : ∀ x now, Sat P Q (⟨c, (.ok x, now)⟩ :: l) (f (x, now)).run)
    (herr : ∀ e now, Q (⟨c, (.error e, now)⟩ :: l) (.error e)) :
    Sat P Q l (awaitAt c >>= f).run := by
  refine ⟨hP, ?_⟩
  rintro ⟨e | x, now⟩
  · exact herr e now
  · exact hok x now

theorem sat_await {c : Call} {Q : History → Except Fault c.Result → Prop} (hP : P l c)
    (hok : ∀ x now, Q (⟨c, (.ok x, now)⟩ :: l) (.ok x))
    (herr : ∀ e now, Q (⟨c, (.error e, now)⟩ :: l) (.error e)) : Sat P Q l (await c).run := by
  refine ⟨hP, ?_⟩
  rintro ⟨e | x, now⟩
  · exact herr e now
  · exact hok x now

/-- A local step answers with the clock. -/
theorem sat_tell_bind {c : LocalCall} {f : Time → Async α} (hP : P l (.proc c))
    (hk : ∀ r now, Sat P Q (⟨.proc c, (r, now)⟩ :: l) (f now).run) :
    Sat P Q l (tell c >>= f).run := by
  refine ⟨hP, ?_⟩
  rintro ⟨r, now⟩
  exact hk r now

/-- A value computed without a call. -/
theorem sat_ofExcept_bind {x : Except Fault β} {f : β → Async α}
    (hok : ∀ b, x = .ok b → Sat P Q l (f b).run) (herr : ∀ e, x = .error e → Q l (.error e)) :
    Sat P Q l ((MonadExcept.ofExcept x : Async β) >>= f).run := by
  cases x with
  | ok b => exact hok b rfl
  | error e => exact herr e rfl

theorem sat_ofExcept {x : Except Fault α} (h : Q l x) :
    Sat P Q l (MonadExcept.ofExcept x : Async α).run := by
  cases x with
  | ok a => exact h
  | error e => exact h

/-- The rollback after `e`, whatever it replies. -/
def Rolls (P : History → Call → Prop) (Q : History → Except Fault α → Prop) (l : History)
    (e : Fault) : Prop :=
  P l (.tx .rollback) ∧ ∀ r, Q (⟨.tx .rollback, r⟩ :: l) (.error e)

/-- What the body of a transaction has to establish for the whole. -/
def Commits (P : History → Call → Prop) (Q : History → Except Fault (α × Time) → Prop)
    (l : History) : Except Fault α → Prop
  | .ok a => P l (.tx .commit) ∧
      (∀ now, Q (⟨.tx .commit, (.ok (), now)⟩ :: l) (.ok (a, now))) ∧
      ∀ e now, Rolls P Q (⟨.tx .commit, (.error e, now)⟩ :: l) e
  | .error e => Rolls P Q l e

theorem sat_rollback {Q : History → Except Fault α → Prop} {e : Fault} (h : Rolls P Q l e) :
    Sat P Q l ((do
      tryCatch (await (.tx .rollback)) fun _ => pure ()
      throw e : Async α)).run := by
  refine ⟨h.1, ?_⟩
  rintro ⟨e' | x, now⟩ <;> exact h.2 _

/-- The rule for `prisma.$transaction`. -/
theorem sat_transaction {body : Async α} {Q : History → Except Fault (α × Time) → Prop}
    (hbegin : P l (.tx .begin))
    (hfail : ∀ e now, Q (⟨.tx .begin, (.error e, now)⟩ :: l) (.error e))
    (hbody : ∀ now, Sat P (Commits P Q) (⟨.tx .begin, (.ok (), now)⟩ :: l) body.run) :
    Sat P Q l (transaction body).run := by
  refine sat_await_bind hbegin (fun _ now => ?_) hfail
  refine sat_act_tryCatch.mpr (sat_act_bind.mpr ((hbody now).post fun l' r hr => ?_))
  cases r with
  | error e => exact sat_rollback hr
  | ok a =>
    refine sat_awaitAt_bind hr.1 (fun _ now => hr.2.1 now) fun e now => ?_
    exact sat_rollback (hr.2.2 e now)

end

/-! ## Async functions that have run -/

section

variable {α β : Type} {l l' : History}

theorem ran_await {c : Call} {r : Except Fault c.Result} (h : Ran (await c).run l l' r) :
    ∃ now, l' = ⟨c, (r, now)⟩ :: l := by
  cases h with
  | call reply rest =>
    cases rest
    exact ⟨reply.2, rfl⟩

theorem ran_await_bind {c : Call} {f : c.Result → Async α} {r : Except Fault α}
    (h : Ran (await c >>= f).run l l' r) :
    (∃ x now, Ran (f x).run (⟨c, (.ok x, now)⟩ :: l) l' r) ∨
      ∃ e now, l' = ⟨c, (.error e, now)⟩ :: l ∧ r = .error e := by
  rcases h.act_bind with ⟨l₁, x, hx, hf⟩ | ⟨e, hx, hr⟩
  · obtain ⟨now, rfl⟩ := ran_await hx
    exact Or.inl ⟨x, now, hf⟩
  · obtain ⟨now, rfl⟩ := ran_await hx
    exact Or.inr ⟨e, now, rfl, hr⟩

theorem ran_awaitAt_bind {c : Call} {f : c.Result × Time → Async α} {r : Except Fault α}
    (h : Ran (awaitAt c >>= f).run l l' r) :
    (∃ x now, Ran (f (x, now)).run (⟨c, (.ok x, now)⟩ :: l) l' r) ∨
      ∃ e now, l' = ⟨c, (.error e, now)⟩ :: l ∧ r = .error e := by
  cases h with
  | call reply rest =>
    obtain ⟨e | x, now⟩ := reply
    · cases rest
      exact Or.inr ⟨e, now, rfl, rfl⟩
    · exact Or.inl ⟨x, now, rest⟩

theorem ran_tell_bind {c : LocalCall} {f : Time → Async α} {r : Except Fault α}
    (h : Ran (tell c >>= f).run l l' r) :
    ∃ x now, Ran (f now).run (⟨.proc c, (x, now)⟩ :: l) l' r := by
  cases h with
  | call reply rest => exact ⟨reply.1, reply.2, rest⟩

theorem ran_ofExcept_bind {x : Except Fault β} {f : β → Async α} {r : Except Fault α}
    (h : Ran ((MonadExcept.ofExcept x : Async β) >>= f).run l l' r) :
    (∃ b, x = .ok b ∧ Ran (f b).run l l' r) ∨ ∃ e, x = .error e ∧ l' = l ∧ r = .error e := by
  cases x with
  | ok b => exact Or.inl ⟨b, rfl, h⟩
  | error e =>
    cases h
    exact Or.inr ⟨e, rfl, rfl, rfl⟩

/-- A transaction has failed to begin, or has run its body, and after it the commit. -/
theorem ran_transaction {body : Async α} {r : Except Fault (α × Time)}
    (h : Ran (transaction body).run l l' r) :
    (∃ e now, l' = ⟨.tx .begin, (.error e, now)⟩ :: l) ∨
      ∃ begun l₁ x, Ran body.run (⟨.tx .begin, (.ok (), begun)⟩ :: l) l₁ x ∧ l₁ <:+ l' ∧
        ∀ a, x = .ok a → ∃ y now, (⟨.tx .commit, (y, now)⟩ :: l₁) <:+ l' := by
  rcases ran_await_bind h with ⟨_, begun, h⟩ | ⟨e, now, rfl, -⟩
  · refine Or.inr ⟨begun, ?_⟩
    rcases h.act_tryCatch with ⟨a, h, -⟩ | ⟨l₁, e, h, hrolled⟩
    · rcases h.act_bind with ⟨l₂, x, hbody, hcommit⟩ | ⟨e, -, heq⟩
      · refine ⟨l₂, .ok x, hbody, hcommit.suffix, fun _ _ => ?_⟩
        rcases ran_awaitAt_bind hcommit with ⟨y, now, h⟩ | ⟨e, now, -, heq⟩
        · exact ⟨.ok y, now, h.suffix⟩
        · cases heq
      · cases heq
    · rcases h.act_bind with ⟨l₂, x, hbody, hcommit⟩ | ⟨e, hbody, -⟩
      · refine ⟨l₂, .ok x, hbody, hcommit.suffix.trans hrolled.suffix, fun _ _ => ?_⟩
        rcases ran_awaitAt_bind hcommit with ⟨y, now, h⟩ | ⟨e, now, rfl, -⟩
        · exact ⟨.ok y, now, h.suffix.trans hrolled.suffix⟩
        · exact ⟨.error e, now, hrolled.suffix⟩
      · exact ⟨l₁, .error e, hbody, hrolled.suffix, nofun⟩
  · exact Or.inl ⟨e, now, rfl⟩

end

end CashbackLedger
