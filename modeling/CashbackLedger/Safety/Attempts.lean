import CashbackLedger.Safety.DeadLetter
import CashbackLedger.Safety.Delivery

/-
  Retry attempts on a credited order.

  An attempt of the retry loop on an order that has its CREDIT entry always fails: the insert is
  refused and the handler throws. The loop counts that as a failed attempt, and after
  `maxAttempts` of them it marks the row FAILED and sends the dead letter, although the order is
  credited. An attempt comes to work on a credited order when it starts on one, when another
  process credits the order meanwhile, when its own commit loses its reply or its PROCESSED mark
  fails. In the runs in which none of this happens an attempt that may still fail works on an
  order without a credit (`AttemptsUncredited`), and no credited order is dead-lettered
  (`credited_not_dead_lettered`).
-/

namespace CashbackLedger

open Lib History

/-- The order that the payload of the event names has its CREDIT entry. -/
def World.Credits (env : Env) (w : World) (e : InboxEvent) : Prop :=
  ∃ id, readId env (e.payload.field "orderId") = some id ∧ w.HasCredit id

instance (w : World) (id : Uuid) : Decidable (w.HasCredit id) :=
  decidable_of_iff (w.ledger.any (fun e => e.orderId == id && e.type == .CREDIT) = true) (by
    simp only [Table.any_iff, World.HasCredit, Bool.and_eq_true, beq_iff_eq])

instance (env : Env) (w : World) (e : InboxEvent) : Decidable (w.Credits env e) :=
  decidable_of_iff (∃ id ∈ readId env (e.payload.field "orderId"), w.HasCredit id) Iff.rfl

/-- The event of the attempt that a live pass has under way. -/
def attempted : Option Process → Option InboxEvent
  | some ⟨.retryInbox, _, .call (.proc (.inboxRetriesInc _)) _, true⟩ => none
  | some ⟨.retryInbox, l, .call _ _, true⟩ => History.attempting l
  | _ => none

/-- The order whose CREDIT entry the next call of `p` commits. -/
def crediting (s : State) (p : Pid) : Option Uuid :=
  match s.nextCall p, s.world.txOf p with
  | some (.tx .commit), some ⟨[.ledger entry], false⟩ => some entry.orderId
  | _, _ => none

/-- An attempt starts only on an order without a credit. -/
def startsUncredited (env : Env) (s : State) : Step → Bool
  | .step p _ =>
      match s.nextCall p with
      | some (.proc (.inboxRetriesInc e)) => !decide (s.world.Credits env e)
      | _ => true
  | _ => true

/-- Nobody credits an order while another process has an attempt on it under way. -/
def CreditsAlone (env : Env) (s : State) : Step → Prop
  | .step p ch => ∀ id, crediting s p = some id → (∀ m, ch.fate ≠ .fail m) →
      ∀ q e, q ≠ p → attempted (s.proc q) = some e →
        readId env (e.payload.field "orderId") ≠ some id
  | _ => True

/-- The commit of an attempt does not lose its reply, and its PROCESSED mark does not fail. -/
def settlesReliably (s : State) : Step → Bool
  | .step p ch =>
      match attempted (s.proc p), s.nextCall p, ch.fate with
      | some _, some (.tx .commit), .lost _ => false
      | some _, some (.inbox (.update _ u)), .fail _ => u.status != some .PROCESSED
      | some _, some (.inbox (.update _ u)), .lost _ => u.status != some .PROCESSED
      | _, _, _ => true
  | _ => true

/-- No attempt comes to work on a credited order. -/
def AttemptsApart (env : Env) (s : State) (lb : Step) : Prop :=
  startsUncredited env s lb = true ∧ CreditsAlone env s lb ∧ settlesReliably s lb = true

/-- Every attempt under way has recorded what it achieved, and its order is uncredited until it
    commits. -/
def AttemptsUncredited (env : Env) (s : State) : Prop :=
  ∀ p pr e, s.proc p = some pr → attempted (some pr) = some e →
    History.markFailed pr.log = false ∧ (History.committed pr.log = false → ¬ s.world.Credits env e)

section

variable {env : Env} {p : Pid} {newId : Uuid} {ch : Choice} {w w' w₁ : World} {t : Task}
  {l : History} {c : Call} {r : Reply c}

/-- The call does not start an attempt. -/
def Continues (c : Call) : Prop := ∀ e, c ≠ .proc (.inboxRetriesInc e)

theorem attempted_call {k : Reply c → Prog Call Reply Outcome} (hc : Continues c) :
    attempted (some ⟨.retryInbox, l, .call c k, true⟩) = History.attempting l := by
  cases c with
  | proc c =>
    cases c with
    | inboxRetriesInc e => exact absurd rfl (hc e)
    | _ => rfl
  | _ => rfl

/-- A process with an attempt under way is a live pass of the retry loop. -/
theorem attempted_some {pr : Process} {e : InboxEvent} (h : attempted (some pr) = some e) :
    ∃ l c k, pr = ⟨.retryInbox, l, .call c k, true⟩ ∧
      Continues c ∧ History.attempting l = some e := by
  unfold attempted at h
  split at h
  · cases h
  · next l c k hne heq =>
    cases heq
    refine ⟨l, c, k, rfl, ?_, h⟩
    rintro e' rfl
    exact hne e' _ rfl HEq.rfl
  · cases h

theorem Continues.not_startsAttempt (h : Continues c) (r : Reply c) : ¬ StartsAttempt ⟨c, r⟩ := by
  cases c with
  | proc c =>
    cases c with
    | inboxRetriesInc e => exact absurd rfl (h e)
    | _ => exact id
  | _ => exact id

/-- A refused commit writes nothing. -/
theorem commit_refused {e : Fault}
    (h : Call.run env p newId w (.tx .commit) = some (w₁, .error e)) : w₁ = w := by
  simp only [Call.run, TxCall.run] at h
  split at h
  · cases h; rfl
  · split at h
    · cases h
    · split at h
      · cases h; rfl
      · cases h

/-- An order gets its credit from a commit that reports it or loses its reply. -/
theorem credit_origin (hs : CommitsShaped p w c) (hx : exec env p c ch w = some (w', r)) {id : Uuid}
    (h : w'.HasCredit id) : w.HasCredit id ∨
      c = .tx .commit ∧ (∃ entry, w.txOf p = some ⟨[.ledger entry], false⟩ ∧ entry.orderId = id) ∧
        (IsCommit ⟨c, r⟩ ∧ ch.fate = .ok ∨ ∃ m, ch.fate = .lost m) := by
  obtain ⟨entry, he, hid, htype⟩ := h
  have hfrom : ∀ {w₁}, Effect p ch.newId w c w₁ → entry ∈ w₁.ledger → w.HasCredit id ∨
      c = .tx .commit ∧ ∃ entry, w.txOf p = some ⟨[.ledger entry], false⟩ ∧ entry.orderId = id := by
    intro w₁ heff he
    rcases heff.ledger_origin he with he | ⟨hc, ⟨ws, ab⟩, hmine, rfl, rfl⟩
    · exact Or.inl ⟨entry, he, hid, htype⟩
    · exact Or.inr ⟨hc, entry, hmine, hid⟩
  cases exec_served hx with
  | @ok w₁ x fate run =>
    rcases hfrom (run_effect hs run) he with hold | ⟨rfl, hmine⟩
    · exact Or.inl hold
    · cases x with
      | ok x => exact Or.inr ⟨rfl, hmine, Or.inl ⟨trivial, fate⟩⟩
      | error err =>
        obtain rfl := commit_refused run
        exact Or.inl ⟨entry, he, hid, htype⟩
  | failed fate => exact Or.inl ⟨entry, he, hid, htype⟩
  | lost fate run =>
    rcases hfrom (run_effect hs run) he with hold | ⟨rfl, hmine⟩
    · exact Or.inl hold
    · exact Or.inr ⟨rfl, hmine, Or.inr ⟨_, fate⟩⟩

/-- The mark of an attempt has not failed, or this call is the mark. -/
theorem markFailed_cons (hc : Continues c) (h : History.markFailed l = false) :
    History.markFailed (⟨c, r⟩ :: l) = false ∨
      ∃ id u err now, (⟨c, r⟩ : Σ c, Reply c) = ⟨.inbox (.update id u), (.error err, now)⟩ ∧
        u.status = some .PROCESSED := by
  obtain ⟨x, now⟩ := r
  cases c with
  | proc c =>
    cases c with
    | inboxRetriesInc e => exact absurd rfl (hc e)
    | _ => exact Or.inl h
  | inbox c =>
    cases c with
    | update id u =>
      cases x with
      | ok row => exact Or.inl h
      | error err =>
        by_cases hu : u.status = some .PROCESSED
        · exact Or.inr ⟨id, u, err, now, rfl, hu⟩
        · refine Or.inl ?_
          simp only [History.markFailed, h, Bool.or_false, beq_eq_false_iff_ne, ne_eq]
          exact hu
    | _ => exact Or.inl h
  | _ => exact Or.inl h

/-- The dead letter is about the row of the attempt. -/
theorem DeadLetters.row {m : KafkaMessage} {e : InboxEvent} (hl : LogSound env w l)
    (h : DeadLetters env l m) (he : e ∈ w.inbox) (hkey : m.key = some e.sourceEventId) :
    ∃ e₀, Attempting l e₀ ∧ Unsettled l ∧ e₀.id = e.id := by
  obtain ⟨e₀, hatt, huns, e₁, he₁, hid, hkey₁⟩ := h.stored hl
  have hsid : e₁.sourceEventId = e.sourceEventId := Option.some_inj.mp (hkey₁.symm.trans hkey)
  have heq : e₁ = e := Table.eq_of_clash he₁ he (by simp [Indexed.clash, hsid])
  exact ⟨e₀, hatt, huns, heq ▸ hid.symm⟩

end

section

variable {env : Env} {ok : State → Step → Prop} {s : State}

/-- An attempt that continues with the call `c` keeps what it knows. -/
theorem attempt_continues {p : Pid} {ch : Choice} {l : History} {c : Call} {r : Reply c}
    {k : Reply c → Prog Call Reply Outcome} {w : World} {e : InboxEvent} (hs : Sound env s)
    (hp : s.proc p = some ⟨.retryInbox, l, .call c k, true⟩) (hc : RetryCall env l c)
    (hx : exec env p c ch s.world = some (w, r)) (hcont : Continues c)
    (he : attempted (s.proc p) = some e) (hmet : settlesReliably s (.step p ch) = true)
    (hmarked : History.markFailed l = false)
    (hfree : History.committed l = false → ¬ s.world.Credits env e) :
    History.markFailed (⟨c, r⟩ :: l) = false ∧
      (History.committed (⟨c, r⟩ :: l) = false → ¬ w.Credits env e) := by
  have hcalls : Task.Calls env .retryInbox l c := hc
  have hshaped := hs.shaped hp hcalls
  simp only [settlesReliably, he, Pool.nextCall_of hp, Prog.next_call] at hmet
  refine ⟨?_, ?_⟩
  · rcases markFailed_cons (r := r) hcont hmarked with hm | ⟨id, u, err, now, heq, hu⟩
    · exact hm
    · -- the mark succeeds: its row is stored
      cases heq
      obtain ⟨-, e₀, hatt, rfl, -⟩ := hc
      obtain ⟨row, hrow, hcore⟩ := hatt.2.row (hs.logs p _ hp)
      cases exec_served hx with
      | ok fate run =>
        obtain ⟨_, hfound⟩ := inboxUpdate_found hrow (InboxEvent.id_of_core hcore) run
        cases hfound
      | failed fate => simp [fate, hu] at hmet
      | lost fate run => simp [fate, hu] at hmet
  · intro hcom hcredits
    obtain ⟨id, hid, hcredit⟩ := hcredits
    rcases credit_origin hshaped hx hcredit with hold | ⟨rfl, -, ⟨hcommit, -⟩ | ⟨m, hlost⟩⟩
    · refine hfree ?_ ⟨id, hid, hold⟩
      by_cases hcommit : IsCommit ⟨c, r⟩
      · obtain ⟨x, now⟩ := r
        cases c with
        | tx c => cases c <;> cases x <;> first | exact hcommit.elim | cases hcom
        | _ => exact hcommit.elim
      · rw [← hcom, committed_cons ⟨hcont.not_startsAttempt r, hcommit⟩]
    · obtain ⟨x, now⟩ := r
      cases x with
      | ok x => cases hcom
      | error err => exact hcommit
    · simp [hlost] at hmet

/-- The attempt of the process that makes the call: it continues, or starts on an uncredited
    order. -/
theorem attempt_call {p : Pid} {ch : Choice} {t : Task} {l : History} {c : Call} {r : Reply c}
    {k : Reply c → Prog Call Reply Outcome} {w : World} {e : InboxEvent}
    (hI : AttemptsUncredited env s) (hs : Sound env s)
    (hp : s.proc p = some ⟨t, l, .call c k, true⟩) (hc : t.Calls env l c)
    (hx : exec env p c ch s.world = some (w, r)) (hmet : AttemptsApart env s (.step p ch))
    (he : attempted (some ⟨t, ⟨c, r⟩ :: l, k r, true⟩) = some e) :
    History.markFailed (⟨c, r⟩ :: l) = false ∧
      (History.committed (⟨c, r⟩ :: l) = false → ¬ w.Credits env e) := by
  obtain ⟨hstarts, -, hsettles⟩ := hmet
  obtain ⟨l', c', k', heq, -, hatt⟩ := attempted_some he
  have ht : t = .retryInbox := congrArg Proc.task heq
  have hl' : ⟨c, r⟩ :: l = l' := congrArg Proc.log heq
  subst ht
  rw [← hl'] at hatt
  by_cases hcont : Continues c
  · rw [attempting_cons (hcont.not_startsAttempt r)] at hatt
    have hatt₀ : attempted (s.proc p) = some e := by rw [hp, attempted_call hcont, hatt]
    obtain ⟨hmarked, hfree⟩ := hI p _ e hp (hp ▸ hatt₀)
    exact attempt_continues hs hp hc hx hcont hatt₀ hsettles hmarked hfree
  · obtain ⟨e', rfl⟩ : ∃ e', c = .proc (.inboxRetriesInc e') := by
      simpa only [Continues, not_forall, not_not, ne_eq] using hcont
    cases hatt
    simp only [startsUncredited, Pool.nextCall_of hp, Prog.next_call, Bool.not_eq_true',
      decide_eq_false_iff_not] at hstarts
    refine ⟨rfl, fun _ hcredits => hstarts ?_⟩
    obtain ⟨id, hid, hcredit⟩ := hcredits
    rcases credit_origin (hs.shaped hp hc) hx hcredit with hold | ⟨hcommit, -⟩
    · exact ⟨id, hid, hold⟩
    · cases hcommit

/-- Nobody credits the order of an attempt that another process has under way. -/
theorem attempt_apart {p q : Pid} {ch : Choice} {t : Task} {l : History} {c : Call} {r : Reply c}
    {k : Reply c → Prog Call Reply Outcome} {w : World} {e : InboxEvent} (hs : Sound env s)
    (hp : s.proc p = some ⟨t, l, .call c k, true⟩) (hc : t.Calls env l c)
    (hx : exec env p c ch s.world = some (w, r)) (hmet : AttemptsApart env s (.step p ch))
    (hq : q ≠ p) (he : attempted (s.proc q) = some e) (hcredits : w.Credits env e) :
    s.world.Credits env e := by
  obtain ⟨-, halone, -⟩ := hmet
  obtain ⟨id, hid, hcredit⟩ := hcredits
  rcases credit_origin (hs.shaped hp hc) hx hcredit with hold | ⟨rfl, ⟨entry, hmine, hentry⟩, hfate⟩
  · exact ⟨id, hid, hold⟩
  · have hcrediting : crediting s p = some id := by
      simp only [crediting, Pool.nextCall_of hp, Prog.next_call, hmine, hentry]
    have hserved : ∀ m, ch.fate ≠ .fail m := by
      intro m hm
      rw [hm] at hfate
      rcases hfate with ⟨-, hf⟩ | ⟨_, hf⟩ <;> cases hf
    exact absurd hid (halone id hcrediting hserved q e hq he)

theorem attemptsUncredited (hok : ∀ s lb, ok s lb → AttemptsApart env s lb)
    (h : Reach (system env) ok (· = initial) s) : AttemptsUncredited env s := by
  refine Reach.invariant (task_sat env) (fun s hs => (fresh_of_initial s hs).1) ?_ ?_ ?_ ?_ ?_ h
  · rintro s rfl p pr e hp
    cases hp
  · intro s p t _ hI _ _ q pr e hq
    refine Pool.forall_put (fun he => ?_) (fun q pr _ hq => hI q pr e hq) q pr hq
    obtain ⟨l, c, k, heq, -, hatt⟩ := attempted_some he
    cases congrArg Proc.log heq
    cases hatt
  · intro s p ch t l c k w r hr hI hmet hp hc hx _
    have hs := sound fresh_of_initial hr
    intro q pr e hq he
    rw [Pool.put_proc] at hq
    split at hq
    · cases hq
      exact attempt_call hI hs hp hc hx (hok _ _ hmet) he
    · next hqp =>
      obtain ⟨hmarked, hfree⟩ := hI q pr e hq he
      exact ⟨hmarked, fun hcom hcredits =>
        hfree hcom (attempt_apart hs hp hc hx (hok _ _ hmet) hqp (hq ▸ he) hcredits)⟩
  · intro s p t l x _ hI _ hp q pr e hq
    refine Pool.forall_put (fun he => ?_) (fun q pr _ hq => hI q pr e hq) q pr hq
    obtain ⟨_, _, _, heq, -⟩ := attempted_some he
    cases congrArg Proc.alive heq
  · intro s o w _ hI _ hw p pr e hp he
    obtain ⟨hmarked, hfree⟩ := hI p pr e hp he
    refine ⟨hmarked, fun hcom hcredits => hfree hcom ?_⟩
    cases o <;> cases hw <;> exact hcredits

/-- A pass has an attempt on the row under way that is not settled. -/
def MayFail (s : State) (id : Uuid) : Prop :=
  ∃ p l c k e, s.proc p = some ⟨.retryInbox, l, .call c k, true⟩ ∧ Continues c ∧ Attempting l e ∧
    Unsettled l ∧ e.id = id

theorem MayFail.uncredited {e : InboxEvent} (hs : Sound env s) (hI : AttemptsUncredited env s)
    (he : e ∈ s.world.inbox) (h : MayFail s e.id) : ¬ s.world.Credits env e := by
  obtain ⟨p, l, c, k, e₀, hp, hcont, hatt, huns, hid⟩ := h
  have hatt₀ : attempted (some ⟨.retryInbox, l, .call c k, true⟩) = some e₀ := by
    rw [attempted_call hcont, hatt.1]
  obtain ⟨hmarked, hfree⟩ := hI p _ e₀ hp hatt₀
  have hcom : History.committed l = false := by
    cases hc : History.committed l with
    | false => rfl
    | true => exact absurd (huns hc) (by rw [hmarked]; exact nofun)
  rintro ⟨id, hread, hcredit⟩
  have hcore := World.HasInbox.core_eq (hatt.2.row (hs.logs p _ hp)) he hid
  rw [(InboxEvent.of_core hcore).2.2.2.1] at hread
  exact hfree hcom ⟨id, hread, hcredit⟩

/-- A row becomes FAILED by an attempt on it that is not settled. -/
theorem failed_step {s' : State} {lb : Step} (h : Reach (system env) ok (· = initial) s)
    (hstep : (system env).step s lb = some s') {e' : InboxEvent} (he' : e' ∈ s'.world.inbox)
    (hf : e'.status = .FAILED) :
    ∃ e ∈ s.world.inbox, e'.core = e.core ∧ (e.status = .FAILED ∨ MayFail s e.id) := by
  have hs := sound fresh_of_initial h
  cases Machine.step_cases hstep with
  | spawn free => exact ⟨e', he', rfl, Or.inl hf⟩
  | crash alive => exact ⟨e', he', rfl, Or.inl hf⟩
  | @move o w moved => cases o <;> cases moved <;> exact ⟨e', he', rfl, Or.inl hf⟩
  | @call p ch t l c k w r at_call served =>
    have hc := (obeys fresh_of_initial h at_call).1
    obtain ⟨w₁, heff, rfl⟩ := exec_effect (hs.shaped at_call hc) served
    rcases heff.inbox_origin he' with
      ⟨e, he, hcore, rfl | ⟨u, rfl, rfl⟩⟩ | ⟨sid, type, payload, -, rfl, -⟩
    · exact ⟨e', he, rfl, Or.inl hf⟩
    · refine ⟨e, he, hcore, ?_⟩
      rcases InboxUpdate.status_apply hf with hold | hu
      · exact Or.inl hold
      · obtain ⟨rfl, huns, e₀, -, hatt, hid, -⟩ := hc.failed hu
        exact Or.inr ⟨p, l, _, k, e₀, at_call, nofun, hatt, huns, hid⟩
    · cases hf

/-- A dead letter is sent by an attempt on its row that is not settled. -/
theorem deadLetter_step {s' : State} {lb : Step} (h : Reach (system env) ok (· = initial) s)
    (hstep : (system env).step s lb = some s') {m : KafkaMessage}
    (hm : s'.world.broker.dlq = s.world.broker.dlq ++ [m]) {e : InboxEvent}
    (he : e ∈ s.world.inbox) (hkey : m.key = some e.sourceEventId) : MayFail s e.id := by
  have hs := sound fresh_of_initial h
  have hnew : s'.world.broker.dlq ≠ s.world.broker.dlq := by
    rw [hm]
    simp
  cases Machine.step_cases hstep with
  | spawn free => exact absurd rfl hnew
  | crash alive => exact absurd rfl hnew
  | @move o w moved => cases o <;> cases moved <;> exact absurd rfl hnew
  | @call p ch t l c k w r at_call served =>
    have hc := (obeys fresh_of_initial h at_call).1
    obtain ⟨w₁, heff, rfl⟩ := exec_effect (hs.shaped at_call hc) served
    rcases heff.dlq_origin with heq | ⟨m', rfl, heq⟩
    · exact absurd heq hnew
    · obtain rfl : m = m' := by simpa using hm.symm.trans heq
      obtain ⟨rfl, hd⟩ := hc.deadLetter
      obtain ⟨e₀, hatt, huns, hsame⟩ := hd.row (hs.logs p _ at_call) he hkey
      exact ⟨p, l, _, k, e₀, at_call, nofun, hatt, huns, hsame⟩

/-- In runs in which no attempt comes to work on a credited order, no step marks the row of a
    credited order FAILED or sends its dead letter, and a PROCESSED row never becomes FAILED
    unless somebody else writes to the topic. -/
theorem credited_not_dead_lettered (env : Env) {ok : State → Step → Prop}
    (hok : ∀ s lb, ok s lb → AttemptsApart env s lb) {s s' : State} {lb : Step}
    (h : Reach (system env) ok (· = initial) s) (hstep : (system env).step s lb = some s') :
    (∀ e ∈ s'.world.inbox, e.status = .FAILED →
      (∃ e₀ ∈ s.world.inbox, e₀.id = e.id ∧ e₀.status = .FAILED) ∨ ¬ s.world.Credits env e) ∧
    (∀ m, s'.world.broker.dlq = s.world.broker.dlq ++ [m] → ∀ e ∈ s.world.inbox,
      m.key = some e.sourceEventId → ¬ s.world.Credits env e) ∧
    ((∀ s lb, ok s lb → ownTopic lb = true) → ∀ e ∈ s.world.inbox, e.status = .PROCESSED →
      ∀ e' ∈ s'.world.inbox, e'.id = e.id → e'.status ≠ .FAILED) := by
  have hs := sound fresh_of_initial h
  have hI := attemptsUncredited hok h
  have hfailed : ∀ e' ∈ s'.world.inbox, e'.status = .FAILED →
      ∃ e ∈ s.world.inbox, e'.core = e.core ∧ (e.status = .FAILED ∨ ¬ s.world.Credits env e) := by
    intro e' he' hf
    obtain ⟨e, he, hcore, hst⟩ := failed_step h hstep he' hf
    exact ⟨e, he, hcore, hst.imp_right fun hmay => hmay.uncredited hs hI he⟩
  refine ⟨fun e' he' hf => ?_, fun m hm e he hkey => ?_, fun hown e he hproc e' he' hid hf => ?_⟩
  · obtain ⟨e, he, hcore, hst | hnone⟩ := hfailed e' he' hf
    · exact Or.inl ⟨e, he, (InboxEvent.id_of_core hcore).symm, hst⟩
    · refine Or.inr ?_
      unfold World.Credits
      rw [(InboxEvent.of_core hcore).2.2.2.1]
      exact hnone
  · exact (deadLetter_step h hstep hm he hkey).uncredited hs hI he
  · obtain ⟨e₁, he₁, hcore, hst⟩ := hfailed e' he' hf
    have heq : e₁ = e := Table.eq_of_clash he₁ he (by
      simp [Indexed.clash, (InboxEvent.id_of_core hcore).symm.trans hid])
    rw [heq] at hst
    rcases hst with hst | hnone
    · rw [hproc] at hst
      cases hst
    · exact hnone ((stores hown h).processed e he hproc)

end

/-! ## A credited order -/

open Platform in
/-- The consumer credits the order and dies before it marks its row PROCESSED. -/
def creditUnmarked : List Step :=
  createAndConfirm ++ publishEvent ++ .spawn 3 (.consume 0) :: serves 3 11 ++ [.crash 3]

open Platform in
/-- A minute later, retry pass `p` makes `n` calls, none of which fails. -/
def retryPass (p : Pid) (n : Nat) : List Step :=
  .move (.tick 60000) :: .spawn p .retryInbox :: serves p n

/-- Four passes count a failed attempt each; pass 8 is about to mark the row FAILED. -/
def lastAttempt : List Step :=
  creditUnmarked ++ [4, 5, 6, 7].flatMap (fun p => retryPass p 15) ++ retryPass 8 14

open Platform in
/-- The row of a credited order is marked FAILED, and its dead letter is sent. -/
theorem credited_dead_lettered :
    ∃ s s' s'', Reach (system (platform id)) (fun _ lb => ownTopic lb = true) (· = initial) s ∧
      (system (platform id)).step s (serve 8) = some s' ∧
      (system (platform id)).step s' (serve 8) = some s'' ∧
      (∃ e ∈ s.world.inbox, e.status = .PENDING ∧ s.world.Credits (platform id) e ∧
        ∃ e' ∈ s'.world.inbox, e'.id = e.id ∧ e'.status = .FAILED) ∧
      ∃ m, s''.world.broker.dlq = s'.world.broker.dlq ++ [m] ∧
        ∃ e ∈ s'.world.inbox, m.key = some e.sourceEventId ∧ s'.world.Credits (platform id) e := by
  have hrun :
      (((system (platform id)).runChecked 9 (fun _ lb => ownTopic lb) initial lastAttempt).bind
      fun s => ((system (platform id)).step s (serve 8)).bind
      fun s' => ((system (platform id)).step s' (serve 8)).map fun s'' =>
        ((s.world.inbox.rows.any fun e => e.status == .PENDING &&
            decide (s.world.Credits (platform id) e) &&
            s'.world.inbox.rows.any fun e' => e'.id == e.id && e'.status == .FAILED),
          (s''.world.broker.dlq.drop s'.world.broker.dlq.length).length,
          (s''.world.broker.dlq.drop s'.world.broker.dlq.length).all fun m =>
            s'.world.inbox.rows.any fun e => m.key == some e.sourceEventId &&
              decide (s'.world.Credits (platform id) e))) =
      some (true, 1, true) := by decide +kernel
  obtain ⟨s, hs, hrun⟩ := Option.bind_eq_some_iff.mp hrun
  obtain ⟨s', hs', hrun⟩ := Option.bind_eq_some_iff.mp hrun
  obtain ⟨s'', hs'', heq⟩ := Option.map_eq_some_iff.mp hrun
  simp only [Prod.mk.injEq] at heq
  obtain ⟨hmarked, hlength, hsent⟩ := heq
  have hreach : Reach (system (platform id)) (fun _ lb => ownTopic lb = true) (· = initial) s :=
    (Check.of fun _ lb => ownTopic lb).reach hs (initial_below 9)
  refine ⟨s, s', s'', hreach, hs', hs'', ?_, ?_⟩
  · obtain ⟨e, he, hk⟩ := List.any_eq_true.mp hmarked
    simp only [Bool.and_eq_true, beq_iff_eq, decide_eq_true_eq] at hk
    obtain ⟨⟨hst, hcredits⟩, hany⟩ := hk
    obtain ⟨e', he', hk'⟩ := List.any_eq_true.mp hany
    exact ⟨e, he, hst, hcredits, e', he', by simpa using hk'⟩
  · obtain ⟨m, hm⟩ := List.length_eq_one_iff.mp hlength
    obtain ⟨tail, htail⟩ := (step_extends fresh_of_initial
      (hreach.next (by rfl : ownTopic (serve 8) = true) hs') hs'').dlq
    rw [← htail, List.drop_left] at hm hsent
    rw [hm] at hsent
    refine ⟨m, by rw [← htail, hm], ?_⟩
    obtain ⟨e, he, hk⟩ :=
      List.any_eq_true.mp (List.all_eq_true.mp hsent m (List.mem_singleton_self m))
    exact ⟨e, he, by simpa using hk⟩

/-- The process that makes a step, and the order that it credits with it. -/
def creditingOf (s : State) : Step → Option (Pid × Uuid)
  | .step p _ => (crediting s p).map fun id => (p, id)
  | _ => none

def creditsAloneCheck (env : Env) (n : Nat) : Check n (CreditsAlone env) :=
  (Check.others creditingOf
    (fun pr => (attempted pr).bind fun e => readId env (e.payload.field "orderId")) rfl).imp
      fun s lb h => by
    cases lb with
    | step p ch =>
      intro id hid _ q e hq he
      have hother := h p id (by simp [creditingOf, hid]) q hq
      simpa [he] using hother
    | _ => trivial

def attemptsApartCheck (env : Env) (n : Nat) : Check n (AttemptsApart env) :=
  (Check.of (startsUncredited env)).and ((creditsAloneCheck env n).and (Check.of settlesReliably))

open Platform in
/-- An event whose attempts fail without a credit is marked FAILED. -/
theorem credited_not_dead_lettered_run :
    ∃ s s', Reach (system (platform id))
        (fun s lb => ownTopic lb = true ∧ AttemptsApart (platform id) s lb) (· = initial) s ∧
      (system (platform id)).step s (serve 8) = some s' ∧
      ∃ e ∈ s'.world.inbox, e.status = .FAILED ∧ ¬ s.world.Credits (platform id) e := by
  let check := (Check.of fun _ lb => ownTopic lb).and (attemptsApartCheck (platform id) 9)
  have hrun : (((system (platform id)).runChecked 9 check.test initial usedUp.dropLast).bind
        fun s => ((system (platform id)).step s (serve 8)).map fun s' =>
          (s.world.inbox.rows.all fun e => e.status == .PENDING,
            s'.world.inbox.rows.any fun e => e.status == .FAILED)) = some (true, true) := by
    decide +kernel
  obtain ⟨s, hs, hrun⟩ := Option.bind_eq_some_iff.mp hrun
  obtain ⟨s', hs', heq⟩ := Option.map_eq_some_iff.mp hrun
  obtain ⟨hpending, hany⟩ := Prod.mk.inj heq
  obtain ⟨e, he, hf⟩ := List.any_eq_true.mp hany
  have hreach := check.reach hs (initial_below 9)
  have hstatus : e.status = .FAILED := by simpa using hf
  refine ⟨s, s', hreach, hs', e, he, hstatus, ?_⟩
  rcases (credited_not_dead_lettered (platform id) (fun _ _ hmet => hmet.2) hreach hs').1
    e he hstatus
    with ⟨e₀, he₀, -, hf₀⟩ | hnone
  · have hst : e₀.status = .PENDING := by simpa using List.all_eq_true.mp hpending e₀ he₀
    rw [hst] at hf₀
    cases hf₀
  · exact hnone

end CashbackLedger
