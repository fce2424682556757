import CashbackLedger.Safety.Confirmation

/-
  Parked inbox rows and the dead-letter topic.

  The retry loop parks a row in two steps: it marks the row FAILED, then it sends the dead
  letter. Only a PENDING row is selected again, so whatever stops the second step after the
  first has taken effect leaves a parked row without a dead letter. `parksSafely` excludes
  exactly these steps; in the runs that are left `Parked` is invariant.
-/

namespace CashbackLedger

open Lib History

/-- No step separates the FAILED mark from the dead letter: the mark does not lose its reply, the
    send does not fail, and no process dies with the send as its next call. -/
def parksSafely (s : State) : Step → Bool
  | .step p ch =>
      match s.nextCall p, ch.fate with
      | some (.inbox (.update _ u)), .lost _ => u.status != some .FAILED
      | some (.kafka (.send .dlq _)), .fail _ => false
      | _, _ => true
  | .crash p =>
      match s.nextCall p with
      | some (.kafka (.send .dlq _)) => false
      | _ => true
  | _ => true

/-- A pass of the retry loop is in the middle of handling the row. -/
def Retrying (s : State) (id : Uuid) : Prop :=
  ∃ p l c k e, s.proc p = some ⟨.retryInbox, l, .call c k, true⟩ ∧ History.attempting l = some e ∧
    e.id = id

/-- The row has a message on the DLQ topic. -/
def World.DeadLettered (w : World) (sourceEventId : String) : Prop :=
  ∃ m ∈ w.broker.dlq, m.key = some sourceEventId

/-- The last call of the log marked the row of the attempt under way FAILED. -/
def JustParked (l : History) (id : Uuid) : Prop :=
  ∃ u row now l' e, l = ⟨.inbox (.update id u), (.ok row, now)⟩ :: l' ∧ u.status = some .FAILED ∧
    History.attempting l = some e ∧ e.id = id

/-- A live pass has just parked the row. -/
def Parking (s : State) (id : Uuid) : Prop :=
  ∃ p l x, s.proc p = some ⟨.retryInbox, l, x, true⟩ ∧ JustParked l id

/-- Every FAILED row has its dead letter, or the pass that is about to send it. -/
def Parked (s : State) : Prop :=
  ∀ e ∈ s.world.inbox, e.status = .FAILED →
    s.world.DeadLettered e.sourceEventId ∨ Parking s e.id

section

variable {env : Env} {l : History} {id : Uuid}

theorem JustParked.parked (h : JustParked l id) : History.parked l = true := by
  obtain ⟨u, row, now, l', e, rfl, hu, -, -⟩ := h
  simp only [History.parked, hu, beq_self_eq_true]

/-- After the mark only the dead letter may follow. -/
theorem RetryCall.deadLetters {c : Call} (h : RetryCall env l c) (hp : History.parked l = true) :
    ∃ m, c = .kafka (.send .dlq m) ∧ DeadLetters env l m := by
  have hcalm : ∀ {q : Prop}, History.parked l = false ∧ q →
      ∃ m, c = .kafka (.send .dlq m) ∧ DeadLetters env l m := by
    rintro q ⟨hf, -⟩
    rw [hf] at hp
    cases hp
  cases c with
  | kafka c =>
    cases c with
    | send topic m =>
      cases topic with
      | events => exact hcalm h
      | dlq => exact ⟨m, rfl, h⟩
    | _ => exact hcalm h
  | proc c =>
    cases c with
    | now =>
      have hf : History.parked l = false := h
      rw [hf] at hp
      cases hp
    | _ => exact hcalm h
  | inbox c => cases c <;> exact hcalm h
  | _ => exact hcalm h

/-- A process that has just parked a row is about to send its dead letter. -/
theorem JustParked.next {x : Prog Call Reply Outcome} (h : JustParked l id)
    (hx : Sat (Task.Calls env .retryInbox) (Task.Ends env .retryInbox) l x) :
    ∃ m k, x = .call (.kafka (.send .dlq m)) k ∧ DeadLetters env l m := by
  cases x with
  | ret a =>
    have hend : History.parked l = false := hx
    rw [h.parked] at hend
    cases hend
  | call c k =>
    obtain ⟨m, rfl, hm⟩ := RetryCall.deadLetters hx.1 h.parked
    exact ⟨m, k, rfl, hm⟩

/-- The dead letter announces the stored row of the attempt. -/
theorem DeadLetters.stored {w : World} {m : KafkaMessage} (hl : LogSound env w l)
    (h : DeadLetters env l m) : ∃ e₀, Attempting l e₀ ∧ Unsettled l ∧
      ∃ e ∈ w.inbox, e.id = e₀.id ∧ m.key = some e.sourceEventId := by
  obtain ⟨e₀, updated, row, now, now', l', rfl, hatt, huns, ⟨err, now₁, l₂, rfl⟩, rfl⟩ := h
  have hgot : Got (⟨.inbox (.update e₀.id (countFailure err)), (.ok updated, now₁)⟩ :: l₂)
      (.inbox (.update e₀.id (countFailure err))) updated := got_head _ _ _
  obtain ⟨_, ⟨e, he, hcore⟩, hid⟩ := hl.got (hgot.cons _)
  refine ⟨e₀, hatt, huns, e, he, (InboxEvent.id_of_core hcore).trans hid, ?_⟩
  rw [(InboxEvent.of_core hcore).2.1]
  rfl

/-- The dead letter is for the row that was parked. -/
theorem JustParked.key {w : World} {m : KafkaMessage} {e : InboxEvent} (hl : LogSound env w l)
    (h : JustParked l e.id) (hm : DeadLetters env l m) (he : e ∈ w.inbox) :
    m.key = some e.sourceEventId := by
  obtain ⟨u, row, now, l', e₁, -, -, hatt, hid⟩ := h
  obtain ⟨e₀, hatt₀, -, e₂, he₂, hid₂, hkey⟩ := hm.stored hl
  obtain rfl : e₀ = e₁ := Option.some_inj.mp (hatt₀.1.symm.trans hatt)
  have heq : e₂ = e := Table.eq_of_clash he₂ he (by simp [Indexed.clash, hid₂, hid])
  rw [hkey, heq]

end

section

variable {env : Env} {p : Pid} {ch : Choice} {w w' : World} {c : Call} {r : Reply c}

/-- A FAILED row was FAILED before, or this call has marked it and was told so. -/
theorem failed_origin (hs : CommitsShaped p w c) (hx : exec env p c ch w = some (w', r))
    (hsafe : ∀ id u m, c = .inbox (.update id u) → ch.fate = .lost m → u.status ≠ some .FAILED)
    {e' : InboxEvent} (he' : e' ∈ w'.inbox) (hf : e'.status = .FAILED) :
    (∃ e ∈ w.inbox, e'.core = e.core ∧ e.status = .FAILED) ∨
      ∃ u row now, (⟨c, r⟩ : Σ c, Reply c) = ⟨.inbox (.update e'.id u), (.ok row, now)⟩ ∧
        u.status = some .FAILED := by
  have hmark : ∀ {w₁}, Effect p ch.newId w c w₁ → e' ∈ w₁.inbox →
      (∃ e ∈ w.inbox, e'.core = e.core ∧ e.status = .FAILED) ∨
        ∃ e ∈ w.inbox, ∃ u, e.id = e'.id ∧ c = .inbox (.update e.id u) ∧
          u.status = some .FAILED := by
    intro w₁ heff he'
    rcases heff.inbox_origin he' with
      ⟨e, he, hcore, rfl | ⟨u, rfl, rfl⟩⟩ | ⟨sid, type, payload, -, rfl, -⟩
    · exact Or.inl ⟨e', he, rfl, hf⟩
    · rcases InboxUpdate.status_apply hf with hold | hu
      · exact Or.inl ⟨e, he, hcore, hold⟩
      · exact Or.inr ⟨e, he, u, rfl, rfl, hu⟩
    · cases hf
  cases exec_served hx with
  | ok fate run =>
    rcases hmark (run_effect hs run) he' with hold | ⟨e, he, u, hid, rfl, hu⟩
    · exact Or.inl hold
    · obtain ⟨row, rfl⟩ := inboxUpdate_found he rfl run
      exact Or.inr ⟨u, row, w.clock, by rw [hid], hu⟩
  | failed fate => exact Or.inl ⟨e', he', rfl, hf⟩
  | lost fate run =>
    rcases hmark (run_effect hs run) he' with hold | ⟨e, he, u, hid, rfl, hu⟩
    · exact Or.inl hold
    · exact absurd hu (hsafe _ u _ rfl fate)

theorem World.DeadLettered.mono {sid : String} (h : w.DeadLettered sid) (hw : w.Extends w') :
    w'.DeadLettered sid := by
  obtain ⟨m, hm, hk⟩ := h
  exact ⟨m, hw.dlq.subset hm, hk⟩

/-- A send to the DLQ topic that does not fail puts the message there. -/
theorem deadLetter_sent {m : KafkaMessage} {r : Reply (.kafka (.send .dlq m))}
    (hx : exec env p (.kafka (.send .dlq m)) ch w = some (w', r))
    (hsafe : ∀ msg, ch.fate ≠ .fail msg) : m ∈ w'.broker.dlq := by
  have hrun : ∀ {w₁ : World} {x : Except Fault Unit},
      Call.run env p ch.newId w (.kafka (.send .dlq m)) = some (w₁, x) → m ∈ w₁.broker.dlq := by
    intro w₁ x h
    cases h
    exact List.mem_append_right _ (List.mem_singleton_self m)
  cases exec_served hx with
  | ok fate run =>
    have hm := hrun run
    exact hm
  | failed fate => exact absurd fate (hsafe _)
  | lost fate run =>
    have hm := hrun run
    exact hm

end

section

variable {env : Env} {s : State}

/-- What happens to a parking pass in a step of another process. -/
theorem Parking.put {id : Uuid} {w : World} {p : Pid} {pr : Process}
    (h : ∃ q l x, q ≠ p ∧ s.proc q = some ⟨.retryInbox, l, x, true⟩ ∧ JustParked l id) :
    Parking (s.put w p pr) id := by
  obtain ⟨q, l, x, hq, hp, hl⟩ := h
  exact ⟨q, l, x, (Pool.put_other s w p pr hq).trans hp, hl⟩

/-- A call that may mark a row or send its dead letter keeps FAILED rows accounted for. -/
theorem Parked.call {p : Pid} {ch : Choice} {t : Task} {l : History} {c : Call}
    {k : Reply c → Prog Call Reply Outcome} {w : World} {r : Reply c} (hI : Parked s)
    (hs : Sound env s) (hp : s.proc p = some ⟨t, l, .call c k, true⟩) (hc : t.Calls env l c)
    (hsafe : parksSafely s (.step p ch) = true) (hx : exec env p c ch s.world = some (w, r)) :
    Parked (s.put w p ⟨t, ⟨c, r⟩ :: l, k r, true⟩) := by
  have hshaped := hs.shaped hp hc
  have hw := exec_extends hshaped hx
  simp only [parksSafely, Pool.nextCall_of hp, Prog.next_call] at hsafe
  have hlost : ∀ id u m, c = .inbox (.update id u) →
      ch.fate = .lost m → u.status ≠ some .FAILED := by
    rintro id u m rfl hfate
    rw [hfate] at hsafe
    simpa using hsafe
  intro e' he' hf
  rw [Pool.put_world] at he' ⊢
  rcases failed_origin hshaped hx hlost he' hf with ⟨e, he, hcore, hst⟩ | ⟨u, row, now, heq, hu⟩
  · obtain ⟨hid, hsid, -⟩ := InboxEvent.of_core hcore
    rw [hsid, hid]
    rcases hI e he hst with hdone | ⟨q, l', x, hq, hl'⟩
    · exact Or.inl (World.DeadLettered.mono hdone hw)
    · by_cases hqp : q = p
      · -- the parking pass itself: its next call is the dead letter, and it is sent
        subst hqp
        rw [hp] at hq
        cases hq
        obtain ⟨m, hm, hd⟩ := RetryCall.deadLetters hc hl'.parked
        subst hm
        refine Or.inl ⟨m, deadLetter_sent hx ?_, hl'.key (hs.logs q _ hp) hd he⟩
        intro msg hfate
        rw [hfate] at hsafe
        cases hsafe
      · exact Or.inr (Parking.put ⟨q, l', x, hqp, hq, hl'⟩)
  · cases heq
    obtain ⟨rfl, -, e, -, hatt, hid, -⟩ := hc.failed hu
    exact Or.inr ⟨p, _, _, Pool.put_self _ _ _ _, u, row, now, l, e, rfl, hu, hatt.1, hid⟩

/-- A parking pass does not die before its dead letter. -/
theorem Parked.crash {p : Pid} {t : Task} {l : History} {x : Prog Call Reply Outcome} {w : World}
    (hI : Parked s) (hp : s.proc p = some ⟨t, l, x, true⟩)
    (hsat : Sat (t.Calls env) (t.Ends env) l x) (hsafe : parksSafely s (.crash p) = true)
    (hinbox : w.inbox = s.world.inbox) (hdlq : w.broker.dlq = s.world.broker.dlq) :
    Parked (s.put w p ⟨t, l, x, false⟩) := by
  intro e he hf
  rw [Pool.put_world] at he ⊢
  rw [hinbox] at he
  rcases hI e he hf with ⟨m, hm, hkey⟩ | ⟨q, l', x', hq, hl'⟩
  · exact Or.inl ⟨m, hdlq ▸ hm, hkey⟩
  · refine Or.inr (Parking.put ⟨q, l', x', ?_, hq, hl'⟩)
    rintro rfl
    rw [hp] at hq
    cases hq
    obtain ⟨m, k, rfl, -⟩ := hl'.next hsat
    simp only [parksSafely, Pool.nextCall_of hp, Prog.next_call] at hsafe
    cases hsafe

theorem parked {ok : State → Step → Prop} (hok : ∀ s lb, ok s lb → parksSafely s lb = true)
    (h : Reach (system env) ok (· = initial) s) : Parked s := by
  refine Reach.invariant (task_sat env) (fun s hs => (fresh_of_initial s hs).1) ?_ ?_ ?_ ?_ ?_ h
  · rintro s rfl e he
    exact absurd he (Table.not_mem_empty e)
  · intro s p t _ hI _ hfree e he hf
    refine (hI e he hf).imp_right ?_
    rintro ⟨q, l, x, hq, hl⟩
    refine Parking.put ⟨q, l, x, ?_, hq, hl⟩
    rintro rfl
    rw [hfree] at hq
    cases hq
  · intro s p ch t l c k w r hr hI hmet hp hc hx _
    exact hI.call (sound fresh_of_initial hr) hp hc (hok _ _ hmet) hx
  · intro s p t l x hr hI hmet hp
    exact hI.crash hp (obeys fresh_of_initial hr hp) (hok _ _ hmet) rfl rfl
  · intro s o w _ hI _ hw e he hf
    have hinbox : w.inbox = s.world.inbox := by cases o <;> cases hw <;> rfl
    have hdlq : s.world.broker.dlq = w.broker.dlq := by cases o <;> cases hw <;> rfl
    have he₀ : e ∈ s.world.inbox := hinbox ▸ he
    refine (hI e he₀ hf).imp_left ?_
    rintro ⟨m, hm, hk⟩
    exact ⟨m, hdlq ▸ hm, hk⟩

/-- In the runs in which nothing separates the mark from the dead letter, a FAILED row that no
    pass is handling has a message on the DLQ topic. -/
theorem parked_event_reached_dlq (env : Env)
    (h : Reach (system env) (fun s lb => parksSafely s lb = true) (· = initial) s) {e : InboxEvent}
    (he : e ∈ s.world.inbox) (hf : e.status = .FAILED) (hidle : ¬ Retrying s e.id) :
    ∃ m ∈ s.world.broker.dlq, m.key = some e.sourceEventId := by
  rcases parked (fun _ _ hmet => hmet) h e he hf with hdone | ⟨p, l, x, hp, hl⟩
  · exact hdone
  · have hsat := obeys fresh_of_initial h hp
    obtain ⟨m, k, rfl, -⟩ := hl.next hsat
    obtain ⟨_, _, _, _, e₁, -, -, hatt, hid⟩ := hl
    exact absurd ⟨p, l, _, k, e₁, hp, hatt, hid⟩ hidle

end

/-! ## A parked event -/

/-- An event whose attempts are used up; pass 8 has marked its row FAILED. -/
def usedUp : List Step :=
  createAndConfirm ++ publishEvent ++ storeEvent ++ [4, 5, 6, 7, 8].flatMap failedAttempt

/-- No process has a call to make. -/
def Quiet (s : State) : Prop := ∀ p, s.nextCall p = none

theorem Quiet.not_retrying {s : State} (h : Quiet s) (id : Uuid) : ¬ Retrying s id := by
  rintro ⟨p, l, c, k, e, hp, -⟩
  have hnone := h p
  rw [Pool.nextCall_of hp] at hnone
  cases hnone

theorem quiet_of_range {s : State} {n : Nat} (h : s.Below n)
    (hall : ((List.range n).all fun p => (s.nextCall p).isNone) = true) : Quiet s := fun p =>
  Option.isNone_iff_eq_none.mp
    (h.all (f := fun _ pr => (Proc.nextCall pr).isNone) (fun _ => rfl) hall p)

open Platform in
/-- The send fails: the row stays FAILED, no pass selects it again, the DLQ topic is empty. -/
theorem parked_event_lost :
    ∃ s, Reach (system (platform id)) anyStep (· = initial) s ∧ ∃ e ∈ s.world.inbox,
      e.status = .FAILED ∧ ¬ Retrying s e.id ∧
      ¬ ∃ m ∈ s.world.broker.dlq, m.key = some e.sourceEventId := by
  have hrun :
      (((system (platform id)).runChecked 9 (fun _ _ => true) initial (usedUp ++ [fail 8])).map
      fun s => ((s.world.inbox.rows.any fun e => e.status == .FAILED) && s.world.broker.dlq.isEmpty,
        (List.range 9).all fun p => (s.nextCall p).isNone)) = some (true, true) := by decide +kernel
  obtain ⟨s, hs, heq⟩ := Option.map_eq_some_iff.mp hrun
  obtain ⟨hrow, hall⟩ := Prod.mk.inj heq
  obtain ⟨hany, hempty⟩ := Bool.and_eq_true_iff.mp hrow
  obtain ⟨e, he, hf⟩ := List.any_eq_true.mp hany
  have hquiet := quiet_of_range ((initial_below 9).runChecked hs) hall
  have hreach : Reach (system (platform id)) anyStep (· = initial) s :=
    reach_of_run (Machine.run_of_runChecked hs)
  refine ⟨s, hreach, e, he, by simpa using hf, hquiet.not_retrying e.id, ?_⟩
  rw [List.isEmpty_iff.mp hempty]
  rintro ⟨m, hm, -⟩
  exact absurd hm List.not_mem_nil

open Platform in
theorem parked_event_reached_dlq_run :
    ∃ s, Reach (system (platform id)) (fun s lb => parksSafely s lb = true) (· = initial) s ∧
      ∃ e ∈ s.world.inbox, e.status = .FAILED ∧
        ∃ m ∈ s.world.broker.dlq, m.key = some e.sourceEventId := by
  have hrun : (((system (platform id)).runChecked 9 parksSafely initial (usedUp ++ [serve 8])).map
      fun s => (s.world.inbox.rows.any fun e => e.status == .FAILED,
        (List.range 9).all fun p => (s.nextCall p).isNone)) = some (true, true) := by decide +kernel
  obtain ⟨s, hs, heq⟩ := Option.map_eq_some_iff.mp hrun
  obtain ⟨hany, hall⟩ := Prod.mk.inj heq
  obtain ⟨e, he, hf⟩ := List.any_eq_true.mp hany
  have hquiet := quiet_of_range ((initial_below 9).runChecked hs) hall
  have hreach := (Check.of parksSafely).reach hs (initial_below 9)
  have hstatus : e.status = .FAILED := by simpa using hf
  exact ⟨s, hreach, e, he, hstatus,
    parked_event_reached_dlq (platform id) hreach he hstatus (hquiet.not_retrying e.id)⟩

end CashbackLedger
