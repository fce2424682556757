import CashbackLedger.Protocol.Counting
import CashbackLedger.Safety.Retries
import CashbackLedger.Safety.SentStable

/-
  The dead letters of a row.

  The attempts of an inbox row are a counter in the database: every failed attempt takes the next
  number (`Counted`), and a dead letter tells the number that its attempt took. Where nothing is
  replayed no number is taken twice, whatever fails and however many workers retry the row at once
  (`Tickets`). So the dead letters of a row tell different numbers, none below the limit and none
  above the attempts of the row, which bounds how many there are (`dead_letters_are_counted`).
-/

namespace CashbackLedger

open Lib History

/-- The number that a dead letter tells. -/
def KafkaMessage.attempts (m : KafkaMessage) : Option Json :=
  m.value.bind fun v => v.field "attempts"

/-- The numbers from the limit to the attempts of the row. -/
def numbersOf (env : Env) (i : InboxEvent) : List (Option Json) :=
  (List.range (i.attempts + 1 - env.maxAttempts)).map fun n =>
    some (.num ((env.maxAttempts + n : Nat) : Decimal))

/-- The process has sent the dead letter. -/
def LetterSent (env : Env) (s : State) (p : Pid) (l : History) (m : KafkaMessage) : Prop :=
  ∃ r, s.InLog p (⟨.kafka (.send .dlq m), r⟩ :: l) ∧ DeadLetters env l m ∧ ParkedAtLimit env l

/-- The numbers that failed attempts took are different, and the dead letters tell different ones of
    them. -/
structure Tickets (env : Env) (s : State) : Prop where
  issued : ∀ p l e updated, s.InLog p l → Counted l e updated → ∃ i ∈ s.world.inbox,
    i.id = e.id ∧ updated.core = i.core ∧ updated.attempts ≤ i.attempts ∧
      ∃ error, updated.lastError = some error
  unique : ∀ p q l l' e e' updated updated', s.InLog p l → s.InLog q l' → Counted l e updated →
    Counted l' e' updated' → e.id = e'.id → updated.attempts = updated'.attempts → p = q ∧ l = l'
  letters : ∀ m ∈ s.world.broker.dlq, ∃ p l, LetterSent env s p l m
  different : s.world.broker.dlq.Pairwise fun m m' => m.key = m'.key → m.attempts ≠ m'.attempts

section

variable {env : Env} {s : State} {p q q' : Pid} {ch : Choice} {newId : Uuid} {w w' w₁ : World}
  {l l' l₁ l₂ : History} {c : Call} {r : Reply c} {t : Task} {m m' : KafkaMessage}
  {i e e' updated updated' : InboxEvent} {id : Uuid}

/-! ## The counter -/

/-- A call of the worker never counts a row down. -/
theorem Effect.attempts_kept (heff : Effect p newId w c w₁) (hc : CountingCall c)
    (hi : i ∈ w.inbox) : ∃ i' ∈ w₁.inbox, i'.core = i.core ∧ i.attempts ≤ i'.attempts := by
  rcases heff.inbox_kept hi with hkept | ⟨u, rfl, hkept⟩
  · exact ⟨i, hkept, rfl, Nat.le_refl _⟩
  · refine ⟨_, hkept, rfl, ?_⟩
    rcases hc with hnone | ⟨err, rfl⟩
    · unfold InboxUpdate.apply
      rw [hnone]
      exact Nat.le_refl _
    · exact Nat.le_succ _

/-- An update that was answered was made on the row. -/
theorem update_answered {u : InboxUpdate} {r : Reply (.inbox (.update id u))}
    (hr : r.1 = .ok updated) (hx : exec env p (.inbox (.update id u)) ch w = some (w', r)) :
    ∃ x ∈ w.inbox, x.id = id ∧ updated = u.apply x ∧ updated ∈ w'.inbox := by
  cases exec_served hx with
  | failed fate => cases hr
  | lost fate run => cases hr
  | @ok w₁ x fate run =>
    obtain ⟨⟨table, y⟩, hy, heq⟩ := Option.map_eq_some_iff.mp run
    obtain ⟨rfl, rfl⟩ := Prod.mk.inj heq
    simp only [InboxCall.run] at hy
    split at hy
    · cases hy
      cases hr
    · next x found =>
      have hid : x.id = id := by simpa using Table.of_find? found
      have hstored : u.apply x ∈ w.inbox.modify (fun e => e.id == id) u.apply ⟨fun _ _ => rfl⟩ :=
        Table.mem_modify.mpr ⟨x, Table.mem_of_find? found, (if_pos (by simpa using hid)).symm⟩
      cases hy
      cases hr
      exact ⟨x, Table.mem_of_find? found, hid, rfl, hstored⟩

/-- An answered count took the next number. -/
theorem counted_next (hcounted : Counted (⟨c, r⟩ :: l) e updated)
    (hx : exec env p c ch w = some (w', r)) :
    ∃ x ∈ w.inbox, x.id = e.id ∧ updated.core = x.core ∧ updated.attempts = x.attempts + 1 ∧
      (∃ error, updated.lastError = some error) ∧ updated ∈ w'.inbox := by
  obtain ⟨err, now, l₀, heq⟩ := hcounted
  cases heq
  obtain ⟨x, hmem, hid, rfl, hstored⟩ := update_answered rfl hx
  exact ⟨x, hmem, hid, rfl, rfl, ⟨_, rfl⟩, hstored⟩

theorem not_counted_nil : ¬ Counted [] e updated := by
  rintro ⟨err, now, l, heq⟩
  cases heq

/-- Logs and letters as they were. -/
theorem Tickets.same {s' : State} (h : Tickets env s) (hinbox : s'.world.inbox = s.world.inbox)
    (hdlq : s'.world.broker.dlq = s.world.broker.dlq)
    (hlogs : ∀ p l, s'.InLog p l → s.InLog p l ∨ l = [])
    (hkept : ∀ p l, s.InLog p l → s'.InLog p l) : Tickets env s' where
  issued p l e updated hl hcounted := by
    rw [hinbox]
    rcases hlogs p l hl with hold | rfl
    · exact h.issued p l e updated hold hcounted
    · exact absurd hcounted not_counted_nil
  unique p q l l' e e' updated updated' hl hl' hcounted hcounted' := by
    rcases hlogs p l hl with hold | rfl
    · rcases hlogs q l' hl' with hold' | rfl
      · exact h.unique p q l l' e e' updated updated' hold hold' hcounted hcounted'
      · exact absurd hcounted' not_counted_nil
    · exact absurd hcounted not_counted_nil
  letters m hm := by
    obtain ⟨p, l, r, hlog, hletter⟩ := h.letters m (hdlq ▸ hm)
    exact ⟨p, l, r, hkept p _ hlog, hletter⟩
  different := by
    rw [hdlq]
    exact h.different

/-! ## A call -/

/-- The number taken now is above all numbers that were taken of the row. -/
theorem Tickets.fresh (h : Tickets env s) (hnew : Counted (⟨c, r⟩ :: l) e updated)
    (hx : exec env p c ch s.world = some (w, r)) (hold : s.InLog q l')
    (hcounted : Counted l' e' updated') (hid : e.id = e'.id) :
    updated'.attempts < updated.attempts := by
  obtain ⟨x, hmem, hxid, -, hattempts, -⟩ := counted_next hnew hx
  obtain ⟨i, hi, hiid, -, hle, -⟩ := h.issued q l' e' updated' hold hcounted
  have heq : i = x := Table.eq_of_clash hi hmem (by simp [Indexed.clash, hiid, hxid, hid])
  rw [heq] at hle
  omega

/-- A dead letter that is about to be sent tells a number that no other one has told. -/
theorem Tickets.letter_new {x : Prog Call Reply Outcome} (h : Tickets env s)
    (hp : s.proc p = some ⟨t, l, x, true⟩) (hd : DeadLetters env l m) (hm : m' ∈ s.world.broker.dlq)
    (hkey : m'.key = m.key) : m'.attempts ≠ m.attempts := by
  intro hsame
  obtain ⟨q, l', r, hlog, hd', -⟩ := h.letters m' hm
  obtain ⟨e', updated', row', now', time', l₀', rfl, -, -, hcounted', rfl⟩ := hd'
  obtain ⟨e, updated, row, now, time, l₀, rfl, -, -, hcounted, rfl⟩ := hd
  have hl : s.InLog p l₀ := ⟨_, hp, List.suffix_cons _ _⟩
  have hl' : s.InLog q l₀' := by
    obtain ⟨pr, hq, hs⟩ := hlog
    exact ⟨pr, hq, ((List.suffix_cons _ _).trans (List.suffix_cons _ _)).trans hs⟩
  obtain ⟨i, hi, hid, hcore, -⟩ := h.issued p l₀ e updated hl hcounted
  obtain ⟨i', hi', hid', hcore', -⟩ := h.issued q l₀' e' updated' hl' hcounted'
  have hsid : updated'.sourceEventId = updated.sourceEventId := Option.some_inj.mp hkey
  have hrow : i = i' := Table.eq_of_clash hi hi' (by
    simp [Indexed.clash, ← (InboxEvent.of_core hcore).2.1, ← (InboxEvent.of_core hcore').2.1, hsid])
  have hnumber : updated.attempts = updated'.attempts := by
    have hjson : (some (.num updated'.attempts) : Option Json) =
        some (.num updated.attempts) := hsame
    simpa using hjson.symm
  obtain ⟨rfl, rfl⟩ := h.unique p q l₀ l₀' e e' updated updated' hl hl' hcounted hcounted'
    (by rw [← hid, ← hid', hrow]) hnumber
  -- the other letter was sent after the number was taken, and this log ends with the mark
  obtain ⟨pr, hq, hs⟩ := hlog
  cases hp.symm.trans hq
  have hle := hs.length_le
  simp only [List.length_cons] at hle
  omega

theorem Tickets.issued_call (h : Tickets env s) (heff : Effect p newId s.world c w₁)
    (hc : CountingCall c) (hinbox : w.inbox = w₁.inbox) (hx : exec env p c ch s.world = some (w, r))
    (hl : (q = p ∧ l' = ⟨c, r⟩ :: l) ∨ s.InLog q l') (hcounted : Counted l' e updated) :
    ∃ i ∈ w.inbox, i.id = e.id ∧ updated.core = i.core ∧ updated.attempts ≤ i.attempts ∧
      ∃ error, updated.lastError = some error := by
  rcases hl with ⟨-, rfl⟩ | hold
  · obtain ⟨x, -, hid, hcore, -, herror, hstored⟩ := counted_next hcounted hx
    exact ⟨updated, hstored, (InboxEvent.id_of_core hcore).trans hid, rfl, Nat.le_refl _, herror⟩
  · obtain ⟨i, hi, hid, hcore, hle, herror⟩ := h.issued q l' e updated hold hcounted
    obtain ⟨i', hi', hcore', hle'⟩ := heff.attempts_kept hc hi
    rw [hinbox]
    exact ⟨i', hi', (InboxEvent.id_of_core hcore').trans hid, hcore.trans hcore'.symm,
      Nat.le_trans hle hle', herror⟩

theorem Tickets.unique_call (h : Tickets env s) (hx : exec env p c ch s.world = some (w, r))
    (hl : (q = p ∧ l₁ = ⟨c, r⟩ :: l) ∨ s.InLog q l₁)
    (hl' : (q' = p ∧ l₂ = ⟨c, r⟩ :: l) ∨ s.InLog q' l₂) (hcounted : Counted l₁ e updated)
    (hcounted' : Counted l₂ e' updated') (hid : e.id = e'.id)
    (hsame : updated.attempts = updated'.attempts) : q = q' ∧ l₁ = l₂ := by
  rcases hl with ⟨rfl, rfl⟩ | hold
  · rcases hl' with ⟨rfl, rfl⟩ | hold'
    · exact ⟨rfl, rfl⟩
    · exact absurd hsame.symm (h.fresh hcounted hx hold' hcounted' hid).ne
  · rcases hl' with ⟨rfl, rfl⟩ | hold'
    · exact absurd hsame (h.fresh hcounted' hx hold hcounted hid.symm).ne
    · exact h.unique q q' l₁ l₂ e e' updated updated' hold hold' hcounted hcounted' hid hsame

theorem Tickets.different_call {k : Reply c → Prog Call Reply Outcome} (h : Tickets env s)
    (hp : s.proc p = some ⟨t, l, .call c k, true⟩) (hc : t.Counts env l c)
    (heff : Effect p newId s.world c w₁) :
    w₁.broker.dlq.Pairwise fun m m' => m.key = m'.key → m.attempts ≠ m'.attempts := by
  rcases heff.dlq_origin with heq | ⟨m', rfl, heq⟩
  · rw [heq]
    exact h.different
  · rw [heq]
    refine List.pairwise_append.mpr
      ⟨h.different, List.pairwise_singleton _ _, fun m hm m'' hm'' => ?_⟩
    obtain rfl := List.mem_singleton.mp hm''
    exact h.letter_new hp hc.1.deadLetter.2 hm

theorem Tickets.letters_call {k : Reply c → Prog Call Reply Outcome} (h : Tickets env s)
    (hp : s.proc p = some ⟨t, l, .call c k, true⟩) (hc : t.Counts env l c)
    (heff : Effect p newId s.world c w₁) (hm : m ∈ w₁.broker.dlq) :
    ∃ q l', LetterSent env (s.put w p ⟨t, ⟨c, r⟩ :: l, k r, true⟩) q l' m := by
  have hold : m ∈ s.world.broker.dlq →
      ∃ q l', LetterSent env (s.put w p ⟨t, ⟨c, r⟩ :: l, k r, true⟩) q l' m := by
    intro hm
    obtain ⟨q, l', r', hlog, hletter⟩ := h.letters m hm
    exact ⟨q, l', r', hlog.step hp, hletter⟩
  rcases heff.dlq_origin with heq | ⟨m', rfl, heq⟩
  · exact hold (heq ▸ hm)
  · rw [heq] at hm
    rcases List.mem_append.mp hm with hm | hm
    · exact hold hm
    · obtain rfl := List.mem_singleton.mp hm
      exact ⟨p, l, r, ⟨_, Pool.put_self _ _ _ _, List.suffix_refl _⟩, hc.1.deadLetter.2, hc.2.2⟩

theorem Tickets.call {k : Reply c → Prog Call Reply Outcome} (h : Tickets env s) (hs : Sound env s)
    (hp : s.proc p = some ⟨t, l, .call c k, true⟩) (hc : t.Counts env l c)
    (ht : ∀ argv, t ≠ .replay argv) (hx : exec env p c ch s.world = some (w, r)) :
    Tickets env (s.put w p ⟨t, ⟨c, r⟩ :: l, k r, true⟩) := by
  obtain ⟨w₁, heff, rfl⟩ := exec_effect (hs.shaped hp hc.1) hx
  have hdifferent := h.different_call hp hc heff
  exact ⟨fun q l' e updated hl => h.issued_call heff (hc.2.1 ht) rfl hx (hl.of_step hp),
    fun q q' l₁ l₂ e e' updated updated' hl hl' =>
      h.unique_call hx (hl.of_step hp) (hl'.of_step hp),
    fun m hm => h.letters_call hp hc heff hm, hdifferent⟩

/-! ## Every run -/

theorem tickets (h : Reach (system env) (fun _ lb => unreplayed lb = true) (· = initial) s) :
    Tickets env s := by
  have hidle : ∀ s : State, s = initial → s.Idle := fun s hs => (fresh_of_initial s hs).1
  refine Reach.invariant (counting_sat env) hidle ?_ ?_ ?_ ?_ ?_ h
  · rintro s rfl
    have hnone : ∀ p l, ¬ initial.InLog p l := by
      rintro p l ⟨pr, hp, -⟩
      cases hp
    exact ⟨fun p l _ _ hl => absurd hl (hnone p l), fun p _ l _ _ _ _ _ hl => absurd hl (hnone p l),
      fun m hm => absurd hm List.not_mem_nil, List.Pairwise.nil⟩
  · intro s p t _ hI _ hfree
    refine hI.same rfl rfl (fun q l hl => ?_) fun q l hl => hl.put fun pr hp => ?_
    · rcases hl.of_put with ⟨rfl, hsuffix⟩ | hold
      · exact Or.inr (List.suffix_nil.mp hsuffix)
      · exact Or.inl hold
    · cases hfree.symm.trans hp
  · intro s p ch t l c k w r hr hI _ hp hc hx _
    exact hI.call (sound fresh_of_initial hr) hp hc
      (tasks_unreplayed (fun _ _ hmet => hmet) hidle hr hp) hx
  · intro s p t l x _ hI _ hp
    refine hI.same rfl rfl (fun q l' hl => ?_) fun q l' hl => hl.put fun pr hp' => ?_
    · rcases hl.of_put with ⟨rfl, hsuffix⟩ | hold
      · exact Or.inl ⟨_, hp, hsuffix⟩
      · exact Or.inl hold
    · cases hp.symm.trans hp'
      exact List.suffix_refl l
  · intro s x w _ hI _ hw
    have hsame : w.inbox = s.world.inbox ∧ w.broker.dlq = s.world.broker.dlq := by
      cases x <;> cases hw <;> exact ⟨rfl, rfl⟩
    exact hI.same hsame.1 hsame.2 (fun q l hl => Or.inl hl) fun q l hl => hl

/-- A dead letter is about a row, and tells a number between the limit and the attempts of the
    row. -/
theorem Tickets.genuine (h : Tickets env s) (hm : m ∈ s.world.broker.dlq) : ∃ i ∈ s.world.inbox,
    ∃ attempts error evt, DeadLettered env m i attempts error evt ∧
      env.maxAttempts ≤ attempts ∧ attempts ≤ i.attempts := by
  obtain ⟨p, l, r, ⟨pr, hp, hs⟩, hd, hlimit⟩ := h.letters m hm
  obtain ⟨e, updated, row, now, time, l₀, rfl, -, -, hcounted, rfl⟩ := hd
  have hl : s.InLog p l₀ := ⟨pr, hp, ((List.suffix_cons _ _).trans (List.suffix_cons _ _)).trans hs⟩
  obtain ⟨i, hi, -, hcore, hle, error, herror⟩ := h.issued p l₀ e updated hl hcounted
  obtain ⟨evt, hevt⟩ := deadLettered_of env time hcore herror
  exact ⟨i, hi, updated.attempts, error, evt, hevt, hlimit e updated row now l₀ rfl hcounted, hle⟩

/-- Different numbers from the limit to the attempts. -/
theorem Tickets.count (h : Tickets env s) (hi : i ∈ s.world.inbox) :
    (lettersOf i s.world.broker.dlq).length ≤ i.attempts + 1 - env.maxAttempts := by
  have hkey : ∀ m ∈ lettersOf i s.world.broker.dlq, m ∈ s.world.broker.dlq ∧
      m.key = some i.sourceEventId :=
    fun m hm => ⟨(List.mem_filter.mp hm).1, beq_iff_eq.mp (List.mem_filter.mp hm).2⟩
  have hnodup : ((lettersOf i s.world.broker.dlq).map KafkaMessage.attempts).Nodup := by
    refine List.pairwise_map.mpr ((h.different.filter _).imp_of_mem fun {m m'} hm hm' hne => hne ?_)
    rw [(hkey m hm).2, (hkey m' hm').2]
  have hsubset : (lettersOf i s.world.broker.dlq).map KafkaMessage.attempts ⊆ numbersOf env i := by
    intro x hx
    obtain ⟨m, hm, rfl⟩ := List.mem_map.mp hx
    obtain ⟨i', hi', attempts, error, evt, hevt, hlimit, hle⟩ := h.genuine (hkey m hm).1
    have hsid : i'.sourceEventId = i.sourceEventId :=
      Option.some_inj.mp (hevt.key.symm.trans (hkey m hm).2)
    have hrow : i' = i := Table.eq_of_clash hi' hi (by simp [Indexed.clash, hsid])
    rw [hrow] at hle
    refine List.mem_map.mpr ⟨attempts - env.maxAttempts, List.mem_range.mpr (by omega), ?_⟩
    rw [Nat.add_sub_cancel' hlimit, KafkaMessage.attempts, hevt.value]
    exact hevt.attempts.symm
  have hle := (List.subperm_of_subset hnodup hsubset).length_le
  rwa [numbersOf, List.length_map, List.length_map, List.length_range] at hle

/-- Where nothing is replayed, whatever fails and however many workers retry at once, a send
    appending at most one message: a dead letter repeats a row, with an error and a number of
    attempts from the limit to those of the row; no two of one row tell the same number, so a row
    has at most one for each of these numbers. -/
theorem dead_letters_are_counted (env : Env)
    (h : Reach (system env) (fun _ lb => unreplayed lb = true) (· = initial) s) :
    (∀ m ∈ s.world.broker.dlq, ∃ i ∈ s.world.inbox, ∃ attempts error evt,
      DeadLettered env m i attempts error evt ∧ env.maxAttempts ≤ attempts ∧
        attempts ≤ i.attempts) ∧
    s.world.broker.dlq.Pairwise (fun m m' => m.key = m'.key → m.attempts ≠ m'.attempts) ∧
    ∀ i ∈ s.world.inbox,
      (lettersOf i s.world.broker.dlq).length ≤ i.attempts + 1 - env.maxAttempts :=
  ⟨fun _ hm => (tickets h).genuine hm, (tickets h).different, fun _ hi => (tickets h).count hi⟩

end

open Platform in
/-- Two passes select the row before its fifth attempt, and both fail. -/
def failTogether : List Step :=
  createAndConfirm ++ publishEvent ++ storeEvent ++ [4, 5, 6, 7].flatMap failedAttempt ++
    [.move (.tick 30000), .spawn 8 .retryInbox, .spawn 9 .retryInbox] ++ serves 8 3 ++ serves 9 3 ++
    [fail 8, fail 9] ++ serves 8 3 ++ serves 9 3

/-- Both send their dead letter: the fifth and the sixth attempt. -/
theorem dead_letters_are_counted_run :
    ∃ s i, (system (platform id)).run initial failTogether = some s ∧
    i ∈ s.world.inbox ∧ i.attempts = 6 ∧ (lettersOf i s.world.broker.dlq).length = 2 ∧
    (lettersOf i s.world.broker.dlq).length ≤ i.attempts + 1 - (platform id).maxAttempts := by
  have hrun : (((system (platform id)).run initial failTogether).map fun s =>
      s.world.inbox.any fun i =>
        decide (i.attempts = 6 ∧ (lettersOf i s.world.broker.dlq).length = 2)) =
      some true := by decide +kernel
  obtain ⟨s, hs, hany⟩ := Option.map_eq_some_iff.mp hrun
  obtain ⟨i, hi, htwo⟩ := Table.any_iff.mp hany
  obtain ⟨hsix, htwo⟩ := of_decide_eq_true htwo
  have hnone : ∀ lb ∈ failTogether, unreplayed lb = true := by decide +kernel
  have h0 : Reach (system (platform id)) (fun _ lb => unreplayed lb = true) (· = initial) initial :=
    .start rfl
  obtain ⟨-, -, hcount⟩ :=
    dead_letters_are_counted (platform id) (h0.of_run failTogether (fun lb hm _ => hnone lb hm) hs)
  exact ⟨s, i, hs, hi, hsix, htwo, hcount i hi⟩

end CashbackLedger
