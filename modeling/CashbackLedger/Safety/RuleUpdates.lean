import CashbackLedger.Safety.RuleReads

/-
  Updates of a rule and the reads that start after them.

  `upsertRule` stores the row, then deletes the merchant's entry. A read that was told the row
  before the update and writes its entry after the deletion brings the old rule back for everyone
  (`stale_rule_read`). Unless such a write is pending when the entry is deleted, the table, the
  cache and what is about to be written to it hold only rows as recent as the update, so every read
  that starts later returns one of them (`update_takes_effect`).
-/

namespace CashbackLedger

open Lib History

abbrev RuleProcess : Type := Proc Call Reply RuleTask RuleOutcome

/-- The updates stored so far with the processes that made them, newest first. -/
abbrev Updates : Type := List (Pid × CashbackRule)

/-- The row a reply says is stored. -/
def storedBy : (Σ c, Reply c) → Option CashbackRule
  | ⟨.rules (.upsert _ _ _), (.ok row, _)⟩ => some row
  | _ => none

/-- The row the process has just stored. -/
def justStored : Option RuleProcess → Option CashbackRule
  | some ⟨_, x :: _, _, _⟩ => storedBy x
  | _ => none

def ruleUpdates (_ : RuleState) (lb : RuleStep) (s' : RuleState) (us : Updates) : Updates :=
  match lb with
  | .step p _ => ((justStored (s'.proc p)).map fun row => (p, row)).toList ++ us
  | _ => us

/-- The row is what `u` stored for the merchant, or what was stored for it later. -/
def Recent (us : Updates) (u : Pid) (m : String) (found : Option CashbackRule) : Prop :=
  ∃ newer q row older, us = newer ++ (q, row) :: older ∧ row.merchantId = m ∧ found = some row ∧
    (q = u ∨ ∃ r, (u, r) ∈ older ∧ r.merchantId = m)

/-- The row a live process has read and is about to write to the cache. -/
def writing : Option RuleProcess → Option (String × Option CashbackRule)
  | some ⟨_, l, _, true⟩ => History.loaded l
  | _ => none

/-- The merchant whose entry an update is about to delete. -/
def invalidating : Option RuleProcess → Option String
  | some ⟨.upsertRule m _, _, .call (.redis (.del _)) _, true⟩ => some m
  | _ => none

/-- Every call succeeds. -/
def CallsSucceed : RuleStep → Prop
  | .step _ ch => ch.fate = .ok
  | _ => True

/-- When `u` deletes the entry of its merchant, nobody is about to write to the cache a row of this
    merchant from before the update. -/
def DeletesAlone (u : Pid) (s : RuleState) (us : Updates) : RuleStep → Prop
  | .step p _ => p = u → ∀ m, invalidating (s.proc u) = some m →
      ∀ q found, writing (s.proc q) = some (m, found) → Recent us u m found
  | _ => True

/-- The entry is no entry of `m`, or made of a recent row. -/
def Recently (env : Env) (us : Updates) (u : Pid) (m m' : String)
    (entry : CachedCashbackRule) : Prop :=
  m' = m → ∃ found, Recent us u m found ∧ entry = rulePayload env found

/-- `u` has stored a row of the merchant and deleted its entry. -/
def Updated (s : RuleState) (u : Pid) (m : String) : Prop :=
  ∃ pr, s.proc u = some pr ∧ Invalidated pr.log m

/-- Once `u` has updated the merchant, the cache and what is about to be written to it are
    recent. -/
structure UpdateSound (env : Env) (u : Pid) (m : String) (s : RuleState) (us : Updates) : Prop where
  fits : ∀ x ∈ us, x.2.FitsColumns
  newest : ∀ m' x, us.find? (fun x => x.2.merchantId == m') = some x →
    ruleRow s.world.rules m' = some x.2
  upserted : ∀ p pr, s.proc p = some pr → ∀ m' row, Upserted pr.log m' row →
    row.merchantId = m' ∧ (p, row) ∈ us ∧ ∃ dto, pr.task = .upsertRule m' dto
  cache : Updated s u m → CacheHolds (Recently env us u m) s.world.redis
  pending : Updated s u m → ∀ q found, writing (s.proc q) = some (m, found) → Recent us u m found

section

variable {env : Env} {u p : Pid} {m m' : String} {s s' : RuleState} {us : Updates} {ch : Choice}
  {w w' : World} {t : RuleTask} {l : History} {c : Call} {r : Reply c} {row : CashbackRule}
  {found : Option CashbackRule} {k : Reply c → Prog Call Reply RuleOutcome}

theorem Recent.append (h : Recent us u m found) (us' : Updates) : Recent (us' ++ us) u m found := by
  obtain ⟨newer, q, row, older, rfl, hmerchant, hfound, hrecent⟩ := h
  exact ⟨us' ++ newer, q, row, older, (List.append_assoc _ _ _).symm, hmerchant, hfound, hrecent⟩

theorem Recently.append {entry : CachedCashbackRule} (h : Recently env us u m m' entry)
    (us' : Updates) : Recently env (us' ++ us) u m m' entry := fun heq => by
  obtain ⟨found, hrecent, hentry⟩ := h heq
  exact ⟨found, hrecent.append us', hentry⟩

/-- After an update of `u` the newest row of the merchant is recent. -/
theorem recent_newest (hu : (u, row) ∈ us) (hmerchant : row.merchantId = m) :
    ∃ x, us.find? (fun x => x.2.merchantId == m) = some x ∧ Recent us u m (some x.2) := by
  cases hfind : us.find? fun x => x.2.merchantId == m with
  | none =>
    have hno := List.find?_eq_none.mp hfind _ hu
    simp [hmerchant] at hno
  | some x =>
    obtain ⟨hx, newer, older, rfl, hnewer⟩ := List.find?_eq_some_iff_append.mp hfind
    obtain ⟨q, row'⟩ := x
    refine ⟨(q, row'), rfl, newer, q, row', older, rfl, by simpa using hx, rfl, ?_⟩
    rcases List.mem_append.mp hu with hu | hu
    · have hno := hnewer _ hu
      simp [hmerchant] at hno
    · rcases List.mem_cons.mp hu with heq | hu
      · cases heq
        exact Or.inl rfl
      · exact Or.inr ⟨row, hu, hmerchant⟩

theorem storedBy_eq_some (h : storedBy ⟨c, r⟩ = some row) :
    ∃ m rate cap now, (⟨c, r⟩ : Σ c, Reply c) = ⟨.rules (.upsert m rate cap), (.ok row, now)⟩ := by
  obtain ⟨x, now⟩ := r
  unfold storedBy at h
  split at h
  · next heq =>
    cases h
    exact ⟨_, _, _, _, heq⟩
  · cases h

theorem storedBy_of_upserted (h : Upserted [⟨c, r⟩] m row) : storedBy ⟨c, r⟩ = some row := by
  obtain ⟨rate, cap, now, hm⟩ := h
  rw [← List.mem_singleton.mp hm]
  rfl

theorem upserted_cons :
    Upserted (⟨c, r⟩ :: l) m row ↔ Upserted [⟨c, r⟩] m row ∨ Upserted l m row := by
  simp only [Upserted, got_cons (l := l), exists_or]

/-- The table after a served call, and what the call says is stored. -/
theorem exec_stored (hs : CommitsShaped p w c) (hfate : ch.fate = .ok)
    (h : exec env p c ch w = some (w', r)) :
    (storedBy ⟨c, r⟩ = none ∧ w'.rules = w.rules) ∨ ∃ m rate cap stored now,
      (⟨c, r⟩ : Σ c, Reply c) = ⟨.rules (.upsert m rate cap), (.ok stored, now)⟩ ∧
        StoresRule w.rules m stored w'.rules := by
  cases hstored : storedBy ⟨c, r⟩ with
  | some row =>
    obtain ⟨m, rate, cap, now, heq⟩ := storedBy_eq_some hstored
    cases heq
    rcases exec_upsert hfate h with ⟨-, e, he⟩ | ⟨stored, heq, hstores⟩
    · cases he
    · cases heq
      exact Or.inr ⟨m, rate, cap, row, now, rfl, hstores⟩
  | none =>
    refine Or.inl ⟨rfl, ?_⟩
    rcases exec_rules hs h with heq | ⟨m, rate, cap, stored, rfl, -⟩
    · exact heq
    · rcases exec_upsert hfate h with ⟨heq, -⟩ | ⟨stored, heq, -⟩
      · exact heq
      · obtain ⟨x, now⟩ := r
        obtain rfl : x = .ok stored := heq
        cases hstored

/-! ### What a step keeps -/

/-- The table holds recent rows. -/
theorem UpdateSound.recent (h : UpdateSound env u m s us) (hdone : Updated s u m) :
    Recent us u m (ruleRow s.world.rules m) := by
  obtain ⟨pr, hp, -, row, hrow⟩ := hdone
  obtain ⟨hmerchant, hmem, -⟩ := h.upserted u pr hp m row hrow
  obtain ⟨x, hfind, hrecent⟩ := recent_newest hmem hmerchant
  rw [h.newest m x hfind]
  exact hrecent

theorem UpdateSound.table (h : UpdateSound env u m s us) (hdone : Updated s u m) :
    TableHolds env (Recently env us u m) s.world.rules := by
  rintro _ rfl
  exact ⟨_, h.recent hdone, rfl⟩

/-- What a process has just read is recent if it is about this merchant. -/
theorem UpdateSound.loaded (h : UpdateSound env u m s us) (hdone : Updated s u m)
    (hl : writing (s.proc p) = some (m', found)) :
    Recently env us u m m' (rulePayload env found) := by
  rintro rfl
  exact ⟨found, h.pending hdone p found hl, rfl⟩

/-- Steps that leave the rules and the cache alone keep everything. -/
theorem UpdateSound.same (h : UpdateSound env u m s us) (hrules : s'.world.rules = s.world.rules)
    (hredis : s'.world.redis = s.world.redis)
    (hlogs : ∀ p pr, s'.proc p = some pr →
      pr.log = [] ∨ ∃ pr', s.proc p = some pr' ∧ pr'.log = pr.log ∧ pr'.task = pr.task)
    (hwriting : ∀ p x, writing (s'.proc p) = some x →
      writing (s.proc p) = some x) : UpdateSound env u m s' us := by
  have hdone : Updated s' u m → Updated s u m := by
    rintro ⟨pr, hp, hinv⟩
    rcases hlogs u pr hp with hnil | ⟨pr', hp', hlog, -⟩
    · obtain ⟨⟨r, hm⟩, -⟩ := hinv
      rw [hnil] at hm
      exact absurd hm List.not_mem_nil
    · exact ⟨pr', hp', hlog ▸ hinv⟩
  refine ⟨h.fits, hrules ▸ h.newest, fun p pr hp m' row hrow => ?_,
    fun hd => hredis ▸ h.cache (hdone hd),
    fun hd q found hq => h.pending (hdone hd) q found (hwriting q _ hq)⟩
  rcases hlogs p pr hp with hnil | ⟨pr', hp', hlog, htask⟩
  · obtain ⟨rate, cap, now, hm⟩ := hrow
    rw [hnil] at hm
    exact absurd hm List.not_mem_nil
  · rw [← hlog] at hrow
    rw [← htask]
    exact h.upserted p pr' hp' m' row hrow

/-- The updates after a served call. -/
theorem ruleUpdates_step {x : Prog Call Reply RuleOutcome} :
    ruleUpdates s (.step p ch) (s.put w p ⟨t, ⟨c, r⟩ :: l, x, true⟩) us =
      ((storedBy ⟨c, r⟩).map fun row => (p, row)).toList ++ us := by
  unfold ruleUpdates
  dsimp only
  rw [Pool.put_self]
  rfl

theorem writing_put (s : RuleState) (w : World) (pr : RuleProcess) {q : Pid} (hq : q ≠ p) :
    writing ((s.put w p pr).proc q) = writing (s.proc q) := by
  rw [Pool.put_other _ _ _ _ hq]

theorem updated_put_other (pr : RuleProcess) (hu : u ≠ p) :
    Updated (s.put w p pr) u m ↔ Updated s u m := by
  unfold Updated
  rw [Pool.put_other _ _ _ _ hu]

/-- An update that is stored becomes the newest. -/
theorem UpdateSound.store {m₀ : String} {rate : Decimal} {cap : Option Decimal} {now : Time}
    {x : Prog Call Reply RuleOutcome} {y : Prog Call Reply RuleOutcome}
    (h : UpdateSound env u m s us) (hp : s.proc p = some ⟨t, l, y, true⟩)
    (hc : t.Calls env l (.rules (.upsert m₀ rate cap)))
    (hstores : StoresRule s.world.rules m₀ row w.rules) (hredis : w.redis = s.world.redis) :
    UpdateSound env u m
      (s.put w p ⟨t, ⟨.rules (.upsert m₀ rate cap), (.ok row, now)⟩ :: l, x, true⟩)
      ((p, row) :: us) := by
  obtain ⟨rfl, dto, rfl⟩ : l = [] ∧ ∃ dto, t = .upsertRule m₀ dto := by
    cases t with
    | upsertRule m dto =>
      rcases hc with ⟨rfl, rate, cap, heq⟩ | ⟨heq, -⟩
      · cases heq
        exact ⟨rfl, dto, rfl⟩
      · cases heq
    | invalidate m => cases hc
    | getRule m => exact hc.elim
    | getCashbackRule m =>
      rcases hc with ⟨-, heq⟩ | ⟨-, hc⟩
      · cases heq
      · exact hc.elim
  -- the process has not deleted the entry yet
  have hdone : Updated (s.put w p ⟨.upsertRule m₀ dto,
      [⟨.rules (.upsert m₀ rate cap), (.ok row, now)⟩], x, true⟩) u m → u ≠ p ∧ Updated s u m := by
    intro hd
    by_cases hu : u = p
    · subst hu
      obtain ⟨pr, hpr, ⟨r, hm⟩, -⟩ := hd
      rw [Pool.put_self] at hpr
      cases hpr
      cases List.mem_singleton.mp hm
    · exact ⟨hu, (updated_put_other _ hu).mp hd⟩
  refine ⟨List.forall_mem_cons.mpr ⟨hstores.fits, h.fits⟩,
    fun m' y hy => ?_, fun q pr hq m' row' hrow => ?_,
    fun hd => ?_, fun hd q found hq => ?_⟩
  · show ruleRow w.rules m' = some y.2
    rw [hstores.row, ← hstores.merchant]
    by_cases hm : row.merchantId = m'
    · rw [List.find?_cons_of_pos (by simpa using hm)] at hy
      cases hy
      rw [if_pos hm.symm]
    · rw [List.find?_cons_of_neg (by simpa using hm)] at hy
      rw [if_neg (Ne.symm hm)]
      exact h.newest m' y hy
  · rw [Pool.put_proc] at hq
    split at hq
    · next heq =>
      subst heq
      cases hq
      obtain ⟨rate', cap', now', hm⟩ := hrow
      cases List.mem_singleton.mp hm
      exact ⟨hstores.merchant, List.mem_cons_self, dto, rfl⟩
    · obtain ⟨hmerchant, hmem, htask⟩ := h.upserted q pr hq m' row' hrow
      exact ⟨hmerchant, List.mem_cons_of_mem _ hmem, htask⟩
  · show CacheHolds _ w.redis
    rw [hredis]
    exact (h.cache (hdone hd).2).mono fun _ _ hrecent => hrecent.append [(p, row)]
  · by_cases hqp : q = p
    · subst hqp
      rw [Pool.put_self] at hq
      cases hq
    · rw [writing_put _ _ _ hqp] at hq
      exact (h.pending (hdone hd).2 q found hq).append [(p, row)]

/-- A step that makes `u` done deletes the entry of its merchant. -/
theorem deletes_of_updated (h : UpdateSound env u m s us)
    (hp : s.proc u = some ⟨t, l, .call c k, true⟩) (hc : t.Calls env l c)
    (hstored : storedBy ⟨c, r⟩ = none) (hold : ¬ Updated s u m)
    (hnew : Invalidated (⟨c, r⟩ :: l) m) :
    c = .redis (.del (ruleKey m)) ∧ invalidating (s.proc u) = some m := by
  obtain ⟨⟨r', hm⟩, row, hrow⟩ := hnew
  have hbefore : Upserted l m row := by
    rcases upserted_cons.mp hrow with hrow | hrow
    · rw [storedBy_of_upserted hrow] at hstored
      cases hstored
    · exact hrow
  rcases List.mem_cons.mp hm with heq | hm
  · cases heq
    obtain ⟨-, -, dto, rfl⟩ := h.upserted u _ hp m row hbefore
    rw [hp]
    exact ⟨rfl, rfl⟩
  · exact absurd ⟨_, hp, ⟨r', hm⟩, row, hbefore⟩ hold

/-- After the deletion nothing stands under the key. -/
theorem cacheHolds_deleted (redis : List RedisEntry) :
    CacheHolds (Recently env us u m) (RedisCall.delete (ruleKey m) redis) := by
  rintro e he m' hkey entry - rfl
  have hne := (List.mem_filter.mp he).2
  rw [hkey] at hne
  simp at hne

theorem exec_deleted {key : String} {r : Reply (.redis (.del key))} (hfate : ch.fate = .ok)
    (h : exec env p (.redis (.del key)) ch w = some (w', r)) :
    w'.redis = RedisCall.delete key w.redis := by
  obtain ⟨x, now⟩ := r
  obtain ⟨w₁, hrun, rfl⟩ := exec_run hfate h
  cases hrun
  rfl

/-- A call that stores nothing. -/
theorem UpdateSound.read (h : UpdateSound env u m s us)
    (hp : s.proc p = some ⟨t, l, .call c k, true⟩) (hc : t.Calls env l c) (hfate : ch.fate = .ok)
    (halone : DeletesAlone u s us (.step p ch)) (hexec : exec env p c ch s.world = some (w, r))
    (hstored : storedBy ⟨c, r⟩ = none) (hrules : w.rules = s.world.rules) :
    UpdateSound env u m (s.put w p ⟨t, ⟨c, r⟩ :: l, k r, true⟩) us := by
  have hshaped : CommitsShaped p s.world c := hc.shaped
  have hnews : Updated (s.put w p ⟨t, ⟨c, r⟩ :: l, k r, true⟩) u m → Updated s u m ∨
      p = u ∧ c = .redis (.del (ruleKey m)) ∧ invalidating (s.proc u) = some m := by
    intro hd
    by_cases hold : Updated s u m
    · exact Or.inl hold
    · by_cases hu : u = p
      · subst hu
        obtain ⟨pr, hpr, hinv⟩ := hd
        rw [Pool.put_self] at hpr
        cases hpr
        exact Or.inr ⟨rfl, deletes_of_updated h hp hc hstored hold hinv⟩
      · exact Or.inl ((updated_put_other _ hu).mp hd)
  refine ⟨h.fits, fun m' x hx => ?_, fun q pr hq m' row hrow => ?_,
    fun hd => ?_, fun hd q found hq => ?_⟩
  · show ruleRow w.rules m' = some x.2
    rw [hrules]
    exact h.newest m' x hx
  · rw [Pool.put_proc] at hq
    split at hq
    · next heq =>
      subst heq
      cases hq
      rcases upserted_cons.mp hrow with hrow | hrow
      · rw [storedBy_of_upserted hrow] at hstored
        cases hstored
      · exact h.upserted q _ hp m' row hrow
    · exact h.upserted q pr hq m' row hrow
  · rcases hnews hd with hold | ⟨-, rfl, -⟩
    · refine (h.cache hold).exec hshaped hc.cacheWrite
        (fun m' found hl => h.loaded hold (p := p) ?_) hexec
      rw [hp]
      exact hl
    · show CacheHolds _ w.redis
      rw [exec_deleted hfate hexec]
      exact cacheHolds_deleted _
  · by_cases hqp : q = p
    · subst hqp
      rw [Pool.put_self] at hq
      rcases hnews hd with hold | ⟨-, rfl, -⟩
      · rw [exec_row (loaded_cons hq) hexec]
        exact h.recent hold
      · cases hq
    · rw [writing_put _ _ _ hqp] at hq
      rcases hnews hd with hold | ⟨rfl, -, hinv⟩
      · exact h.pending hold q found hq
      · exact halone rfl m hinv q found hq

/-- A served call keeps the soundness of an update. -/
theorem UpdateSound.call (h : UpdateSound env u m s us)
    (hp : s.proc p = some ⟨t, l, .call c k, true⟩) (hc : t.Calls env l c) (hfate : ch.fate = .ok)
    (halone : DeletesAlone u s us (.step p ch)) (hexec : exec env p c ch s.world = some (w, r)) :
    UpdateSound env u m (s.put w p ⟨t, ⟨c, r⟩ :: l, k r, true⟩)
      (ruleUpdates s (.step p ch) (s.put w p ⟨t, ⟨c, r⟩ :: l, k r, true⟩) us) := by
  have hshaped : CommitsShaped p s.world c := hc.shaped
  rw [ruleUpdates_step]
  rcases exec_stored hshaped hfate hexec
    with ⟨hstored, hrules⟩ | ⟨m₀, rate, cap, stored, now, heq, hstores⟩
  · rw [hstored]
    exact h.read hp hc hfate halone hexec hstored hrules
  · cases heq
    have hredis : w.redis = s.world.redis := by
      obtain ⟨w₁, heff, rfl⟩ := exec_effect hshaped hexec
      rcases heff.redis_origin with heq | ⟨c', hc', -⟩
      · exact heq
      · cases hc'
    exact h.store hp hc hstores hredis

/-! ### Whole runs -/

/-- Runs in which every call succeeds and `u` deletes alone. -/
abbrev UpdateRun (env : Env) (u : Pid) (start : RuleState → Updates → Prop) :
    RuleState → Updates → Prop :=
  Traced (ruleSystem env) ruleUpdates
    (fun s us lb => CallsSucceed lb ∧ DeletesAlone u s us lb) start

theorem UpdateSound.spawn (h : UpdateSound env u m s us) (t : RuleTask) :
    UpdateSound env u m (s.put s.world p ((ruleSystem env).start t)) us := by
  refine h.same rfl rfl (Pool.forall_put (Or.inl rfl) fun q pr _ hq => Or.inr ⟨pr, hq, rfl, rfl⟩)
    fun q x hq => ?_
  rw [Pool.put_proc] at hq
  split at hq
  · cases hq
  · exact hq

theorem UpdateSound.crash {x : Prog Call Reply RuleOutcome} (h : UpdateSound env u m s us)
    (hp : s.proc p = some ⟨t, l, x, true⟩) :
    UpdateSound env u m (s.put (kill p s.world) p ⟨t, l, x, false⟩) us := by
  refine h.same rfl rfl
    (Pool.forall_put (Or.inr ⟨_, hp, rfl, rfl⟩) fun q pr _ hq => Or.inr ⟨pr, hq, rfl, rfl⟩)
    fun q y hq => ?_
  rw [Pool.put_proc] at hq
  split at hq
  · cases hq
  · exact hq

theorem UpdateSound.move {e : Outside} (h : UpdateSound env u m s us)
    (hmove : outside e s.world = some w) : UpdateSound env u m { s with world := w } us := by
  have hsame : w.rules = s.world.rules ∧ w.redis = s.world.redis := by
    cases e <;> cases hmove <;> exact ⟨rfl, rfl⟩
  exact h.same hsame.1 hsame.2 (fun q pr hq => Or.inr ⟨pr, hq, rfl, rfl⟩) fun q x hq => hq

theorem updateSound (m : String) (h : UpdateRun env u (fun s us => s.Idle ∧ us = []) s us) :
    UpdateSound env u m s us := by
  refine h.invariant (ruleTask_sat env) (fun s us hs => hs.1) (fun s us hs => ?_)
    (fun s us p t _ hi _ _ => hi.spawn t)
    (fun s us p ch t l c k w r _ hi met hp hc hexec => hi.call hp hc met.1 met.2 hexec)
    (fun s us p t l x _ hi _ hp => hi.crash hp) fun s us e w _ hi _ hmove => hi.move hmove
  obtain ⟨hidle, rfl⟩ := hs
  have hnone : ∀ {p pr}, s.proc p ≠ some pr := fun {p pr} hp => by
    rw [hidle p] at hp
    cases hp
  exact ⟨fun x hx => absurd hx List.not_mem_nil, nofun, fun p pr hp => absurd hp hnone,
    fun ⟨pr, hp, _⟩ => absurd hp hnone, fun ⟨pr, hp, _⟩ => absurd hp hnone⟩

/-- A read of a rule is answered in its open transaction. -/
theorem ReadCall.answered (h : ReadCall env m l c) (htx : w.txOf p = some {})
    (hfate : ch.fate = .ok) (hexec : exec env p c ch w = some (w', r)) :
    ∃ x, r.1 = .ok x ∧ c.txAfter (.ok x) (some {}) = some {} := by
  obtain ⟨w₁, hrun, -⟩ := exec_run hfate hexec
  obtain ⟨x, now⟩ := r
  dsimp only at hrun ⊢
  cases c with
  | redis c =>
    cases c with
    | setNx key ms =>
      simp only [Call.run, RedisCall.run] at hrun
      split at hrun <;> cases hrun <;> exact ⟨_, rfl, rfl⟩
    | _ => cases hrun; exact ⟨_, rfl, rfl⟩
  | rules c =>
    cases c with
    | findUnique m => cases hrun; exact ⟨_, rfl, rfl⟩
    | upsert m rate cap => exact h.elim
  | proc c => cases hrun; exact ⟨_, rfl, rfl⟩
  | tx c =>
    cases c with
    | stmt s =>
      cases s with
      | ruleFindUnique m =>
        simp only [Call.run, TxCall.run, htx] at hrun
        cases hrun
        exact ⟨_, rfl, rfl⟩
      | _ => exact h.elim
    | _ => exact h.elim
  | _ => exact h.elim

/-- A worker that reads a rule has failed in nothing, and its transaction is open. -/
def ReadsOn (w : World) (p : Pid) (l : History) (alive : Bool) : Prop :=
  l = [] ∨ ¬ AnyFailed l ∧ (alive = true → w.txOf p = some {})

theorem ReadsOn.call (h : ReadsOn w p l true) (hc : (RuleTask.getCashbackRule m).Calls env l c)
    (hfate : ch.fate = .ok) (hexec : exec env p c ch w = some (w', r)) :
    ReadsOn w' p (⟨c, r⟩ :: l) true := by
  have hshaped : CommitsShaped p w c := hc.shaped
  have htx := exec_txOf hshaped hexec p
  rw [if_pos rfl] at htx
  obtain ⟨x, now⟩ := r
  rcases hc with ⟨rfl, rfl⟩ | ⟨⟨_, hbegun⟩, hread⟩
  · obtain ⟨w₁, hrun, -⟩ := exec_run hfate hexec
    cases hrun
    exact Or.inr ⟨not_anyFailed_cons (c := .tx .begin) not_anyFailed_nil () now, fun _ => htx⟩
  · rcases h with rfl | ⟨hfine, hopen⟩
    · exact absurd hbegun List.not_mem_nil
    · obtain ⟨y, heq, hafter⟩ := hread.answered (hopen rfl) hfate hexec
      obtain rfl : x = .ok y := heq
      rw [hopen rfl, hafter] at htx
      exact Or.inr ⟨not_anyFailed_cons hfine y now, fun _ => htx⟩

/-- The state of a run after `u` has updated the merchant, seen by a process that started later. -/
structure ReadsAfter (env : Env) (u : Pid) (m : String) (p : Pid) (s : RuleState) (us : Updates) :
    Prop where
  sound : UpdateSound env u m s us
  updated : Updated s u m
  told : ∀ pr, s.proc p = some pr → Told env (Recently env us u m) pr.log
  reads : ∀ pr, s.proc p = some pr → pr.task = .getCashbackRule m →
    ReadsOn s.world p pr.log pr.alive

theorem Invalidated.mono {l' : History} (h : Invalidated l m) (hl : l <:+ l') :
    Invalidated l' m := by
  obtain ⟨hdel, row, rate, cap, hrow⟩ := h
  exact ⟨hdel.mono hl, row, rate, cap, hrow.mono hl⟩

/-- An update stays done. -/
theorem Updated.put (h : Updated s u m) {pr : RuleProcess}
    (hpr : ∀ pr', s.proc p = some pr' → pr'.log <:+ pr.log) : Updated (s.put w p pr) u m := by
  obtain ⟨pr', hp', hinv⟩ := h
  by_cases hu : u = p
  · subst hu
    exact ⟨pr, Pool.put_self _ _ _ _, hinv.mono (hpr pr' hp')⟩
  · refine ⟨pr', ?_, hinv⟩
    rw [Pool.put_other _ _ _ _ hu]
    exact hp'

/-- A step of another process, or one that makes no call. -/
theorem ReadsAfter.same {us' : Updates} (h : ReadsAfter env u m p s us)
    (hsound : UpdateSound env u m s' us') (hus : ∃ new, us' = new ++ us)
    (hupdated : Updated s' u m)
    (hproc : ∀ pr, s'.proc p = some pr → pr.log = [] ∨ ∃ pr', s.proc p = some pr' ∧
      pr'.log = pr.log ∧ pr'.task = pr.task ∧
      (pr.alive = true → pr'.alive = true ∧ s'.world.txOf p = s.world.txOf p)) :
    ReadsAfter env u m p s' us' := by
  obtain ⟨new, rfl⟩ := hus
  refine ⟨hsound, hupdated, fun pr hp => ?_, fun pr hp ht => ?_⟩
  · rcases hproc pr hp with hnil | ⟨pr', hp', hlog, -⟩
    · rw [hnil]
      exact told_nil
    · rw [← hlog]
      exact (h.told pr' hp').mono fun _ _ hrecent => hrecent.append new
  · rcases hproc pr hp with hnil | ⟨pr', hp', hlog, htask, halive⟩
    · exact Or.inl hnil
    · have hreads := h.reads pr' hp' (htask.trans ht)
      unfold ReadsOn at hreads ⊢
      rw [← hlog]
      refine hreads.imp_right fun ⟨hfine, hopen⟩ => ⟨hfine, fun ha => ?_⟩
      obtain ⟨ha', htx⟩ := halive ha
      rw [htx]
      exact hopen ha'

/-- A served call, of the reader or of another process. -/
theorem ReadsAfter.call {q : Pid} (h : ReadsAfter env u m p s us)
    (hq : s.proc q = some ⟨t, l, .call c k, true⟩) (hc : t.Calls env l c) (hfate : ch.fate = .ok)
    (halone : DeletesAlone u s us (.step q ch)) (hexec : exec env q c ch s.world = some (w, r)) :
    ReadsAfter env u m p (s.put w q ⟨t, ⟨c, r⟩ :: l, k r, true⟩)
      (ruleUpdates s (.step q ch) (s.put w q ⟨t, ⟨c, r⟩ :: l, k r, true⟩) us) := by
  have hshaped : CommitsShaped q s.world c := hc.shaped
  have hsound := h.sound.call hq hc hfate halone hexec
  have hupdated : Updated (s.put w q ⟨t, ⟨c, r⟩ :: l, k r, true⟩) u m :=
    h.updated.put fun pr hpr => by
      rw [hq] at hpr
      cases hpr
      exact List.suffix_cons _ _
  by_cases hpq : p = q
  · subst hpq
    rw [ruleUpdates_step] at hsound ⊢
    refine ⟨hsound, hupdated, fun pr hp => ?_, fun pr hp ht => ?_⟩
    · rw [Pool.put_self] at hp
      cases hp
      have htold := (h.told _ hq).exec (h.sound.table h.updated) (h.sound.cache h.updated) hexec
      exact htold.mono fun _ _ hrecent => hrecent.append _
    · rw [Pool.put_self] at hp
      cases hp
      obtain rfl : t = .getCashbackRule m := ht
      exact (h.reads _ hq rfl).call hc hfate hexec
  · refine h.same hsound ⟨_, ruleUpdates_step⟩ hupdated fun pr hp => Or.inr ?_
    rw [Pool.put_other _ _ _ _ hpq] at hp
    refine ⟨pr, hp, rfl, rfl, fun ha => ⟨ha, ?_⟩⟩
    show w.txOf p = _
    rw [exec_txOf hshaped hexec p, if_neg hpq]

theorem readsAfter {s₁ : RuleState} {us₁ : Updates} (hnew : s₁.proc p = none)
    (hupdated : Updated s₁ u m)
    (h₁ : UpdateRun env u (fun s us => s.Idle ∧ us = []) s₁ us₁)
    (h₂ : UpdateRun env u (fun s us => s = s₁ ∧ us = us₁) s us) : ReadsAfter env u m p s us := by
  refine h₂.invariant_from (ruleTask_sat env) (fun s us hs q pr hq => ?_) (fun s us hs => ?_)
    (fun s us q t _ hi _ hfree => ?_) (fun s us q ch t l c k w r _ hi met hq hc hexec => ?_)
    (fun s us q t l x _ hi _ hq => ?_) fun s us e w _ hi _ hmove => ?_
  · obtain ⟨rfl, rfl⟩ := hs
    exact h₁.reach.sat (ruleTask_sat env) (fun s ⟨us, hs⟩ => hs.1) hq
  · obtain ⟨rfl, rfl⟩ := hs
    have hnone : ∀ {pr}, s.proc p ≠ some pr := fun {pr} hp => by
      rw [hnew] at hp
      cases hp
    exact ⟨updateSound m h₁, hupdated, fun pr hp => absurd hp hnone, fun pr hp => absurd hp hnone⟩
  · refine hi.same (hi.sound.spawn t) ⟨[], rfl⟩ (hi.updated.put fun pr hpr => ?_) fun pr hp => ?_
    · rw [hfree] at hpr
      cases hpr
    · rw [Pool.put_proc] at hp
      split at hp
      · cases hp
        exact Or.inl rfl
      · exact Or.inr ⟨pr, hp, rfl, rfl, fun ha => ⟨ha, rfl⟩⟩
  · exact hi.call hq hc met.1 met.2 hexec
  · refine hi.same (hi.sound.crash hq) ⟨[], rfl⟩ (hi.updated.put fun pr hpr => ?_)
      fun pr hp => Or.inr ?_
    · rw [hq] at hpr
      cases hpr
      exact List.suffix_refl _
    · by_cases hpq : p = q
      · subst hpq
        rw [Pool.put_self] at hp
        cases hp
        exact ⟨_, hq, rfl, rfl, nofun⟩
      · rw [Pool.put_other _ _ _ _ hpq] at hp
        refine ⟨pr, hp, rfl, rfl, fun ha => ⟨ha, ?_⟩⟩
        show (s.world.setTx q none).txOf p = _
        rw [World.txOf_setTx, if_neg hpq]
  · exact hi.same (hi.sound.move hmove) ⟨[], rfl⟩ hi.updated fun pr hp =>
      Or.inr ⟨pr, hp, rfl, rfl, fun ha => ⟨ha, outside_txOf hmove p⟩⟩

/-- A read that starts after an update of the merchant has returned yields the rule of that update
    or of a later one, unless a row from before the update was about to be written to the cache
    when the update deleted its entry. -/
theorem update_takes_effect (env : Env) (henv : DecimalText env) {s₁ s₂ : RuleState}
    {us₁ us₂ : Updates} {u p : Pid} {m : String} {dto : UpsertCashbackRuleDto} {lu l : History}
    {answer : RuleAnswer} {x : RuleOutcome} {up alive : Bool}
    (h₁ : UpdateRun env u (fun s us => s.Idle ∧ us = []) s₁ us₁)
    (hu : s₁.proc u = some ⟨.upsertRule m dto, lu, .ret (.ok answer), up⟩) (hnew : s₁.proc p = none)
    (h₂ : UpdateRun env u (fun s us => s = s₁ ∧ us = us₁) s₂ us₂)
    (hp : s₂.proc p = some ⟨.getCashbackRule m, l, .ret x, alive⟩) :
    ∃ row, x = .ok (.rule (ruleOf (some row))) ∧ Recent us₂ u m (some row) := by
  have hends := h₁.reach.sat (ruleTask_sat env) (fun s ⟨us, hs⟩ => hs.1) hu
  have hafter := readsAfter hnew ⟨_, hu, hends _ rfl⟩ h₁ h₂
  have hend := (h₁.trans h₂).reach.sat (ruleTask_sat env) (fun s ⟨us, hs⟩ => hs.1) hp
  rcases hend with ⟨hfailed, -⟩ | ⟨entry, hread, rfl⟩
  · rcases hafter.reads _ hp rfl with hnil | ⟨hfine, -⟩
    · rw [show l = [] from hnil] at hfailed
      exact absurd hfailed not_anyFailed_nil
    · exact absurd hfailed hfine
  · obtain ⟨_, hrecent, rfl⟩ := (hafter.told _ hp).entryRead hread rfl
    obtain ⟨newer, q, row, older, rfl, hmerchant, rfl, hq⟩ := hrecent
    have hfits : row.FitsColumns := hafter.sound.fits (q, row) (by simp)
    refine ⟨row, ?_, newer, q, row, older, rfl, hmerchant, rfl, hq⟩
    rw [toDecimalRule_rulePayload henv fun r hr => Option.some_inj.mp hr ▸ hfits]
    rfl

end

/-! ### Runs -/

/-- The process has updated "shop-1". -/
def hasUpdated : Option RuleProcess → Bool
  | some ⟨.upsertRule "shop-1" _, _, .ret (.ok _), true⟩ => true
  | _ => false

theorem of_hasUpdated {pr : Option RuleProcess} (h : hasUpdated pr = true) :
    ∃ dto l answer, pr = some ⟨.upsertRule "shop-1" dto, l, .ret (.ok answer), true⟩ := by
  unfold hasUpdated at h
  split at h
  · exact ⟨_, _, _, rfl⟩
  · cases h

def callsSucceed : RuleStep → Bool
  | .step _ { fate := .ok, newId := _ } => true
  | .step _ _ => false
  | _ => true

def callsSucceedCheck (n : Nat) : Check n fun (_ : RuleState) lb => CallsSucceed lb :=
  (Check.of fun _ lb => callsSucceed lb).imp fun _ lb h => by
    unfold callsSucceed at h
    split at h
    · rfl
    · cases h
    · next hstep => cases lb <;> first | trivial | exact absurd rfl (hstep _ _)

/-- Worker 0 reads that the merchant has no rule, then one is stored by process 1. -/
def updateDuringRead : List RuleStep :=
  .spawn 0 (.getCashbackRule "shop-1") :: ruleServes 0 4 ++
    .spawn 1 (.upsertRule "shop-1" { rate := Platform.number (1 / 10), cap := none }) ::
      ruleServes 1 2

/-- Worker 0 writes its entry, then worker 2 reads the rule. -/
def readAfterUpdate : List RuleStep :=
  ruleServes 0 2 ++ .spawn 2 (.getCashbackRule "shop-1") :: ruleServes 2 2

/-- All calls succeed, the update has returned, and a read that starts later yields the default. -/
theorem stale_rule_read :
    ∃ s₁ us₁ s₂ us₂ dto lu answer l,
      Traced (ruleSystem (platform id)) ruleUpdates (fun _ _ lb => CallsSucceed lb)
        (fun s us => s.Idle ∧ us = []) s₁ us₁ ∧
      s₁.proc 1 = some ⟨.upsertRule "shop-1" dto, lu, .ret (.ok answer), true⟩ ∧ s₁.proc 2 = none ∧
      Traced (ruleSystem (platform id)) ruleUpdates (fun _ _ lb => CallsSucceed lb)
        (fun s us => s = s₁ ∧ us = us₁) s₂ us₂ ∧
      s₂.proc 2 = some ⟨.getCashbackRule "shop-1", l, .ret (.ok (.rule ⟨5 / 100, none⟩)), true⟩ ∧
      ∀ row, Recent us₂ 1 "shop-1" (some row) → ruleOf (some row) ≠ ⟨5 / 100, none⟩ := by
  let check := callsSucceedCheck 3
  have hrun : (((ruleSystem (platform id)).runTraced 3 ruleUpdates (fun s _ lb => check.test s lb)
      ruleInitial [] updateDuringRead).bind fun x =>
        ((ruleSystem (platform id)).runTraced 3 ruleUpdates (fun s _ lb => check.test s lb) x.1 x.2
          readAfterUpdate).map fun y => hasUpdated (x.1.proc 1) && (x.1.proc 2).isNone &&
            hasRead ⟨5 / 100, none⟩ (y.1.proc 2) && y.2.all fun u => u.2.rate != 5 / 100) =
      some true := by
    decide +kernel
  obtain ⟨⟨s₁, us₁⟩, hs₁, hrun⟩ := Option.bind_eq_some_iff.mp hrun
  obtain ⟨⟨s₂, us₂⟩, hs₂, hend⟩ := Option.map_eq_some_iff.mp hrun
  simp only [Bool.and_eq_true, Option.isNone_iff_eq_none] at hend
  obtain ⟨⟨⟨hupdated, hnew⟩, hread⟩, hall⟩ := hend
  obtain ⟨dto, lu, answer, hu⟩ := of_hasUpdated hupdated
  obtain ⟨l, hp⟩ := of_hasRead hread
  have hbelow : ruleInitial.Below 3 := fun _ _ => rfl
  refine ⟨s₁, us₁, s₂, us₂, dto, lu, answer, l,
    check.traced (fun _ _ _ h => h) hs₁ hbelow ⟨fun _ => rfl, rfl⟩, hu, hnew,
    check.traced (fun _ _ _ h => h) hs₂ (hbelow.runTraced hs₁) ⟨rfl, rfl⟩, hp,
    fun row hrecent heq => ?_⟩
  · obtain ⟨newer, q, row', older, rfl, -, hrow, -⟩ := hrecent
    cases hrow
    have hrate := List.all_eq_true.mp hall (q, row) (by simp)
    have heq : row.rate = 5 / 100 := congrArg Rule.rate heq
    simp [heq] at hrate

/-- When `u` is to be served, the process is not about to write to the cache. -/
def servedApart (u : Pid) (pr : Option RuleProcess) : RuleStep → Bool
  | .step p _ => p != u || (writing pr).isNone
  | _ => true

def deletesAloneCheck (u : Pid) (n : Nat) :
    Check n fun (s : RuleState) lb => CallsSucceed lb ∧ ∀ us, DeletesAlone u s us lb :=
  ((callsSucceedCheck n).and (Check.each (fun _ lb _ pr => servedApart u pr lb) fun _ lb _ => by
    unfold servedApart
    split <;> simp [writing])).imp fun s lb ⟨hsucceed, halone⟩ => by
    refine ⟨hsucceed, fun us => ?_⟩
    cases lb with
    | step p ch =>
      intro hpu m _ q found hq
      simpa [servedApart, hpu, hq] using halone q
    | _ => trivial

/-- A rule is stored by process 0, and worker 1 reads it. -/
theorem update_takes_effect_read :
    ∃ s₁ us₁ s₂ us₂ dto lu answer l x,
      UpdateRun (platform id) 0 (fun s us => s.Idle ∧ us = []) s₁ us₁ ∧
      s₁.proc 0 = some ⟨.upsertRule "shop-1" dto, lu, .ret (.ok answer), true⟩ ∧ s₁.proc 1 = none ∧
      UpdateRun (platform id) 0 (fun s us => s = s₁ ∧ us = us₁) s₂ us₂ ∧
      s₂.proc 1 = some ⟨.getCashbackRule "shop-1", l, .ret x, true⟩ ∧
      ∃ row, x = .ok (.rule (ruleOf (some row))) ∧ Recent us₂ 0 "shop-1" (some row) := by
  let check := deletesAloneCheck 0 2
  have hrun : (((ruleSystem (platform id)).runTraced 2 ruleUpdates (fun s _ lb => check.test s lb)
      ruleInitial []
        (.spawn 0 (.upsertRule "shop-1" { rate := Platform.number (1 / 10), cap := none }) ::
        ruleServes 0 2)).bind fun x =>
        ((ruleSystem (platform id)).runTraced 2 ruleUpdates (fun s _ lb => check.test s lb)
          x.1 x.2 (.spawn 1 (.getCashbackRule "shop-1") :: ruleServes 1 6)).map fun y =>
            hasUpdated (x.1.proc 0) && (x.1.proc 1).isNone &&
              hasRead ⟨1 / 10, none⟩ (y.1.proc 1)) = some true := by
    decide +kernel
  obtain ⟨⟨s₁, us₁⟩, hs₁, hrun⟩ := Option.bind_eq_some_iff.mp hrun
  obtain ⟨⟨s₂, us₂⟩, hs₂, hend⟩ := Option.map_eq_some_iff.mp hrun
  simp only [Bool.and_eq_true, Option.isNone_iff_eq_none] at hend
  obtain ⟨⟨hupdated, hnew⟩, hread⟩ := hend
  obtain ⟨dto, lu, answer, hu⟩ := of_hasUpdated hupdated
  obtain ⟨l, hp⟩ := of_hasRead hread
  have hbelow : ruleInitial.Below 2 := fun _ _ => rfl
  have h₁ : UpdateRun (platform id) 0 (fun s us => s.Idle ∧ us = []) s₁ us₁ :=
    check.traced (fun _ us _ h => ⟨h.1, h.2 us⟩) hs₁ hbelow ⟨fun _ => rfl, rfl⟩
  have h₂ : UpdateRun (platform id) 0 (fun s us => s = s₁ ∧ us = us₁) s₂ us₂ :=
    check.traced (fun _ us _ h => ⟨h.1, h.2 us⟩) hs₂ (hbelow.runTraced hs₁) ⟨rfl, rfl⟩
  exact ⟨s₁, us₁, s₂, us₂, dto, lu, answer, l, _, h₁, hu, hnew, h₂, hp,
    update_takes_effect (platform id) (platform_decimalText id) h₁ hu hnew h₂ hp⟩

end CashbackLedger
