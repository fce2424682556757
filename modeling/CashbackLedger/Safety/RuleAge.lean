import CashbackLedger.Protocol.Timing
import CashbackLedger.Safety.RuleReads
import CashbackLedger.Safety.SeenRule

/-
  How old a rule can be that is read.

  The ghost value of a run is the list of the rule tables with the times at which they stood. An
  entry of the cache is made of a row that was read a while before and stands there for its TTL.
  Where no process takes longer than `delay` from its read of the row to its write of the entry,
  what a read is told was the merchant's rule at a time not further back than this delay and the TTL
  together (`rule_read_is_recent`): a rule is in force for all reads that begin later than that
  after its update, whatever has become of the deletion of the old entry.
-/

namespace CashbackLedger

open Lib History

/-- Rule tables with the times at which they stood, newest first. -/
abbrev DatedTables : Type := List (Time × Table CashbackRule)

def datedTables (_ : RuleState) (_ : RuleStep) (s' : RuleState)
    (tables : DatedTables) : DatedTables :=
  (s'.world.clock, s'.world.rules) :: tables

/-- From the read of a row to the end of its entry. -/
def lifetime (env : Env) (delay : Time) : Time := delay + env.cacheTtlSeconds * 1000

/-- The entry was the merchant's no longer than `age` before `t`. -/
def WasSince (env : Env) (age : Time) (tables : DatedTables) (t : Time) : EntriesOf :=
  fun m entry =>
  ∃ x ∈ tables, t ≤ x.1 + age ∧ entry = rulePayload env (ruleRow x.2 m)

/-- An entry is written at most `delay` after its row was read. -/
def writesPromptly (delay : Time) (s : RuleState) : RuleStep → Bool
  | .step p _ =>
      match s.proc p with
      | some ⟨_, l, .call (.redis (.set _ _ _)) _, true⟩ =>
        decide (s.world.clock ≤ History.now l + delay)
      | _ => true
  | _ => true

/-- The entries of the cache, by the time at which they end. -/
def CacheAged (env : Env) (age : Time) (tables : DatedTables) (redis : List RedisEntry) : Prop :=
  ∀ e ∈ redis, EntryOf (WasSince env age tables e.expiresAt) e.key e.value

/-- Nothing runs, and the cache holds at most entries that could have been written before. -/
structure AgeStart (env : Env) (age : Time) (s : RuleState) (tables : DatedTables) : Prop where
  idle : s.Idle
  stood : tables = [(s.world.clock, s.world.rules)]
  fits : s.world.RulesFit
  cache : CacheAged env age tables s.world.redis

/-- What a process knows: the row it has just read is of that time, and what it was told since a
    time is not older than that. -/
structure KnowsSince (env : Env) (age : Time) (tables : DatedTables) (l : History) : Prop where
  loaded : ∀ m found, l.loaded = some (m, found) → ∃ x ∈ tables, l.now ≤ x.1 ∧ found = ruleRow x.2 m
  told : ∀ t, (∀ y ∈ l, t ≤ y.2.2) → Told env (WasSince env age tables t) l

structure AgeSound (env : Env) (age : Time) (s : RuleState) (tables : DatedTables) : Prop where
  current : (s.world.clock, s.world.rules) ∈ tables
  fits : ∀ x ∈ tables, ∀ r ∈ x.2, r.FitsColumns
  cache : CacheAged env age tables s.world.redis
  knows : ∀ p pr, s.proc p = some pr → KnowsSince env age tables pr.log

section

variable {env : Env} {delay age t : Time} {s s' : RuleState} {tables : DatedTables} {p : Pid}
  {ch : Choice} {w w' : World} {u : RuleTask} {l : History} {c : Call} {r : Reply c} {m : String}
  {x : Time × Table CashbackRule}

/-! ## The times that the reads write -/

theorem timed_loadSnapshot : Sat (TimedCall env) (fun _ _ => True) l (loadSnapshot env m).run := by
  refine sat_await_bind trivial (fun found now => ?_) fun _ _ => trivial
  exact sat_tryAwait_bind ⟨rfl, _, _, rfl, rfl⟩ fun _ _ => trivial

theorem timed_snapshotThrough (gotLock : Bool) :
    Sat (TimedCall env) (fun _ _ => True) l (snapshotThrough env m gotLock).run := by
  unfold snapshotThrough
  split
  · exact timed_loadSnapshot
  · refine sat_tell_bind trivial fun r now => sat_readCache_bind trivial fun r' raw => ?_
    cases raw with
    | none => exact timed_loadSnapshot
    | some retried => trivial

theorem timed_getRule : Sat (TimedCall env) (fun _ _ => True) l (getRule env m).run := by
  refine sat_readCache_bind trivial fun r raw => ?_
  cases raw with
  | some cached => trivial
  | none =>
    refine sat_tryAwait_bind ⟨rfl, _, rfl⟩ fun r' gotLock => sat_act_finally.mpr ?_
    refine (timed_snapshotThrough gotLock).post fun l' entry _ => ?_
    cases gotLock with
    | false => cases entry <;> trivial
    | true =>
      rw [if_pos rfl]
      refine sat_tryAwait (c := .redis (.del _)) trivial fun r _ => ?_
      cases entry <;> trivial

theorem ruleTask_timed (env : Env) (u : RuleTask) :
    Sat (TimedCall env) (fun _ _ => True) [] (u.program env).run := by
  cases u with
  | upsertRule m dto =>
    exact Sat.act_bind (timed_upsertRule m dto) (fun _ _ _ => trivial) fun _ _ _ => trivial
  | invalidate m => exact sat_tryAwait_bind (c := .redis (.del _)) trivial fun _ _ => trivial
  | getRule m => exact Sat.act_bind timed_getRule (fun _ _ _ => trivial) fun _ _ _ => trivial
  | getCashbackRule m =>
    refine sat_await_bind trivial (fun _ _ => ?_) fun _ _ => trivial
    exact Sat.act_bind (timed_getCashbackRule m) (fun _ _ _ => trivial) fun _ _ _ => trivial

/-! ## Tables are added -/

theorem WasSince.cons {entry : CachedCashbackRule} (h : WasSince env age tables t m entry)
    (x : Time × Table CashbackRule) : WasSince env age (x :: tables) t m entry := by
  obtain ⟨y, hy, hage, heq⟩ := h
  exact ⟨y, List.mem_cons_of_mem x hy, hage, heq⟩

theorem CacheAged.cons {redis : List RedisEntry} (h : CacheAged env age tables redis)
    (x : Time × Table CashbackRule) : CacheAged env age (x :: tables) redis :=
  fun e he => (h e he).mono fun _ _ hw => hw.cons x

theorem KnowsSince.cons (h : KnowsSince env age tables l) (x : Time × Table CashbackRule) :
    KnowsSince env age (x :: tables) l where
  loaded m found hl := by
    obtain ⟨y, hy, hnow, heq⟩ := h.loaded m found hl
    exact ⟨y, List.mem_cons_of_mem x hy, hnow, heq⟩
  told t ht := (h.told t ht).mono fun _ _ hw => hw.cons x

theorem knowsSince_nil : KnowsSince env age tables [] where
  loaded _ _ h := by cases h
  told _ _ := told_nil

/-- Steps that leave the rules and the cache alone keep everything. -/
theorem AgeSound.same (h : AgeSound env age s tables) (hrules : s'.world.rules = s.world.rules)
    (hredis : s'.world.redis = s.world.redis)
    (hlogs : ∀ p pr, s'.proc p = some pr →
      pr.log = [] ∨ ∃ pr', s.proc p = some pr' ∧ pr'.log = pr.log) :
    AgeSound env age s' ((s'.world.clock, s'.world.rules) :: tables) where
  current := List.mem_cons_self
  fits := by
    rw [hrules]
    have hfits := h.fits _ h.current
    exact List.forall_mem_cons.mpr ⟨hfits, h.fits⟩
  cache := by
    rw [hredis]
    exact h.cache.cons _
  knows p pr hp := by
    rcases hlogs p pr hp with hnil | ⟨pr', hp', hlog⟩
    · rw [hnil]
      exact knowsSince_nil
    · rw [← hlog]
      exact (h.knows p pr' hp').cons _

/-! ## Calls -/

/-- A value that is found is alive. -/
theorem exec_alive {key : String} {value : JsonText}
    (hgot : Got [⟨c, r⟩] (.redis (.get key)) (some value))
    (hexec : exec env p c ch w = some (w', r)) :
    ∃ e ∈ w.redis, e.key = key ∧ e.value = value ∧ w.clock < e.expiresAt := by
  obtain ⟨now, hm⟩ := hgot
  cases List.mem_singleton.mp hm
  obtain ⟨msg, hr⟩ | ⟨w₁, hrun, -⟩ := exec_reply hexec
  · cases hr
  · simp only [Call.run, RedisCall.run, Option.some_inj, Prod.mk.injEq, Except.ok.injEq] at hrun
    obtain ⟨e, he, rfl⟩ := Option.map_eq_some_iff.mp hrun.2
    obtain ⟨hmem, hkey, hlive⟩ := of_lookup he
    exact ⟨e, hmem, hkey, rfl, hlive⟩

/-- A reply tells a row of now, or an entry that has not ended. -/
theorem KnowsSince.exec (h : KnowsSince env age tables l) (hcurrent : (w.clock, w.rules) ∈ tables)
    (hcache : CacheAged env age tables w.redis) (hexec : exec env p c ch w = some (w', r)) :
    KnowsSince env age tables (⟨c, r⟩ :: l) where
  loaded m found hl := by
    refine ⟨_, hcurrent, ?_, exec_row (loaded_cons hl) hexec⟩
    exact (exec_clock hexec).2.le
  told t ht := by
    have hnow : t ≤ w.clock := by
      rw [← (exec_clock hexec).2]
      exact ht _ List.mem_cons_self
    have hold := h.told t fun y hy => ht y (List.mem_cons_of_mem _ hy)
    refine ⟨fun m found hread => ?_, fun key value hgot => ?_⟩
    · rcases rowRead_cons.mp hread with hread | hread
      · rw [exec_row hread hexec]
        exact ⟨_, hcurrent, Nat.le_add_right_of_le hnow, rfl⟩
      · exact hold.row m found hread
    · rcases got_cons.mp hgot with hgot | hgot
      · obtain ⟨e, he, rfl, rfl, hlive⟩ := exec_alive hgot hexec
        refine (hcache e he).mono fun m entry hw => ?_
        obtain ⟨y, hy, hage, heq⟩ := hw
        exact ⟨y, hy, Nat.le_trans hnow (Nat.le_trans hlive.le hage), heq⟩
      · exact hold.entry key value hgot

/-- An entry ends a TTL after it was written, and its row was read a delay before. -/
theorem CacheAged.run {rc : RedisCall} {now : Time} {redis : List RedisEntry}
    (h : CacheAged env (lifetime env delay) tables redis)
    (hknows : KnowsSince env (lifetime env delay) tables l) (hwrite : CacheWrite env l (.redis rc))
    (htimed : TimedCall env l (.redis rc))
    (hprompt : ∀ key value seconds, rc = .set key value seconds → now ≤ l.now + delay) :
    CacheAged env (lifetime env delay) tables (rc.run now redis).1 := by
  have hdelete : ∀ key, CacheAged env (lifetime env delay) tables (RedisCall.delete key redis) :=
    fun key e he => h e (mem_of_mem_delete he)
  cases rc with
  | get key => exact h
  | del key => exact hdelete key
  | setNx key ms =>
    unfold RedisCall.run
    dsimp only
    split
    · exact h
    · exact List.forall_mem_cons.mpr ⟨entryOf_lock key, hdelete key⟩
  | set key value seconds =>
    obtain ⟨rfl, -⟩ := htimed
    obtain ⟨m, found, rfl, hl, rfl⟩ := hwrite
    obtain ⟨x, hx, hread, rfl⟩ := hknows.loaded m found hl
    have hnow : now ≤ x.1 + delay :=
      Nat.le_trans (hprompt _ _ _ rfl) (Nat.add_le_add_right hread delay)
    refine List.forall_mem_cons.mpr ⟨entryOf_json ⟨x, hx, ?_, rfl⟩, hdelete _⟩
    exact (Nat.add_le_add_right hnow _).trans_eq (Nat.add_assoc _ _ _)

theorem CacheAged.exec (h : CacheAged env (lifetime env delay) tables w.redis)
    (hs : CommitsShaped p w c) (hknows : KnowsSince env (lifetime env delay) tables l)
    (hwrite : CacheWrite env l c) (htimed : TimedCall env l c)
    (hprompt : ∀ key value seconds, c = .redis (.set key value seconds) → w.clock ≤ l.now + delay)
    (hexec : exec env p c ch w = some (w', r)) :
    CacheAged env (lifetime env delay) tables w'.redis := by
  obtain ⟨w₁, heff, rfl⟩ := exec_effect hs hexec
  show CacheAged env (lifetime env delay) tables w₁.redis
  rcases heff.redis_origin with heq | ⟨rc, rfl, heq⟩
  · rw [heq]
    exact h
  · rw [heq]
    exact h.run hknows hwrite htimed fun key value seconds hset =>
      hprompt key value seconds (congrArg _ hset)

theorem AgeSound.call {k : Reply c → Prog Call Reply RuleOutcome}
    (h : AgeSound env (lifetime env delay) s tables) (hp : s.proc p = some ⟨u, l, .call c k, true⟩)
    (hc : u.Calls env l c) (htimed : TimedCall env l c)
    (hprompt : writesPromptly delay s (.step p ch) = true)
    (hexec : exec env p c ch s.world = some (w, r)) :
    AgeSound env (lifetime env delay) (s.put w p ⟨u, ⟨c, r⟩ :: l, k r, true⟩)
      ((w.clock, w.rules) :: tables) := by
  have hshaped : CommitsShaped p s.world c := hc.shaped
  have hknows := h.knows p _ hp
  refine ⟨List.mem_cons_self, List.forall_mem_cons.mpr ⟨fun row hrow => ?_, h.fits⟩, ?_,
    Pool.forall_put ((hknows.exec h.current h.cache hexec).cons _) fun q pr _ hq =>
      (h.knows q pr hq).cons _⟩
  · rcases exec_rules hshaped hexec with heq | ⟨m, rate, cap, stored, -, hstores⟩
    · rw [show (w.clock, w.rules).2 = s.world.rules from heq] at hrow
      exact h.fits _ h.current row hrow
    · rcases hstores.rows row hrow with rfl | hrow
      · exact hstores.fits
      · exact h.fits _ h.current row hrow
  · refine (h.cache.exec hshaped hknows hc.cacheWrite htimed ?_ hexec).cons _
    rintro key value seconds rfl
    simp only [writesPromptly, hp, decide_eq_true_eq] at hprompt
    exact hprompt

/-! ## Runs -/

theorem age_sound
    (h : Traced (ruleSystem env) datedTables (fun s _ lb => writesPromptly delay s lb = true)
      (AgeStart env (lifetime env delay)) s tables) :
    AgeSound env (lifetime env delay) s tables := by
  refine h.invariant (ruleTask_sat env) (fun s g hs => hs.idle) (fun s g hs => ?_)
    (fun s g p u hr hi _ hfree => ?_) (fun s g p ch u l c k w r hr hi met hp hc hexec => ?_)
    (fun s g p u l x hr hi _ hp => ?_) fun s g e w hr hi _ hmove => ?_
  · obtain ⟨hidle, rfl, hfits, hcache⟩ := hs
    refine ⟨List.mem_singleton.mpr rfl, fun x hx => ?_, hcache, fun p pr hp => ?_⟩
    · rw [List.mem_singleton.mp hx]
      exact hfits
    · rw [hidle p] at hp
      cases hp
  · exact hi.same rfl rfl (Pool.forall_put (Or.inl rfl) fun q pr _ hq => Or.inr ⟨pr, hq, rfl⟩)
  · have htimed := (hr.reach.sat (ruleTask_timed env) (fun s ⟨g, hs⟩ => hs.idle) hp).1
    exact hi.call hp hc htimed met hexec
  · exact hi.same rfl rfl
      (Pool.forall_put (Or.inr ⟨_, hp, rfl⟩) fun q pr _ hq => Or.inr ⟨pr, hq, rfl⟩)
  · have hsame : w.rules = s.world.rules ∧ w.redis = s.world.redis := by
      cases e <;> cases hmove <;> exact ⟨rfl, rfl⟩
    exact hi.same hsame.1 hsame.2 fun q pr hq => Or.inr ⟨pr, hq, rfl⟩

/-- Whatever fails: a read that begins at `t` or later returns the rule of a table that stood at a
    time of which `t` is at most the lifetime of an entry later. -/
theorem rule_read_is_recent (env : Env) (henv : DecimalText env) (delay : Time)
    (h : Traced (ruleSystem env) datedTables (fun s _ lb => writesPromptly delay s lb = true)
      (AgeStart env (lifetime env delay)) s tables)
      (p : Pid) (m : String) (l : History) (alive : Bool)
    {t : Time} (hbegun : ∀ y ∈ l, t ≤ y.2.2) :
    (∀ entry, s.proc p = some ⟨.getRule m, l, .ret (.ok (.snapshot entry)), alive⟩ →
      ∃ x ∈ tables, t ≤ x.1 + lifetime env delay ∧ entry = rulePayload env (ruleRow x.2 m)) ∧
    ∀ rule, s.proc p = some ⟨.getCashbackRule m, l, .ret (.ok (.rule rule)), alive⟩ →
      ∃ x ∈ tables, t ≤ x.1 + lifetime env delay ∧ rule = ruleOf (ruleRow x.2 m) := by
  have hsound := age_sound h
  have hends : ∀ {u : RuleTask} {x : RuleOutcome}, s.proc p = some ⟨u, l, .ret x, alive⟩ →
      u.Ends env l x := fun hp => by
    have hsat := h.reach.sat (ruleTask_sat env) (fun s ⟨g, hs⟩ => hs.idle) hp
    exact hsat
  refine ⟨fun entry hp => ?_, fun rule hp => ?_⟩
  · obtain ⟨_, heq, hread⟩ := hends hp _ rfl
    cases heq
    exact ((hsound.knows p _ hp).told t hbegun).entryRead hread
  · rcases hends hp with ⟨-, e, heq⟩ | ⟨entry, hread, heq⟩
    · cases heq
    · obtain ⟨x, hx, hage, rfl⟩ := ((hsound.knows p _ hp).told t hbegun).entryRead hread
      have hfits : ∀ row, ruleRow x.2 m = some row → row.FitsColumns := fun row hrow =>
        hsound.fits x hx row (Table.mem_of_find? hrow)
      rw [toDecimalRule_rulePayload henv hfits] at heq
      cases heq
      exact ⟨x, hx, hage, rfl⟩

/-! ## A run -/

theorem ruleInitial_ageStart (age : Time) : AgeStart env age ruleInitial [(0, .empty)] where
  idle _ := rfl
  stood := rfl
  fits _ h := absurd h (Table.not_mem_empty _)
  cache _ h := absurd h List.not_mem_nil

/-- An entry of 10 % is cached, the deletion fails that should follow the update to 20 %, and the
    worker reads the rule within the last millisecond of the entry. -/
def readAfterFailedDeletion : List RuleStep :=
  .spawn 0 (.upsertRule "shop-1" { rate := Platform.number (1 / 10), cap := none }) ::
    ruleServes 0 2 ++
    .spawn 1 (.getRule "shop-1") :: ruleServes 1 5 ++
    .spawn 2 (.upsertRule "shop-1" { rate := Platform.number (2 / 10), cap := none }) ::
      ruleServes 2 1 ++
    .step 2 { fate := .fail "connection lost", newId := Platform.uuid 2 } :: .move (.tick 59999) ::
    .spawn 3 (.getCashbackRule "shop-1") :: ruleServes 3 2

/-- The read begins a TTL after the update, less a millisecond, and still returns 10 %. -/
theorem rule_read_is_recent_failed : ∃ s tables l,
    Traced (ruleSystem (platform id)) datedTables (fun s _ lb => writesPromptly 0 s lb = true)
      (AgeStart (platform id) (lifetime (platform id) 0)) s tables ∧
    s.proc 3 = some ⟨.getCashbackRule "shop-1", l, .ret (.ok (.rule ⟨1 / 10, none⟩)), true⟩ ∧
    (∀ y ∈ l, 59999 ≤ y.2.2) ∧
    (ruleRow s.world.rules "shop-1").any (fun row => row.rate == 2 / 10) = true ∧
    ∃ x ∈ tables, 59999 ≤ x.1 + 60000 ∧ (⟨1 / 10, none⟩ : Rule) =
      ruleOf (ruleRow x.2 "shop-1") := by
  have hrun : (((ruleSystem (platform id)).runTraced 4 datedTables
      (fun s _ lb => writesPromptly 0 s lb) ruleInitial [(0, .empty)]
      readAfterFailedDeletion).map fun x =>
        hasRead ⟨1 / 10, none⟩ (x.1.proc 3) &&
          (x.1.proc 3).all (fun pr => pr.log.all fun y => decide (59999 ≤ y.2.2)) &&
          (ruleRow x.1.world.rules "shop-1").any fun row => row.rate == 2 / 10) = some true := by
    decide +kernel
  obtain ⟨⟨s, tables⟩, hs, hend⟩ := Option.map_eq_some_iff.mp hrun
  simp only [Bool.and_eq_true] at hend
  obtain ⟨⟨hread, hlate⟩, hrow⟩ := hend
  obtain ⟨l, hp⟩ := of_hasRead hread
  rw [hp] at hlate
  have hbegun : ∀ y ∈ l, 59999 ≤ y.2.2 :=
    fun y hy => of_decide_eq_true (List.all_eq_true.mp hlate y hy)
  have h0 : Traced (ruleSystem (platform id)) datedTables
      (fun s _ lb => writesPromptly 0 s lb = true)
      (AgeStart (platform id) (lifetime (platform id) 0)) ruleInitial [(0, .empty)] :=
    .start (ruleInitial_ageStart _)
  have h := h0.of_runTraced (fun _ _ _ _ hcheck => hcheck) (fun _ _ => rfl) hs
  exact ⟨s, tables, l, h, hp, hbegun, hrow,
    (rule_read_is_recent (platform id)
      (platform_decimalText id) 0 h 3 "shop-1" l true hbegun).2 _ hp⟩

end

end CashbackLedger
