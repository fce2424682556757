import CashbackLedger.Lib.Check
import CashbackLedger.Model.DecimalText
import CashbackLedger.Model.Platform
import CashbackLedger.Run.Rules

/-
  No read makes a rule up.

  The ghost value of a run is the list of the rule tables committed so far. Whatever fails and
  whatever expires, an entry of the cache is made of a row in one of them, so every rule that is
  read was the merchant's at one instant (`rule_read_was_committed`).
-/

namespace CashbackLedger

open Lib History

/-- The rule tables committed so far, newest first. -/
def ruleTables {T Ch E α : Type} (_ : Pool Call Reply T World α) (_ : Label T Ch E)
    (s' : Pool Call Reply T World α) (tables : List (Table CashbackRule)) :
    List (Table CashbackRule) :=
  s'.world.rules :: tables

/-- Nothing runs, and the cache holds at most the current rules. -/
structure RuleStart (env : Env) (s : RuleState) (tables : List (Table CashbackRule)) : Prop where
  idle : s.Idle
  tables : tables = [s.world.rules]
  fits : s.world.RulesFit
  cache :
      CacheHolds (fun m entry => entry = rulePayload env (ruleRow s.world.rules m)) s.world.redis

/-- The entry is made of the merchant's row in one of the tables, or of there being none. -/
def Was (env : Env) (tables : List (Table CashbackRule)) (m : String) (entry : CachedCashbackRule) :
    Prop := ∃ t ∈ tables, entry = rulePayload env (ruleRow t m)

/-- All there is of rules comes from the tables. -/
structure RulesSound (env : Env) (s : RuleState) (tables : List (Table CashbackRule)) : Prop where
  current : s.world.rules ∈ tables
  fits : ∀ t ∈ tables, ∀ r ∈ t, r.FitsColumns
  cache : CacheHolds (Was env tables) s.world.redis
  told : ∀ p pr, s.proc p = some pr → Told env (Was env tables) pr.log

variable {env : Env} {s : RuleState} {tables : List (Table CashbackRule)} {p : Pid} {ch : Choice}
  {w : World} {t : RuleTask} {l : History} {c : Call} {r : Reply c} {m : String}

theorem RuleTask.Calls.cacheWrite (h : t.Calls env l c) : CacheWrite env l c := by
  cases t with
  | upsertRule m dto => rcases h with ⟨-, rate, cap, rfl⟩ | ⟨rfl, -⟩ <;> trivial
  | invalidate m =>
    obtain rfl : c = .redis (.del (ruleKey m)) := h
    trivial
  | getRule m => exact ReadCall.cacheWrite h
  | getCashbackRule m =>
    rcases h with ⟨-, rfl⟩ | ⟨-, h⟩
    · trivial
    · exact h.cacheWrite

theorem Was.cons {entry : CachedCashbackRule} (h : Was env tables m entry)
    (t : Table CashbackRule) : Was env (t :: tables) m entry := by
  obtain ⟨t', ht', heq⟩ := h
  exact ⟨t', List.mem_cons_of_mem t ht', heq⟩

/-- Steps that leave the rules and the cache alone keep everything. -/
theorem RulesSound.same {s' : RuleState} (h : RulesSound env s tables)
    (hrules : s'.world.rules = s.world.rules) (hredis : s'.world.redis = s.world.redis)
    (hlogs : ∀ p pr, s'.proc p = some pr →
      pr.log = [] ∨ ∃ pr', s.proc p = some pr' ∧ pr'.log = pr.log) :
    RulesSound env s' (s'.world.rules :: tables) where
  current := List.mem_cons_self
  fits := by
    rw [hrules]
    exact List.forall_mem_cons.mpr ⟨h.fits _ h.current, h.fits⟩
  cache := by
    rw [hredis]
    exact h.cache.mono fun _ _ hw => hw.cons _
  told p pr hp := by
    rcases hlogs p pr hp with hnil | ⟨pr', hp', hlog⟩
    · rw [hnil]
      exact told_nil
    · rw [← hlog]
      exact (h.told p pr' hp').mono fun _ _ hw => hw.cons _

/-- A served call keeps everything, whatever its fate. -/
theorem RulesSound.call {k : Reply c → Prog Call Reply RuleOutcome} (h : RulesSound env s tables)
    (hp : s.proc p = some ⟨t, l, .call c k, true⟩) (hc : t.Calls env l c)
    (hexec : exec env p c ch s.world = some (w, r)) :
    RulesSound env (s.put w p ⟨t, ⟨c, r⟩ :: l, k r, true⟩) (w.rules :: tables) := by
  have hshaped : CommitsShaped p s.world c := hc.shaped
  have hwas : ∀ m entry, Was env tables m entry → Was env (w.rules :: tables) m entry :=
    fun _ _ hw => hw.cons _
  have htold : Told env (Was env tables) l := h.told p _ hp
  have htable : TableHolds env (Was env tables) s.world.rules := fun m => ⟨_, h.current, rfl⟩
  refine ⟨List.mem_cons_self, List.forall_mem_cons.mpr ⟨fun row hrow => ?_, h.fits⟩, ?_,
    fun q pr hq => ?_⟩
  · rcases exec_rules hshaped hexec with heq | ⟨m, rate, cap, stored, -, hstores⟩
    · rw [heq] at hrow
      exact h.fits _ h.current row hrow
    · rcases hstores.rows row hrow with rfl | hrow
      · exact hstores.fits
      · exact h.fits _ h.current row hrow
  · have hcache := h.cache.exec hshaped hc.cacheWrite (fun m found hl => htold.loaded hl) hexec
    exact hcache.mono hwas
  · exact Pool.forall_put ((htold.exec htable h.cache hexec).mono hwas)
      (fun q pr _ hq => (h.told q pr hq).mono hwas) q pr hq

theorem rules_sound
    (h : Traced (ruleSystem env) ruleTables (fun _ _ _ => True) (RuleStart env) s tables) :
    RulesSound env s tables := by
  refine h.invariant (ruleTask_sat env) (fun s g hs => hs.idle) (fun s g hs => ?_)
    (fun s g p t hr hi _ hfree => ?_)
    (fun s g p ch t l c k w r hr hi _ hp hc hexec => hi.call hp hc hexec)
    (fun s g p t l x hr hi _ hp => ?_) fun s g e w hr hi _ hmove => ?_
  · obtain ⟨hidle, rfl, hfits, hcache⟩ := hs
    refine ⟨List.mem_singleton.mpr rfl, fun t ht => ?_, ?_, fun p pr hp => ?_⟩
    · rw [List.mem_singleton.mp ht]
      exact hfits
    · exact hcache.mono fun m entry heq => ⟨_, List.mem_singleton.mpr rfl, heq⟩
    · rw [hidle p] at hp
      cases hp
  · exact hi.same rfl rfl (Pool.forall_put (Or.inl rfl) fun q pr _ hq => Or.inr ⟨pr, hq, rfl⟩)
  · exact hi.same rfl rfl
      (Pool.forall_put (Or.inr ⟨_, hp, rfl⟩) fun q pr _ hq => Or.inr ⟨pr, hq, rfl⟩)
  · have hsame : w.rules = s.world.rules ∧ w.redis = s.world.redis := by
      cases e <;> cases hmove <;> exact ⟨rfl, rfl⟩
    exact hi.same hsame.1 hsame.2 fun q pr hq => Or.inr ⟨pr, hq, rfl⟩

/-- A row of one of the tables is read from its entry as it is. -/
theorem RulesSound.read (h : RulesSound env s tables) (henv : DecimalText env)
    {t : Table CashbackRule} (ht : t ∈ tables) (m : String) :
    toDecimalRule env (rulePayload env (ruleRow t m)) = .ok (ruleOf (ruleRow t m)) :=
  toDecimalRule_rulePayload henv fun _ hrow => h.fits t ht _ (Table.mem_of_find? hrow)

/-- In every run, whatever fails: the rule that a read returns is the merchant's rule of one table
    committed before, and what the API returns is the text of such a rule. -/
theorem rule_read_was_committed (env : Env) (henv : DecimalText env)
    (h : Traced (ruleSystem env) ruleTables (fun _ _ _ => True) (RuleStart env) s tables) (p : Pid)
    (m : String) (l : History) (alive : Bool) :
    (∀ entry, s.proc p = some ⟨.getRule m, l, .ret (.ok (.snapshot entry)), alive⟩ →
      ∃ t ∈ tables, entry = rulePayload env (ruleRow t m) ∧
        toDecimalRule env entry = .ok (ruleOf (ruleRow t m))) ∧
    ∀ rule, s.proc p = some ⟨.getCashbackRule m, l, .ret (.ok (.rule rule)), alive⟩ →
      ∃ t ∈ tables, rule = ruleOf (ruleRow t m) := by
  have hsound := rules_sound h
  have hends : ∀ {t : RuleTask} {x : RuleOutcome}, s.proc p = some ⟨t, l, .ret x, alive⟩ →
      t.Ends env l x := fun hp => by
    have hsat := h.reach.sat (ruleTask_sat env) (fun s ⟨g, hs⟩ => hs.idle) hp
    exact hsat
  refine ⟨fun entry hp => ?_, fun rule hp => ?_⟩
  · obtain ⟨_, heq, hread⟩ := hends hp _ rfl
    cases heq
    obtain ⟨t, ht, rfl⟩ := (hsound.told p _ hp).entryRead hread
    exact ⟨t, ht, rfl, hsound.read henv ht m⟩
  · rcases hends hp with ⟨-, e, heq⟩ | ⟨entry, hread, heq⟩
    · cases heq
    · obtain ⟨t, ht, rfl⟩ := (hsound.told p _ hp).entryRead hread
      rw [hsound.read henv ht m] at heq
      cases heq
      exact ⟨t, ht, rfl⟩

/-! ## A run -/

/-- Nothing stored, nothing running. -/
def ruleInitial : RuleState := { world := .empty, proc := fun _ => none }

theorem ruleInitial_start : RuleStart env ruleInitial [.empty] where
  idle _ := rfl
  tables := rfl
  fits _ h := absurd h (Table.not_mem_empty _)
  cache _ h := absurd h List.not_mem_nil

/-- The pending calls of `p` succeed, `n` of them. -/
def ruleServes (p : Pid) (n : Nat) : List RuleStep :=
  List.replicate n (.step p { fate := .ok, newId := Platform.uuid p })

/-- A rule with a cap of 0 is stored, the API writes its entry, a worker reads it. -/
def cappedRead : List RuleStep :=
  .spawn 0 (.upsertRule "shop-1"
    { rate := Platform.number (1 / 10), cap := some (some (Platform.number 0)) }) ::
    ruleServes 0 2 ++
    .spawn 1 (.getRule "shop-1") :: ruleServes 1 5 ++
    .spawn 2 (.getCashbackRule "shop-1") :: ruleServes 2 2

/-- The process has read this rule. -/
def hasRead (rule : Rule) : Option (Proc Call Reply RuleTask RuleOutcome) → Bool
  | some ⟨.getCashbackRule "shop-1", _, .ret (.ok (.rule r)), true⟩ =>
      r.rate == rule.rate && r.cap == rule.cap
  | _ => false

theorem of_hasRead {rule : Rule} {pr : Option (Proc Call Reply RuleTask RuleOutcome)}
    (h : hasRead rule pr = true) :
    ∃ l, pr = some ⟨.getCashbackRule "shop-1", l, .ret (.ok (.rule rule)), true⟩ := by
  unfold hasRead at h
  split at h
  · next l r =>
    obtain ⟨hrate, hcap⟩ := Bool.and_eq_true_iff.mp h
    obtain ⟨rate, cap⟩ := r
    obtain rfl : rate = rule.rate := by simpa using hrate
    obtain rfl : cap = rule.cap := by simpa using hcap
    exact ⟨l, rfl⟩
  · cases h

theorem rule_read_was_committed_capped :
    ∃ s tables l, Traced (ruleSystem (platform id)) ruleTables (fun _ _ _ => True)
        (RuleStart (platform id)) s tables ∧
      s.proc 2 = some ⟨.getCashbackRule "shop-1", l, .ret (.ok (.rule ⟨1 / 10, some 0⟩)), true⟩ ∧
      ∃ t ∈ tables, (⟨1 / 10, some 0⟩ : Rule) = ruleOf (ruleRow t "shop-1") := by
  have hrun : (((ruleSystem (platform id)).runTraced 3 ruleTables (fun _ _ _ => true) ruleInitial
      [.empty] cappedRead).map fun x => hasRead ⟨1 / 10, some 0⟩ (x.1.proc 2)) = some true := by
    decide +kernel
  obtain ⟨⟨s, tables⟩, hs, hread⟩ := Option.map_eq_some_iff.mp hrun
  obtain ⟨l, hp⟩ := of_hasRead hread
  have h0 : Traced (ruleSystem (platform id)) ruleTables (fun _ _ _ => True)
      (RuleStart (platform id)) ruleInitial [.empty] := .start ruleInitial_start
  have h := h0.of_runTraced (fun _ _ _ _ _ => trivial) (fun _ _ => rfl) hs
  exact ⟨s, tables, l, h, hp,
    (rule_read_was_committed (platform id) (platform_decimalText id) h 2 "shop-1" l true).2 _ hp⟩

end CashbackLedger
