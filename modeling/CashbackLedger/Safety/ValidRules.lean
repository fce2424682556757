import CashbackLedger.Safety.Convergence
import CashbackLedger.Safety.Submitted

/-
  Valid requests keep everything valid.

  Validation bounds the amount of an order, the rate and the cap of a rule. Where only such
  requests are sent, every stored amount and every stored rule is within these bounds, and so is
  every rule that a process is told of, by the database or by the cache (`valid`). The columns round
  what they store; the bounds are values that rounding fixes.
-/

namespace CashbackLedger

open Lib History

/-- A request with a body that the validation pipe accepts; other steps may be any. -/
def validated : Step → Bool
  | .spawn _ (.create _ dto) => toNumber (1 / 100) ≤ dto.amount.value
  | .spawn _ (.upsertRule _ dto) => 0 ≤ dto.rate.value && dto.rate.value ≤ 1 &&
      (dto.cap.join.all fun cap => 0 ≤ cap.value)
  | _ => true

def Validated (_ : State) (lb : Step) : Prop := validated lb = true

/-- What validation has checked of a task. -/
def Task.Valid : Task → Prop
  | .create _ dto => toNumber (1 / 100) ≤ dto.amount.value
  | .upsertRule _ dto => dto.Valid
  | _ => True

/-- The entry is read as a valid rule. -/
def ValidEntry (env : Env) : EntriesOf := fun _ entry =>
  ∃ rule, toDecimalRule env entry = .ok rule ∧ ValidRule rule

/-- The rules of the table are valid. -/
def ValidRules (t : Table CashbackRule) : Prop := ∀ r ∈ t, ValidRule (ruleOf (some r))

/-- Valid amounts, and valid rules wherever rules are. -/
structure Valid (env : Env) (s : State) : Prop where
  orders : ∀ o ∈ s.world.orders, ValidAmount o.amount
  rules : ValidRules s.world.rules
  cache : CacheHolds (ValidEntry env) s.world.redis
  told : ∀ p pr, s.proc p = some pr → Told env (ValidEntry env) pr.log

section

variable {env : Env} {t t' : Table CashbackRule} {m : String} {rate : Decimal}
  {cap : Option Decimal} {s : State}

/-- The bounds of validation are numbers that print as they are written. -/
theorem Number.toDecimal_nonneg {x : Number} (h : 0 ≤ x.value) : 0 ≤ x.toDecimal :=
  le_printed x.double (by decide +kernel) (toNumber_zero.trans_le h)

theorem Number.toDecimal_le_one {x : Number} (h : x.value ≤ 1) : x.toDecimal ≤ 1 :=
  printed_le x.double (by decide +kernel) (h.trans (by decide +kernel))

theorem validAmount_stored {x : Number} {amount' : Decimal} (hmin : toNumber (1 / 100) ≤ x.value)
    (h : storeNumeric 18 2 x.toDecimal = some amount') : ValidAmount amount' := by
  have hmin : 1 / 100 ≤ x.toDecimal := le_printed x.double (by decide +kernel) hmin
  have hq : 0 ≤ x.toDecimal := le_trans (by norm_num) hmin
  exact ⟨storeNumeric_again hq h, le_storeNumeric hq h ⟨1, by norm_num⟩ hmin⟩

theorem storeCap_some {c' : Decimal} {cap : Option Decimal}
    (h : RuleCall.storeCap cap = some (some c')) :
    ∃ c, cap = some c ∧ storeNumeric 18 2 c = some c' := by
  cases cap with
  | none => cases h
  | some c =>
    obtain ⟨c'', hc, heq⟩ := Option.map_eq_some_iff.mp h
    cases heq
    exact ⟨c, rfl, hc⟩

theorem dtoCap_some {dto : UpsertCashbackRuleDto} {c : Decimal} (h : dtoCap dto = .ok cap)
    (hcap : cap = some c) : ∃ x, dto.cap = some (some x) ∧ c = x.toDecimal := by
  subst hcap
  unfold dtoCap at h
  split at h
  · cases h
  · cases h
  · next x hdto =>
    cases h
    exact ⟨x, hdto, rfl⟩

theorem defaultRule_valid : ValidRule (ruleOf none) where
  rate_stored := by decide +kernel
  rate_nonneg := by norm_num [ruleOf, defaultRate]
  rate_le_one := by norm_num [ruleOf, defaultRate]
  cap_stored _ h := by cases h
  cap_nonneg _ h := by cases h

/-- The row of a valid update. -/
theorem validRule_stored {rate' : Decimal} {cap' : Option Decimal} (hnonneg : 0 ≤ rate)
    (hone : rate ≤ 1) (hcap : ∀ c, cap = some c → 0 ≤ c)
    (hrate' : storeNumeric 6 4 rate = some rate') (hcap' : RuleCall.storeCap cap = some cap') :
    ValidRule (ruleOf (some ⟨m, rate', cap'⟩)) where
  rate_stored := storeNumeric_again hnonneg hrate'
  rate_nonneg := storeNumeric_nonneg hnonneg hrate'
  rate_le_one := storeNumeric_le hnonneg hrate' ⟨10000, by norm_num⟩ hone
  cap_stored c' h := by
    obtain rfl : cap' = some c' := h
    obtain ⟨c, hc, hstored⟩ := storeCap_some hcap'
    exact storeNumeric_again (hcap c hc) hstored
  cap_nonneg c' h := by
    obtain rfl : cap' = some c' := h
    obtain ⟨c, hc, hstored⟩ := storeCap_some hcap'
    exact storeNumeric_nonneg (hcap c hc) hstored

theorem ValidRule.fits {r : CashbackRule} (h : ValidRule (ruleOf (some r))) : r.FitsColumns :=
  ⟨storeNumeric_fourPlaces (by decide) h.rate_stored,
    fun cap hcap => storeNumeric_fourPlaces (by decide) (h.cap_stored cap hcap)⟩

theorem ValidRules.row (h : ValidRules t) (m : String) : ValidRule (ruleOf (ruleRow t m)) := by
  cases hrow : ruleRow t m with
  | none => exact defaultRule_valid
  | some r => exact h r (Table.mem_of_find? hrow)

/-- The entries made of a valid table are valid. -/
theorem ValidRules.table (h : ValidRules t) (henv : DecimalText env) :
    TableHolds env (ValidEntry env) t := fun m =>
  ⟨_, toDecimalRule_rulePayload henv fun r hr => (h r (Table.mem_of_find? hr)).fits, h.row m⟩

/-- A valid update keeps the table valid. -/
theorem ValidRules.upsert {x : Except Fault CashbackRule} (h : ValidRules t) (hnonneg : 0 ≤ rate)
    (hone : rate ≤ 1) (hcap : ∀ c, cap = some c → 0 ≤ c)
    (hrun : RuleCall.run t (.upsert m rate cap) = some (t', x)) : ValidRules t' := by
  unfold RuleCall.run at hrun
  dsimp only at hrun
  split at hrun
  · next rate' cap' hrate' hcap' _ =>
    have hvalid : ∀ m, ValidRule (ruleOf (some ⟨m, rate', cap'⟩)) := fun m =>
      validRule_stored hnonneg hone hcap hrate' hcap'
    split at hrun
    · cases hrun
      intro r hr
      obtain ⟨r₀, hr₀, rfl⟩ := Table.mem_modify.mp hr
      split
      · exact hvalid r₀.merchantId
      · exact h r₀ hr₀
    · obtain ⟨t₁, hins, heq⟩ := Option.map_eq_some_iff.mp hrun
      cases heq
      intro r hr
      rcases (Table.mem_insert hins).mp hr with hr | rfl
      · exact h r hr
      · exact hvalid m
  · cases hrun
    exact h

/-! ## Every run -/

theorem validated_task {s : State} {p : Pid} {t : Task}
    (h : Validated s (.spawn p t)) : t.Valid := by
  cases t with
  | create header dto =>
    have hmin : toNumber (1 / 100) ≤ dto.amount.value := of_decide_eq_true h
    exact hmin
  | upsertRule m dto =>
    obtain ⟨hrate, hcap⟩ := Bool.and_eq_true_iff.mp h
    obtain ⟨hnonneg, hone⟩ := Bool.and_eq_true_iff.mp hrate
    refine ⟨of_decide_eq_true hnonneg, of_decide_eq_true hone, fun cap hc => ?_⟩
    have hjoin : dto.cap.join = some cap := by rw [hc]; rfl
    rw [hjoin] at hcap
    exact of_decide_eq_true hcap
  | _ => trivial

theorem initial_idle (s : State) (h : s = initial) : s.Idle := (fresh_of_initial s h).1

theorem valid_tasks (h : Reach (system env) Validated (· = initial) s) {p : Pid} {pr : Process}
    (hp : s.proc p = some pr) : pr.task.Valid :=
  h.tasks (K := Task.Valid) (fun _ _ _ => validated_task) initial_idle hp

/-- Where only valid requests are sent, amounts and rules are valid in every reachable state. -/
theorem valid (henv : DecimalText env) (h : Reach (system env) Validated (· = initial) s) :
    Valid env s := by
  refine Reach.invariant (sourced_sat env) initial_idle ?_ ?_ ?_ ?_ ?_ h
  · rintro s rfl
    exact ⟨fun o ho => absurd ho (Table.not_mem_empty o),
      fun r hr => absurd hr (Table.not_mem_empty r),
      fun e he => absurd he List.not_mem_nil, fun p pr hp => by cases hp⟩
  · intro s p t _ hI _ _
    exact ⟨hI.orders, hI.rules, hI.cache, Pool.forall_put told_nil fun q pr _ => hI.told q pr⟩
  · intro s p ch t l c k w r hr hI _ hp hc hx _
    have hshaped := (sound fresh_of_initial hr).shaped hp hc.1
    have htask := valid_tasks hr hp
    have htold := hI.told p _ hp
    have hcache := hI.cache.exec hshaped hc.2.1.1 (fun m found => htold.loaded) hx
    have htold' := htold.exec (hI.rules.table henv) hI.cache hx
    obtain ⟨w₁, heff, rfl⟩ := exec_effect hshaped hx
    refine ⟨fun o ho => ?_, ?_, hcache, Pool.forall_put htold' fun q pr _ => hI.told q pr⟩
    · rcases heff.order_origin ho with ⟨o₀, ho₀, hcore, -⟩ | ⟨d, amount, rfl, hstored, rfl⟩
      · rw [(Order.of_core hcore).2.2.2.1]
        exact hI.orders o₀ ho₀
      · obtain ⟨header, dto, rfl, rfl⟩ := hc.1.orderCreate
        exact validAmount_stored htask hstored
    · show ValidRules w₁.rules
      rcases heff.rules_origin with heq | ⟨c', x, rfl, hrun⟩
      · rw [heq]
        exact hI.rules
      · cases c' with
        | findUnique m =>
          have heq : s.world.rules = w₁.rules := congrArg Prod.fst (Option.some_inj.mp hrun)
          exact heq ▸ hI.rules
        | upsert m rate cap =>
          obtain ⟨m', dto, rfl⟩ := hc.1.upsertRule
          obtain ⟨rfl, rfl, hdto⟩ := hc.1
          refine hI.rules.upsert (Number.toDecimal_nonneg htask.rate_nonneg)
            (Number.toDecimal_le_one htask.rate_le_one) (fun c hcap => ?_) hrun
          obtain ⟨x, hx, rfl⟩ := dtoCap_some hdto hcap
          exact Number.toDecimal_nonneg (htask.cap_nonneg x hx)
  · intro s p t l x _ hI _ hp
    have htold := hI.told p _ hp
    exact ⟨hI.orders, hI.rules, hI.cache, Pool.forall_put htold fun q pr _ => hI.told q pr⟩
  · intro s e w _ hI _ hw
    cases e <;> cases hw <;> exact ⟨hI.orders, hI.rules, hI.cache, hI.told⟩

end

end CashbackLedger
