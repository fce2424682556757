import CashbackLedger.Safety.Cashback
import CashbackLedger.Safety.Crediting

/-
  What a client submits and what is stored.

  Validation admits any finite number. `JSON.parse` makes a binary64 number of a literal, decimal.js
  the decimal that the number prints as, and a column keeps what has few enough decimals and digits,
  rounds the rest or refuses it. `OrderKept` and `RuleKept` are the bodies that come through as
  they are, and for all others the request fails or something else is stored
  (`order_amount_kept`, `submitted_rule_applied`).
-/

namespace CashbackLedger

open Lib History

/-! ## Bodies -/

/-- What the validation pipe checks of a `CreateOrderDto`, with strings the database stores. -/
structure CreateOrderDto.Valid (dto : CreateOrderDto) : Prop where
  amount : toNumber (1 / 100) ≤ dto.amount.value
  currency : dto.currency ∈ ["SGD", "USD", "CNY"]
  userId : Json.storableText dto.userId = true
  merchantId : Json.storableText dto.merchantId = true

/-- Whole cents with at most 16 digits before the point, whose number prints as they were sent. -/
structure KeptCents (q : Decimal) : Prop where
  cents : IsMultiple (1 / 100) q
  fits : q < 10 ^ 16
  prints : printed (toNumber q) = q

def OrderKept (body : CreateOrderBody) : Prop := KeptCents body.amount

/-- What the validation pipe checks of an `UpsertCashbackRuleDto`. -/
structure UpsertCashbackRuleDto.Valid (dto : UpsertCashbackRuleDto) : Prop where
  rate_nonneg : 0 ≤ dto.rate.value
  rate_le_one : dto.rate.value ≤ 1
  cap_nonneg : ∀ cap, dto.cap = some (some cap) → 0 ≤ cap.value

/-- The rule a body asks for: an absent or null cap is no cap. -/
def UpsertCashbackRuleBody.rule (body : UpsertCashbackRuleBody) : Rule where
  rate := body.rate
  cap := body.cap.join

/-- A rate with at most four decimals; a cap that is absent or comes through; a merchant id the
    database stores. -/
structure RuleKept (merchantId : String) (body : UpsertCashbackRuleBody) : Prop where
  merchantId : Json.storableText merchantId = true
  rate : IsMultiple (1 / 10000) body.rate
  cap_not_null : body.cap ≠ some none
  cap : ∀ cap, body.cap = some (some cap) → KeptCents cap

/-- A read of the rule that the cache has no entry for, in a database with these rules. -/
structure UncachedRead (t : Table CashbackRule) (merchantId : String) (l : History) : Prop where
  miss : ∀ raw, Got l (.redis (.get (ruleKey merchantId))) (some raw) → parseCached raw = none
  row : ∀ found, RowRead l merchantId found → found = ruleRow t merchantId
  works : ∀ e, ¬ Failed l (.tx (.stmt (.ruleFindUnique merchantId))) e

/-- The update succeeded, and every uncached read after it yields this rule. -/
def AppliedAs (env : Env) (merchantId : String) (rule : Rule) (w' : World) (r : Outcome) : Prop :=
  (∃ resp, r = .ok resp) ∧ ∀ l x, Ran (getCashbackRule env merchantId).run [] l x →
    UncachedRead w'.rules merchantId l → x = .ok rule

/-- A header the database stores, with no response stored under its key yet. -/
structure Unanswered (w : World) (header : Option String) : Prop where
  storable : ∀ key, keyOf header = some key → Json.storableText key = true
  fresh : ∀ key, keyOf header = some key →
    (w.idem.find? fun r => r.key == key && r.scope == createScope) = none

/-- The ids handed out are not in use for orders. -/
def Surroundings.FreshOrders (sur : Surroundings) (w : World) : Prop :=
  ∀ n, (w.orders.any fun o => o.id == sur.newId n) = false

/-- The request succeeded: its order is stored with this amount, and the response names it with a
    number that prints so. -/
def StoredAs (w : World) (amount : Decimal) (w' : World) (r : Outcome) : Prop :=
  ∃ o resp, r = .ok resp ∧ w.orders.insert? o = some w'.orders ∧ o.amount = amount ∧
    resp.field "id" = some (.str o.id.text) ∧
    ∃ x, resp.field "amount" = some (.num x) ∧ printed x = amount

section

variable {q : Decimal}

/-! ## Numbers in columns -/

theorem printed_nonneg (h : 0 ≤ toNumber q) : 0 ≤ printed (toNumber q) := by
  refine le_printed (binary64.round_round q) ?_ ?_
  · rw [toNumber_zero, printed_zero]
  · rwa [toNumber_zero]

/-- Below zero, a multiple of a unit has a number below zero. -/
theorem nonneg_of_toNumber {u : Decimal} (hu : 0 < u) (hle : u ≤ toNumber u) (h : IsMultiple u q)
    (hq : 0 ≤ toNumber q) : 0 ≤ q := by
  by_contra! hneg
  have hstep : q ≤ -u := by
    have := IsMultiple.add_le hu h (.zero u) hneg
    linarith
  have hnumber : toNumber q ≤ -toNumber u := (toNumber_mono hstep).trans_eq (Format.round_neg u)
  linarith

/-- A column stores the number of a literal as it was sent where the literal has no more places than
    the column, fits it and is printed as it was. -/
theorem storeNumeric_printed {p s : ℕ} (hs : (10 : ℚ) ^ (-(s : ℤ)) ≤ toNumber (10 ^ (-(s : ℤ))))
    (hq : 0 ≤ toNumber q) :
    storeNumeric p s (printed (toNumber q)) = some q ↔
      IsMultiple ((10 : ℚ) ^ (-(s : ℤ))) q ∧ q < 10 ^ (p - s) ∧ printed (toNumber q) = q := by
  constructor
  · intro h
    have hnear := storeNumeric_nearest (printed_nonneg hq) h
    have hmultiple : IsMultiple ((10 : ℚ) ^ (-(s : ℤ))) q := by
      rw [hnear]
      exact nearest_isMultiple _ _
    have hnonneg := nonneg_of_toNumber (column_unit_pos s) hs hmultiple hq
    have hprints : printed (toNumber q) = q := by
      rw [nearest_eq_of_isMultiple (column_unit_pos s)
        (printed_isMultiple hs hmultiple hnonneg)] at hnear
      exact hnear.symm
    rw [hprints] at h
    exact ⟨hmultiple, ((storeNumeric_eq_some hnonneg).mp h).2, hprints⟩
  · rintro ⟨hmultiple, hlt, hprints⟩
    have hnonneg := nonneg_of_toNumber (column_unit_pos s) hs hmultiple hq
    rw [hprints]
    exact (storeNumeric_eq_some hnonneg).mpr ⟨hmultiple, hlt⟩

theorem storeCents_iff (hq : 0 ≤ toNumber q) :
    storeNumeric 18 2 (printed (toNumber q)) = some q ↔ KeptCents q := by
  rw [storeNumeric_printed (by decide +kernel) hq]
  norm_num
  exact ⟨fun ⟨hcents, hfits, hprints⟩ => ⟨hcents, hfits, hprints⟩,
    fun h => ⟨h.cents, h.fits, h.prints⟩⟩

/-- Whole cents below 10^13 come through. -/
theorem keptCents_of_lt (hcents : IsMultiple (1 / 100) q) (hq : 0 ≤ toNumber q)
    (hlt : q < 10 ^ 13) : KeptCents q := by
  have hnonneg := nonneg_of_toNumber (by norm_num) (by decide +kernel) hcents hq
  exact ⟨hcents, hlt.trans (by norm_num), printed_toNumber_cents hcents hnonneg hlt⟩

/-- A rate comes through where it has at most four decimals. -/
theorem storeRate_iff (hq : 0 ≤ toNumber q) (hone : toNumber q ≤ 1) :
    storeNumeric 6 4 (printed (toNumber q)) = some q ↔ IsMultiple (1 / 10000) q := by
  rw [storeNumeric_printed (by decide +kernel) hq]
  norm_num
  intro hmultiple
  have hnonneg := nonneg_of_toNumber (by norm_num) (by decide +kernel) hmultiple hq
  have hle : q ≤ 1 := by
    by_contra! hgt
    have hstep := IsMultiple.add_le (by norm_num) ⟨10000, by norm_num⟩ hmultiple hgt
    have hover : 1 < toNumber (1 + 1 / 10000) := by decide +kernel
    exact absurd (hover.trans_le (toNumber_mono hstep)) (not_lt.mpr hone)
  exact ⟨lt_of_le_of_lt hle (by norm_num), printed_toNumber_rate hmultiple hnonneg hle⟩

end

section

variable {env : Env} {p : Pid} {sur : Surroundings} {w : World} {y : World × Nat} {S : Prop}

/-! ## Calls that are served -/

theorem serve_run {c : Call} {w₁ : World} {x : Except Fault c.Result} (hc : ∀ rc, c ≠ .redis rc)
    (hrun : c.run env p (sur.newId y.2) (sur.before y.2 y.1) = some (w₁, x)) :
    serveBeside env p sur c y =
      some ((w₁.settle p c x, y.2 + 1), (x, (sur.before y.2 y.1).clock)) := by
  have hchoice : sur.choice y.2 c = { fate := .ok, newId := sur.newId y.2 } := by
    cases c <;> first | rfl | exact absurd rfl (hc _)
  unfold serveBeside exec
  rw [hchoice]
  dsimp only
  rw [hrun]
  rfl

theorem ends_awaitAt {c : Call} {y' : World × Nat} {r : Reply c}
    {Q : World × Nat → Except Fault (c.Result × Time) → Prop}
    (h : serveBeside env p sur c y = some (y', r)) (hQ : Q y' (r.1.map fun x => (x, r.2))) :
    Ends (serveBeside env p sur) S Q y (awaitAt c).run := by
  refine ends_call.mpr ?_
  rw [h]
  exact hQ

/-- A call other than a Redis call that is answered. -/
theorem ends_served {c : Call} {w₁ : World} {x : Except Fault c.Result}
    {Q : World × Nat → Except Fault c.Result → Prop} (hc : ∀ rc, c ≠ .redis rc)
    (hrun : c.run env p (sur.newId y.2) (sur.before y.2 y.1) = some (w₁, x))
    (hQ : Q (w₁.settle p c x, y.2 + 1) x) : Ends (serveBeside env p sur) S Q y (await c).run :=
  ends_await (serve_run hc hrun) hQ

/-! ## Orders -/

variable {dto : CreateOrderDto} {newId : Uuid} {now : Time} {t : Table Order}
  {header : Option String}

/-- The row of a request with its amount as stored. -/
def CreateOrderDto.row (dto : CreateOrderDto) (newId : Uuid) (now : Time)
    (amount : Decimal) : Order :=
  { id := newId, userId := dto.userId, merchantId := dto.merchantId, amount := amount,
    currency := dto.currency, status := .CREATED, createdAt := now }

theorem CreateOrderDto.Valid.storable (h : dto.Valid) :
    (Json.storableText dto.userId && Json.storableText dto.merchantId &&
      Json.storableText dto.currency) = true := by
  have hcurrency : Json.storableText dto.currency = true := by
    have hmem := h.currency
    simp only [List.mem_cons, List.not_mem_nil, or_false] at hmem
    rcases hmem with heq | heq | heq <;> rw [heq] <;> rfl
  rw [h.userId, h.merchantId, hcurrency]
  rfl

theorem OrderCall.run_refused (hdto : dto.Valid)
    (hstore : storeNumeric 18 2 dto.amount.toDecimal = none) :
    OrderCall.run newId now t (.create dto.data) = some (t, .error .invalidValue) := by
  have hcond := hdto.storable
  unfold OrderCall.run CreateOrderDto.data
  dsimp only
  rw [if_pos hcond, hstore]

theorem OrderCall.run_stored (now : Time) (hdto : dto.Valid) {amount : Decimal}
    (hstore : storeNumeric 18 2 dto.amount.toDecimal = some amount)
    (hid : (t.any fun o => o.id == newId) = false) :
    ∃ t', t.insert? (dto.row newId now amount) = some t' ∧
      OrderCall.run newId now t (.create dto.data) = some (t', .ok (dto.row newId now amount)) := by
  have hcond := hdto.storable
  obtain ⟨t', ht'⟩ := Table.insert_of_apart (t := t) (a := dto.row newId now amount)
    fun o ho => Bool.eq_false_of_not_eq_true (List.any_eq_false.mp hid o ho)
  refine ⟨t', ht', ?_⟩
  unfold OrderCall.run CreateOrderDto.data
  dsimp only
  rw [if_pos hcond, hstore]
  exact congrArg (Option.map _) ht'

/-- The amount of a body, as a number. -/
theorem CreateOrderBody.parse_amount {body : CreateOrderBody} (h : body.parse = some dto) :
    dto.amount.value = toNumber body.amount := by
  obtain ⟨amount, hamount, rfl⟩ := Option.map_eq_some_iff.mp h
  exact Number.ofLiteral_value hamount

theorem CreateOrderDto.Valid.amount_nonneg (h : dto.Valid) : 0 ≤ dto.amount.value :=
  le_trans (by decide +kernel) h.amount

/-- What the column keeps of a valid amount. -/
theorem orderKept_iff {body : CreateOrderBody} (hparse : body.parse = some dto) (hdto : dto.Valid) :
    OrderKept body ↔ storeNumeric 18 2 dto.amount.toDecimal = some body.amount := by
  have hnonneg := hdto.amount_nonneg
  rw [CreateOrderBody.parse_amount hparse] at hnonneg
  rw [OrderKept, ← storeCents_iff hnonneg, Number.toDecimal, CreateOrderBody.parse_amount hparse]

/-- The response names the stored order. -/
theorem storedAs_iff {amount : Decimal} {t' : Table Order} {w' : World} {o : Order}
    (hins : w.orders.insert? o = some t') (hw : w'.orders = t') :
    StoredAs w amount w' (.ok (orderResponse env o)) ↔
      o.amount = amount ∧ printed (toNumber amount) = amount := by
  subst hw
  constructor
  · rintro ⟨o', resp, hresp, hins', hamount, -, x, hx, hprints⟩
    obtain rfl := Table.insert?_inj hins hins'
    cases hresp
    obtain rfl : toNumber o.amount = x := Json.num.inj (Option.some_inj.mp hx)
    rw [hamount] at hprints
    exact ⟨hamount, hprints⟩
  · rintro ⟨rfl, hprints⟩
    exact ⟨o, _, rfl, hins, rfl, rfl, _, rfl, hprints⟩

/-! ## The response is stored -/

theorem Uuid.storable (u : Uuid) : Json.storableText u.text = true := by
  have hall := (Bool.and_eq_true_iff.mp u.canonical).2
  refine List.all_eq_true.mpr fun c hc => bne_iff_ne.mpr fun hzero => ?_
  obtain ⟨i, hi⟩ := List.mem_iff_getElem?.mp hc
  have hchar := List.all_eq_true.mp hall (c, i) (List.mk_mem_zipIdx_iff_getElem?.mpr hi)
  obtain rfl : c = Char.ofNat 0 := by rw [← hzero, Char.ofNat_toNat]
  dsimp only at hchar
  split at hchar
  · cases hchar
  · cases hchar

theorem storable_orderResponse (hiso : IsoText env) (hdto : dto.Valid) (amount : Decimal) :
    (orderResponse env (dto.row newId now amount)).storable = true := by
  have hdata := hdto.storable
  simp only [Bool.and_eq_true] at hdata
  have hnames :
      ∀ name ∈ ["id", "userId", "merchantId", "amount", "currency", "status", "createdAt"],
      Json.storableText name = true := by decide
  have hstatus : Json.storableText "CREATED" = true := rfl
  simp only [List.forall_mem_cons] at hnames
  simp [orderResponse, CreateOrderDto.row, Json.storable,
    Json.storableFields, Uuid.storable, hiso now,
    hdata, hnames, OrderStatus.text, hstatus]

/-! ## The request -/

/-- The order with a stored amount, where the columns take it. -/
theorem ends_orderCreate (hdto : dto.Valid) (hfresh : sur.FreshOrders w)
    (hw : y.1.orders = w.orders) {Q : World × Nat → Except Fault (Order × Time) → Prop}
    (hrefused : storeNumeric 18 2 dto.amount.toDecimal = none → ∀ y' e, Q y' (.error e))
    (hstored : ∀ amount t' y' newId now now', storeNumeric 18 2 dto.amount.toDecimal = some amount →
      w.orders.insert? (dto.row newId now amount) = some t' →
      y'.1.orders = t' → y'.1.idem = y.1.idem →
      Q y' (.ok (dto.row newId now amount, now'))) :
    Ends (serveBeside env p sur) False Q y (awaitAt (.orders (.create dto.data))).run := by
  cases hstore : storeNumeric 18 2 dto.amount.toDecimal with
  | none =>
    have hrun : Call.run env p (sur.newId y.2) (sur.before y.2 y.1) (.orders (.create dto.data)) =
        some (sur.before y.2 y.1, .error .invalidValue) := by
      show Option.map _ (OrderCall.run _ _ _ (.create dto.data)) = _
      rw [OrderCall.run_refused hdto hstore]
      rfl
    exact ends_awaitAt (serve_run (c := .orders _) (fun _ => nofun) hrun) (hrefused hstore _ _)
  | some amount =>
    obtain ⟨t', hins, hrun⟩ :=
      OrderCall.run_stored (sur.before y.2 y.1).clock hdto hstore (hfresh y.2)
    have hrun' : Call.run env p (sur.newId y.2) (sur.before y.2 y.1) (.orders (.create dto.data)) =
        some ({ sur.before y.2 y.1 with orders := t' },
          .ok (dto.row (sur.newId y.2) (sur.before y.2 y.1).clock amount)) := by
      show Option.map _ (OrderCall.run _ _ y.1.orders (.create dto.data)) = _
      rw [hw, hrun]
      rfl
    exact ends_awaitAt (serve_run (c := .orders _) (fun _ => nofun) hrun')
      (hstored amount t' _ _ _ _ hstore hins rfl rfl)

/-- How a request ends that has no stored response: it throws when the column refuses the amount, or
    stores its order with the amount the column keeps. -/
inductive CreateEnds (env : Env) (w : World) (dto : CreateOrderDto) (w' : World) :
    Outcome → Prop where
  | refused (e : Fault) (h : storeNumeric 18 2 dto.amount.toDecimal = none) :
      CreateEnds env w dto w' (.error e)
  | stored {amount : Decimal} {newId : Uuid}
      {now : Time} (h : storeNumeric 18 2 dto.amount.toDecimal = some amount)
      (hins : w.orders.insert? (dto.row newId now amount) = some w'.orders) :
      CreateEnds env w dto w' (.ok (orderResponse env (dto.row newId now amount)))

/-- Looking up a key that has no response. -/
theorem ends_getCachedResponse {key scope : String}
    (hnone : (y.1.idem.find? fun r => r.key == key && r.scope == scope) = none)
    {Q : World × Nat → Except Fault (Option IdempotencyKey) → Prop}
    (hQ : ∀ y', y'.1.orders = y.1.orders → y'.1.idem = y.1.idem → Q y' (.ok none)) :
    Ends (serveBeside env p sur) False Q y (getCachedResponse key scope).run := by
  have hrun : Call.run env p (sur.newId y.2) (sur.before y.2 y.1) (.idem (.findUnique key scope)) =
      some (sur.before y.2 y.1, .ok none) := by
    have hbefore : (sur.before y.2 y.1).idem = y.1.idem := rfl
    unfold Call.run IdemCall.run
    dsimp only
    rw [hbefore, hnone]
    rfl
  exact ends_served (c := .idem _) (fun _ h => by cases h) hrun (hQ _ rfl rfl)

/-- Saving a response under a key that has none. -/
theorem ends_saveResponse {key scope hash : String} {body : Json} {ttl : Option Nat}
    (hkey : Json.storableText key = true) (hscope : Json.storableText scope = true)
    (hbody : body.storable = true)
    (hnone : (y.1.idem.find? fun r => r.key == key && r.scope == scope) = none)
    {Q : World × Nat → Except Fault IdempotencyKey → Prop}
    (hQ : ∀ y' row, y'.1.orders = y.1.orders → Q y' (.ok row)) :
    Ends (serveBeside env p sur) False Q y (saveResponse key scope hash body ttl now).run := by
  have hany : (y.1.idem.any fun r => r.key == key && r.scope == scope) = false := by
    refine List.any_eq_false.mpr fun r hr => ?_
    rw [Table.find?_none hnone hr]
    exact Bool.false_ne_true
  obtain ⟨t', ht'⟩ := Table.insert_of_apart (t := y.1.idem)
    (a := { key := key, scope := scope, requestHash := hash, responseBody := body,
            expiresAt := expiry now ttl }) fun r hr => Table.find?_none hnone hr
  have hrun : Call.run env p (sur.newId y.2) (sur.before y.2 y.1) (.idem (.upsert
      { key := key, scope := scope, requestHash := hash, responseBody := body,
        expiresAt := expiry now ttl })) =
      some ({ sur.before y.2 y.1 with idem := t' }, .ok
        { key := key, scope := scope, requestHash := hash, responseBody := body,
          expiresAt := expiry now ttl }) := by
    show Option.map _ (IdemCall.run y.1.idem _) = _
    unfold IdemCall.run
    dsimp only
    rw [hkey, hscope, hbody, hany]
    simp only [Bool.and_self, if_true, Bool.false_eq_true, if_false, ht', Option.map_some]
  exact ends_served (c := .idem _) (fun _ h => by cases h) hrun (hQ _ _ rfl)

theorem ends_create (hdto : dto.Valid) (hiso : IsoText env) (hfresh : sur.FreshOrders w)
    (hheader : Unanswered w header) :
    Ends (serveBeside env p sur) False (fun y' r => CreateEnds env w dto y'.1 r) (w, 0)
      (create env header dto).run := by
  unfold create
  cases hkey : keyOf header with
  | none =>
    refine ends_act_bind.mpr (ends_await_of_at (ends_orderCreate hdto hfresh rfl ?_ ?_))
    · exact fun hstore y' e => .refused e hstore
    · intro amount t' y' newId now now' hstore hins horders _
      exact .stored hstore (horders ▸ hins)
  | some key =>
    have hnone := hheader.fresh key hkey
    refine ends_act_bind.mpr (ends_getCachedResponse hnone fun y₁ horders₁ hidem₁ => ?_)
    dsimp only
    refine ends_act_bind.mpr
      (ends_orderCreate hdto hfresh horders₁ (fun hstore y' e => .refused e hstore) ?_)
    intro amount t' y' newId now now' hstore hins horders hidem
    dsimp only
    refine ends_act_bind.mpr (ends_saveResponse (hheader.storable key hkey) (by decide)
      (storable_orderResponse hiso hdto amount) ?_ fun y'' row hrow => ?_)
    · rw [hidem, hidem₁]
      exact hnone
    · refine .stored hstore ?_
      rw [hrow, horders]
      exact hins

/-- A valid order goes through as it was sent exactly when it is a whole number of cents below 10^16
    that its number prints as; all whole cents below 10^13 are. -/
theorem order_amount_kept (env : Env) (hiso : IsoText env) (p : Pid) (w : World)
    (sur : Surroundings) (hfresh : sur.FreshOrders w) (header : Option String)
    (hheader : Unanswered w header) (body : CreateOrderBody) (dto : CreateOrderDto)
    (hparse : body.parse = some dto) (hdto : dto.Valid) :
    (Ends (serveBeside env p sur) False (fun y r => StoredAs w body.amount y.1 r) (w, 0)
      (create env header dto).run ↔ OrderKept body) ∧
    (IsMultiple (1 / 100) body.amount → body.amount < 10 ^ 13 → OrderKept body) := by
  constructor
  · refine (ends_create hdto hiso hfresh hheader).iff fun y r h => ?_
    have hkept := orderKept_iff hparse hdto
    cases h with
    | refused e h =>
      rw [hkept, h]
      exact ⟨fun ⟨o, resp, hr, _⟩ => (nomatch hr), nofun⟩
    | stored h hins =>
      rw [storedAs_iff hins rfl]
      rw [h, Option.some_inj] at hkept
      exact ⟨fun hr => hkept.mpr hr.1, fun hbody => ⟨hkept.mp hbody, hbody.prints⟩⟩
  · intro hcents hlt
    have hnonneg := hdto.amount_nonneg
    rw [CreateOrderBody.parse_amount hparse] at hnonneg
    exact keptCents_of_lt hcents hnonneg hlt

/-! ## Rules -/

variable {m : String} {body : UpsertCashbackRuleBody} {rule : UpsertCashbackRuleDto}
  {t : Table CashbackRule}

/-- An uncached read yields the rule of the row. -/
theorem uncached_read (henv : DecimalText env) (hfits : ∀ r, ruleRow t m = some r → r.FitsColumns)
    {l : History} {x : Except Fault Rule} (hran : Ran (getCashbackRule env m).run [] l x)
    (hread : UncachedRead t m l) : x = .ok (ruleOf (ruleRow t m)) := by
  cases sat_getCashbackRule_from.ran hran with
  | read read =>
    cases read with
    | cached got parsed =>
      rw [hread.miss _ got] at parsed
      cases parsed
    | stored read =>
      obtain rfl := hread.row _ read
      exact toDecimalRule_rulePayload henv hfits
  | failed e failed =>
    obtain ⟨now, l', -, hs⟩ := failed
    exact absurd ((failed_head e now l').mono hs) (hread.works e)

/-- A read that finds the cache empty, with every call served. -/
def missedRead (env : Env) (t : Table CashbackRule) (m : String) : History :=
  [⟨.redis (.del (ruleKey m ++ ":lock")), (.ok (), 0)⟩,
    ⟨.redis (.set (ruleKey m) (some (rulePayload env (ruleRow t m)).json) env.cacheTtlSeconds),
      (.ok (), 0)⟩,
    ⟨.tx (.stmt (.ruleFindUnique m)), (.ok (ruleRow t m), 0)⟩,
    ⟨.redis (.setNx (ruleKey m ++ ":lock") env.lockTtlMs), (.ok true, 0)⟩,
    ⟨.redis (.get (ruleKey m)), (.ok none, 0)⟩]

theorem ran_missedRead (henv : DecimalText env)
    (hfits : ∀ r, ruleRow t m = some r → r.FitsColumns) :
    Ran (getCashbackRule env m).run [] (missedRead env t m) (.ok (ruleOf (ruleRow t m))) := by
  have hrule := toDecimalRule_rulePayload henv hfits
  refine .call (.ok none, 0)
    (.call (.ok true, 0) (.call (.ok (ruleRow t m), 0) (.call (.ok (), 0) ?_)))
  show Ran (Prog.bind
    (MonadExcept.ofExcept (toDecimalRule env (rulePayload env (ruleRow t m))) : Async Rule).run _)
    _ _ _
  rw [hrule]
  exact .call (.ok (), 0) (.ret _ _)

theorem missedRead_uncached : UncachedRead t m (missedRead env t m) where
  miss raw h := by
    obtain ⟨now, h⟩ := h
    simp [missedRead] at h
  row found h := by
    simp [RowRead, Got, missedRead] at h
    exact h
  works e h := by
    obtain ⟨now, h⟩ := h
    simp [missedRead] at h
/-- A Redis call of the update does not touch the rules. -/
theorem ends_invalidate {m : String} :
    Ends (serveBeside env p sur) False (fun y' r => y'.1.rules = y.1.rules ∧ r = .ok ()) y
      (invalidate m).run := by
  have hserve : ∃ y' r, serveBeside env p sur (.redis (.del (ruleKey m))) y = some (y', r) ∧
      y'.1.rules = y.1.rules := by
    unfold serveBeside exec Surroundings.choice
    dsimp only
    cases sur.fate y.2 with
    | ok => exact ⟨_, _, rfl, rfl⟩
    | fail msg => exact ⟨_, _, rfl, rfl⟩
    | lost msg => exact ⟨_, _, rfl, rfl⟩
  obtain ⟨y', r, hserve, hrules⟩ := hserve
  refine ends_act_tryCatch.mpr (ends_await hserve ?_)
  cases r.1 with
  | ok x => exact ⟨hrules, rfl⟩
  | error e => exact ⟨hrules, rfl⟩

/-- What the columns make of an update. -/
inductive UpsertEnds (t : Table CashbackRule) (m : String) (rate : Decimal) (cap : Option Decimal) :
    Table CashbackRule × Except Fault CashbackRule → Prop where
  | refused (h : storeNumeric 6 4 rate = none ∨
      RuleCall.storeCap cap = none ∨ Json.storableText m = false)
      (e : Fault) : UpsertEnds t m rate cap (t, .error e)
  | stored {rate' : Decimal} {cap' : Option Decimal} {t' : Table CashbackRule}
      (hrate : storeNumeric 6 4 rate = some rate') (hcap : RuleCall.storeCap cap = some cap')
      (hm : Json.storableText m = true) (h : StoresRule t m ⟨m, rate', cap'⟩ t') :
      UpsertEnds t m rate cap (t', .ok ⟨m, rate', cap'⟩)

theorem upsert_ends (t : Table CashbackRule) (m : String) (rate : Decimal) (cap : Option Decimal) :
    ∃ x, RuleCall.run t (.upsert m rate cap) = some x ∧ UpsertEnds t m rate cap x := by
  unfold RuleCall.run
  dsimp only
  split
  · next rate' cap' hrate hcap hm =>
    have hfits : CashbackRule.FitsColumns ⟨m, rate', cap'⟩ :=
      ⟨storeNumeric_fourPlaces (by decide) hrate, storeCap_fourPlaces hcap⟩
    split
    · next hany => exact ⟨_, rfl, .stored hrate hcap hm (modify_stores hany hfits)⟩
    · next hany =>
      have hnone := Bool.eq_false_of_not_eq_true hany
      obtain ⟨t', hins⟩ := Table.insert_of_apart (t := t) (a := ⟨m, rate', cap'⟩)
        fun r hr => Bool.eq_false_of_not_eq_true (List.any_eq_false.mp hnone r hr)
      rw [hins]
      exact ⟨_, rfl, .stored hrate hcap hm (insert_stores hnone hfits hins)⟩
  · next hfail =>
    refine ⟨_, rfl, .refused ?_ _⟩
    cases hrate : storeNumeric 6 4 rate with
    | none => exact Or.inl rfl
    | some rate' =>
      cases hcap : RuleCall.storeCap cap with
      | none => exact Or.inr (Or.inl rfl)
      | some cap' =>
        exact Or.inr (Or.inr (Bool.eq_false_of_not_eq_true (hfail rate' cap' hrate hcap)))

/-- The rate of a body, as a number. -/
theorem UpsertCashbackRuleBody.parse_rate (h : body.parse = some rule) :
    rule.rate.value = toNumber body.rate := by
  obtain ⟨rate, hrate, h⟩ := Option.bind_eq_some_iff.mp h
  split at h
  · cases h
    exact Number.ofLiteral_value hrate
  · cases h
    exact Number.ofLiteral_value hrate
  · obtain ⟨cap, -, h⟩ := Option.bind_eq_some_iff.mp h
    cases h
    exact Number.ofLiteral_value hrate

/-- The cap of a body, as a number. -/
inductive ParsedCap : Option (Option Decimal) → Option (Option Number) → Prop where
  | absent : ParsedCap none none
  | null : ParsedCap (some none) (some none)
  | number {q : Decimal} {x : Number} (h : x.value = toNumber q) :
      ParsedCap (some (some q)) (some (some x))

theorem UpsertCashbackRuleBody.parse_cap (h : body.parse = some rule) :
    ParsedCap body.cap rule.cap := by
  obtain ⟨rate, -, h⟩ := Option.bind_eq_some_iff.mp h
  split at h
  · next hcap =>
    cases h
    rw [hcap]
    exact .absent
  · next hcap =>
    cases h
    rw [hcap]
    exact .null
  · next q hcap =>
    obtain ⟨x, hx, h⟩ := Option.bind_eq_some_iff.mp h
    cases h
    rw [hcap]
    exact .number (Number.ofLiteral_value hx)

theorem UpsertCashbackRuleDto.Valid.cap_number (hrule : rule.Valid)
    (hparse : body.parse = some rule) (cap : Decimal) (hcap : body.cap = some (some cap)) :
    0 ≤ toNumber cap := by
  have hnonneg := hrule.cap_nonneg
  have hparsed := UpsertCashbackRuleBody.parse_cap hparse
  rw [hcap] at hparsed
  revert hnonneg hparsed
  generalize rule.cap = taken
  intro hnonneg hparsed
  cases hparsed with
  | @number _ x h => exact h ▸ hnonneg x rfl

/-- What the rate column keeps of a valid body. -/
theorem rateKept_iff (hparse : body.parse = some rule) (hrule : rule.Valid) :
    storeNumeric 6 4 rule.rate.toDecimal = some body.rate ↔ IsMultiple (1 / 10000) body.rate := by
  have hvalue := UpsertCashbackRuleBody.parse_rate hparse
  rw [Number.toDecimal, hvalue]
  exact storeRate_iff (hvalue ▸ hrule.rate_nonneg) (hvalue ▸ hrule.rate_le_one)

/-- The cap of the DTO reaches the column and is kept there as it was sent. -/
def CapKept (body : UpsertCashbackRuleBody) (dto : UpsertCashbackRuleDto) : Prop :=
  ∃ cap, dtoCap dto = .ok cap ∧ RuleCall.storeCap cap = some body.rule.cap

theorem capKept_iff (hparse : body.parse = some rule) (hrule : rule.Valid) :
    CapKept body rule ↔ body.cap ≠ some none ∧ ∀ cap, body.cap = some (some cap) →
      KeptCents cap := by
  have hnonneg := hrule.cap_number hparse
  have hparsed := UpsertCashbackRuleBody.parse_cap hparse
  unfold CapKept dtoCap UpsertCashbackRuleBody.rule
  revert hnonneg hparsed
  generalize body.cap = sent
  generalize rule.cap = taken
  intro hnonneg hparsed
  cases hparsed with
  | absent => exact ⟨fun _ => ⟨nofun, nofun⟩, fun _ => ⟨none, rfl, rfl⟩⟩
  | null => exact ⟨fun ⟨_, h, _⟩ => (nomatch h), fun ⟨h, _⟩ => absurd rfl h⟩
  | @number q x h =>
    have hq := hnonneg q rfl
    have hcolumn : RuleCall.storeCap (some x.toDecimal) = some (some q) ↔ KeptCents q := by
      rw [← storeCents_iff hq, ← h]
      simp only [RuleCall.storeCap, Number.toDecimal, Option.map_eq_some_iff, Option.some_inj,
        exists_eq_right]
    constructor
    · rintro ⟨cap, hcap, hstored⟩
      cases hcap
      refine ⟨nofun, fun cap hcap => ?_⟩
      cases hcap
      exact hcolumn.mp hstored
    · rintro ⟨-, hkept⟩
      exact ⟨_, rfl, hcolumn.mpr (hkept q rfl)⟩

theorem ruleKept_iff (hparse : body.parse = some rule) (hrule : rule.Valid) :
    RuleKept m body ↔ Json.storableText m = true ∧
      storeNumeric 6 4 rule.rate.toDecimal = some body.rate ∧ CapKept body rule := by
  rw [rateKept_iff hparse hrule, capKept_iff hparse hrule]
  exact ⟨fun h => ⟨h.merchantId, h.rate, h.cap_not_null, h.cap⟩,
    fun ⟨hm, hrate, hnull, hcap⟩ => ⟨hm, hrate, hnull, hcap⟩⟩

/-- How an update ends: it throws where a column or the constructor refuses a part, or stores the
    rule as the columns keep it. -/
inductive UpdateEnds (w : World) (m : String) (dto : UpsertCashbackRuleDto) (w' : World) :
    Outcome → Prop where
  | refused (e : Fault)
      (h : Json.storableText m = true → storeNumeric 6 4 dto.rate.toDecimal ≠ none →
      ∀ cap, dtoCap dto = .ok cap → RuleCall.storeCap cap = none) : UpdateEnds w m dto w' (.error e)
  | stored {rate : Decimal} {cap cap' : Option Decimal} (resp : Json) (hcap : dtoCap dto = .ok cap)
      (hrate : storeNumeric 6 4 dto.rate.toDecimal = some rate)
      (hcap' : RuleCall.storeCap cap = some cap')
      (hm : Json.storableText m = true) (h : StoresRule w.rules m ⟨m, rate, cap'⟩ w'.rules) :
      UpdateEnds w m dto w' (.ok resp)

theorem ends_upsertRule :
    Ends (serveBeside env p sur) False (fun y' r => UpdateEnds w m rule y'.1 r) (w, 0)
      (upsertRule m rule).run := by
  unfold upsertRule
  cases hcap : dtoCap rule with
  | error e =>
    refine ends_act_bind.mpr (ends_ofExcept (.refused e fun _ _ cap hok => ?_))
    rw [hcap] at hok
    cases hok
  | ok cap =>
    obtain ⟨x, hrun, hends⟩ := upsert_ends w.rules m rule.rate.toDecimal cap
    refine ends_act_bind.mpr (ends_ofExcept ?_)
    have hserved :
        Call.run env p (sur.newId 0) (sur.before 0 w) (.rules (.upsert m rule.rate.toDecimal cap)) =
        some ({ sur.before 0 w with rules := x.1 }, x.2) := by
      show Option.map _ (RuleCall.run w.rules _) = _
      rw [hrun]
      rfl
    refine ends_act_bind.mpr (ends_served (c := .rules _) (fun _ => nofun) hserved ?_)
    cases hends with
    | refused h e =>
      refine .refused e fun hm hrate cap' hok => ?_
      obtain rfl := Except.ok.inj (hcap.symm.trans hok)
      rcases h with h | h | h
      · exact absurd h hrate
      · exact h
      · rw [hm] at h
        cases h
    | stored hrate hcap' hm h =>
      refine Ends.act_bind ends_invalidate (fun y' _ hy => ?_) fun y' e hy => nomatch hy.2
      have hrules : y'.1.rules = _ := hy.1
      exact .stored _ hcap hrate hcap' hm (hrules ▸ h)

/-- A valid rule is applied as it was sent exactly when the merchant id is storable, the rate has at
    most four decimals and the cap is absent or whole cents below 10^16 that its number prints
    as; all whole cents below 10^13 are. -/
theorem submitted_rule_applied (env : Env) (henv : DecimalText env) (p : Pid) (w : World)
    (sur : Surroundings) (m : String) (body : UpsertCashbackRuleBody) (dto : UpsertCashbackRuleDto)
    (hparse : body.parse = some dto) (hdto : dto.Valid) :
    (Ends (serveBeside env p sur) False (fun y r => AppliedAs env m body.rule y.1 r) (w, 0)
      (upsertRule m dto).run ↔ RuleKept m body) ∧
    (∀ cap, body.cap = some (some cap) → IsMultiple (1 / 100) cap → cap < 10 ^ 13 →
      KeptCents cap) := by
  constructor
  · refine ends_upsertRule.iff fun y r h => ?_
    have hkept := ruleKept_iff (m := m) hparse hdto
    cases h with
    | refused e h =>
      refine ⟨fun hr => (nomatch hr.1), fun hbody => ?_⟩
      obtain ⟨hm, hrate, cap, hcap, hstored⟩ := hkept.mp hbody
      have hnone := h hm (by rw [hrate]; nofun) cap hcap
      rw [hstored] at hnone
      cases hnone
    | @stored rate cap cap' resp hcap hrate hcap' hm h =>
      have hrow : ruleRow y.1.rules m = some ⟨m, rate, cap'⟩ := by rw [h.row, if_pos rfl]
      have hfits : ∀ r, ruleRow y.1.rules m = some r → r.FitsColumns := by
        rintro r hr
        obtain rfl := Option.some_inj.mp (hrow.symm.trans hr)
        exact h.fits
      constructor
      · rintro ⟨-, happlied⟩
        have hrule := happlied _ _ (ran_missedRead henv hfits) missedRead_uncached
        rw [hrow] at hrule
        obtain ⟨rfl, rfl⟩ := Rule.mk.inj (Except.ok.inj hrule)
        exact hkept.mpr ⟨hm, hrate, cap, hcap, hcap'⟩
      · intro hbody
        obtain ⟨-, hrate₁, cap₁, hcap₁, hstored⟩ := hkept.mp hbody
        obtain rfl := Except.ok.inj (hcap.symm.trans hcap₁)
        obtain rfl := Option.some_inj.mp (hrate.symm.trans hrate₁)
        obtain rfl := Option.some_inj.mp (hcap'.symm.trans hstored)
        refine ⟨⟨resp, rfl⟩, fun l x hran hread => ?_⟩
        rw [uncached_read henv hfits hran hread, hrow]
        rfl
  · intro cap hcap hcents hlt
    exact keptCents_of_lt hcents (hdto.cap_number hparse cap hcap) hlt

end

/-- Nothing fails, nobody else is there. -/
def alone : Surroundings where
  fate _ := .ok
  newId := Platform.uuid
  redis _ store := store
  elapsed _ := 0

def orderOver (amount : Decimal) : CreateOrderBody :=
  { userId := "user-1", merchantId := "shop-1", amount := amount, currency := "USD" }

def orderWith (amount : Number) : CreateOrderDto :=
  { userId := "user-1", merchantId := "shop-1", amount := amount, currency := "USD" }

/-- The `amount` of a response, as it is printed. -/
def amountOf : Outcome → Option Decimal
  | .ok resp => match resp.field "amount" with
      | some (.num q) => some (printed q)
      | _ => none
  | .error _ => none

/-- What is stored and answered for an amount. -/
def submit (amount : Decimal) : Option (List Decimal × Option Decimal) := do
  let dto ← (orderOver amount).parse
  let x ← runBeside (platform id) 0 alone .empty (create (platform id) none dto)
  return (x.1.1.orders.rows.map Order.amount, amountOf x.2)

/-- The body is a valid request. -/
def CreateOrderBody.Accepted (body : CreateOrderBody) : Prop :=
  ∃ dto, body.parse = some dto ∧ dto.Valid

theorem parse_orderOver {q : Decimal} (h : |toNumber q| < 2 ^ 1024) :
    (orderOver q).parse = some (orderWith (Platform.number q)) := by
  rw [CreateOrderBody.parse, orderOver, Platform.ofLiteral_number h]
  rfl

theorem orderWith_valid {x : Number} (h : toNumber (1 / 100) ≤ x.value) : (orderWith x).Valid where
  amount := h
  currency := by simp [orderWith]
  userId := (by decide : Json.storableText "user-1" = true)
  merchantId := (by decide : Json.storableText "shop-1" = true)

theorem orderOver_accepted {q : Decimal} (h : |toNumber q| < 2 ^ 1024)
    (hlow : toNumber (1 / 100) ≤ (Platform.number q).value) : (orderOver q).Accepted :=
  ⟨_, parse_orderOver h, orderWith_valid hlow⟩

/-- Half a cent is rounded up, 10^16 is refused; 15 digits or more are printed by their number in
    another way, or overflow as the number does. -/
theorem order_amount_changed :
    ((orderOver (15 / 1000)).Accepted ∧ submit (15 / 1000) = some ([2 / 100], some (2 / 100))) ∧
    ((orderOver (10 ^ 16)).Accepted ∧ submit (10 ^ 16) = some ([], none)) ∧
    ((orderOver 1234567890123456.75).Accepted ∧
      submit 1234567890123456.75 = some ([1234567890123456.8], some 1234567890123456.8)) ∧
    ((orderOver 99999999999999.99).Accepted ∧
      submit 99999999999999.99 = some ([99999999999999.98], some 99999999999999.98)) ∧
    ((orderOver 9999999999999999).Accepted ∧ submit 9999999999999999 = some ([], none)) := by
  refine ⟨⟨orderOver_accepted ?_ ?_, ?_⟩, ⟨orderOver_accepted ?_ ?_, ?_⟩,
    ⟨orderOver_accepted ?_ ?_, ?_⟩,
    ⟨orderOver_accepted ?_ ?_, ?_⟩, ⟨orderOver_accepted ?_ ?_, ?_⟩⟩ <;> decide +kernel

theorem order_amount_kept_keyed :
    Ends (serveBeside (platform id) 0 alone) False (fun y r => StoredAs .empty (1299 / 100) y.1 r)
      (.empty, 0)
      (create (platform id) (some "key-1") (orderWith (Platform.number (1299 / 100)))).run :=
  have hkept := order_amount_kept (platform id) (platform_isoText id) 0 .empty alone (fun _ => rfl)
    (some "key-1") ⟨fun key h => by cases h; decide, fun key _ => rfl⟩ (orderOver (1299 / 100))
    (orderWith (Platform.number (1299 / 100))) (parse_orderOver (by decide +kernel))
    (orderWith_valid (by decide +kernel))
  hkept.1.mpr (hkept.2 ⟨1299, by norm_num [orderOver]⟩ (by norm_num [orderOver]))

/-- The body is a valid request. -/
def UpsertCashbackRuleBody.Accepted (body : UpsertCashbackRuleBody) : Prop :=
  ∃ dto, body.parse = some dto ∧ dto.Valid

/-- What an update with this body answers and stores. -/
def update (body : UpsertCashbackRuleBody) : Option (List (Decimal × Option Decimal) × Bool) := do
  let dto ← body.parse
  let x ← runBeside (platform id) 0 alone .empty (upsertRule "shop-1" dto)
  return (x.1.1.rules.rows.map fun r => (r.rate, r.cap), x.2.isOk)

def ruleWith (rate : Number) (cap : Option (Option Number)) : UpsertCashbackRuleDto :=
  { rate := rate, cap := cap }

theorem parse_ruleOver {rate cap : Decimal} (hrate : |toNumber rate| < 2 ^ 1024)
    (hcap : |toNumber cap| < 2 ^ 1024) : UpsertCashbackRuleBody.parse ⟨rate, some (some cap)⟩ =
      some (ruleWith (Platform.number rate) (some (some (Platform.number cap)))) := by
  simp only [UpsertCashbackRuleBody.parse, Platform.ofLiteral_number hrate,
    Platform.ofLiteral_number hcap]
  rfl

theorem ruleWith_valid {rate cap : Number} (hlow : 0 ≤ rate.value) (hone : rate.value ≤ 1)
    (hcap : 0 ≤ cap.value) : (ruleWith rate (some (some cap))).Valid := by
  refine ⟨hlow, hone, fun q h => ?_⟩
  cases h
  exact hcap

theorem ruleOver_accepted {cap : Decimal} (h : |toNumber cap| < 2 ^ 1024)
    (hcap : 0 ≤ (Platform.number cap).value) :
    UpsertCashbackRuleBody.Accepted ⟨5 / 100, some (some cap)⟩ :=
  ⟨_, parse_ruleOver (by decide +kernel) h,
    ruleWith_valid (by decide +kernel) (by decide +kernel) hcap⟩

/-- A null cap throws; a rate or a cap with too many decimals is stored rounded; a cap of 10^16 is
    refused; caps of 15 digits or more are printed by their number in another way, or overflow as
    the number does. -/
theorem submitted_rule_changed :
    (UpsertCashbackRuleBody.Accepted ⟨5 / 100, some none⟩ ∧
      update ⟨5 / 100, some none⟩ = some ([], false)) ∧
    (UpsertCashbackRuleBody.Accepted ⟨12345 / 100000, none⟩ ∧
      update ⟨12345 / 100000, none⟩ = some ([(1235 / 10000, none)], true)) ∧
    (UpsertCashbackRuleBody.Accepted ⟨5 / 100, some (some (1005 / 1000))⟩ ∧
      update ⟨5 / 100, some (some (1005 / 1000))⟩ = some ([(5 / 100, some (101 / 100))], true)) ∧
    (UpsertCashbackRuleBody.Accepted ⟨5 / 100, some (some (10 ^ 16))⟩ ∧
      update ⟨5 / 100, some (some (10 ^ 16))⟩ = some ([], false)) ∧
    (UpsertCashbackRuleBody.Accepted ⟨5 / 100, some (some 99999999999999.99)⟩ ∧
      update ⟨5 / 100, some (some 99999999999999.99)⟩ =
        some ([(5 / 100, some 99999999999999.98)], true)) ∧
    (UpsertCashbackRuleBody.Accepted ⟨5 / 100, some (some 9999999999999999)⟩ ∧
      update ⟨5 / 100, some (some 9999999999999999)⟩ = some ([], false)) := by
  refine ⟨⟨⟨ruleWith (Platform.number (5 / 100)) (some none), ?_, ?_, ?_, nofun⟩, ?_⟩,
    ⟨⟨ruleWith (Platform.number (12345 / 100000)) none, ?_, ?_, ?_, nofun⟩, ?_⟩,
    ⟨ruleOver_accepted ?_ ?_, ?_⟩, ⟨ruleOver_accepted ?_ ?_, ?_⟩, ⟨ruleOver_accepted ?_ ?_, ?_⟩,
    ⟨ruleOver_accepted ?_ ?_, ?_⟩⟩ <;> decide +kernel

theorem submitted_rule_applied_capped :
    Ends (serveBeside (platform id) 0 alone) False
      (fun y r => AppliedAs (platform id) "shop-1" ⟨1 / 8, some (5 / 2)⟩ y.1 r) (.empty, 0)
      (upsertRule "shop-1"
        (ruleWith (Platform.number (1 / 8)) (some (some (Platform.number (5 / 2)))))).run := by
  refine (submitted_rule_applied (platform id) (platform_decimalText id) 0 .empty alone "shop-1"
    ⟨1 / 8, some (some (5 / 2))⟩ _ (parse_ruleOver (by decide +kernel) (by decide +kernel))
    (ruleWith_valid (by decide +kernel) (by decide +kernel) (by decide +kernel))).1.mpr
    ⟨by decide, ⟨1250, by norm_num⟩, nofun, fun q h => ?_⟩
  cases h
  exact ⟨⟨250, by norm_num⟩, by norm_num, by decide +kernel⟩

end CashbackLedger
