import CashbackLedger.Protocol.Rule

/-
  Rules in the database, in the cache and in the logs.

  `EntriesOf` says which entries a merchant may be given: the one made of its current row, of one it
  has had, of one that is recent enough. If the table and the cache hold only such entries, replies
  tell only such entries (`Told.exec`), and the cache stays so as long as only what was read is
  written back (`CacheHolds.exec`). What differs between the results about the cache is the choice
  of entries.
-/

namespace CashbackLedger

open Lib History

/-- The columns of all rules hold what they can. -/
def World.RulesFit (w : World) : Prop := ∀ r ∈ w.rules, r.FitsColumns

/-- The row of a merchant. -/
def ruleRow (t : Table CashbackRule) (m : String) : Option CashbackRule :=
  t.find? fun r => r.merchantId == m

/-- The entries that merchants may be given. -/
abbrev EntriesOf : Type := String → CachedCashbackRule → Prop

/-- What stands under the cache key of a merchant is no entry, or one it may be given. -/
def EntryOf (V : EntriesOf) (key : String) (value : JsonText) : Prop :=
  ∀ m, key = ruleKey m → ∀ entry, parseCached value = some entry → V m entry

def CacheHolds (V : EntriesOf) (redis : List RedisEntry) : Prop :=
  ∀ e ∈ redis, EntryOf V e.key e.value

def TableHolds (env : Env) (V : EntriesOf) (t : Table CashbackRule) : Prop :=
  ∀ m, V m (rulePayload env (ruleRow t m))

/-- What a process was told about rules. -/
structure Told (env : Env) (V : EntriesOf) (l : History) : Prop where
  row : ∀ m found, RowRead l m found → V m (rulePayload env found)
  entry : ∀ key value, Got l (.redis (.get key)) (some value) → EntryOf V key value

/-- A write to the cache stores what the process has just read. -/
def CacheWrite (env : Env) (l : History) : Call → Prop
  | .redis (.set key value _) => ∃ m found, key = ruleKey m ∧ l.loaded = some (m, found) ∧
      value = some (rulePayload env found).json
  | _ => True

variable {env : Env} {V V' : EntriesOf} {p : Pid} {ch : Choice} {w w' w₁ : World} {l : History}
  {c : Call} {r : Reply c} {m : String} {found : Option CashbackRule}

theorem ruleKey_inj {m m' : String} (h : ruleKey m = ruleKey m') : m = m' :=
  String.append_right_inj _ |>.mp h

theorem EntryOf.mono {key : String} {value : JsonText} (h : EntryOf V key value)
    (hV : ∀ m entry, V m entry → V' m entry) : EntryOf V' key value :=
  fun m hkey entry hentry => hV m entry (h m hkey entry hentry)

theorem CacheHolds.mono {redis : List RedisEntry} (h : CacheHolds V redis)
    (hV : ∀ m entry, V m entry → V' m entry) : CacheHolds V' redis := fun e he => (h e he).mono hV

theorem told_nil : Told env V [] where
  row _ _ h := by
    rcases h with ⟨_, hm⟩ | ⟨_, hm⟩ <;> exact absurd hm List.not_mem_nil
  entry _ _ h := by
    obtain ⟨_, hm⟩ := h
    exact absurd hm List.not_mem_nil

theorem Told.mono (h : Told env V l) (hV : ∀ m entry, V m entry → V' m entry) : Told env V' l where
  row m found hread := hV m _ (h.row m found hread)
  entry key value hgot := (h.entry key value hgot).mono hV

theorem Told.suffix {l' : History} (h : Told env V l) (hl : l' <:+ l) : Told env V l' where
  row m found hread := h.row m found (hread.mono hl)
  entry key value hgot := h.entry key value (hgot.mono hl)

/-- What a lock holds is no entry. -/
theorem entryOf_lock (key : String) : EntryOf V key (some (.num 1)) := fun _ _ _ h => nomatch h

/-- The entry of `m` stands under the key of no other merchant. -/
theorem entryOf_json {entry : CachedCashbackRule} (h : V m entry) :
    EntryOf V (ruleKey m) (some entry.json) := by
  intro m' hkey entry' hentry
  obtain rfl := ruleKey_inj hkey
  rw [parseCached_json] at hentry
  cases hentry
  exact h

theorem ReadCall.cacheWrite (h : ReadCall env m l c) : CacheWrite env l c := by
  cases c with
  | redis c =>
    cases c with
    | set key value seconds =>
      obtain ⟨hkey, found, hloaded, hvalue⟩ := h
      exact ⟨m, found, hkey, hloaded, hvalue⟩
    | _ => trivial
  | _ => trivial

theorem mem_of_mem_delete {k : String} {store : List RedisEntry} {e : RedisEntry}
    (h : e ∈ RedisCall.delete k store) : e ∈ store := (List.mem_filter.mp h).1

theorem CacheHolds.delete {redis : List RedisEntry} (h : CacheHolds V redis) (key : String) :
    CacheHolds V (RedisCall.delete key redis) := fun e he => h e (mem_of_mem_delete he)

/-- A Redis call keeps the cache if it writes what was read. -/
theorem CacheHolds.run {c : RedisCall} {now : Time} {redis : List RedisEntry}
    (h : CacheHolds V redis) (hwrite : CacheWrite env l (.redis c))
    (hloaded : ∀ m found, l.loaded = some (m, found) → V m (rulePayload env found)) :
    CacheHolds V (c.run now redis).1 := by
  cases c with
  | get key => exact h
  | del key => exact h.delete key
  | setNx key ms =>
    unfold RedisCall.run
    dsimp only
    split
    · exact h
    · exact List.forall_mem_cons.mpr ⟨entryOf_lock key, h.delete key⟩
  | set key value seconds =>
    obtain ⟨m, found, rfl, hl, rfl⟩ := hwrite
    exact List.forall_mem_cons.mpr ⟨entryOf_json (hloaded m found hl), h.delete _⟩

/-- A served call keeps the cache. -/
theorem CacheHolds.exec (h : CacheHolds V w.redis) (hs : CommitsShaped p w c)
    (hwrite : CacheWrite env l c)
    (hloaded : ∀ m found, l.loaded = some (m, found) → V m (rulePayload env found))
    (hexec : exec env p c ch w = some (w', r)) : CacheHolds V w'.redis := by
  obtain ⟨w₁, heff, rfl⟩ := exec_effect hs hexec
  show CacheHolds V w₁.redis
  rcases heff.redis_origin with heq | ⟨c', rfl, heq⟩
  · rw [heq]
    exact h
  · rw [heq]
    exact h.run hwrite hloaded

theorem got_cons {c' : Call} {x : c'.Result} {y : Σ c, Reply c} :
    Got (y :: l) c' x ↔ Got [y] c' x ∨ Got l c' x := by
  simp only [Got, List.mem_cons, List.not_mem_nil, or_false, exists_or]

theorem rowRead_cons {y : Σ c, Reply c} :
    RowRead (y :: l) m found ↔ RowRead [y] m found ∨ RowRead l m found := by
  simp only [RowRead, got_cons (l := l)]
  tauto

/-- The row a merchant has, as a statement of a transaction or a call reads it. -/
theorem exec_row (hread : RowRead [⟨c, r⟩] m found)
    (hexec : exec env p c ch w = some (w', r)) : found = ruleRow w.rules m := by
  rcases hread with ⟨now, hm⟩ | ⟨now, hm⟩
  · cases List.mem_singleton.mp hm
    obtain ⟨msg, hr⟩ | ⟨w₁, hrun, -⟩ := exec_reply hexec
    · cases hr
    · simp only [Call.run, TxCall.run] at hrun
      split at hrun
      · cases hrun
      · split at hrun
        · cases hrun
        · cases hrun
          rfl
  · cases List.mem_singleton.mp hm
    obtain ⟨msg, hr⟩ | ⟨w₁, hrun, -⟩ := exec_reply hexec
    · cases hr
    · cases hrun
      rfl

/-- The value a key has. -/
theorem exec_value {key : String} {value : JsonText}
    (hgot : Got [⟨c, r⟩] (.redis (.get key)) (some value))
    (hexec : exec env p c ch w = some (w', r)) : ∃ e ∈ w.redis, e.key = key ∧ e.value = value := by
  obtain ⟨now, hm⟩ := hgot
  cases List.mem_singleton.mp hm
  obtain ⟨msg, hr⟩ | ⟨w₁, hrun, -⟩ := exec_reply hexec
  · cases hr
  · simp only [Call.run, RedisCall.run, Option.some_inj, Prod.mk.injEq, Except.ok.injEq] at hrun
    obtain ⟨e, he, rfl⟩ := Option.map_eq_some_iff.mp hrun.2
    unfold RedisCall.lookup at he
    have hlive := List.find?_some he
    exact ⟨e, List.mem_of_find?_eq_some he, by simpa using (Bool.and_eq_true_iff.mp hlive).1, rfl⟩

/-- A reply tells what the table and the cache hold. -/
theorem Told.exec (h : Told env V l) (htable : TableHolds env V w.rules)
    (hcache : CacheHolds V w.redis) (hexec : exec env p c ch w = some (w', r)) :
    Told env V (⟨c, r⟩ :: l) where
  row m found hread := by
    rcases rowRead_cons.mp hread with hread | hread
    · rw [exec_row hread hexec]
      exact htable m
    · exact h.row m found hread
  entry key value hgot := by
    rcases got_cons.mp hgot with hgot | hgot
    · obtain ⟨e, he, rfl, rfl⟩ := exec_value hgot hexec
      exact hcache e he
    · exact h.entry key value hgot

/-- The row that is about to be written was read by the last call. -/
theorem loaded_cons (h : History.loaded (⟨c, r⟩ :: l) = some (m, found)) :
    RowRead [⟨c, r⟩] m found := by
  unfold History.loaded at h
  split at h
  · next heq => cases heq; cases h; exact Or.inl (got_head _ _ _)
  · next heq => cases heq; cases h; exact Or.inr (got_head _ _ _)
  · cases h

/-- What was just read is a row that was told. -/
theorem Told.loaded (hl : Told env V l) (h : l.loaded = some (m, found)) :
    V m (rulePayload env found) := by
  unfold History.loaded at h
  split at h
  · cases h; exact hl.row m found (Or.inl (got_head _ _ _))
  · cases h; exact hl.row m found (Or.inr (got_head _ _ _))
  · cases h

/-- An entry that was read was told. -/
theorem Told.entryRead {entry : CachedCashbackRule} (hl : Told env V l)
    (h : EntryRead env l m entry) : V m entry := by
  cases h with
  | cached got parsed => exact hl.entry _ _ got m rfl _ parsed
  | stored read => exact hl.row m _ read

/-! ## Updates of the table -/

/-- The row becomes the merchant's, the others stay. -/
structure StoresRule (t : Table CashbackRule) (m : String) (stored : CashbackRule)
    (t' : Table CashbackRule) : Prop where
  merchant : stored.merchantId = m
  fits : stored.FitsColumns
  row : ∀ m', ruleRow t' m' = if m' = m then some stored else ruleRow t m'
  rows : ∀ r ∈ t', r = stored ∨ r ∈ t

theorem ruleRow_merchant {t : Table CashbackRule} {row : CashbackRule}
    (h : ruleRow t m = some row) : row.merchantId = m := by
  simpa using Table.of_find? h

theorem storeCap_fourPlaces {cap : Option Decimal} {stored : Option Decimal}
    (h : RuleCall.storeCap cap = some stored) (q : Decimal) (hq : stored = some q) :
    FourPlaces q := by
  cases cap with
  | none => cases h; cases hq
  | some cap =>
    obtain ⟨q', hq', rfl⟩ := Option.map_eq_some_iff.mp h
    cases hq
    exact storeNumeric_fourPlaces (by decide) hq'

section

variable {t t' : Table CashbackRule} {rate : Decimal} {cap : Option Decimal}

/-- The update of a row that is there. -/
theorem modify_stores (hany : t.any (fun r => r.merchantId == m) = true)
    (hfits : CashbackRule.FitsColumns ⟨m, rate, cap⟩) :
    StoresRule t m ⟨m, rate, cap⟩ (t.modify (fun r => r.merchantId == m)
      (fun r => { r with rate := rate, cap := cap }) ⟨fun _ _ => rfl⟩) where
  merchant := rfl
  fits := hfits
  row m' := by
    unfold ruleRow
    refine Eq.trans (Table.find?_modify fun _ => rfl) ?_
    cases hrow : t.find? fun r => r.merchantId == m' with
    | none =>
      have hne : m' ≠ m := by
        rintro rfl
        obtain ⟨r, hr, hm⟩ := Table.any_iff.mp hany
        rw [Table.find?_none hrow hr] at hm
        cases hm
      rw [if_neg hne]
      rfl
    | some r =>
      obtain rfl := ruleRow_merchant hrow
      rw [Option.map_some]
      by_cases hm : r.merchantId = m
      · subst hm
        rw [if_pos rfl, if_pos (by simp)]
      · rw [if_neg hm, if_neg (by simpa using hm)]
  rows r hr := by
    simp only [Table.mem_modify] at hr
    obtain ⟨r₀, hr₀, rfl⟩ := hr
    by_cases hm : r₀.merchantId = m
    · subst hm
      exact Or.inl (if_pos (by simp))
    · rw [if_neg (by simpa using hm)]
      exact Or.inr hr₀

/-- The first row of a merchant. -/
theorem insert_stores (hany : t.any (fun r => r.merchantId == m) = false)
    (hfits : CashbackRule.FitsColumns ⟨m, rate, cap⟩) (hins : t.insert? ⟨m, rate, cap⟩ = some t') :
    StoresRule t m ⟨m, rate, cap⟩ t' where
  merchant := rfl
  fits := hfits
  row m' := by
    unfold ruleRow
    rw [Table.find?_insert hins]
    by_cases hm : m' = m
    · subst hm
      have hnone : t.find? (fun r => r.merchantId == m') = none := by
        refine List.find?_eq_none.mpr fun r hr => ?_
        have hall := List.any_eq_false.mp hany
        exact hall r hr
      rw [hnone, if_pos rfl, Option.none_or, if_pos (by simp)]
    · rw [if_neg hm, if_neg (by simpa using Ne.symm hm), Option.or_none]
  rows r hr := ((Table.mem_insert hins).mp hr).symm

/-- An upsert is refused by the columns or stores its row. -/
theorem upsert_stores {x : Except Fault CashbackRule}
    (h : RuleCall.run t (.upsert m rate cap) = some (t', x)) :
    (t' = t ∧ ∃ e, x = .error e) ∨ ∃ stored, x = .ok stored ∧ StoresRule t m stored t' := by
  unfold RuleCall.run at h
  dsimp only at h
  split at h
  · next rate' cap' hrate hcap _ =>
    have hfits : CashbackRule.FitsColumns { merchantId := m, rate := rate', cap := cap' } :=
      ⟨storeNumeric_fourPlaces (by decide) hrate, storeCap_fourPlaces hcap⟩
    refine Or.inr ⟨⟨m, rate', cap'⟩, ?_⟩
    split at h
    · next hany =>
      cases h
      exact ⟨rfl, modify_stores hany hfits⟩
    · next hany =>
      obtain ⟨t₁, hins, heq⟩ := Option.map_eq_some_iff.mp h
      cases heq
      exact ⟨rfl, insert_stores (by simpa using hany) hfits hins⟩
  · cases h
    exact Or.inl ⟨rfl, _, rfl⟩

end

/-- The rules stay as they are or a row is stored. -/
theorem exec_rules (hs : CommitsShaped p w c) (h : exec env p c ch w = some (w', r)) :
    w'.rules = w.rules ∨ ∃ m rate cap stored, c = .rules (.upsert m rate cap) ∧
      StoresRule w.rules m stored w'.rules := by
  obtain ⟨w₁, heff, rfl⟩ := exec_effect hs h
  show w₁.rules = w.rules ∨ ∃ m rate cap stored, c = .rules (.upsert m rate cap) ∧
    StoresRule w.rules m stored w₁.rules
  rcases heff.rules_origin with heq | ⟨c', x, rfl, hrun⟩
  · exact Or.inl heq
  · cases c' with
    | findUnique m =>
      have heq : w.rules = w₁.rules := congrArg Prod.fst (Option.some_inj.mp hrun)
      exact Or.inl heq.symm
    | upsert m rate cap =>
      rcases upsert_stores hrun with ⟨heq, -⟩ | ⟨stored, -, hstores⟩
      · exact Or.inl heq
      · exact Or.inr ⟨m, rate, cap, stored, rfl, hstores⟩

/-- An upsert that does not fail answers with what it stores. -/
theorem exec_upsert {rate : Decimal} {cap : Option Decimal}
    {r : Reply (.rules (.upsert m rate cap))} (hfate : ch.fate = .ok)
    (h : exec env p (.rules (.upsert m rate cap)) ch w = some (w', r)) :
    (w'.rules = w.rules ∧ ∃ e, r.1 = .error e) ∨
      ∃ stored, r.1 = .ok stored ∧ StoresRule w.rules m stored w'.rules := by
  obtain ⟨w₁, hserved, rfl⟩ := exec_run hfate h
  obtain ⟨⟨t, x⟩, hrun, heq⟩ := Option.map_eq_some_iff.mp hserved
  obtain ⟨rfl, rfl⟩ := Prod.mk.inj heq
  exact upsert_stores hrun

end CashbackLedger
