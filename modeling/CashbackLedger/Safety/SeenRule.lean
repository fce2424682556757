import CashbackLedger.Safety.Crediting
import CashbackLedger.Safety.Runs

/-
  The rule a read of a merchant would be given.

  `World.seen w t m` is the entry in the cache that is alive at `t`, or what the database holds. A
  read writes an entry only where it found none, so as long as nobody else writes, what is seen of
  any merchant at any later time is the same before and after the read (`seen_set`, `seen_lock`).
  That Redis has one value a key is an invariant of the system (`oneEntry_run`).
-/

namespace CashbackLedger

open Lib

/-- One value a key. -/
def OneEntry (store : List RedisEntry) : Prop := store.Pairwise fun a b => a.key ≠ b.key

/-- The entry for a rule that is found under the key at this time. -/
def entryAt (t : Time) (key : String) (store : List RedisEntry) : Option CachedCashbackRule :=
  (RedisCall.lookup t key store).bind fun e => parseCached e.value

/-- Nothing that is a rule is found under the key from now on. -/
def BlankFrom (now : Time) (key : String) (store : List RedisEntry) : Prop :=
  ∀ t, now ≤ t → entryAt t key store = none

/-- What a read of the rule of the merchant is given at this time. -/
def World.seen (env : Env) (w : World) (t : Time) (m : String) : CachedCashbackRule :=
  (entryAt t (ruleKey m) w.redis).getD (w.payload env m)

section

variable {store : List RedisEntry} {key k : String} {now t : Time} {e : RedisEntry}

theorem of_lookup (h : RedisCall.lookup t key store = some e) :
    e ∈ store ∧ e.key = key ∧ t < e.expiresAt := by
  have hp := List.find?_some (p := fun e : RedisEntry => e.key == key && decide (t < e.expiresAt)) h
  obtain ⟨hkey, hlive⟩ := Bool.and_eq_true_iff.mp hp
  exact ⟨List.mem_of_find?_eq_some h, beq_iff_eq.mp hkey, of_decide_eq_true hlive⟩

theorem not_mem_of_lookup (h : RedisCall.lookup t key store = none) (he : e ∈ store)
    (hkey : e.key = key) : ¬ t < e.expiresAt := by
  have hdead := List.find?_eq_none.mp h e he
  rw [hkey, beq_self_eq_true, Bool.true_and] at hdead
  exact of_decide_eq_false (Bool.eq_false_of_not_eq_true hdead)

theorem lookup_cons (t : Time) (key : String) (e : RedisEntry) (store : List RedisEntry) :
    RedisCall.lookup t key (e :: store) =
      if e.key = key ∧ t < e.expiresAt then some e else RedisCall.lookup t key store := by
  unfold RedisCall.lookup
  rw [List.find?_cons]
  by_cases h : e.key = key ∧ t < e.expiresAt
  · simp [h]
  · rw [if_neg h]
    have hfalse : (e.key == key && decide (t < e.expiresAt)) = false := by
      simpa [Bool.and_eq_false_iff, Classical.not_and_iff_not_or_not] using h
    rw [hfalse]

theorem lookup_delete_ne (h : key ≠ k) (t : Time) (store : List RedisEntry) :
    RedisCall.lookup t key (RedisCall.delete k store) = RedisCall.lookup t key store := by
  unfold RedisCall.lookup RedisCall.delete
  rw [List.find?_filter]
  refine congrArg (fun p => List.find? p store) (funext fun e => Bool.eq_iff_iff.mpr ?_)
  have hkey : e.key = key → e.key ≠ k := fun heq heq' => h (heq.symm.trans heq')
  simp only [bne_iff_ne, Bool.and_eq_true, beq_iff_eq, decide_eq_true_eq]
  exact ⟨fun h => h.2, fun h => ⟨hkey h.1, h⟩⟩

theorem lookup_delete (t : Time) (key : String) (store : List RedisEntry) :
    RedisCall.lookup t key (RedisCall.delete key store) = none := by
  unfold RedisCall.lookup RedisCall.delete
  rw [List.find?_filter]
  exact List.find?_eq_none.mpr fun e _ => by simp +contextual

theorem entryAt_cons_ne (h : e.key ≠ key) (t : Time) (store : List RedisEntry) :
    entryAt t key (e :: store) = entryAt t key store := by
  unfold entryAt
  rw [lookup_cons, if_neg fun hk => h hk.1]

theorem entryAt_delete_ne (h : key ≠ k) (t : Time) (store : List RedisEntry) :
    entryAt t key (RedisCall.delete k store) = entryAt t key store := by
  unfold entryAt
  rw [lookup_delete_ne h]

theorem entryAt_delete (t : Time) (key : String) (store : List RedisEntry) :
    entryAt t key (RedisCall.delete key store) = none := by
  unfold entryAt
  rw [lookup_delete]
  rfl

/-- What is no rule now will not be one. -/
theorem blank_of_miss (hkeys : OneEntry store) (h : entryAt now key store = none) :
    BlankFrom now key store := by
  intro t ht
  unfold entryAt at h ⊢
  cases hfound : RedisCall.lookup t key store with
  | none => rfl
  | some e =>
    obtain ⟨hmem, hkey, hlive⟩ := of_lookup hfound
    have hnow : now < e.expiresAt := Nat.lt_of_le_of_lt ht hlive
    cases hfirst : RedisCall.lookup now key store with
    | none => exact absurd hnow (not_mem_of_lookup hfirst hmem hkey)
    | some e' =>
      rw [hfirst] at h
      obtain ⟨hmem', hkey', -⟩ := of_lookup hfirst
      have heq : e = e' := by
        by_contra hne
        have hsymm : Std.Symm fun a b : RedisEntry => a.key ≠ b.key := ⟨fun _ _ h => h.symm⟩
        exact hkeys.forall hmem hmem' hne (hkey.trans hkey'.symm)
      rw [heq]
      exact h

theorem BlankFrom.mono (h : BlankFrom now key store) (ht : now ≤ t) : BlankFrom t key store :=
  fun t' ht' => h t' (Nat.le_trans ht ht')

/-! ## What a Redis call changes of it -/

variable {env : Env} {w : World} {m m' : String}

/-- The merchant's own entry, written where none was. -/
theorem seen_set (hblank : BlankFrom now (ruleKey m) w.redis) (ht : now ≤ t) (seconds : Nat) :
    World.seen env
      { w with redis := (RedisCall.run now w.redis
          (.set (ruleKey m) (some (w.payload env m).json) seconds)).1 } t m' =
      w.seen env t m' := by
  unfold World.seen
  by_cases hm : m' = m
  · subst hm
    rw [hblank t ht]
    unfold entryAt
    dsimp only [RedisCall.run]
    rw [lookup_cons]
    split
    · show (parseCached (some (w.payload env m').json)).getD _ = _
      rw [parseCached_json]
      rfl
    · rw [lookup_delete]
      rfl
  · have hkey : ruleKey m' ≠ ruleKey m := fun h => hm (ruleKey_inj h)
    dsimp only [RedisCall.run]
    rw [entryAt_cons_ne hkey.symm, entryAt_delete_ne hkey]
    rfl

/-- A value that is no rule under a key without one. -/
theorem entryAt_lock {value : JsonText} (hblank : BlankFrom now k store)
    (hvalue : parseCached value = none) (ht : now ≤ t) (expiresAt : Time) (key : String) :
    entryAt t key ({ key := k, value := value, expiresAt := expiresAt } ::
      RedisCall.delete k store) =
      entryAt t key store := by
  by_cases hk : key = k
  · subst hk
    rw [hblank t ht]
    unfold entryAt
    rw [lookup_cons]
    split
    · exact hvalue
    · rw [lookup_delete]
      rfl
  · rw [entryAt_cons_ne (Ne.symm hk), entryAt_delete_ne hk]

/-- Acquiring a lock changes no rule that is seen. -/
theorem entryAt_setNx (hkeys : OneEntry store) (ht : now ≤ t) (ms : Nat) (key : String) :
    entryAt t key (RedisCall.run now store (.setNx k ms)).1 = entryAt t key store := by
  unfold RedisCall.run
  dsimp only
  split
  · rfl
  · next hnone =>
    refine entryAt_lock (blank_of_miss hkeys ?_) rfl ht _ key
    unfold entryAt
    rw [hnone]
    rfl

/-- A lock that has been acquired is no rule. -/
theorem blank_setNx {ms : Nat} (h : (RedisCall.run now store (.setNx k ms)).2 = .ok true) :
    BlankFrom now k (RedisCall.run now store (.setNx k ms)).1 := by
  intro t ht
  unfold RedisCall.run at h ⊢
  dsimp only at h ⊢
  split at h
  · cases h
  · unfold entryAt
    rw [lookup_cons]
    split
    · rfl
    · rw [lookup_delete]
      rfl

/-- Releasing it changes none. -/
theorem entryAt_del (hblank : BlankFrom now k store) (ht : now ≤ t) (key : String) :
    entryAt t key (RedisCall.run now store (.del k)).1 = entryAt t key store := by
  by_cases hk : key = k
  · subst hk
    rw [hblank t ht]
    exact entryAt_delete t key store
  · exact entryAt_delete_ne hk t store

/-! ## One value a key -/

theorem OneEntry.delete (h : OneEntry store) (k : String) : OneEntry (RedisCall.delete k store) :=
  h.filter _

theorem OneEntry.put (h : OneEntry store) (e : RedisEntry) :
    OneEntry (e :: RedisCall.delete e.key store) := by
  refine List.pairwise_cons.mpr ⟨fun e' he' => ?_, h.delete _⟩
  have hne := (List.mem_filter.mp he').2
  exact fun heq => by simp [heq] at hne

theorem OneEntry.run (h : OneEntry store) (now : Time) (c : RedisCall) :
    OneEntry (c.run now store).1 := by
  cases c with
  | get key => exact h
  | set key value seconds =>
    exact h.put { key := key, value := value, expiresAt := now + seconds * 1000 }
  | setNx key ms =>
    unfold RedisCall.run
    dsimp only
    split
    · exact h
    · exact h.put { key := key, value := some (.num 1), expiresAt := now + ms }
  | del key => exact h.delete key

end

/-- In every run Redis has one value a key. -/
theorem oneEntry_run {env : Env} {ls : List Step} {s : State}
    (h : (system env).run initial ls = some s) : OneEntry s.world.redis := by
  refine world_invariant (I := fun w => OneEntry w.redis) fresh_of_initial ?_
    (fun _ _ _ h => h) ?_ ?_
    (reach_of_run h)
  · rintro s rfl
    exact .nil
  · intro s p ch t l c k w _ hI _ _ _ _ _ heff
    rcases heff.redis_origin with heq | ⟨rc, -, heq⟩
    · rwa [heq]
    · rw [heq]
      exact hI.run _ rc
  · intro s e w hI _ hw
    cases e with
    | tick ms =>
      cases hw
      exact hI
    | produce m =>
      cases hw
      exact hI
    | rewind offset =>
      cases hw
      exact hI

end CashbackLedger
