import CashbackLedger.Lib.Alone
import CashbackLedger.Lib.Pool

/-
  A task that has the pool to itself.

  Where every process that was started is dead (`Pool.Still`), a task can be started, run to its
  end and stopped with nothing in between, so what it comes to when it runs alone against the world
  (`Ends`) is reached by the pool (`Reach.solo`). Every pool with finitely many processes can be
  stilled (`Reach.still`): what a run can still come to is settled by the tasks one at a time.
-/

namespace CashbackLedger.Lib

variable {C : Type} {R : C → Type} {T Ch E W α : Type}

/-- Serves the calls of `p`, all with one choice. -/
def Machine.serve (M : Machine C R T Ch E W α) (p : Pid) (ch : Ch) (c : C) (w : W) :
    Option (W × R c) :=
  M.exec p c ch w

/-- No process is alive, and finitely many have been started. -/
structure Pool.Still (s : Pool C R T W α) : Prop where
  dead : ∀ p t l x, s.proc p ≠ some ⟨t, l, x, true⟩
  below : ∃ n, s.Below n

section

variable {s : Pool C R T W α} {w w' : W} {p : Pid} {pr pr' : Proc C R T α}

theorem Pool.put_put : (s.put w p pr).put w' p pr' = s.put w' p pr' := by
  unfold Pool.put
  rw [Function.update_idem]

theorem Pool.put_same (h : s.proc p = some pr) : s.put s.world p pr = s := by
  unfold Pool.put
  rw [← h, Function.update_eq_self]

/-- In a pool that is still, one more process can be started and stopped. -/
theorem Pool.Still.put (h : s.Still) (w : W) (p : Pid) (t : T) (l : Log C R) (x : Prog C R α) :
    (s.put w p ⟨t, l, x, false⟩).Still := by
  refine ⟨fun q t' l' x' hq => ?_, ?_⟩
  · rw [Pool.put_proc] at hq
    split at hq
    · cases hq
    · exact h.dead q t' l' x' hq
  · obtain ⟨n, hn⟩ := h.below
    have hmax : s.Below (max n (p + 1)) := fun q hq => hn q (Nat.le_trans (Nat.le_max_left _ _) hq)
    exact ⟨max n (p + 1),
      hmax.put w (Nat.lt_of_lt_of_le (Nat.lt_succ_self p) (Nat.le_max_right _ _)) _⟩

theorem Pool.Still.free (h : s.Still) : ∃ p, s.proc p = none := by
  obtain ⟨n, hn⟩ := h.below
  exact ⟨n, hn n (Nat.le_refl n)⟩

end

/-! ## Programs seen by another service -/

/-- A run against one service is a run against another that a view of the first one's states
    follows. -/
theorem Ends.view {Y : Type} {serve : (c : C) → Y → Option (Y × R c)}
    {serve' : (c : C) → W → Option (W × R c)} (view : Y → W) (I : Y → Prop) {Q : Y → α → Prop}
    {Q' : W → α → Prop} {x : Prog C R α} {y : Y}
    (hserve : ∀ y c y' r, I y → serve c y = some (y', r) →
      I y' ∧ serve' c (view y) = some (view y', r))
    (hI : I y) (h : Ends serve False Q y x) (hQ : ∀ y a, I y → Q y a → Q' (view y) a) :
    Ends serve' False Q' (view y) x := by
  induction x generalizing y with
  | ret a => exact hQ y a hI h
  | call c k ih =>
      rw [ends_call] at h ⊢
      cases hs : serve c y with
      | none =>
        rw [hs] at h
        exact h.elim
      | some z =>
        rw [hs] at h
        obtain ⟨hI', hs'⟩ := hserve y c z.1 z.2 hI hs
        rw [hs']
        exact ih z.2 hI' h

namespace Reach

variable {M : Machine C R T Ch E W α} {ok : Pool C R T W α → Label T Ch E → Prop}
  {start : Pool C R T W α → Prop} {s : Pool C R T W α} {p : Pid} {ch : Ch}

/-- Finitely many processes have been started. -/
theorem finite (hstart : ∀ s, start s → ∃ n, s.Below n) (h : Reach M ok start s) :
    ∃ n, s.Below n := by
  induction h with
  | start h => exact hstart _ h
  | @next s s' lb _ _ hstep ih =>
      obtain ⟨n, hn⟩ := ih
      cases Machine.step_cases hstep with
      | @spawn p t free =>
          have hmax : s.Below (max n (p + 1)) :=
            fun q hq => hn q (Nat.le_trans (Nat.le_max_left _ _) hq)
          exact ⟨max n (p + 1),
            hmax.put _ (Nat.lt_of_lt_of_le (Nat.lt_succ_self p) (Nat.le_max_right _ _)) _⟩
      | call at_call served => exact ⟨n, hn.put _ (hn.lt at_call) _⟩
      | crash alive => exact ⟨n, hn.put _ (hn.lt alive) _⟩
      | move moved => exact ⟨n, hn⟩

/-- A process that is served alone goes on to the end of its program. -/
theorem alone (hstep : ∀ s, ok s (.step p ch)) {t : T} {l : Log C R} {x : Prog C R α} {w : W}
    {a : α} (hp : s.proc p = some ⟨t, l, x, true⟩)
    (h : x.eval (M.serve p ch) s.world = some (w, a)) :
    ∃ l', Reach M ok (· = s) (s.put w p ⟨t, l', .ret a, true⟩) := by
  induction x generalizing s l with
  | ret b =>
      cases h
      refine ⟨l, ?_⟩
      rw [Pool.put_same hp]
      exact .start rfl
  | call c k ih =>
      rw [Prog.eval] at h
      cases hs : M.serve p ch c s.world with
      | none =>
        rw [hs] at h
        cases h
      | some z =>
        rw [hs] at h
        have hnext : M.step s (.step p ch) =
            some (s.put z.1 p ⟨t, ⟨c, z.2⟩ :: l, k z.2, true⟩) := by
          simp only [Machine.step, hp]
          exact congrArg (Option.map _) hs
        obtain ⟨l', hrun⟩ := ih z.2 (Pool.put_self s z.1 p _) h
        rw [Pool.put_put] at hrun
        have hone : Reach M ok (· = s) (s.put z.1 p ⟨t, ⟨c, z.2⟩ :: l, k z.2, true⟩) :=
          .next (.start rfl) (hstep s) hnext
        exact ⟨l', hone.trans hrun⟩

/-- In a pool that is still, a task can be run on its own: the pool is still again, and the world is
    what the task made of it. -/
theorem solo {t : T} {Q : W → Prop} (hspawn : ∀ p, ok s (.spawn p t))
    (hstep : ∀ s p, ok s (.step p ch)) (hcrash : ∀ s p, ok s (.crash p)) (hstill : s.Still)
    (hends : ∀ p, s.proc p = none →
      Ends (M.serve p ch) False (fun w _ => Q (M.kill p w)) s.world (M.prog t)) :
    ∃ s', Reach M ok (· = s) s' ∧ s'.Still ∧ Q s'.world := by
  obtain ⟨p, hfree⟩ := hstill.free
  obtain ⟨w, a, heval, hQ⟩ := (hends p hfree).exists
  have hspawned : Reach M ok (· = s) (s.put s.world p (M.start t)) := by
    refine .next (.start rfl) (hspawn p) ?_
    simp only [Machine.step, hfree]
  obtain ⟨l, hrun⟩ := alone (s := s.put s.world p (M.start t)) (fun s => hstep s p)
    (Pool.put_self s s.world p (M.start t)) heval
  rw [Pool.put_put] at hrun
  have hstopped : Reach M ok (· = s.put w p ⟨t, l, .ret a, true⟩)
      (s.put (M.kill p w) p ⟨t, l, .ret a, false⟩) := by
    refine .next (.start rfl) (hcrash _ p) ?_
    simp only [Machine.step, Pool.put_self, Pool.put_world, Pool.put_put]
  exact ⟨_, (hspawned.trans hrun).trans hstopped, hstill.put _ p t l _, hQ⟩

/-- All processes may die. `K` relates the world to what their deaths make of it. -/
theorem still (hcrash : ∀ s p, ok s (.crash p)) {K : W → W → Prop} (hrefl : ∀ w, K w w)
    (hkill : ∀ w w' p, K w w' → K w (M.kill p w')) (hbelow : ∃ n, s.Below n) :
    ∃ s', Reach M ok (· = s) s' ∧ s'.Still ∧ K s.world s'.world := by
  obtain ⟨n, hn⟩ := hbelow
  have hupto : ∀ m, ∃ s', Reach M ok (· = s) s' ∧ s'.Below n ∧ K s.world s'.world ∧
      ∀ p t l x, p < m → s'.proc p ≠ some ⟨t, l, x, true⟩ := by
    intro m
    induction m with
    | zero => exact ⟨s, .start rfl, hn, hrefl _, fun p t l x hp => absurd hp (Nat.not_lt_zero p)⟩
    | succ m ih =>
        obtain ⟨s₁, hrun, hbelow, hK, hdead⟩ := ih
        by_cases halive : ∃ t l x, s₁.proc m = some ⟨t, l, x, true⟩
        · obtain ⟨t, l, x, hm⟩ := halive
          have hone : Reach M ok (· = s₁) (s₁.put (M.kill m s₁.world) m ⟨t, l, x, false⟩) := by
            refine .next (.start rfl) (hcrash s₁ m) ?_
            simp only [Machine.step, hm]
          refine ⟨_, hrun.trans hone, hbelow.put _ (hbelow.lt hm) _, hkill _ _ m hK, ?_⟩
          intro p t' l' x' hp hproc
          rw [Pool.put_proc] at hproc
          split at hproc
          · cases hproc
          · next hne =>
              exact hdead p t' l' x' (Nat.lt_of_le_of_ne (Nat.lt_succ_iff.mp hp) hne) hproc
        · refine ⟨s₁, hrun, hbelow, hK, fun p t l x hp hproc => ?_⟩
          rcases Nat.lt_succ_iff_lt_or_eq.mp hp with hlt | rfl
          · exact hdead p t l x hlt hproc
          · exact halive ⟨t, l, x, hproc⟩
  obtain ⟨s', hrun, hbelow, hK, hdead⟩ := hupto n
  refine ⟨s', hrun, ⟨fun p t l x hp => ?_, n, hbelow⟩, hK⟩
  exact hdead p t l x (hbelow.lt hp) hp

/-- Where every state that is not `done` has a run to one with a smaller measure, a `done` state is
    reached. -/
theorem drain {P done : Pool C R T W α → Prop} (measure : Pool C R T W α → Nat)
    (hprogress : ∀ s, P s → done s ∨ ∃ s', Reach M ok (· = s) s' ∧ P s' ∧ measure s' < measure s)
    (h : P s) : ∃ s', Reach M ok (· = s) s' ∧ P s' ∧ done s' := by
  generalize hm : measure s = m
  induction m using Nat.strongRecOn generalizing s with
  | ind m ih =>
      rcases hprogress s h with hdone | ⟨s₁, hrun₁, h₁, hlt⟩
      · exact ⟨s, .start rfl, h, hdone⟩
      · obtain ⟨s₂, hrun₂, h₂, hdone⟩ := ih (measure s₁) (hm ▸ hlt) h₁ rfl
        exact ⟨s₂, hrun₁.trans hrun₂, h₂, hdone⟩

/-- A run is a list of labels. -/
theorem exists_run {s₀ : Pool C R T W α} (h : Reach M ok (· = s₀) s) :
    ∃ ls : List (Label T Ch E), M.run s₀ ls = some s := by
  have happend : ∀ (ls : List (Label T Ch E)) (s₁ : Pool C R T W α) (lb : Label T Ch E),
      M.run s₁ (ls ++ [lb]) = (M.run s₁ ls).bind fun s => M.step s lb := by
    intro ls
    induction ls with
    | nil =>
        intro s₁ lb
        show (M.step s₁ lb).bind some = M.step s₁ lb
        cases M.step s₁ lb <;> rfl
    | cons lb' ls ih =>
        intro s₁ lb
        show (M.step s₁ lb').bind _ = ((M.step s₁ lb').bind _).bind _
        rw [Option.bind_assoc]
        exact congrArg _ (funext fun s => ih s lb)
  induction h with
  | start heq => exact ⟨[], congrArg some heq.symm⟩
  | @next s s' lb _ _ hstep ih =>
      obtain ⟨ls, hls⟩ := ih
      refine ⟨ls ++ [lb], ?_⟩
      rw [happend, hls]
      exact hstep

end Reach

end CashbackLedger.Lib
