import CashbackLedger.Lib.Pool

/-
  Testing the condition on the steps of a run.

  A condition may speak of all processes, and there are infinitely many names. While all processes
  have names below `n` it is enough to look at these: a `Check n ok` is a test that implies `ok` in
  such a state. Checks are put together from tests of the step alone (`of`), tests of every process
  (`each`, `others`) and conjunctions, and a run that passes its check is a run under the condition
  (`reach`, `traced`).
-/

namespace CashbackLedger.Lib

variable {C : Type} {R : C → Type} {T Ch E W α K : Type}

/-- A test of steps that implies the condition where all processes have names below `n`. -/
structure Check (n : Nat) (ok : Pool C R T W α → Label T Ch E → Prop) where
  test : Pool C R T W α → Label T Ch E → Bool
  sound : ∀ s lb, s.Below n → test s lb = true → ok s lb

namespace Check

variable {n : Nat} {ok ok' : Pool C R T W α → Label T Ch E → Prop}

/-- A test that does not look at other processes. -/
def of (test : Pool C R T W α → Label T Ch E → Bool) :
    Check n fun (s : Pool C R T W α) (lb : Label T Ch E) => test s lb = true where
  test := test
  sound _ _ _ h := h

def and (a : Check n ok) (b : Check n ok') : Check n fun s lb => ok s lb ∧ ok' s lb where
  test s lb := a.test s lb && b.test s lb
  sound s lb hs h :=
    ⟨a.sound s lb hs (Bool.and_eq_true_iff.mp h).1, b.sound s lb hs (Bool.and_eq_true_iff.mp h).2⟩

def imp (a : Check n ok) (h : ∀ s lb, ok s lb → ok' s lb) : Check n ok' where
  test := a.test
  sound s lb hs ht := h s lb (a.sound s lb hs ht)

/-- A test of every process that a free name passes. -/
def each (f : Pool C R T W α → Label T Ch E → Pid → Option (Proc C R T α) → Bool)
    (hfree : ∀ s lb p, f s lb p none = true) :
    Check n fun (s : Pool C R T W α) (lb : Label T Ch E) => ∀ p, f s lb p (s.proc p) = true where
  test s lb := (List.range n).all fun p => f s lb p (s.proc p)
  sound s lb hs h := hs.all (hfree s lb) h

/-- A step of `p` that concerns `k` is made while no other process is concerned with it. -/
def others [DecidableEq K] (concern : Pool C R T W α → Label T Ch E → Option (Pid × K))
    (view : Option (Proc C R T α) → Option K) (hfree : view none = none) :
    Check n fun (s : Pool C R T W α) (lb : Label T Ch E) =>
      ∀ p k, concern s lb = some (p, k) → ∀ q, q ≠ p → view (s.proc q) ≠ some k :=
  (each (fun s lb q pr => (concern s lb).all fun x => q == x.1 ||
    view pr != some x.2) fun s lb p => by
    cases concern s lb <;> simp [hfree]).imp fun s lb h p k hconcern q hq => by
      have hall := h q
      rw [hconcern] at hall
      simpa [hq] using hall

variable {M : Machine C R T Ch E W α} {s₀ s : Pool C R T W α} {ls : List (Label T Ch E)}

/-- A run that passes its check. -/
theorem reach (c : Check n ok) (h : M.runChecked n c.test s₀ ls = some s) (hs : s₀.Below n) :
    Reach M ok (· = s₀) s := by
  have h0 : Reach M ok (· = s₀) s₀ := .start rfl
  exact h0.of_runChecked c.sound hs h

/-- A run with a ghost value that passes its check; the condition may speak of the ghost value. -/
theorem traced {G : Type} {upd : Pool C R T W α → Label T Ch E → Pool C R T W α → G → G}
    {start : Pool C R T W α → G → Prop} {ok' : Pool C R T W α → G → Label T Ch E → Prop} {g₀ g : G}
    (c : Check n ok) (hok : ∀ s g lb, ok s lb → ok' s g lb)
    (h : M.runTraced n upd (fun s _ lb => c.test s lb) s₀ g₀ ls = some (s, g)) (hs : s₀.Below n)
    (hstart : start s₀ g₀) : Traced M upd ok' start s g := by
  have h0 : Traced M upd ok' start s₀ g₀ := .start hstart
  exact h0.of_runTraced (fun s g lb hbelow ht => hok s g lb (c.sound s lb hbelow ht)) hs h

end Check

end CashbackLedger.Lib
