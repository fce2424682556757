import Mathlib.Logic.Relation
import CashbackLedger.Lib.Pool

/-
  Simulation of one system by another that says less.

  `Simulates step astep R`: a step between concrete states is at most one step of the abstract
  system, and `R` holds again. A run of the one is then a run of the other (`Simulates.run`), and
  what abstract steps keep is kept by every concrete run between states that are related
  (`Simulates.rel`).

  `Machine.Next` are the steps of a pool from the states its runs reach.
-/

namespace CashbackLedger.Lib

open Relation

section

variable {S A : Type*}

/-- A concrete step is at most one abstract step. -/
structure Simulates (step : S → S → Prop) (astep : A → A → Prop) (R : S → A → Prop) : Prop where
  matched : ∀ {s s' a}, R s a → step s s' → ∃ a', ReflGen astep a a' ∧ R s' a'

variable {step : S → S → Prop} {astep : A → A → Prop} {R : S → A → Prop} {s s' : S} {a : A}

/-- A run is an abstract run. -/
theorem Simulates.run (h : Simulates step astep R) (hR : R s a) (hrun : ReflTransGen step s s') :
    ∃ a', ReflTransGen astep a a' ∧ R s' a' := by
  induction hrun with
  | refl => exact ⟨a, .refl, hR⟩
  | tail _ hstep ih =>
      obtain ⟨a₁, hrun₁, hR₁⟩ := ih
      obtain ⟨a₂, hstep₂, hR₂⟩ := h.matched hR₁ hstep
      exact ⟨a₂, hrun₁.trans hstep₂.to_reflTransGen, hR₂⟩

/-- What relates the two ends of every abstract step relates the two ends of a run. -/
theorem Simulates.rel (h : Simulates step astep R) {T : A → A → Prop} (hrefl : ∀ a, T a a)
    (htrans : ∀ a b c, T a b → T b c → T a c) (hT : ∀ a b, astep a b → T a b) (hR : R s a)
    (hrun : ReflTransGen step s s') : ∃ a', T a a' ∧ R s' a' := by
  obtain ⟨a', hrun', hR'⟩ := h.run hR hrun
  refine ⟨a', ?_, hR'⟩
  clear hR'
  induction hrun' with
  | refl => exact hrefl a
  | tail _ hstep ih => exact htrans _ _ _ ih (hT _ _ hstep)

end

variable {C : Type} {R : C → Type} {T Ch E W α : Type}

/-- A step of the pool from a state its runs reach. -/
def Machine.Next (M : Machine C R T Ch E W α) (ok : Pool C R T W α → Label T Ch E → Prop)
    (start : Pool C R T W α → Prop) (s s' : Pool C R T W α) : Prop :=
  Reach M ok start s ∧ ∃ lb, ok s lb ∧ M.step s lb = some s'

variable {M : Machine C R T Ch E W α} {ok : Pool C R T W α → Label T Ch E → Prop}
  {start : Pool C R T W α → Prop} {s s' : Pool C R T W α}

/-- A run that continues a run, step by step. -/
theorem Reach.steps (h : Reach M ok start s) (h' : Reach M ok (· = s) s') :
    ReflTransGen (M.Next ok start) s s' := by
  induction h' with
  | start heq => exact heq ▸ .refl
  | next hr met hstep ih => exact ih.tail ⟨h.trans hr, _, met, hstep⟩

end CashbackLedger.Lib
