import CashbackLedger.Lib.Check
import CashbackLedger.Model.Platform
import CashbackLedger.Safety.Knowledge

/-
  Runs from the empty state, the class of runs without faults, and runs that are checked step
  by step on a platform.
-/

namespace CashbackLedger

open Lib

theorem initial_fresh : Fresh initial := ⟨fun _ => rfl, fun _ => rfl⟩

theorem fresh_of_initial (s : State) (h : s = initial) : Fresh s := h ▸ initial_fresh

/-- Every step may be taken. -/
def anyStep (_ : State) (_ : Step) : Prop := True

theorem reach_of_run {env : Env} {ls : List Step} {s₀ s : State}
    (h : (system env).run s₀ ls = some s) : Reach (system env) anyStep (· = s₀) s := by
  have h0 : Reach (system env) anyStep (· = s₀) s₀ := .start rfl
  exact h0.of_run ls (fun _ _ _ => trivial) h

theorem initial_below (n : Nat) : initial.Below n := fun _ _ => rfl

/-- No call fails, no process dies, nothing is replayed, nobody else writes to the topic. -/
def undisturbed : Step → Bool
  | .spawn _ (.replay _) => false
  | .spawn _ _ => true
  | .step _ ch => match ch.fate with | .ok => true | _ => false
  | .crash _ => false
  | .move (.tick _) => true
  | .move (.produce _) => false
  | .move (.rewind _) => true

end CashbackLedger
