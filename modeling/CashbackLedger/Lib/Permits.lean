import Mathlib.Data.Finset.Card

/-
  Acts on permits.

  A counter is raised before a party may act, and each raise permits one act. The permit may be
  lost (the party dies, or never learns that it raised the counter), so the acts can fall behind
  the counter, but the acts and the parties that may still act never exceed it (`Permitted`).
  A step of one party keeps it when the party comes to hold a permit only with a raise
  (`Permitted.take`) and gives its permit up with the act (`Permitted.use`).
-/

namespace CashbackLedger.Lib

/-- The acts, and the parties that hold a permit, are within the permits that were given. -/
def Permitted {P : Type} (holds : P → Prop) (acts given : Nat) : Prop :=
  ∀ held : Finset P, (∀ p ∈ held, holds p) → acts + held.card ≤ given

namespace Permitted

variable {P : Type} {holds holds' : P → Prop} {acts given given' : Nat} {p : P}

theorem acts_le (h : Permitted holds acts given) : acts ≤ given :=
  h ∅ fun _ hp => absurd hp (Finset.notMem_empty _)

/-- Nobody holds a permit. -/
theorem of_none (hnone : ∀ q, ¬ holds q) (hle : acts ≤ given) : Permitted holds acts given := by
  intro held hheld
  have hempty : held = ∅ := Finset.eq_empty_of_forall_notMem fun q hq => hnone q (hheld q hq)
  rw [hempty, Finset.card_empty]
  exact hle

/-- Permits are lost, or given to nobody. -/
theorem mono (h : Permitted holds acts given) (hholds : ∀ q, holds' q → holds q)
    (hle : given ≤ given') : Permitted holds' acts given' :=
  fun held hheld => Nat.le_trans (h held fun q hq => hholds q (hheld q hq)) hle

/-- `p` takes a permit. -/
theorem take [DecidableEq P] (h : Permitted holds acts given)
    (hholds : ∀ q, holds' q → q = p ∨ holds q) : Permitted holds' acts (given + 1) := by
  intro held hheld
  have hothers := h (held.erase p) fun q hq => by
    obtain ⟨hne, hq⟩ := Finset.mem_erase.mp hq
    exact (hholds q (hheld q hq)).resolve_left hne
  have hcard : held.card - 1 ≤ (held.erase p).card := Finset.pred_card_le_card_erase
  omega

/-- `p` acts on its permit. -/
theorem use [DecidableEq P] (h : Permitted holds acts given) (hp : holds p)
    (hholds : ∀ q, holds' q → q ≠ p ∧ holds q) : Permitted holds' (acts + 1) given := by
  intro held hheld
  have hnot : p ∉ held := fun hin => (hholds p (hheld p hin)).1 rfl
  have hall := h (insert p held) fun q hq => by
    rcases Finset.mem_insert.mp hq with rfl | hq
    · exact hp
    · exact (hholds q (hheld q hq)).2
  rw [Finset.card_insert_of_notMem hnot] at hall
  omega

end Permitted

end CashbackLedger.Lib
