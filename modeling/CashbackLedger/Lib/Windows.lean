import Mathlib.Logic.Basic

/-
  Check, then act.

  A party checks that a key is not taken and acts on the answer later. Between the two its
  window on the key is open. Nothing is reserved, so two windows on one key may overlap and
  both parties act. `Windows.Apart` says that no two windows overlap and none is open on a taken
  key. A step of one party keeps it when the party opens a window only on a free key that
  nobody else has a window on, and a key becomes taken only through a window that closes
  (`Apart.step`).
-/

namespace CashbackLedger.Lib

/-- Which windows are open and which keys are taken. -/
structure Windows (P K : Type) where
  inside : P → K → Prop
  taken : K → Prop

namespace Windows

variable {P K : Type} {v v' : Windows P K}

/-- At most one window a key, and none on a taken key. -/
structure Apart (v : Windows P K) : Prop where
  alone : ∀ p q k, v.inside p k → v.inside q k → p = q
  free : ∀ p k, v.inside p k → ¬ v.taken k

/-- A step of `p`. -/
theorem Apart.step (h : v.Apart) (p : P) (hothers : ∀ q k, q ≠ p → v'.inside q k → v.inside q k)
    (henter : ∀ k, v'.inside p k → v.inside p k ∨ (¬ v.taken k ∧ ∀ q, q ≠ p → ¬ v.inside q k))
    (htaken : ∀ k, v'.taken k → v.taken k ∨ (v.inside p k ∧ ¬ v'.inside p k)) : v'.Apart := by
  have hself : ∀ q k, q ≠ p → v'.inside p k → ¬ v'.inside q k := by
    intro q k hq hp hqk
    have hqk₀ := hothers q k hq hqk
    rcases henter k hp with hp₀ | ⟨-, halone⟩
    · exact hq (h.alone q p k hqk₀ hp₀)
    · exact halone q hq hqk₀
  constructor
  · intro q r k hq hr
    by_cases hqp : q = p
    · by_cases hrp : r = p
      · rw [hqp, hrp]
      · exact absurd hr (hself r k hrp (hqp ▸ hq))
    · by_cases hrp : r = p
      · exact absurd hq (hself q k hqp (hrp ▸ hr))
      · exact h.alone q r k (hothers q k hqp hq) (hothers r k hrp hr)
  · intro q k hq ht
    by_cases hqp : q = p
    · subst hqp
      rcases htaken k ht with ht₀ | ⟨-, hclosed⟩
      · rcases henter k hq with hq₀ | ⟨hfree, -⟩
        · exact h.free q k hq₀ ht₀
        · exact hfree ht₀
      · exact hclosed hq
    · have hq₀ := hothers q k hqp hq
      rcases htaken k ht with ht₀ | ⟨hp₀, -⟩
      · exact h.free q k hq₀ ht₀
      · exact hqp (h.alone q p k hq₀ hp₀)

/-- Closing windows and nothing else. -/
theorem Apart.mono (h : v.Apart) (hinside : ∀ p k, v'.inside p k → v.inside p k)
    (htaken : ∀ k, v'.taken k → v.taken k) : v'.Apart :=
  ⟨fun p q k hp hq => h.alone p q k (hinside p k hp) (hinside q k hq),
    fun p k hp ht => h.free p k (hinside p k hp) (htaken k ht)⟩

end Windows

end CashbackLedger.Lib
