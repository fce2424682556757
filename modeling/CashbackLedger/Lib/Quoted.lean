import Mathlib.Data.List.Basic

/-
  Texts with quoted parts.

  `Closed m inside l`: the text `l`, read from inside or outside quotes, ends outside, and the
  separator stands only inside, unescaped. What follows a separator in such a text is read from
  inside (`Closed.after_sep`), and no text can be read both ways (`not_closed_both`), so a part
  before a separator and a closed text after it can be told apart whatever the part contains
  (`closed_split`).
-/

namespace CashbackLedger.Lib

/-- The symbols that matter: a quote, what makes the next symbol stand for itself, and a
    separator. -/
structure Marks (A : Type) where
  quote : A
  esc : A
  sep : A
  quote_ne_esc : quote ≠ esc
  quote_ne_sep : quote ≠ sep
  esc_ne_sep : esc ≠ sep

variable {A : Type} {m : Marks A} {inside : Bool} {l l' : List A} {c : A}

inductive Closed (m : Marks A) : Bool → List A → Prop where
  | done : Closed m false []
  | plain {c : A} {l : List A} (quote : c ≠ m.quote) (esc : c ≠ m.esc) (sep : c ≠ m.sep)
      (rest : Closed m false l) : Closed m false (c :: l)
  | opens {l : List A} (rest : Closed m true l) : Closed m false (m.quote :: l)
  | inner {c : A} {l : List A} (quote : c ≠ m.quote) (esc : c ≠ m.esc) (rest : Closed m true l) :
      Closed m true (c :: l)
  | escaped {c : A} {l : List A} (sep : c ≠ m.sep) (rest : Closed m true l) :
      Closed m true (m.esc :: c :: l)
  | closes {l : List A} (rest : Closed m false l) : Closed m true (m.quote :: l)

theorem Closed.append (h : Closed m inside l) (h' : Closed m false l') :
    Closed m inside (l ++ l') := by
  induction h with
  | done => exact h'
  | plain quote esc sep _ ih => exact .plain quote esc sep ih
  | opens _ ih => exact .opens ih
  | inner quote esc _ ih => exact .inner quote esc ih
  | escaped sep _ ih => exact .escaped sep ih
  | closes _ ih => exact .closes ih

/-- A text without any of the marks. -/
theorem closed_plain (h : ∀ c ∈ l, c ≠ m.quote ∧ c ≠ m.esc ∧ c ≠ m.sep) : Closed m false l := by
  induction l with
  | nil => exact .done
  | cons c l ih =>
    obtain ⟨hquote, hesc, hsep⟩ := h c List.mem_cons_self
    exact .plain hquote hesc hsep (ih fun c hc => h c (List.mem_cons_of_mem _ hc))

/-- No text can be read both ways: each quote turns the one into the other, and what makes a symbol
    stand for itself is met inside only. -/
theorem not_closed_both (l : List A) : ¬ (Closed m true l ∧ Closed m false l) := by
  induction l with
  | nil =>
    rintro ⟨h, -⟩
    cases h
  | cons c l ih =>
    rintro ⟨h, h'⟩
    cases h' with
    | plain quote esc sep rest' =>
      cases h with
      | inner _ _ rest => exact ih ⟨rest, rest'⟩
      | escaped _ _ => exact esc rfl
      | closes _ => exact quote rfl
    | opens rest' =>
      generalize hc : m.quote = c at h
      cases h with
      | inner quote _ _ => exact quote hc.symm
      | escaped _ _ => exact m.quote_ne_esc hc
      | closes rest => exact ih ⟨rest', rest⟩

/-- What follows a separator is read from inside. -/
theorem Closed.after_sep {u : List A} (h : Closed m inside (u ++ m.sep :: l)) :
    Closed m true l := by
  generalize htext : u ++ m.sep :: l = text at h
  induction h generalizing u with
  | done => exact absurd htext (List.append_ne_nil_of_right_ne_nil _ (List.cons_ne_nil _ _))
  | plain quote esc sep rest ih =>
    cases u with
    | nil => exact absurd (List.cons.inj htext).1.symm sep
    | cons a u => exact ih (List.cons.inj htext).2
  | opens rest ih =>
    cases u with
    | nil => exact absurd (List.cons.inj htext).1.symm m.quote_ne_sep
    | cons a u => exact ih (List.cons.inj htext).2
  | inner quote esc rest ih =>
    cases u with
    | nil => exact (List.cons.inj htext).2 ▸ rest
    | cons a u => exact ih (List.cons.inj htext).2
  | escaped sep rest ih =>
    cases u with
    | nil => exact absurd (List.cons.inj htext).1.symm m.esc_ne_sep
    | cons a u =>
      have htail := (List.cons.inj htext).2
      cases u with
      | nil => exact absurd (List.cons.inj htail).1.symm sep
      | cons b u => exact ih (List.cons.inj htail).2
  | closes rest ih =>
    cases u with
    | nil => exact absurd (List.cons.inj htext).1.symm m.quote_ne_sep
    | cons a u => exact ih (List.cons.inj htext).2

/-- The separator before a closed text can be told from any other. -/
theorem closed_split {u u' : List A} (h : Closed m false l) (h' : Closed m false l')
    (heq : u ++ m.sep :: l = u' ++ m.sep :: l') : u = u' ∧ l = l' := by
  -- a separator further left would be one inside the longer text
  have hshort : ∀ {v k k' : List A}, Closed m false k →
      Closed m false k' → m.sep :: k = v ++ m.sep :: k' →
      v = [] := by
    intro v k k' hk hk' hv
    cases v with
    | nil => rfl
    | cons a v =>
      obtain ⟨-, rfl⟩ := List.cons.inj hv
      exact absurd ⟨hk.after_sep, hk'⟩ (not_closed_both k')
  rcases List.append_eq_append_iff.mp heq with ⟨v, rfl, hv⟩ | ⟨v, rfl, hv⟩
  · obtain rfl := hshort h h' hv
    rw [List.append_nil]
    exact ⟨rfl, (List.cons.inj hv).2⟩
  · obtain rfl := hshort h' h hv
    rw [List.append_nil]
    exact ⟨rfl, (List.cons.inj hv).2.symm⟩

/-- Before the first separator. -/
theorem split_first {a : A} {u u' : List A} (h : a ∉ u) (h' : a ∉ u')
    (heq : u ++ a :: l = u' ++ a :: l') : u = u' ∧ l = l' := by
  induction u generalizing u' with
  | nil =>
    cases u' with
    | nil => exact ⟨rfl, (List.cons.inj heq).2⟩
    | cons b u' => exact absurd (List.mem_cons.mpr (Or.inl (List.cons.inj heq).1)) h'
  | cons b u ih =>
    cases u' with
    | nil => exact absurd (List.mem_cons.mpr (Or.inl (List.cons.inj heq).1.symm)) h
    | cons b' u' =>
      obtain ⟨rfl, htail⟩ := List.cons.inj heq
      obtain ⟨rfl, hl⟩ := ih (fun hmem => h (List.mem_cons_of_mem _ hmem))
        (fun hmem => h' (List.mem_cons_of_mem _ hmem)) htail
      exact ⟨rfl, hl⟩

end CashbackLedger.Lib
