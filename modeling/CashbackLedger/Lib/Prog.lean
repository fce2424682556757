import Mathlib.Data.List.Basic

/-
  Programs that wait on calls.

  `Prog C R α` is a sequential program over calls `c : C` with replies in `R c`. Between two
  calls it computes without being interrupted, so a call is the only point where another
  program can run. `Log C R` is what one program has done so far, newest entry first.

  `Sat P Q l x`: started after the log `l`, the program `x` issues only calls allowed by `P`
  and ends only in values allowed by `Q`, whatever the replies are. `P` and `Q` read the log,
  so they can speak of everything the program did before. The rules below turn a `Sat` goal
  about a composed program into goals about its parts.
-/

namespace CashbackLedger.Lib

/-- A program over calls `c : C` that receive replies in `R c`. -/
inductive Prog (C : Type) (R : C → Type) (α : Type) : Type where
  | ret (a : α)
  | call (c : C) (k : R c → Prog C R α)

variable {C : Type} {R : C → Type} {α β ε : Type}

namespace Prog

/-- Sequential composition. -/
def bind : Prog C R α → (α → Prog C R β) → Prog C R β
  | .ret a, f => f a
  | .call c k, f => .call c fun r => (k r).bind f

instance : Monad (Prog C R) where
  pure := .ret
  bind := bind

/-- The call a program is about to make. -/
def next : Prog C R α → Option C
  | .ret _ => none
  | .call c _ => some c

@[simp] theorem next_ret (a : α) : (ret a : Prog C R α).next = none := rfl
@[simp] theorem next_call (c : C) (k : R c → Prog C R α) : (call c k).next = some c := rfl

/-- Runs the program alone against a deterministic service. Structural, hence total: it gives
    `none` only when the service refuses a call. -/
def eval {W : Type} (serve : (c : C) → W → Option (W × R c)) : W → Prog C R α → Option (W × α)
  | w, .ret a => some (w, a)
  | w, .call c k =>
      match serve c w with
      | none => none
      | some (w', r) => eval serve w' (k r)

theorem eval_bind {W : Type} (serve : (c : C) → W → Option (W × R c)) (w : W)
    (x : Prog C R α) (f : α → Prog C R β) :
    eval serve w (x.bind f) = (eval serve w x).bind fun p => eval serve p.1 (f p.2) := by
  induction x generalizing w with
  | ret a => rfl
  | call c k ih =>
      simp only [bind, eval]
      cases serve c w with
      | none => rfl
      | some p => exact ih p.2 p.1

theorem bind_ret (x : Prog C R α) : x.bind .ret = x := by
  induction x with
  | ret a => rfl
  | call c k ih => exact congrArg (call c) (funext ih)

theorem bind_bind {γ : Type} (x : Prog C R α) (f : α → Prog C R β) (g : β → Prog C R γ) :
    (x.bind f).bind g = x.bind fun a => (f a).bind g := by
  induction x with
  | ret a => rfl
  | call c k ih => exact congrArg (call c) (funext ih)

instance : LawfulMonad (Prog C R) :=
  LawfulMonad.mk' (Prog C R) bind_ret (fun _ _ => rfl) bind_bind

end Prog

/-- What one program has done: its calls with their replies, newest first. -/
abbrev Log (C : Type) (R : C → Type) : Type := List (Σ c : C, R c)

/-- Every call `x` issues after the log `l` satisfies `P`, every value it ends with satisfies
    `Q`. -/
def Sat (P : Log C R → C → Prop) (Q : Log C R → α → Prop) : Log C R → Prog C R α → Prop
  | l, .ret a => Q l a
  | l, .call c k => P l c ∧ ∀ r, Sat P Q (⟨c, r⟩ :: l) (k r)

section rules

variable {P P' : Log C R → C → Prop} {Q Q' : Log C R → α → Prop} {l : Log C R}

@[simp] theorem sat_ret {a : α} : Sat P Q l (.ret a) ↔ Q l a := Iff.rfl

@[simp] theorem sat_call {c : C} {k : R c → Prog C R α} :
    Sat P Q l (.call c k) ↔ P l c ∧ ∀ r, Sat P Q (⟨c, r⟩ :: l) (k r) := Iff.rfl

/-- Every program meets the empty protocol. -/
theorem sat_trivial (x : Prog C R α) : Sat (fun _ _ => True) (fun _ _ => True) l x := by
  induction x generalizing l with
  | ret a => trivial
  | call c k ih => exact ⟨trivial, fun r => ih r⟩

theorem Sat.mono {x : Prog C R α} (h : Sat P Q l x) (hP : ∀ l c, P l c → P' l c)
    (hQ : ∀ l a, Q l a → Q' l a) : Sat P' Q' l x := by
  induction x generalizing l with
  | ret a => exact hQ l a h
  | call c k ih => exact ⟨hP l c h.1, fun r => ih r (h.2 r)⟩

/-- Weakening the end condition only. -/
theorem Sat.post {x : Prog C R α} (h : Sat P Q l x) (hQ : ∀ l a, Q l a → Q' l a) :
    Sat P Q' l x :=
  h.mono (fun _ _ hp => hp) hQ

theorem sat_bind {x : Prog C R β} {f : β → Prog C R α} :
    Sat P Q l (x.bind f) ↔ Sat P (fun l' b => Sat P Q l' (f b)) l x := by
  induction x generalizing l with
  | ret b => exact Iff.rfl
  | call c k ih => exact and_congr_right fun _ => forall_congr' fun r => ih r

/-- Two facts about one program hold together. -/
theorem Sat.and {x : Prog C R α} (h : Sat P Q l x) (h' : Sat P' Q' l x) :
    Sat (fun l c => P l c ∧ P' l c) (fun l a => Q l a ∧ Q' l a) l x := by
  induction x generalizing l with
  | ret a => exact ⟨h, h'⟩
  | call c k ih => exact ⟨⟨h.1, h'.1⟩, fun r => ih r (h.2 r) (h'.2 r)⟩

/-- What holds of the log before and is kept by every call the program may issue holds all along. -/
theorem Sat.along {x : Prog C R α} {I : Log C R → Prop} (h : Sat P Q l x) (hl : I l)
    (hstep : ∀ l' c r, I l' → P l' c → I (⟨c, r⟩ :: l')) :
    Sat (fun l' c => P l' c ∧ I l') (fun l' a => Q l' a ∧ I l') l x := by
  induction x generalizing l with
  | ret a => exact ⟨h, hl⟩
  | call c k ih => exact ⟨⟨h.1, hl⟩, fun r => ih r (h.2 r) (hstep l c r hl h.1)⟩

/-- A program only extends its log. -/
theorem Sat.suffix {x : Prog C R α} (h : Sat P Q l x) :
    Sat P (fun l' a => Q l' a ∧ l <:+ l') l x := by
  have hsuffix := h.along (List.suffix_refl l)
    fun l' _ _ hl _ => hl.trans (List.suffix_cons _ l')
  exact hsuffix.mono (fun _ _ h => h.1) fun _ _ h => h

/-- Running alone: what relates the state of the service to the log is kept by each served call,
    and the program ends as its protocol says. -/
theorem Sat.eval {W : Type} {serve : (c : C) → W → Option (W × R c)} {I : W → Log C R → Prop}
    {x : Prog C R α} {w w' : W} {a : α} (hx : Sat P Q l x) (hI : I w l)
    (hstep : ∀ w l c w' r, I w l → P l c → serve c w = some (w', r) → I w' (⟨c, r⟩ :: l))
    (h : x.eval serve w = some (w', a)) : ∃ l', Q l' a ∧ I w' l' := by
  induction x generalizing l w with
  | ret b =>
      cases h
      exact ⟨l, hx, hI⟩
  | call c k ih =>
      simp only [Prog.eval] at h
      cases hs : serve c w with
      | none =>
          rw [hs] at h
          cases h
      | some y =>
          rw [hs] at h
          exact ih y.2 (hx.2 y.2) (hstep w l c y.1 y.2 hI hx.1 hs) h

end rules

/-- Started after the log `l`, the program has run to its end: the log is `l'`, the value `a`. -/
inductive Ran : Prog C R α → Log C R → Log C R → α → Prop where
  | ret (a : α) (l : Log C R) : Ran (.ret a) l l a
  | call {c : C} {k : R c → Prog C R α} {l l' : Log C R} {a : α} (r : R c)
      (rest : Ran (k r) (⟨c, r⟩ :: l) l' a) : Ran (.call c k) l l' a

section ran

variable {P : Log C R → C → Prop} {Q : Log C R → α → Prop} {l l' : Log C R}

/-- A program that has run to its end has ended as its protocol says. -/
theorem Sat.ran {x : Prog C R α} {a : α} (h : Sat P Q l x) (hr : Ran x l l' a) : Q l' a := by
  induction hr with
  | ret a l => exact h
  | call r _ ih => exact ih (h.2 r)

theorem Ran.suffix {x : Prog C R α} {a : α} (h : Ran x l l' a) : l <:+ l' := by
  induction h with
  | ret a l => exact List.suffix_refl l
  | call r _ ih => exact (List.suffix_cons _ _).trans ih

/-- Where a program ends, it has run. -/
theorem Sat.and_ran {x : Prog C R α} (h : Sat P Q l x) :
    Sat P (fun l' a => Q l' a ∧ Ran x l l' a) l x := by
  induction x generalizing l with
  | ret a => exact ⟨h, .ret a l⟩
  | call c k ih =>
      exact ⟨h.1, fun r => (ih r (h.2 r)).post fun l' a hq => ⟨hq.1, .call r hq.2⟩⟩

/-- A composed program has run its first part, then its second. -/
theorem Ran.of_bind {x : Prog C R β} {f : β → Prog C R α} {a : α} (h : Ran (x.bind f) l l' a) :
    ∃ l₁ b, Ran x l l₁ b ∧ Ran (f b) l₁ l' a := by
  induction x generalizing l with
  | ret b => exact ⟨l, b, .ret b l, h⟩
  | call c k ih =>
      cases h with
      | call r rest =>
        obtain ⟨l₁, b, hx, hf⟩ := ih r rest
        exact ⟨l₁, b, .call r hx, hf⟩

end ran

/-- What the log `l'` has beyond `l` meets `S`, entry by entry. -/
def Since (S : (Σ c, R c) → Prop) (l l' : Log C R) : Prop :=
  ∃ front, l' = front ++ l ∧ ∀ x ∈ front, S x

section since

variable {S S' : (Σ c, R c) → Prop} {l l' l'' : Log C R}

theorem Since.refl (l : Log C R) : Since S l l := ⟨[], rfl, fun _ h => absurd h List.not_mem_nil⟩

theorem Since.cons (h : Since S l l') {x : Σ c, R c} (hx : S x) : Since S l (x :: l') := by
  obtain ⟨front, rfl, hf⟩ := h
  exact ⟨x :: front, rfl, List.forall_mem_cons.mpr ⟨hx, hf⟩⟩

theorem Since.trans (h : Since S l l') (h' : Since S l' l'') : Since S l l'' := by
  obtain ⟨front, rfl, hf⟩ := h
  obtain ⟨front', rfl, hf'⟩ := h'
  exact ⟨front' ++ front, (List.append_assoc _ _ _).symm, List.forall_mem_append.mpr ⟨hf', hf⟩⟩

theorem Since.suffix (h : Since S l l') : l <:+ l' := by
  obtain ⟨front, rfl, -⟩ := h
  exact List.suffix_append front l

theorem Since.and (h : Since S l l') (h' : Since S' l l') : Since (fun x => S x ∧ S' x) l l' := by
  obtain ⟨front, rfl, hf⟩ := h
  obtain ⟨front', heq, hf'⟩ := h'
  obtain rfl := List.append_cancel_right heq
  exact ⟨front, rfl, fun x hx => ⟨hf x hx, hf' x hx⟩⟩

/-- An entry made after the log was `l`. -/
theorem Since.entry (h : Since S l l') {x : Σ c, R c} (hx : (x :: l'') <:+ l')
    (hl : l <:+ l'') : S x := by
  obtain ⟨front, rfl, hf⟩ := h
  obtain ⟨middle, rfl⟩ := hl
  obtain ⟨late, heq⟩ := hx
  rw [← List.cons_append, ← List.append_assoc] at heq
  have hfront := List.append_cancel_right heq
  exact hf x (hfront ▸ List.mem_append_right late List.mem_cons_self)

/-- A function of the log that no new entry changes. -/
theorem Since.const {β : Type} (h : Since S l l') (f : Log C R → β)
    (hf : ∀ x l, S x → f (x :: l) = f l) : f l' = f l := by
  obtain ⟨front, rfl, hs⟩ := h
  induction front with
  | nil => rfl
  | cons x front ih =>
      rw [List.cons_append, hf x _ (hs x List.mem_cons_self)]
      exact ih fun y hy => hs y (List.mem_cons_of_mem x hy)

/-- The entries a program adds to the log, from the calls it may issue. -/
theorem Sat.since {P : Log C R → C → Prop} {Q : Log C R → α → Prop} {x : Prog C R α}
    (h : Sat P Q l x) (hS : ∀ l' c r, P l' c → S ⟨c, r⟩) :
    Sat P (fun l' a => Q l' a ∧ Since S l l') l x := by
  have hs := h.along (Since.refl l) fun l' c r hl hc => hl.cons (hS l' c r hc)
  exact hs.mono (fun _ _ h => h.1) fun _ _ h => h

end since

/-! ## Programs that may throw -/

/-- A program whose value is a result or an exception. -/
abbrev Act (C : Type) (R : C → Type) (ε α : Type) : Type := ExceptT ε (Prog C R) α

/-- `try { x } finally { f }`: what `f` throws wins. -/
def Act.finally (x : Act C R ε α) (f : Act C R ε Unit) : Act C R ε α :=
  ExceptT.mk (x.run.bind fun r => f.run.bind fun r' =>
    match r' with
    | .ok () => .ret r
    | .error e => .ret (.error e))

section exceptions

variable {P : Log C R → C → Prop} {Q : Log C R → Except ε α → Prop} {l : Log C R}

@[simp] theorem sat_act_pure {a : α} : Sat P Q l (pure a : Act C R ε α).run ↔ Q l (.ok a) :=
  Iff.rfl

@[simp] theorem sat_act_throw {e : ε} : Sat P Q l (throw e : Act C R ε α).run ↔ Q l (.error e) :=
  Iff.rfl

theorem sat_act_bind {x : Act C R ε β} {f : β → Act C R ε α} :
    Sat P Q l (x >>= f).run ↔
      Sat P (fun l' r => match r with
        | .ok b => Sat P Q l' (f b).run
        | .error e => Q l' (.error e)) l x.run := by
  refine (sat_bind : Sat P Q l (x.run.bind _) ↔ _).trans ?_
  have heq : ∀ (l' : Log C R) (r : Except ε β),
      Sat P Q l' (ExceptT.bindCont f r) ↔ (match r with
        | .ok b => Sat P Q l' (f b).run
        | .error e => Q l' (.error e)) := by
    rintro l' (e | b) <;> exact Iff.rfl
  exact ⟨fun h => h.post fun l' r => (heq l' r).1, fun h => h.post fun l' r => (heq l' r).2⟩

theorem sat_act_tryCatch {x : Act C R ε α} {h : ε → Act C R ε α} :
    Sat P Q l (tryCatch x h).run ↔
      Sat P (fun l' r => match r with
        | .ok a => Q l' (.ok a)
        | .error e => Sat P Q l' (h e).run) l x.run := by
  refine (sat_bind : Sat P Q l (x.run.bind _) ↔ _).trans ?_
  constructor
  · intro hs
    refine hs.post fun l' r => ?_
    cases r <;> exact id
  · intro hs
    refine hs.post fun l' r => ?_
    cases r <;> exact id

theorem sat_act_finally {x : Act C R ε α} {f : Act C R ε Unit} :
    Sat P Q l (x.finally f).run ↔
      Sat P (fun l' r => Sat P (fun l'' r' => match r' with
        | .ok () => Q l'' r
        | .error e => Q l'' (.error e)) l' f.run) l x.run := by
  refine (sat_bind : Sat P Q l (x.run.bind _) ↔ _).trans ?_
  have heq : ∀ l' r, Sat P Q l' (f.run.bind fun r' => match r' with
        | .ok () => .ret r
        | .error e => .ret (.error e)) ↔ Sat P (fun l'' r' => match r' with
        | .ok () => Q l'' r
        | .error e => Q l'' (.error e)) l' f.run := fun l' r => by
    refine sat_bind.trans ?_
    constructor <;>
    · intro h
      refine h.post fun l'' r' => ?_
      cases r' <;> exact id
  exact ⟨fun h => h.post fun l' r => (heq l' r).1, fun h => h.post fun l' r => (heq l' r).2⟩

/-- The rule for composition with a named middle condition. -/
theorem Sat.act_bind {x : Act C R ε β} {f : β → Act C R ε α} {M : Log C R → Except ε β → Prop}
    (hx : Sat P M l x.run) (hok : ∀ l' b, M l' (.ok b) → Sat P Q l' (f b).run)
    (herr : ∀ l' e, M l' (.error e) → Q l' (.error e)) : Sat P Q l (x >>= f).run := by
  rw [sat_act_bind]
  refine hx.post fun l' r hr => ?_
  cases r with
  | ok b => exact hok l' b hr
  | error e => exact herr l' e hr

/-- The rule for a handled block with a named condition on what the block throws. -/
theorem Sat.act_tryCatch {x : Act C R ε α} {h : ε → Act C R ε α}
    {M : Log C R → Except ε α → Prop}
    (hx : Sat P M l x.run) (hok : ∀ l' a, M l' (.ok a) → Q l' (.ok a))
    (herr : ∀ l' e, M l' (.error e) → Sat P Q l' (h e).run) : Sat P Q l (tryCatch x h).run := by
  rw [sat_act_tryCatch]
  refine hx.post fun l' r hr => ?_
  cases r with
  | ok a => exact hok l' a hr
  | error e => exact herr l' e hr

/-- A composition has run both parts, or thrown in the first. -/
theorem Ran.act_bind {l' : Log C R} {x : Act C R ε β} {f : β → Act C R ε α} {r : Except ε α}
    (h : Ran (x >>= f).run l l' r) :
    (∃ l₁ b, Ran x.run l l₁ (.ok b) ∧ Ran (f b).run l₁ l' r) ∨
      ∃ e, Ran x.run l l' (.error e) ∧ r = .error e := by
  obtain ⟨l₁, e | b, hx, hf⟩ := Ran.of_bind (x := x.run) (f := ExceptT.bindCont f) h
  · cases hf
    exact Or.inr ⟨e, hx, rfl⟩
  · exact Or.inl ⟨l₁, b, hx, hf⟩

/-- A handled block has run, or thrown and run its handler. -/
theorem Ran.act_tryCatch {l' : Log C R} {x : Act C R ε α} {handler : ε → Act C R ε α}
    {r : Except ε α} (h : Ran (tryCatch x handler).run l l' r) :
    (∃ a, Ran x.run l l' (.ok a) ∧ r = .ok a) ∨
      ∃ l₁ e, Ran x.run l l₁ (.error e) ∧ Ran (handler e).run l₁ l' r := by
  obtain ⟨l₁, e | a, hx, hf⟩ := Ran.of_bind (x := x.run) h
  · exact Or.inr ⟨l₁, e, hx, hf⟩
  · cases hf
    exact Or.inl ⟨a, hx, rfl⟩

end exceptions

end CashbackLedger.Lib
