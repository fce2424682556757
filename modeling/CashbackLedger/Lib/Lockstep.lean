import Mathlib.Data.List.Forall2
import CashbackLedger.Lib.Pool

/-
  Two runs in lockstep.

  A `Likeness` says which calls, replies, worlds and moves two runs may differ in. `Alike` lifts
  it to programs: alike programs issue alike calls as long as they receive alike replies. Two
  machines with alike programs that serve alike calls alike (`Lockstep`) go from alike states
  through alike steps to alike states, and one run gets stuck exactly where the other does
  (`Lockstep.run`). What the likeness keeps, such as one component of the world, is then the
  same in both runs: the rest does not interfere with it.
-/

namespace CashbackLedger.Lib

/-- What two runs may differ in. -/
structure Likeness (C : Type) (R : C → Type) (W E : Type) where
  call : C → C → Prop
  /-- two calls with their replies -/
  entry : (Σ c, R c) → (Σ c, R c) → Prop
  world : W → W → Prop
  move : E → E → Prop

variable {C : Type} {R : C → Type} {T Ch E W α β γ δ ε : Type} {L : Likeness C R W E}

/-- Under alike replies, the programs issue alike calls and end in values related by `V`. -/
def Alike (L : Likeness C R W E) (V : α → β → Prop) : Prog C R α → Prog C R β → Prop
  | .ret a, .ret b => V a b
  | .call c k, .call c' k' =>
      L.call c c' ∧ ∀ r r', L.entry ⟨c, r⟩ ⟨c', r'⟩ → Alike L V (k r) (k' r')
  | .ret _, .call _ _ => False
  | .call _ _, .ret _ => False

/-! ## Rules for alike programs -/

theorem Alike.bind {V : α → β → Prop} {V' : γ → δ → Prop} {x : Prog C R α} {y : Prog C R β}
    {f : α → Prog C R γ} {g : β → Prog C R δ} (h : Alike L V x y)
    (hf : ∀ a b, V a b → Alike L V' (f a) (g b)) : Alike L V' (x.bind f) (y.bind g) := by
  induction x generalizing y with
  | ret a =>
      cases y with
      | ret b => exact hf a b h
      | call c k => exact h.elim
  | call c k ih =>
      cases y with
      | ret b => exact h.elim
      | call c' k' => exact ⟨h.1, fun r r' hr => ih r (h.2 r r' hr)⟩

theorem Alike.mono {V V' : α → β → Prop} {x : Prog C R α} {y : Prog C R β} (h : Alike L V x y)
    (hV : ∀ a b, V a b → V' a b) : Alike L V' x y := by
  induction x generalizing y with
  | ret a =>
      cases y with
      | ret b => exact hV a b h
      | call c k => exact h.elim
  | call c k ih =>
      cases y with
      | ret b => exact h.elim
      | call c' k' => exact ⟨h.1, fun r r' hr => ih r (h.2 r r' hr)⟩

/-- Alike calls of this kind receive alike replies only when the replies are equal. -/
def Likeness.Exact (L : Likeness C R W E) (c : C) : Prop :=
  L.call c c ∧ ∀ r r', L.entry ⟨c, r⟩ ⟨c, r'⟩ → r = r'

/-- A program all of whose calls are exact is like itself. -/
theorem alike_of_sat {P : Log C R → C → Prop} {Q : Log C R → α → Prop} {l : Log C R}
    {x : Prog C R α} (h : Sat P Q l x) (hP : ∀ l c, P l c → L.Exact c) : Alike L Eq x x := by
  induction x generalizing l with
  | ret a => rfl
  | call c k ih =>
      refine ⟨(hP l c h.1).1, fun r r' hr => ?_⟩
      obtain rfl := (hP l c h.1).2 r r' hr
      exact ih r (h.2 r)

/-- Two results: the same exception, or values related by `V`. -/
def AlikeResult (V : α → β → Prop) : Except ε α → Except ε β → Prop
  | .ok a, .ok b => V a b
  | .error e, .error e' => e = e'
  | .ok _, .error _ => False
  | .error _, .ok _ => False

theorem alikeResult_eq {r r' : Except ε α} : AlikeResult Eq r r' ↔ r = r' := by
  cases r <;> cases r' <;> simp [AlikeResult]

theorem Alike.act_bind {V : α → β → Prop} {V' : γ → δ → Prop} {x : Act C R ε α} {y : Act C R ε β}
    {f : α → Act C R ε γ} {g : β → Act C R ε δ} (h : Alike L (AlikeResult V) x.run y.run)
    (hf : ∀ a b, V a b → Alike L (AlikeResult V') (f a).run (g b).run) :
    Alike L (AlikeResult V') (x >>= f).run (y >>= g).run := by
  refine Alike.bind h ?_
  rintro (e | a) (e' | b) hab
  · exact hab
  · exact hab.elim
  · exact hab.elim
  · exact hf a b hab

theorem Alike.act_tryCatch {V : α → β → Prop} {x : Act C R ε α} {y : Act C R ε β}
    {f : ε → Act C R ε α} {g : ε → Act C R ε β} (h : Alike L (AlikeResult V) x.run y.run)
    (hf : ∀ e, Alike L (AlikeResult V) (f e).run (g e).run) :
    Alike L (AlikeResult V) (tryCatch x f).run (tryCatch y g).run := by
  refine Alike.bind h ?_
  rintro (e | a) (e' | b) hab
  · obtain rfl : e = e' := hab
    exact hf e
  · exact hab.elim
  · exact hab.elim
  · exact hab

/-! ## Related optional values -/

theorem rel_cases {r : α → β → Prop} {x : Option α} {y : Option β} (h : Option.Rel r x y) :
    (x = none ∧ y = none) ∨ ∃ a b, x = some a ∧ y = some b ∧ r a b := by
  cases h with
  | none => exact Or.inl ⟨rfl, rfl⟩
  | some h => exact Or.inr ⟨_, _, rfl, rfl, h⟩

theorem rel_of_map_eq {x : Option α} {y : Option β} {f : α → γ} {g : β → γ}
    (h : x.map f = y.map g) : Option.Rel (fun a b => f a = g b) x y := by
  cases x with
  | none =>
      cases y with
      | none => exact .none
      | some b => cases h
  | some a =>
      cases y with
      | none => cases h
      | some b => exact .some (Option.some_inj.mp h)

theorem rel_mono {r r' : α → β → Prop} {x : Option α} {y : Option β} (h : Option.Rel r x y)
    (hr : ∀ a b, r a b → r' a b) : Option.Rel r' x y := by
  cases h with
  | none => exact .none
  | some h => exact .some (hr _ _ h)

theorem rel_map {r : α → β → Prop} {r' : γ → δ → Prop} {x : Option α} {y : Option β} {f : α → γ}
    {g : β → δ} (h : Option.Rel r x y) (hf : ∀ a b, r a b → r' (f a) (g b)) :
    Option.Rel r' (x.map f) (y.map g) := by
  cases h with
  | none => exact .none
  | some h => exact .some (hf _ _ h)

theorem rel_bind {r : α → β → Prop} {r' : γ → δ → Prop} {x : Option α} {y : Option β}
    {f : α → Option γ} {g : β → Option δ} (h : Option.Rel r x y)
    (hf : ∀ a b, r a b → Option.Rel r' (f a) (g b)) : Option.Rel r' (x.bind f) (y.bind g) := by
  cases h with
  | none => exact .none
  | some h => exact hf _ _ h

/-! ## Machines in lockstep -/

/-- The same step, up to alike moves. -/
inductive Label.Alike (N : E → E → Prop) : Label T Ch E → Label T Ch E → Prop where
  | spawn (p : Pid) (t : T) : Label.Alike N (.spawn p t) (.spawn p t)
  | step (p : Pid) (ch : Ch) : Label.Alike N (.step p ch) (.step p ch)
  | crash (p : Pid) : Label.Alike N (.crash p) (.crash p)
  | move {e e' : E} (h : N e e') : Label.Alike N (.move e) (.move e')

theorem Label.Alike.refl {N : E → E → Prop} (hN : ∀ e, N e e) (lb : Label T Ch E) :
    Label.Alike N lb lb := by
  cases lb with
  | spawn p t => exact .spawn p t
  | step p ch => exact .step p ch
  | crash p => exact .crash p
  | move e => exact .move (hN e)

/-- Both processes are alive or both are dead, and what they still have to do is alike. -/
structure Proc.Alike (L : Likeness C R W E) (pr pr' : Proc C R T α) : Prop where
  alive : pr.alive = pr'.alive
  todo : Lib.Alike L Eq pr.todo pr'.todo

structure Pool.Alike (L : Likeness C R W E) (s s' : Pool C R T W α) : Prop where
  world : L.world s.world s'.world
  proc : ∀ p, Option.Rel (Proc.Alike L) (s.proc p) (s'.proc p)

/-- Two machines that treat alike things alike. -/
structure Machine.Lockstep (L : Likeness C R W E) (M M' : Machine C R T Ch E W α) : Prop where
  prog : ∀ t, Alike L Eq (M.prog t) (M'.prog t)
  exec : ∀ p c c' ch w w', L.call c c' → L.world w w' →
    Option.Rel (fun x x' => L.world x.1 x'.1 ∧ L.entry ⟨c, x.2⟩ ⟨c', x'.2⟩)
      (M.exec p c ch w) (M'.exec p c' ch w')
  kill : ∀ p w w', L.world w w' → L.world (M.kill p w) (M'.kill p w')
  move : ∀ e e' w w', L.move e e' → L.world w w' →
    Option.Rel L.world (M.move e w) (M'.move e' w')

theorem Pool.Alike.put {s s' : Pool C R T W α} (h : s.Alike L s') {w w' : W}
    (hw : L.world w w') (p : Pid) {pr pr' : Proc C R T α} (hpr : pr.Alike L pr') :
    (s.put w p pr).Alike L (s'.put w' p pr') := by
  refine ⟨hw, fun q => ?_⟩
  rw [Pool.put_proc, Pool.put_proc]
  split
  · exact .some hpr
  · exact h.proc q

namespace Machine.Lockstep

variable {M M' : Machine C R T Ch E W α} {s s' : Pool C R T W α}

/-- Alike steps from alike states: both are blocked, or they lead to alike states. -/
theorem step (hM : M.Lockstep L M') (h : s.Alike L s') {lb lb' : Label T Ch E}
    (hlb : Label.Alike L.move lb lb') :
    Option.Rel (Pool.Alike L) (M.step s lb) (M'.step s' lb') := by
  have hproc := fun p => rel_cases (h.proc p)
  cases hlb with
  | spawn p t =>
      rcases hproc p with ⟨hp, hp'⟩ | ⟨pr, pr', hp, hp', -⟩
      · simp only [Machine.step, hp, hp']
        exact .some (h.put h.world p ⟨rfl, hM.prog t⟩)
      · simp only [Machine.step, hp, hp']
        exact .none
  | step p ch =>
      rcases hproc p with ⟨hp, hp'⟩ | ⟨⟨t, l, x, alive⟩, ⟨t', l', x', alive'⟩, hp, hp', halive, hx⟩
      · simp only [Machine.step, hp, hp']
        exact .none
      · obtain rfl : alive = alive' := halive
        simp only [Machine.step, hp, hp']
        cases alive with
        | false => cases x <;> cases x' <;> exact .none
        | true =>
            cases x with
            | ret a =>
                cases x' with
                | ret b => exact .none
                | call c' k' => exact hx.elim
            | call c k =>
                cases x' with
                | ret b => exact hx.elim
                | call c' k' =>
                    refine rel_map (hM.exec p c c' ch _ _ hx.1 h.world) fun y y' hy => ?_
                    exact h.put hy.1 p ⟨rfl, hx.2 y.2 y'.2 hy.2⟩
  | crash p =>
      rcases hproc p with ⟨hp, hp'⟩ | ⟨⟨t, l, x, alive⟩, ⟨t', l', x', alive'⟩, hp, hp', halive, hx⟩
      · simp only [Machine.step, hp, hp']
        exact .none
      · obtain rfl : alive = alive' := halive
        simp only [Machine.step, hp, hp']
        cases alive with
        | false => exact .none
        | true => exact .some (h.put (hM.kill p _ _ h.world) p ⟨rfl, hx⟩)
  | @move e e' he => exact rel_map (hM.move e e' _ _ he h.world) fun w w' hw => ⟨hw, h.proc⟩

/-- Alike runs from alike states: both get stuck, or they lead to alike states. -/
theorem run (hM : M.Lockstep L M') (h : s.Alike L s') {ls ls' : List (Label T Ch E)}
    (hls : List.Forall₂ (Label.Alike L.move) ls ls') :
    Option.Rel (Pool.Alike L) (M.run s ls) (M'.run s' ls') := by
  induction hls generalizing s s' with
  | nil => exact .some h
  | cons hlb _ ih => exact rel_bind (hM.step h hlb) fun _ _ hs => ih hs

/-- What alike worlds have in common is the same at the end of alike runs. -/
theorem run_eq (hM : M.Lockstep L M') (h : s.Alike L s') {ls ls' : List (Label T Ch E)}
    (hls : List.Forall₂ (Label.Alike L.move) ls ls') {f : W → β}
    (hf : ∀ w w', L.world w w' → f w = f w') :
    ((M.run s ls).map fun s => f s.world) = (M'.run s' ls').map fun s => f s.world := by
  rcases rel_cases (hM.run h hls) with ⟨hs, hs'⟩ | ⟨s₁, s₁', hs, hs', halike⟩
  · rw [hs, hs']
  · rw [hs, hs']
    exact congrArg some (hf _ _ halike.world)

end Machine.Lockstep

end CashbackLedger.Lib
