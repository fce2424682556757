import CashbackLedger.Lib.Prog

/-
  Programs that run alone against a deterministic service.

  `Ends serve S Q w x`: run from the state `w` of the service, `x` ends in a state and a value
  that meet `Q`, or comes to a call that is not served, and then `S` holds. With `S` false this
  is total correctness. The rules follow the structure of the program.
-/

namespace CashbackLedger.Lib

variable {C : Type} {R : C → Type} {W α β ε : Type}

/-- How a program ends that runs alone from `w`. -/
def Ends (serve : (c : C) → W → Option (W × R c)) (S : Prop) (Q : W → α → Prop) (w : W)
    (x : Prog C R α) : Prop :=
  match x.eval serve w with
  | none => S
  | some (w', a) => Q w' a

section rules

variable {serve : (c : C) → W → Option (W × R c)} {S S' : Prop} {Q Q' : W → α → Prop} {w : W}

@[simp] theorem ends_ret {a : α} : Ends serve S Q w (.ret a) ↔ Q w a := Iff.rfl

theorem ends_call {c : C} {k : R c → Prog C R α} :
    Ends serve S Q w (.call c k) ↔ match serve c w with
      | none => S
      | some (w', r) => Ends serve S Q w' (k r) := by
  unfold Ends
  rw [Prog.eval]
  cases serve c w with
  | none => exact Iff.rfl
  | some y => exact Iff.rfl

theorem ends_bind {x : Prog C R β} {f : β → Prog C R α} :
    Ends serve S Q w (x.bind f) ↔ Ends serve S (fun w' b => Ends serve S Q w' (f b)) w x := by
  unfold Ends
  rw [Prog.eval_bind]
  cases x.eval serve w with
  | none => exact Iff.rfl
  | some y => exact Iff.rfl

theorem Ends.mono {x : Prog C R α} (h : Ends serve S Q w x) (hS : S → S')
    (hQ : ∀ w a, Q w a → Q' w a) : Ends serve S' Q' w x := by
  unfold Ends at h ⊢
  split at h
  · exact hS h
  · exact hQ _ _ h

/-- How the program has ended. -/
theorem Ends.eval {x : Prog C R α} (h : Ends serve S Q w x) {w' : W} {a : α}
    (heval : x.eval serve w = some (w', a)) : Q w' a := by
  unfold Ends at h
  rw [heval] at h
  exact h

/-- A program that does not wait has ended. -/
theorem Ends.exists {x : Prog C R α} (h : Ends serve False Q w x) :
    ∃ w' a, x.eval serve w = some (w', a) ∧ Q w' a := by
  unfold Ends at h
  cases heval : x.eval serve w with
  | none =>
    rw [heval] at h
    exact h.elim
  | some y =>
    rw [heval] at h
    exact ⟨y.1, y.2, rfl, h⟩

/-- A weaker end condition, and any condition on calls that are not served. -/
theorem Ends.post {x : Prog C R α} (h : Ends serve False Q w x) (hQ : ∀ w a, Q w a → Q' w a) :
    Ends serve S Q' w x :=
  h.mono False.elim hQ

/-- An end condition that comes to `P` at every end. -/
theorem Ends.iff {x : Prog C R α} {P : Prop} (h : Ends serve False Q w x)
    (hQ : ∀ w a, Q w a → (Q' w a ↔ P)) : Ends serve False Q' w x ↔ P := by
  unfold Ends at h ⊢
  split at h
  · exact h.elim
  · exact hQ _ _ h

/-- What every served call keeps holds at the end. -/
theorem ends_kept {I : W → Prop} (hstep : ∀ w c w' r, I w → serve c w = some (w', r) → I w')
    (h : I w) (x : Prog C R α) : Ends serve True (fun w' _ => I w') w x := by
  induction x generalizing w with
  | ret a => exact h
  | call c k ih =>
      rw [ends_call]
      cases hs : serve c w with
      | none => trivial
      | some y => exact ih y.2 (hstep w c y.1 y.2 h hs)

/-- Two end conditions hold together. -/
theorem Ends.and {x : Prog C R α} (h : Ends serve S Q w x) (h' : Ends serve S Q' w x) :
    Ends serve S (fun w a => Q w a ∧ Q' w a) w x := by
  unfold Ends at h h' ⊢
  split
  · next heq =>
    rw [heq] at h
    exact h
  · next heq =>
    rw [heq] at h h'
    exact ⟨h, h'⟩

end rules

/-! ## Services that record their calls -/

/-- Serves as `serve` and keeps the log, newest call first. -/
def recording (serve : (c : C) → W → Option (W × R c)) (c : C) (y : W × Log C R) :
    Option ((W × Log C R) × R c) :=
  (serve c y.1).map fun z => ((z.1, ⟨c, z.2⟩ :: y.2), z.2)

/-- The recorded log is that of a run of the program. -/
theorem ends_ran (serve : (c : C) → W → Option (W × R c)) (x : Prog C R α) (w : W) (l : Log C R) :
    Ends (recording serve) True (fun y a => Ran x l y.2 a) (w, l) x := by
  induction x generalizing w l with
  | ret a => exact .ret a l
  | call c k ih =>
      rw [ends_call, recording]
      cases serve c w with
      | none => trivial
      | some z => exact (ih z.2 z.1 (⟨c, z.2⟩ :: l)).mono id fun _ _ h => .call z.2 h

/-! ## Programs that may throw -/

section exceptions

variable {serve : (c : C) → W → Option (W × R c)} {S : Prop} {Q : W → Except ε α → Prop} {w : W}

theorem ends_act_bind {x : Act C R ε β} {f : β → Act C R ε α} :
    Ends serve S Q w (x >>= f).run ↔
      Ends serve S (fun w' r => match r with
        | .ok b => Ends serve S Q w' (f b).run
        | .error e => Q w' (.error e)) w x.run := by
  refine (ends_bind : Ends serve S Q w (x.run.bind _) ↔ _).trans ?_
  constructor
  · intro h
    refine h.mono id fun w' r => ?_
    cases r <;> exact id
  · intro h
    refine h.mono id fun w' r => ?_
    cases r <;> exact id

theorem ends_act_tryCatch {x : Act C R ε α} {h : ε → Act C R ε α} :
    Ends serve S Q w (tryCatch x h).run ↔
      Ends serve S (fun w' r => match r with
        | .ok a => Q w' (.ok a)
        | .error e => Ends serve S Q w' (h e).run) w x.run := by
  refine (ends_bind : Ends serve S Q w (x.run.bind _) ↔ _).trans ?_
  constructor
  · intro h
    refine h.mono id fun w' r => ?_
    cases r <;> exact id
  · intro h
    refine h.mono id fun w' r => ?_
    cases r <;> exact id

theorem ends_act_finally {x : Act C R ε α} {f : Act C R ε Unit} :
    Ends serve S Q w (x.finally f).run ↔
      Ends serve S (fun w' r => Ends serve S (fun w'' r' => match r' with
        | .ok () => Q w'' r
        | .error e => Q w'' (.error e)) w' f.run) w x.run := by
  refine (ends_bind : Ends serve S Q w (x.run.bind _) ↔ _).trans ?_
  constructor
  · intro h
    refine h.mono id fun w' r hr => (ends_bind.mp hr).mono id fun w'' r' => ?_
    cases r' <;> exact id
  · intro h
    refine h.mono id fun w' r hr => ends_bind.mpr (hr.mono id fun w'' r' => ?_)
    cases r' <;> exact id

theorem ends_ofExcept {x : Except ε α} (h : Q w x) :
    Ends serve S Q w (MonadExcept.ofExcept x : Act C R ε α).run := by
  cases x with
  | ok a => exact h
  | error e => exact h

/-- The rule for composition with a named middle condition. -/
theorem Ends.act_bind {x : Act C R ε β} {f : β → Act C R ε α} {M : W → Except ε β → Prop}
    (hx : Ends serve S M w x.run) (hok : ∀ w' b, M w' (.ok b) → Ends serve S Q w' (f b).run)
    (herr : ∀ w' e, M w' (.error e) → Q w' (.error e)) : Ends serve S Q w (x >>= f).run := by
  rw [ends_act_bind]
  refine hx.mono id fun w' r hr => ?_
  cases r with
  | ok b => exact hok w' b hr
  | error e => exact herr w' e hr

theorem eval_act_bind (serve : (c : C) → W → Option (W × R c)) (w : W) (x : Act C R ε β)
    (f : β → Act C R ε α) :
    (x >>= f).run.eval serve w = (x.run.eval serve w).bind fun y => match y.2 with
      | .ok b => (f b).run.eval serve y.1
      | .error e => some (y.1, .error e) := by
  refine (Prog.eval_bind serve w x.run (ExceptT.bindCont f)).trans (congrArg _ (funext fun y => ?_))
  cases y.2 <;> rfl

end exceptions

/-! ## Loops over a batch -/

/-- Runs the body for each element, one after the other, until it throws. -/
def Act.forEach {E : Type} (body : E → Act C R ε Unit) : List E → Act C R ε Unit
  | [] => pure ()
  | e :: es => do
      body e
      forEach body es

section loops

variable {E : Type} {serve : (c : C) → W → Option (W × R c)} {S : Prop} {body : E → Act C R ε Unit}
  {w : W}

theorem eval_forEach_cons (serve : (c : C) → W → Option (W × R c)) (body : E → Act C R ε Unit)
    (w : W) (e : E) (es : List E) :
    (Act.forEach body (e :: es)).run.eval serve w = ((body e).run.eval serve w).bind fun y =>
      match y.2 with
      | .ok _ => (Act.forEach body es).run.eval serve y.1
      | .error err => some (y.1, .error err) := by
  refine (eval_act_bind serve w (body e) fun _ => Act.forEach body es).trans ?_
  refine congrArg _ (funext fun y => ?_)
  cases y.2 <;> rfl

theorem eval_forEach_append (serve : (c : C) → W → Option (W × R c)) (body : E → Act C R ε Unit)
    (w : W) (xs ys : List E) :
    (Act.forEach body (xs ++ ys)).run.eval serve w =
      ((Act.forEach body xs).run.eval serve w).bind fun y => match y.2 with
        | .ok _ => (Act.forEach body ys).run.eval serve y.1
        | .error err => some (y.1, .error err) := by
  induction xs generalizing w with
  | nil => rfl
  | cons x xs ih =>
    rw [List.cons_append, eval_forEach_cons, eval_forEach_cons, Option.bind_assoc]
    refine congrArg _ (funext fun y => ?_)
    cases y.2 with
    | ok u => exact ih y.1
    | error err => rfl

theorem ends_forEach_append {Q : W → Except ε Unit → Prop} {xs ys : List E} :
    Ends serve S Q w (Act.forEach body (xs ++ ys)).run ↔
      Ends serve S (fun w' r => match r with
        | .ok _ => Ends serve S Q w' (Act.forEach body ys).run
        | .error err => Q w' (.error err)) w (Act.forEach body xs).run := by
  unfold Ends
  rw [eval_forEach_append]
  cases (Act.forEach body xs).run.eval serve w with
  | none => exact Iff.rfl
  | some y => obtain ⟨w', err | u⟩ := y <;> exact Iff.rfl

end loops

end CashbackLedger.Lib
