import Mathlib.Logic.Function.Basic
import CashbackLedger.Lib.Prog

/-
  Processes that interleave at their calls.

  A `Machine` gives each task its program, says what a call does to the shared world and what
  it replies, what the death of a process does to the world, and how the world moves on its
  own. `Machine.step` runs one label: a process starts, one pending call of one process is
  served, a process dies, the world moves. Any process may be the next to step, so the runs of
  a machine are all interleavings at call granularity.

  `Reach ok start` are the states of the runs from `start` whose steps all meet `ok`. A class
  of runs (no failing call, no overlap of two requests) is a choice of `ok`.

  `Step` is the inversion of `Machine.step`, one constructor a kind of label, and
  `Reach.invariant` is the induction every safety proof goes through: in a call step it hands
  over that the process obeys its protocol (`Reach.sat`).
-/

namespace CashbackLedger.Lib

/-- Process names. -/
abbrev Pid : Type := Nat

/-- Programs of tasks over a shared world. -/
structure Machine (C : Type) (R : C → Type) (T Ch E W α : Type) where
  /-- the program of a task -/
  prog : T → Prog C R α
  /-- serves a call of a process; `none` while the call is blocked -/
  exec : Pid → (c : C) → Ch → W → Option (W × R c)
  /-- what the death of a process does to the world -/
  kill : Pid → W → W
  /-- the world moves on its own; `none` where it cannot -/
  move : E → W → Option W

/-- A process: its task, what it has done, what it still has to do. -/
structure Proc (C : Type) (R : C → Type) (T α : Type) where
  task : T
  log : Log C R
  todo : Prog C R α
  alive : Bool

/-- A state of the pool. -/
structure Pool (C : Type) (R : C → Type) (T W α : Type) where
  world : W
  proc : Pid → Option (Proc C R T α)

/-- The state after the process `p` has become `pr` and the world `w`. -/
def Pool.put {C : Type} {R : C → Type} {T W α : Type} (s : Pool C R T W α) (w : W) (p : Pid)
    (pr : Proc C R T α) : Pool C R T W α :=
  { world := w, proc := Function.update s.proc p (some pr) }

/-- The call a live process is about to make. -/
def Proc.nextCall {C : Type} {R : C → Type} {T α : Type} : Option (Proc C R T α) → Option C
  | some ⟨_, _, x, true⟩ => x.next
  | _ => none

def Pool.nextCall {C : Type} {R : C → Type} {T W α : Type} (s : Pool C R T W α)
    (p : Pid) : Option C :=
  Proc.nextCall (s.proc p)

section

variable {C : Type} {R : C → Type} {T W α : Type} (s : Pool C R T W α) (w : W) (p : Pid)
  (pr : Proc C R T α)

theorem Pool.nextCall_of {s : Pool C R T W α} {p : Pid} {t : T} {l : Log C R} {x : Prog C R α}
    (h : s.proc p = some ⟨t, l, x, true⟩) : s.nextCall p = x.next := by
  rw [Pool.nextCall, h]
  rfl

@[simp] theorem Pool.put_world : (s.put w p pr).world = w := rfl

theorem Pool.put_proc (q : Pid) : (s.put w p pr).proc q = if q = p then some pr else s.proc q :=
  Function.update_apply _ _ _ _

@[simp] theorem Pool.put_self : (s.put w p pr).proc p = some pr := Function.update_self _ _ _

theorem Pool.put_other {q : Pid} (h : q ≠ p) : (s.put w p pr).proc q = s.proc q :=
  Function.update_of_ne h _ _

/-- What the process that was put has in common with the one it replaces is as before for all. -/
theorem Pool.same_put {β : Type} {s : Pool C R T W α} {w : W} {p : Pid} {pr : Proc C R T α}
    {f : Option (Proc C R T α) → β} (h : f (some pr) = f (s.proc p)) (q : Pid) :
    f ((s.put w p pr).proc q) = f (s.proc q) := by
  by_cases hq : q = p
  · rw [hq, Pool.put_self, h]
  · rw [Pool.put_other s w p pr hq]

/-- What one process at most has is still alone if the process that was put has nothing of
    another. -/
theorem Pool.alone_put {s : Pool C R T W α} {w : W} {p : Pid} {pr : Proc C R T α}
    {M : Option (Proc C R T α) → Prop} (h : ∀ q q', M (s.proc q) → M (s.proc q') → q = q')
    (hself : ∀ q, q ≠ p → M (some pr) → ¬ M (s.proc q)) :
    ∀ q q', M ((s.put w p pr).proc q) → M ((s.put w p pr).proc q') → q = q' := by
  intro q q' hq hq'
  rw [Pool.put_proc] at hq hq'
  split at hq
  · next heq =>
    split at hq'
    · next heq' => exact heq.trans heq'.symm
    · next hne => exact absurd hq' (hself q' hne hq)
  · next hne =>
    split at hq'
    · exact absurd hq (hself q hne hq')
    · exact h q q' hq hq'

/-- What holds of the process that was put, and of the others, holds of all. -/
theorem Pool.forall_put {s : Pool C R T W α} {w : W} {p : Pid} {pr : Proc C R T α}
    {P : Pid → Proc C R T α → Prop} (hself : P p pr)
    (hothers : ∀ q pr', q ≠ p → s.proc q = some pr' → P q pr') :
    ∀ q pr', (s.put w p pr).proc q = some pr' → P q pr' := by
  intro q pr' hq
  rw [Pool.put_proc] at hq
  split at hq
  · next heq =>
    cases hq
    exact heq ▸ hself
  · next hne => exact hothers q pr' hne hq

/-- The log of the process was `l` once. -/
def Pool.InLog (s : Pool C R T W α) (p : Pid) (l : Log C R) : Prop :=
  ∃ pr, s.proc p = some pr ∧ l <:+ pr.log

/-- A log that was there once still was, if logs are only extended. -/
theorem Pool.InLog.put {s : Pool C R T W α} {w : W} {p q : Pid} {pr : Proc C R T α} {l : Log C R}
    (h : s.InLog q l) (hpr : ∀ pr', s.proc p = some pr' → pr'.log <:+ pr.log) :
    (s.put w p pr).InLog q l := by
  obtain ⟨pr', hq, hl⟩ := h
  by_cases hqp : q = p
  · subst hqp
    exact ⟨pr, Pool.put_self s w q pr, hl.trans (hpr pr' hq)⟩
  · exact ⟨pr', (Pool.put_other s w p pr hqp).trans hq, hl⟩

theorem Pool.InLog.of_put {s : Pool C R T W α} {w : W} {p q : Pid} {pr : Proc C R T α} {l : Log C R}
    (h : (s.put w p pr).InLog q l) : (q = p ∧ l <:+ pr.log) ∨ s.InLog q l := by
  obtain ⟨pr', hq, hl⟩ := h
  by_cases hqp : q = p
  · subst hqp
    cases (Pool.put_self s w q pr).symm.trans hq
    exact Or.inl ⟨rfl, hl⟩
  · exact Or.inr ⟨pr', (Pool.put_other s w p pr hqp).symm.trans hq, hl⟩

section

variable {s : Pool C R T W α} {w : W} {p q : Pid} {t : T} {l l' : Log C R} {x y : Prog C R α}
  {entry : Σ c, R c}

/-- A step adds the log that it extends. -/
theorem Pool.InLog.of_step (hp : s.proc p = some ⟨t, l, x, true⟩)
    (h : (s.put w p ⟨t, entry :: l, y, true⟩).InLog q l') :
    (q = p ∧ l' = entry :: l) ∨ s.InLog q l' := by
  rcases h.of_put with ⟨rfl, hsuffix⟩ | hold
  · rcases List.suffix_cons_iff.mp hsuffix with rfl | hsuffix
    · exact Or.inl ⟨rfl, rfl⟩
    · exact Or.inr ⟨_, hp, hsuffix⟩
  · exact Or.inr hold

theorem Pool.InLog.step (hp : s.proc p = some ⟨t, l, x, true⟩) (h : s.InLog q l') :
    (s.put w p ⟨t, entry :: l, y, true⟩).InLog q l' := by
  refine h.put fun pr hp' => ?_
  cases hp.symm.trans hp'
  exact List.suffix_cons _ l

end

end

inductive Label (T Ch E : Type) where
  | spawn (p : Pid) (t : T)
  | step (p : Pid) (ch : Ch)
  | crash (p : Pid)
  | move (e : E)

/-- A process that the step starts has a name below `n`. -/
def Label.startsBelow {T Ch E : Type} (n : Nat) : Label T Ch E → Bool
  | .spawn p _ => p < n
  | _ => true

variable {C : Type} {R : C → Type} {T Ch E W α : Type}

namespace Machine

variable (M : Machine C R T Ch E W α)

/-- The process of a task that has just started. -/
def start (t : T) : Proc C R T α := { task := t, log := [], todo := M.prog t, alive := true }

/-- One step of the pool. -/
def step (s : Pool C R T W α) : Label T Ch E → Option (Pool C R T W α)
  | .spawn p t =>
      match s.proc p with
      | none => some (s.put s.world p (M.start t))
      | some _ => none
  | .step p ch =>
      match s.proc p with
      | some ⟨t, l, .call c k, true⟩ =>
          (M.exec p c ch s.world).map fun x => s.put x.1 p ⟨t, ⟨c, x.2⟩ :: l, k x.2, true⟩
      | _ => none
  | .crash p =>
      match s.proc p with
      | some ⟨t, l, x, true⟩ => some (s.put (M.kill p s.world) p ⟨t, l, x, false⟩)
      | _ => none
  | .move e => (M.move e s.world).map fun w => { s with world := w }

/-- Runs a list of labels. -/
def run (s : Pool C R T W α) : List (Label T Ch E) → Option (Pool C R T W α)
  | [] => some s
  | lb :: ls => (M.step s lb).bind fun s' => run s' ls

/-- Runs a list of labels that all pass `check` and start processes below `n` only. -/
def runChecked (n : Nat) (check : Pool C R T W α → Label T Ch E → Bool) (s : Pool C R T W α) :
    List (Label T Ch E) → Option (Pool C R T W α)
  | [] => some s
  | lb :: ls =>
      if check s lb && lb.startsBelow n then
        (M.step s lb).bind fun s' => runChecked n check s' ls
      else none

/-- What one step can be. -/
inductive Step (s : Pool C R T W α) : Label T Ch E → Pool C R T W α → Prop where
  | spawn {p : Pid} {t : T} (free : s.proc p = none) :
      Step s (.spawn p t) (s.put s.world p (M.start t))
  | call {p : Pid} {ch : Ch} {t : T} {l : Log C R} {c : C} {k : R c → Prog C R α} {w : W} {r : R c}
      (at_call : s.proc p = some ⟨t, l, .call c k, true⟩)
      (served : M.exec p c ch s.world = some (w, r)) :
      Step s (.step p ch) (s.put w p ⟨t, ⟨c, r⟩ :: l, k r, true⟩)
  | crash {p : Pid} {t : T} {l : Log C R} {x : Prog C R α}
      (alive : s.proc p = some ⟨t, l, x, true⟩) :
      Step s (.crash p) (s.put (M.kill p s.world) p ⟨t, l, x, false⟩)
  | move {e : E} {w : W} (moved : M.move e s.world = some w) :
      Step s (.move e) { s with world := w }

variable {M}

theorem step_cases {s s' : Pool C R T W α} {lb : Label T Ch E} (h : M.step s lb = some s') :
    M.Step s lb s' := by
  cases lb with
  | spawn p t =>
      simp only [step] at h
      split at h
      · cases h; exact .spawn ‹_›
      · cases h
  | step p ch =>
      simp only [step] at h
      split at h
      · obtain ⟨⟨w, r⟩, hx, rfl⟩ := Option.map_eq_some_iff.mp h
        exact .call ‹_› hx
      · cases h
  | crash p =>
      simp only [step] at h
      split at h
      · cases h; exact .crash ‹_›
      · cases h
  | move e =>
      obtain ⟨w, hw, rfl⟩ := Option.map_eq_some_iff.mp h
      exact .move hw

/-- A checked run is a run. -/
theorem run_of_runChecked {n : Nat} {check : Pool C R T W α → Label T Ch E → Bool}
    {s s' : Pool C R T W α} {ls : List (Label T Ch E)} (h : M.runChecked n check s ls = some s') :
    M.run s ls = some s' := by
  induction ls generalizing s with
  | nil => exact h
  | cons lb ls ih =>
      unfold runChecked at h
      split at h
      · obtain ⟨s₁, h₁, h₂⟩ := Option.bind_eq_some_iff.mp h
        exact Option.bind_eq_some_iff.mpr ⟨s₁, h₁, ih h₂⟩
      · cases h

end Machine

/-- The states of the runs from `start` whose steps all meet `ok`. -/
inductive Reach (M : Machine C R T Ch E W α) (ok : Pool C R T W α → Label T Ch E → Prop)
    (start : Pool C R T W α → Prop) : Pool C R T W α → Prop where
  | start {s} (h : start s) : Reach M ok start s
  | next {s s'} {lb : Label T Ch E} (h : Reach M ok start s) (met : ok s lb)
      (h' : M.step s lb = some s') : Reach M ok start s'

/-- No process has started. -/
def Pool.Idle (s : Pool C R T W α) : Prop := ∀ p, s.proc p = none

/-- All processes have names below `n`. -/
def Pool.Below (n : Nat) (s : Pool C R T W α) : Prop := ∀ p, n ≤ p → s.proc p = none

theorem Pool.Below.put {n : Nat} {s : Pool C R T W α} (h : s.Below n) (w : W) {p : Pid}
    (hp : p < n) (pr : Proc C R T α) : (s.put w p pr).Below n := by
  intro q hq
  have hne : q ≠ p := Nat.ne_of_gt (Nat.lt_of_lt_of_le hp hq)
  rw [Pool.put_other s w p pr hne]
  exact h q hq

theorem Pool.Below.lt {n : Nat} {s : Pool C R T W α} (h : s.Below n) {p : Pid} {pr : Proc C R T α}
    (hp : s.proc p = some pr) : p < n := by
  by_contra hlt
  rw [h p (Nat.le_of_not_lt hlt)] at hp
  cases hp

theorem Pool.Below.step {M : Machine C R T Ch E W α} {n : Nat} {s s' : Pool C R T W α}
    {lb : Label T Ch E} (h : s.Below n) (hlb : lb.startsBelow n = true)
    (hstep : M.step s lb = some s') : s'.Below n := by
  cases Machine.step_cases hstep with
  | spawn free => exact h.put _ (of_decide_eq_true hlb) _
  | call at_call served => exact h.put _ (h.lt at_call) _
  | crash alive => exact h.put _ (h.lt alive) _
  | move moved => exact h

theorem Pool.Below.runChecked {M : Machine C R T Ch E W α} {n : Nat}
    {check : Pool C R T W α → Label T Ch E → Bool} {s s' : Pool C R T W α} (h : s.Below n)
    {ls : List (Label T Ch E)} (hrun : M.runChecked n check s ls = some s') : s'.Below n := by
  induction ls generalizing s with
  | nil => cases hrun; exact h
  | cons lb ls ih =>
      unfold Machine.runChecked at hrun
      split at hrun
      · next hc =>
        obtain ⟨s₁, h₁, h₂⟩ := Option.bind_eq_some_iff.mp hrun
        exact ih (h.step (Bool.and_eq_true_iff.mp hc).2 h₁) h₂
      · cases hrun

/-- What holds of the processes below `n` and of a free name holds of all. -/
theorem Pool.Below.all {n : Nat} {s : Pool C R T W α} (h : s.Below n)
    {f : Pid → Option (Proc C R T α) → Bool} (hfree : ∀ p, f p none = true)
    (hall : ((List.range n).all fun p => f p (s.proc p)) = true) (p : Pid) :
    f p (s.proc p) = true := by
  by_cases hp : p < n
  · exact List.all_eq_true.mp hall p (List.mem_range.mpr hp)
  · rw [h p (Nat.le_of_not_lt hp)]
    exact hfree p

namespace Reach

variable {M : Machine C R T Ch E W α} {ok ok' : Pool C R T W α → Label T Ch E → Prop}
  {start start' : Pool C R T W α → Prop} {s : Pool C R T W α}

/-- The steps of a run also meet what holds of its steps in every reachable state. -/
theorem restrict (h : Reach M ok start s) (hok : ∀ s lb, Reach M ok start s → ok s lb → ok' s lb) :
    Reach M ok' start s := by
  induction h with
  | start h => exact .start h
  | next hr met h' ih => exact .next ih (hok _ _ hr met) h'

/-- A run that continues a run. -/
theorem trans {s' : Pool C R T W α} (h : Reach M ok start s) (h' : Reach M ok (· = s) s') :
    Reach M ok start s' := by
  induction h' with
  | start heq => exact heq ▸ h
  | next _ met hstep ih => exact ih.next met hstep

/-- A run of labels that are all allowed in every state stays in `Reach`. -/
theorem of_run {s' : Pool C R T W α} (h : Reach M ok start s) (ls : List (Label T Ch E))
    (hok : ∀ lb ∈ ls, ∀ s, ok s lb) (hrun : M.run s ls = some s') : Reach M ok start s' := by
  induction ls generalizing s with
  | nil => cases hrun; exact h
  | cons lb ls ih =>
      obtain ⟨s₁, h₁, h₂⟩ := Option.bind_eq_some_iff.mp hrun
      exact ih (h.next (hok lb List.mem_cons_self s) h₁)
        (fun lb' hm => hok lb' (List.mem_cons_of_mem lb hm)) h₂

/-- A checked run stays in `Reach` when the check implies the condition on its steps. -/
theorem of_runChecked {n : Nat} {check : Pool C R T W α → Label T Ch E → Bool}
    (hcheck : ∀ s lb, s.Below n → check s lb = true → ok s lb) (h : Reach M ok start s)
    (hs : s.Below n) {ls : List (Label T Ch E)} {s' : Pool C R T W α}
    (hrun : M.runChecked n check s ls = some s') : Reach M ok start s' := by
  induction ls generalizing s with
  | nil => cases hrun; exact h
  | cons lb ls ih =>
      unfold Machine.runChecked at hrun
      split at hrun
      · next hc =>
        obtain ⟨hmet, hlb⟩ := Bool.and_eq_true_iff.mp hc
        obtain ⟨s₁, h₁, h₂⟩ := Option.bind_eq_some_iff.mp hrun
        exact ih (h.next (hcheck s lb hs hmet) h₁) (hs.step hlb h₁) h₂
      · cases hrun

/-- The induction over one process: what holds of the processes at the start and of one that has
    just started, and is kept by its calls and its death, holds of all processes. -/
theorem each {K : Proc C R T α → Prop} (hstart : ∀ s, start s → ∀ p pr, s.proc p = some pr → K pr)
    (hspawn : ∀ s p t, ok s (.spawn p t) → K (M.start t))
    (hcall : ∀ s p ch t l c k w r, Reach M ok start s → ok s (.step p ch) →
      s.proc p = some ⟨t, l, .call c k, true⟩ → M.exec p c ch s.world = some (w, r) →
      K ⟨t, l, .call c k, true⟩ → K ⟨t, ⟨c, r⟩ :: l, k r, true⟩)
    (hcrash : ∀ t l x, K ⟨t, l, x, true⟩ → K ⟨t, l, x, false⟩)
    (h : Reach M ok start s) {p : Pid} {pr : Proc C R T α} (hp : s.proc p = some pr) : K pr := by
  have hall : ∀ q pr', s.proc q = some pr' → K pr' := by
    clear hp
    induction h with
    | start h => exact hstart _ h
    | next hr met h' ih =>
        cases Machine.step_cases h' with
        | spawn free => exact Pool.forall_put (hspawn _ _ _ met) fun q pr' _ => ih q pr'
        | call at_call served =>
            have hself := hcall _ _ _ _ _ _ _ _ _ hr met at_call served (ih _ _ at_call)
            exact Pool.forall_put hself fun q pr' _ => ih q pr'
        | crash alive => exact Pool.forall_put (hcrash _ _ _ (ih _ _ alive)) fun q pr' _ => ih q pr'
        | move moved => exact ih
  exact hall p pr hp

/-- If every process obeys the protocol of its task at the start, then in every reachable state. -/
theorem sat_from {P : T → Log C R → C → Prop} {Q : T → Log C R → α → Prop}
    (hsat : ∀ t, Sat (P t) (Q t) [] (M.prog t))
    (hstart : ∀ s, start s → ∀ p pr, s.proc p = some pr →
      Sat (P pr.task) (Q pr.task) pr.log pr.todo)
    (h : Reach M ok start s) {p : Pid} {pr : Proc C R T α} (hp : s.proc p = some pr) :
    Sat (P pr.task) (Q pr.task) pr.log pr.todo :=
  h.each (K := fun pr => Sat (P pr.task) (Q pr.task) pr.log pr.todo) hstart (fun _ _ t _ => hsat t)
    (fun _ _ _ _ _ _ _ _ r _ _ _ _ hs => hs.2 r) (fun _ _ _ hs => hs) hp

/-- Where no process has started, anything holds of the processes. -/
theorem of_idle {K : Proc C R T α → Prop} (hidle : ∀ s, start s → s.Idle) :
    ∀ s, start s → ∀ p pr, s.proc p = some pr → K pr := by
  intro s hs p pr hp
  rw [hidle s hs p] at hp
  cases hp

/-- In every reachable state every process still obeys the protocol of its task. -/
theorem sat {P : T → Log C R → C → Prop} {Q : T → Log C R → α → Prop}
    (hsat : ∀ t, Sat (P t) (Q t) [] (M.prog t)) (hidle : ∀ s, start s → s.Idle)
    (h : Reach M ok start s) {p : Pid} {pr : Proc C R T α} (hp : s.proc p = some pr) :
    Sat (P pr.task) (Q pr.task) pr.log pr.todo :=
  h.sat_from hsat (of_idle hidle) hp

/-- What holds of the tasks a run may start holds of all tasks of its states. -/
theorem tasks {K : T → Prop} (hspawn : ∀ s p t, ok s (.spawn p t) → K t)
    (hidle : ∀ s, start s → s.Idle) (h : Reach M ok start s) {p : Pid} {pr : Proc C R T α}
    (hp : s.proc p = some pr) : K pr.task :=
  h.each (K := fun pr => K pr.task) (of_idle hidle) hspawn
    (fun _ _ _ _ _ _ _ _ _ _ _ _ _ ht => ht) (fun _ _ _ ht => ht) hp

/-- What completes the rest of a process completes its program. -/
theorem completes (hidle : ∀ s, start s → s.Idle) (h : Reach M ok start s) {p : Pid}
    {pr : Proc C R T α} (hp : s.proc p = some pr) {l : Log C R} {a : α} :
    Ran pr.todo pr.log l a → Ran (M.prog pr.task) [] l a := by
  refine h.each (K := fun pr => ∀ {l a}, Ran pr.todo pr.log l a → Ran (M.prog pr.task) [] l a)
    (of_idle hidle) (fun _ _ _ _ => id) ?_ (fun _ _ _ hx => hx) hp
  intro s p ch t l c k w r _ _ _ _ hcall l' a hrest
  exact hcall (.call r hrest)

/-- The induction over the log of one process: what holds of the empty log and is kept by every
    served call holds of all logs. -/
theorem logs {I : Log C R → Prop} (hidle : ∀ s, start s → s.Idle) (hnil : I [])
    (hcall : ∀ s p ch t l c k w r, Reach M ok start s → ok s (.step p ch) →
      s.proc p = some ⟨t, l, .call c k, true⟩ → M.exec p c ch s.world = some (w, r) → I l →
      I (⟨c, r⟩ :: l))
    (h : Reach M ok start s) {p : Pid} {pr : Proc C R T α} (hp : s.proc p = some pr) : I pr.log :=
  h.each (K := fun pr => I pr.log) (of_idle hidle)
    (fun _ _ _ _ => hnil) hcall (fun _ _ _ hl => hl) hp

/-- The induction over runs, one obligation a kind of step. `P` and `Q` are the protocol of the
    tasks: a call step comes with what `P` says of the call and with the protocol of the rest. -/
theorem invariant {P : T → Log C R → C → Prop} {Q : T → Log C R → α → Prop}
    (hsat : ∀ t, Sat (P t) (Q t) [] (M.prog t)) (hidle : ∀ s, start s → s.Idle)
    {I : Pool C R T W α → Prop} (hstart : ∀ s, start s → I s)
    (hspawn : ∀ s p t, Reach M ok start s → I s → ok s (.spawn p t) → s.proc p = none →
      I (s.put s.world p (M.start t)))
    (hcall : ∀ s p ch t l c k w r, Reach M ok start s → I s → ok s (.step p ch) →
      s.proc p = some ⟨t, l, .call c k, true⟩ → P t l c → M.exec p c ch s.world = some (w, r) →
      Sat (P t) (Q t) (⟨c, r⟩ :: l) (k r) →
      I (s.put w p ⟨t, ⟨c, r⟩ :: l, k r, true⟩))
    (hcrash : ∀ s p t l x, Reach M ok start s → I s → ok s (.crash p) →
      s.proc p = some ⟨t, l, x, true⟩ →
      I (s.put (M.kill p s.world) p ⟨t, l, x, false⟩))
    (hmove : ∀ s e w, Reach M ok start s → I s → ok s (.move e) → M.move e s.world = some w →
      I { s with world := w })
    (h : Reach M ok start s) : I s := by
  induction h with
  | start h => exact hstart _ h
  | next hr met h' ih =>
      cases Machine.step_cases h' with
      | spawn free => exact hspawn _ _ _ hr ih met free
      | call at_call served =>
          have hs := hr.sat hsat hidle at_call
          exact hcall _ _ _ _ _ _ _ _ _ hr ih met at_call hs.1 served (hs.2 _)
      | crash alive => exact hcrash _ _ _ _ _ hr ih met alive
      | move moved => exact hmove _ _ _ hr ih met moved

end Reach

/-! ## Runs with a ghost value -/

/-- The states of the runs from `start` with a value that `upd` brings up to date at every step.
    The programs do not see it; the condition on the steps may. -/
inductive Traced {G : Type} (M : Machine C R T Ch E W α)
    (upd : Pool C R T W α → Label T Ch E → Pool C R T W α → G → G)
    (ok : Pool C R T W α → G → Label T Ch E → Prop) (start : Pool C R T W α → G → Prop) :
    Pool C R T W α → G → Prop where
  | start {s g} (h : start s g) : Traced M upd ok start s g
  | next {s s' g} {lb : Label T Ch E} (h : Traced M upd ok start s g) (met : ok s g lb)
      (h' : M.step s lb = some s') : Traced M upd ok start s' (upd s lb s' g)

/-- Runs a list of labels that all pass `check` and start processes below `n` only, with the ghost
    value. -/
def Machine.runTraced {G : Type} (M : Machine C R T Ch E W α) (n : Nat)
    (upd : Pool C R T W α → Label T Ch E → Pool C R T W α → G → G)
    (check : Pool C R T W α → G → Label T Ch E → Bool) (s : Pool C R T W α) (g : G) :
    List (Label T Ch E) → Option (Pool C R T W α × G)
  | [] => some (s, g)
  | lb :: ls =>
      if check s g lb && lb.startsBelow n then
        (M.step s lb).bind fun s' => M.runTraced n upd check s' (upd s lb s' g) ls
      else none

namespace Traced

variable {G : Type} {M : Machine C R T Ch E W α}
  {upd : Pool C R T W α → Label T Ch E → Pool C R T W α → G → G}
  {ok : Pool C R T W α → G → Label T Ch E → Prop} {start : Pool C R T W α → G → Prop}
  {s : Pool C R T W α} {g : G}

/-- The run without the ghost value, under a condition that does not look at it. -/
theorem forget {ok' : Pool C R T W α → Label T Ch E → Prop} {start' : Pool C R T W α → Prop}
    (hok : ∀ s g lb, ok s g lb → ok' s lb) (hstart : ∀ s g, start s g → start' s)
    (h : Traced M upd ok start s g) : Reach M ok' start' s := by
  induction h with
  | start h => exact .start (hstart _ _ h)
  | next _ met h' ih => exact .next ih (hok _ _ _ met) h'

theorem reach (h : Traced M upd ok start s g) :
    Reach M (fun s lb => ∃ g, ok s g lb) (fun s => ∃ g, start s g) s :=
  h.forget (fun _ g _ met => ⟨g, met⟩) fun _ g hs => ⟨g, hs⟩

/-- A run that continues a run. -/
theorem trans {s' : Pool C R T W α} {g' : G} (h : Traced M upd ok start s g)
    (h' : Traced M upd ok (fun x y => x = s ∧ y = g) s' g') : Traced M upd ok start s' g' := by
  induction h' with
  | start heq =>
      obtain ⟨rfl, rfl⟩ := heq
      exact h
  | next _ met hstep ih => exact ih.next met hstep

/-- The induction over runs from states in which processes may be under way, as
    `Reach.invariant`. -/
theorem invariant_from {P : T → Log C R → C → Prop} {Q : T → Log C R → α → Prop}
    (hsat : ∀ t, Sat (P t) (Q t) [] (M.prog t))
    (hfrom : ∀ s g, start s g → ∀ p pr, s.proc p = some pr →
      Sat (P pr.task) (Q pr.task) pr.log pr.todo)
    {I : Pool C R T W α → G → Prop} (hstart : ∀ s g, start s g → I s g)
    (hspawn : ∀ s g p t, Traced M upd ok start s g → I s g → ok s g (.spawn p t) →
      s.proc p = none →
      I (s.put s.world p (M.start t)) (upd s (.spawn p t) (s.put s.world p (M.start t)) g))
    (hcall : ∀ s g p ch t l c k w r, Traced M upd ok start s g → I s g → ok s g (.step p ch) →
      s.proc p = some ⟨t, l, .call c k, true⟩ → P t l c → M.exec p c ch s.world = some (w, r) →
      I (s.put w p ⟨t, ⟨c, r⟩ :: l, k r, true⟩)
        (upd s (.step p ch) (s.put w p ⟨t, ⟨c, r⟩ :: l, k r, true⟩) g))
    (hcrash : ∀ s g p t l x, Traced M upd ok start s g → I s g → ok s g (.crash p) →
      s.proc p = some ⟨t, l, x, true⟩ →
      I (s.put (M.kill p s.world) p ⟨t, l, x, false⟩)
        (upd s (.crash p) (s.put (M.kill p s.world) p ⟨t, l, x, false⟩) g))
    (hmove : ∀ s g e w, Traced M upd ok start s g → I s g → ok s g (.move e) →
      M.move e s.world = some w → I { s with world := w } (upd s (.move e) { s with world := w } g))
    (h : Traced M upd ok start s g) : I s g := by
  induction h with
  | start h => exact hstart _ _ h
  | next hr met h' ih =>
      cases Machine.step_cases h' with
      | spawn free => exact hspawn _ _ _ _ hr ih met free
      | call at_call served =>
          have hs := hr.reach.sat_from hsat (fun s ⟨g, hs⟩ => hfrom s g hs) at_call
          exact hcall _ _ _ _ _ _ _ _ _ _ hr ih met at_call hs.1 served
      | crash alive => exact hcrash _ _ _ _ _ _ hr ih met alive
      | move moved => exact hmove _ _ _ _ hr ih met moved

/-- The induction over runs from states in which no process has started. -/
theorem invariant {P : T → Log C R → C → Prop} {Q : T → Log C R → α → Prop}
    (hsat : ∀ t, Sat (P t) (Q t) [] (M.prog t)) (hidle : ∀ s g, start s g → s.Idle)
    {I : Pool C R T W α → G → Prop} (hstart : ∀ s g, start s g → I s g)
    (hspawn : ∀ s g p t, Traced M upd ok start s g → I s g → ok s g (.spawn p t) →
      s.proc p = none →
      I (s.put s.world p (M.start t)) (upd s (.spawn p t) (s.put s.world p (M.start t)) g))
    (hcall : ∀ s g p ch t l c k w r, Traced M upd ok start s g → I s g → ok s g (.step p ch) →
      s.proc p = some ⟨t, l, .call c k, true⟩ → P t l c → M.exec p c ch s.world = some (w, r) →
      I (s.put w p ⟨t, ⟨c, r⟩ :: l, k r, true⟩)
        (upd s (.step p ch) (s.put w p ⟨t, ⟨c, r⟩ :: l, k r, true⟩) g))
    (hcrash : ∀ s g p t l x, Traced M upd ok start s g → I s g → ok s g (.crash p) →
      s.proc p = some ⟨t, l, x, true⟩ →
      I (s.put (M.kill p s.world) p ⟨t, l, x, false⟩)
        (upd s (.crash p) (s.put (M.kill p s.world) p ⟨t, l, x, false⟩) g))
    (hmove : ∀ s g e w, Traced M upd ok start s g → I s g → ok s g (.move e) →
      M.move e s.world = some w → I { s with world := w } (upd s (.move e) { s with world := w } g))
    (h : Traced M upd ok start s g) : I s g := by
  refine h.invariant_from hsat (fun s g hs p pr hp => ?_) hstart hspawn hcall hcrash hmove
  rw [hidle s g hs p] at hp
  cases hp

theorem of_runTraced {n : Nat} {check : Pool C R T W α → G → Label T Ch E → Bool}
    (hcheck : ∀ s g lb, s.Below n → check s g lb = true → ok s g lb) (h : Traced M upd ok start s g)
    (hs : s.Below n) {ls : List (Label T Ch E)} {s' : Pool C R T W α} {g' : G}
    (hrun : M.runTraced n upd check s g ls = some (s', g')) : Traced M upd ok start s' g' := by
  induction ls generalizing s g with
  | nil => cases hrun; exact h
  | cons lb ls ih =>
      unfold Machine.runTraced at hrun
      split at hrun
      · next hc =>
        obtain ⟨hmet, hlb⟩ := Bool.and_eq_true_iff.mp hc
        obtain ⟨s₁, h₁, h₂⟩ := Option.bind_eq_some_iff.mp hrun
        exact ih (h.next (hcheck s g lb hs hmet) h₁) (hs.step hlb h₁) h₂
      · cases hrun

end Traced

theorem Pool.Below.runTraced {G : Type} {M : Machine C R T Ch E W α} {n : Nat}
    {upd : Pool C R T W α → Label T Ch E → Pool C R T W α → G → G}
    {check : Pool C R T W α → G → Label T Ch E → Bool} {s s' : Pool C R T W α} {g g' : G}
    (h : s.Below n) {ls : List (Label T Ch E)}
    (hrun : M.runTraced n upd check s g ls = some (s', g')) : s'.Below n := by
  induction ls generalizing s g with
  | nil => cases hrun; exact h
  | cons lb ls ih =>
      unfold Machine.runTraced at hrun
      split at hrun
      · next hc =>
        obtain ⟨s₁, h₁, h₂⟩ := Option.bind_eq_some_iff.mp hrun
        exact ih (h.step (Bool.and_eq_true_iff.mp hc).2 h₁) h₂
      · cases hrun

end CashbackLedger.Lib
