import CashbackLedger.Lib.Windows
import CashbackLedger.Safety.Runs

/-
  Requests with an Idempotency-Key.

  A keyed request looks its key up, runs the operation after a miss and saves the response. The
  lookup reserves nothing: requests that look the key up before the first one has saved its
  response all miss, all run the operation, and the last save wins. The lookup is a check whose
  window closes with the save (`keyWindows`). In runs in which no request looks the key up in the
  window of another one, a stored response stays as it is (`KeyInv`), and as long as no call
  fails the key is served once (`key_served_once`).
-/

namespace CashbackLedger

open Lib History

/-- The key that a live request has looked up in vain; the request is not done. -/
def window : Option Process → Option (String × String)
  | some ⟨_, l, .call _ _, true⟩ => History.missed l
  | _ => none

/-- A response is stored under the key. -/
def World.Taken (w : World) (k : String × String) : Prop :=
  ∃ row ∈ w.idem, row.key = k.1 ∧ row.scope = k.2

/-- This response is stored under the key, for requests of this hash. -/
def World.Holds (w : World) (k : String × String) (hash : String) (body : Json) : Prop :=
  ∃ row ∈ w.idem, (row.key = k.1 ∧ row.scope = k.2) ∧ row.requestHash = hash ∧
    row.responseBody = body

/-- No request looks the key up while another one is between its own lookup and its end. -/
def LooksUpAlone (k : String × String) (s : State) : Step → Prop
  | .step p _ => s.nextCall p = some (.idem (.findUnique k.1 k.2)) →
      ∀ q, q ≠ p → window (s.proc q) ≠ some k
  | _ => True

section

variable {env : Env} {p : Pid} {ch : Choice} {w w' : World} {t : Task} {l : History} {c : Call}
  {r : Reply c} {k : String × String} {hash : String} {body : Json}

theorem World.Holds.taken (h : w.Holds k hash body) : w.Taken k := by
  obtain ⟨row, hr, hk, -⟩ := h
  exact ⟨row, hr, hk⟩

/-- There is one response under a key. -/
theorem World.Holds.unique {hash' : String} {body' : Json} (h : w.Holds k hash body)
    (h' : w.Holds k hash' body') : hash = hash' ∧ body = body' := by
  obtain ⟨row, hr, ⟨hkey, hscope⟩, rfl, rfl⟩ := h
  obtain ⟨row', hr', ⟨hkey', hscope'⟩, rfl, rfl⟩ := h'
  have heq : row = row' := Table.eq_of_clash hr hr' (by
    simp [Indexed.clash, hkey, hkey', hscope, hscope'])
  rw [heq]
  exact ⟨rfl, rfl⟩

theorem window_call {kont : Reply c → Prog Call Reply Outcome} :
    window (some ⟨t, l, .call c kont, true⟩) = History.missed l := rfl

theorem missed_of_window {pr : Process} (h : window (some pr) = some k) :
    History.missed pr.log = some k := by
  unfold window at h
  split at h
  · next heq =>
    cases heq
    exact h
  · cases h

/-- What a call does to a key: the log becomes `l'`. -/
structure KeyStep (k : String × String) (w w' : World) (l : History) (c : Call) (l' : History) :
    Prop where
  kept : ∀ hash body, w.Holds k hash body → w'.Holds k hash body ∨ l.missed = some k
  taking : w'.Taken k → w.Taken k ∨ (l.missed = some k ∧ l'.missed = none)
  missing : l'.missed = some k → l.missed = some k ∨
    (c = .idem (.findUnique k.1 k.2) ∧ ¬ w.Taken k)
  remembering : ∀ row, Remembers l' k row → Remembers l k row ∨
    w'.Holds k row.requestHash row.responseBody

/-- A lookup is answered from the table. -/
theorem lookup_reply {x : Option IdempotencyKey} {now : Time}
    (h : exec env p (.idem (.findUnique k.1 k.2)) ch w = some (w', (.ok x, now))) :
    w'.idem = w.idem ∧ x = w.idem.find? fun row => row.key == k.1 && row.scope == k.2 := by
  rcases exec_reply h with ⟨m, hm⟩ | ⟨w₁, hrun, rfl⟩
  · cases hm
  · simp only [Call.run, IdemCall.run, Option.map_some, Option.some.injEq, Prod.mk.injEq,
      Except.ok.injEq] at hrun
    obtain ⟨rfl, rfl⟩ := hrun
    exact ⟨rfl, rfl⟩

/-- A save that is not refused stores its row. -/
theorem upsert_holds {w₁ : World} {newId : Uuid} {row x : IdempotencyKey}
    (h : Call.run env p newId w (.idem (.upsert row)) = some (w₁, .ok x)) :
    w₁.Holds (row.key, row.scope) row.requestHash row.responseBody := by
  obtain ⟨⟨tbl, y⟩, hy, heq⟩ := Option.map_eq_some_iff.mp h
  cases heq
  simp only [IdemCall.run] at hy
  split at hy
  · split at hy
    · next hany =>
      obtain ⟨row₀, hr, hk⟩ := Table.any_iff.mp hany
      cases hy
      have hm : ({ row₀ with requestHash := row.requestHash, responseBody := row.responseBody,
                             expiresAt := row.expiresAt } : IdempotencyKey) ∈
          w.idem.modify (fun r => r.key == row.key && r.scope == row.scope)
            (fun r => { r with requestHash := row.requestHash, responseBody := row.responseBody,
                               expiresAt := row.expiresAt }) ⟨fun _ _ => rfl⟩ := by
        simp only [Table.mem_modify]
        exact ⟨row₀, hr, (if_pos hk).symm⟩
      exact ⟨_, hm, by simpa using hk, rfl, rfl⟩
    · obtain ⟨t', ht, heq⟩ := Option.map_eq_some_iff.mp hy
      cases heq
      exact ⟨row, Table.self_mem_insert ht, ⟨rfl, rfl⟩, rfl, rfl⟩
  · cases hy

/-- A save that is answered stores its row. -/
theorem save_reply {row x : IdempotencyKey} {now : Time}
    (h : exec env p (.idem (.upsert row)) ch w = some (w', (.ok x, now))) :
    w'.Holds (row.key, row.scope) row.requestHash row.responseBody := by
  rcases exec_reply h with ⟨m, hm⟩ | ⟨w₁, hrun, rfl⟩
  · cases hm
  · have hholds := upsert_holds hrun
    exact hholds

theorem missed_cons (h : ∀ c', c ≠ .idem c') : History.missed (⟨c, r⟩ :: l) = l.missed := by
  cases c with
  | idem c => exact absurd rfl (h c)
  | _ => rfl

/-- A key is missed after a call when it was before, or the call looked it up in vain. -/
theorem missed_cases (h : History.missed (⟨c, r⟩ :: l) = some k) : History.missed l = some k ∨
    ∃ now, (⟨c, r⟩ : Σ c, Reply c) = ⟨.idem (.findUnique k.1 k.2), (.ok none, now)⟩ := by
  by_cases hidem : ∃ c', c = .idem c'
  · obtain ⟨c', rfl⟩ := hidem
    obtain ⟨x, now⟩ := r
    cases c' with
    | upsert row => cases h
    | findUnique key scope =>
      cases x with
      | error err => exact Or.inl h
      | ok x =>
        cases x with
        | some row => exact Or.inl h
        | none =>
          obtain rfl : (key, scope) = k := Option.some_inj.mp h
          exact Or.inr ⟨now, rfl⟩
  · rw [missed_cons fun c' heq => hidem ⟨c', heq⟩] at h
    exact Or.inl h

/-- What is remembered after a call was remembered before, or the call was a lookup or a save. -/
theorem remembers_cons {row : IdempotencyKey} (h : Remembers (⟨c, r⟩ :: l) k row) :
    Remembers l k row ∨
    (∃ now, (⟨c, r⟩ : Σ c, Reply c) = ⟨.idem (.findUnique k.1 k.2), (.ok (some row), now)⟩) ∨
    ∃ row' now, (⟨c, r⟩ : Σ c, Reply c) = ⟨.idem (.upsert row), (.ok row', now)⟩ ∧
      k = (row.key, row.scope) := by
  cases h with
  | read got =>
    obtain ⟨now, hm⟩ := got
    rcases List.mem_cons.mp hm with heq | hm
    · exact Or.inr (Or.inl ⟨now, heq.symm⟩)
    · exact Or.inl (.read ⟨now, hm⟩)
  | @saved row' got key scope =>
    obtain ⟨now, hm⟩ := got
    rcases List.mem_cons.mp hm with heq | hm
    · exact Or.inr (Or.inr ⟨row', now, heq.symm, by rw [key, scope]⟩)
    · exact Or.inl (.saved ⟨now, hm⟩ key scope)

theorem key_step (hc : t.Calls env l c) (hshaped : CommitsShaped p w c)
    (h : exec env p c ch w = some (w', r)) : KeyStep k w w' l c (⟨c, r⟩ :: l) := by
  obtain ⟨w₁, heff, hw'⟩ := exec_effect hshaped h
  have hsaves : ∀ row, c = .idem (.upsert row) → row.key = k.1 → row.scope = k.2 →
      l.missed = some k := by
    rintro row rfl hkey hscope
    rw [hc.save.2.1, hkey, hscope]
  refine ⟨?_, ?_, ?_, ?_⟩
  · rintro hash body ⟨row, hr, ⟨hkey, hscope⟩, hhash, hbody⟩
    rcases heff.idem_kept hr with hr | ⟨row', hc', hkey', hscope'⟩
    · rw [hw']
      exact Or.inl ⟨row, hr, ⟨hkey, hscope⟩, hhash, hbody⟩
    · exact Or.inr (hsaves row' hc' (hkey'.symm.trans hkey) (hscope'.symm.trans hscope))
  · rintro ⟨row, hr, hkey, hscope⟩
    rw [hw'] at hr
    rcases heff.idem_origin hr with hr | ⟨row', rfl, hkey', hscope'⟩
    · exact Or.inl ⟨row, hr, hkey, hscope⟩
    · exact Or.inr ⟨hsaves row' rfl (hkey'.symm.trans hkey) (hscope'.symm.trans hscope), rfl⟩
  · intro hm
    refine (missed_cases hm).imp_right ?_
    rintro ⟨now, heq⟩
    cases heq
    refine ⟨rfl, ?_⟩
    rintro ⟨row, hr, hkey, hscope⟩
    obtain ⟨-, hnone⟩ := lookup_reply h
    have hne := Table.find?_none hnone.symm hr
    simp [hkey, hscope] at hne
  · intro row hrem
    rcases remembers_cons hrem with hold | ⟨now, heq⟩ | ⟨row', now, heq, rfl⟩
    · exact Or.inl hold
    · cases heq
      obtain ⟨hidem, hfound⟩ := lookup_reply h
      have hk := Table.of_find? hfound.symm
      refine Or.inr ⟨row, ?_, by simpa using hk, rfl, rfl⟩
      rw [hidem]
      exact Table.mem_of_find? hfound.symm
    · cases heq
      exact Or.inr (save_reply h)

/-- A key is looked up by requests that carry it. -/
theorem key_of_missed {ok : State → Step → Prop} {start : State → Prop} {s : State}
    (hstart : ∀ s, start s → Fresh s) (h : Reach (system env) ok start s) :
    ∀ p pr, s.proc p = some pr → History.missed pr.log = some k → pr.task.key = some k := by
  have hidle : ∀ s, start s → s.Idle := fun s hs => (hstart s hs).1
  intro p pr hp
  refine h.each (K := fun pr : Process => History.missed pr.log = some k → pr.task.key = some k)
    (Reach.of_idle hidle)
    (fun _ _ _ _ hm => by cases hm) ?_ (fun _ _ _ hkey => hkey) hp
  intro s p ch t l c kont w r hr _ hp _ hkey hm
  have hc := (hr.sat (task_sat env) hidle hp).1
  rcases missed_cases hm with hm | ⟨now, heq⟩
  · exact hkey hm
  · cases heq
    exact hc.lookup.1

end

/-! ## A stored response stays -/

/-- The windows between a lookup of the key and the end of the request. -/
def keyWindows (k : String × String) (s : State) : Windows Pid Unit where
  inside p _ := window (s.proc p) = some k
  taken _ := s.world.Taken k

/-- No two windows of the key overlap, none is open when a response is stored, and what a request
    remembers is stored. -/
structure KeyInv (k : String × String) (s : State) : Prop where
  apart : (keyWindows k s).Apart
  remembered : ∀ p pr row, s.proc p = some pr → Remembers pr.log k row →
    s.world.Holds k row.requestHash row.responseBody

section

variable {env : Env} {ok : State → Step → Prop} {s₀ s : State} {k : String × String} {p : Pid}
  {ch : Choice} {t : Task} {l : History} {c : Call} {kont : Reply c → Prog Call Reply Outcome}
  {w : World} {r : Reply c}

theorem KeyInv.free (hI : KeyInv k s) (hp : window (s.proc p) = some k) : ¬ s.world.Taken k :=
  hI.apart.free p () hp

theorem KeyInv.alone {q : Pid} (hI : KeyInv k s) (hp : window (s.proc p) = some k)
    (hq : window (s.proc q) = some k) : p = q := hI.apart.alone p q () hp hq

/-- A call keeps the stored response. -/
theorem KeyInv.holds (hI : KeyInv k s) (hp : s.proc p = some ⟨t, l, .call c kont, true⟩)
    (hstep : KeyStep k s.world w l c (⟨c, r⟩ :: l)) {hash : String} {body : Json}
    (h : s.world.Holds k hash body) : w.Holds k hash body := by
  refine (hstep.kept hash body h).resolve_right fun hm => ?_
  exact hI.free (p := p) (by rw [hp, window_call, hm]) h.taken

theorem KeyInv.call (hI : KeyInv k s) (hp : s.proc p = some ⟨t, l, .call c kont, true⟩)
    (halone : LooksUpAlone k s (.step p ch)) (hstep : KeyStep k s.world w l c (⟨c, r⟩ :: l)) :
    KeyInv k (s.put w p ⟨t, ⟨c, r⟩ :: l, kont r, true⟩) := by
  have hother : ∀ {q}, q ≠ p → (s.put w p ⟨t, ⟨c, r⟩ :: l, kont r, true⟩).proc q = s.proc q :=
    fun hq => Pool.put_other _ _ _ _ hq
  have hself : window ((s.put w p ⟨t, ⟨c, r⟩ :: l, kont r, true⟩).proc p) = some k →
      History.missed (⟨c, r⟩ :: l) = some k := by
    intro hin
    rw [Pool.put_self] at hin
    exact missed_of_window hin
  refine ⟨hI.apart.step p ?_ ?_ ?_, ?_⟩
  · intro q _ hq hin
    have hin' : window ((s.put w p ⟨t, ⟨c, r⟩ :: l, kont r, true⟩).proc q) = some k := hin
    rw [hother hq] at hin'
    exact hin'
  · intro _ hin
    rcases hstep.missing (hself hin) with hm | ⟨rfl, hfree⟩
    · refine Or.inl ?_
      show window (s.proc p) = some k
      rw [hp, window_call, hm]
    · refine Or.inr ⟨hfree, fun q hq => halone ?_ q hq⟩
      rw [Pool.nextCall_of hp]
      rfl
  · intro _ ht
    refine (hstep.taking ht).imp_right fun hm => ⟨?_, fun hin => ?_⟩
    · show window (s.proc p) = some k
      rw [hp, window_call, hm.1]
    · rw [hself hin] at hm
      cases hm.2
  · intro q pr row hq
    refine Pool.forall_put (fun hrem => ?_)
      (fun q pr _ hq hrem => hI.holds hp hstep (hI.remembered q pr row hq hrem))
      q pr hq
    rcases hstep.remembering row hrem with hold | hnew
    · exact hI.holds hp hstep (hI.remembered p _ row hp hold)
    · exact hnew

theorem keyInv (hfresh : Fresh s₀) (hok : ∀ s lb, ok s lb → LooksUpAlone k s lb)
    (h : Reach (system env) ok (· = s₀) s) : KeyInv k s := by
  have hstart : ∀ s, s = s₀ → Fresh s := fun _ heq => heq ▸ hfresh
  refine Reach.invariant (task_sat env) (fun s hs => (hstart s hs).1) ?_ ?_ ?_ ?_ ?_ h
  · rintro s rfl
    have hnone : ∀ p, s.proc p = none := hfresh.1
    have hempty : ∀ p u, ¬ (keyWindows k s).inside p u := by
      intro p u hin
      have heq : window (s.proc p) = some k := hin
      rw [hnone p] at heq
      cases heq
    refine ⟨⟨fun p q u hp => absurd hp (hempty p u), fun p u hp => absurd hp (hempty p u)⟩, ?_⟩
    intro p pr row hp
    rw [hnone p] at hp
    cases hp
  · intro s p t _ hI _ hfree
    refine ⟨hI.apart.mono (fun q u hin => ?_) fun _ ht => ht, fun q pr row hq => ?_⟩
    · have heq : window ((s.put s.world p ((system env).start t)).proc q) = some k := hin
      rw [Pool.put_proc] at heq
      split at heq
      · cases missed_of_window heq
      · exact heq
    · refine Pool.forall_put (fun hrem => ?_) (fun q pr _ hq => hI.remembered q pr row hq) q pr hq
      cases hrem with
      | read got => exact absurd got.choose_spec List.not_mem_nil
      | saved got => exact absurd got.choose_spec List.not_mem_nil
  · intro s p ch t l c kont w r hr hI hmet hp hc hx _
    have hs := sound hstart hr
    exact hI.call hp (hok _ _ hmet) (key_step hc (hs.shaped hp hc) hx)
  · intro s p t l x _ hI _ hp
    refine ⟨hI.apart.mono (fun q u hin => ?_) fun _ ht => ht, fun q pr row hq => ?_⟩
    · have heq : window ((s.put (kill p s.world) p ⟨t, l, x, false⟩).proc q) = some k := hin
      rw [Pool.put_proc] at heq
      split at heq
      · simp [window] at heq
      · exact heq
    · have hkept : Remembers l k row → s.world.Holds k row.requestHash row.responseBody :=
        hI.remembered p _ row hp
      exact Pool.forall_put hkept (fun q pr _ hq => hI.remembered q pr row hq) q pr hq
  · intro s o w _ hI _ hw
    have hidem : w.idem = s.world.idem := by cases o <;> cases hw <;> rfl
    have htaken : w.Taken k → s.world.Taken k := by
      unfold World.Taken
      rw [hidem]
      exact id
    refine ⟨hI.apart.mono (fun _ _ hin => hin) fun _ ht => htaken ht, fun p pr row hp hrem => ?_⟩
    have hholds := hI.remembered p pr row hp hrem
    unfold World.Holds at hholds ⊢
    rw [hidem]
    exact hholds

end

/-! ## Requests that do not fail -/

/-- The process runs a request under the key. -/
def Request (k : String × String) (s : State) (p : Pid) (pr : Process) : Prop :=
  s.proc p = some pr ∧ pr.task.key = some k

/-- No call of a request under the key fails, and no such request dies. -/
def answered (env : Env) (k : String × String) (s : State) : Step → Bool
  | .step p ch =>
      match s.proc p with
      | some ⟨t, _, .call c _, true⟩ =>
          t.key != some k || (exec env p c ch s.world).all fun x => x.2.1.isOk
      | _ => true
  | .crash p =>
      match s.proc p with
      | some pr => pr.task.key != some k
      | none => true
  | _ => true

/-- No request under the key fails or looks it up in the window of another one. -/
def ServesAlone (env : Env) (k : String × String) (s : State) (lb : Step) : Prop :=
  answered env k s lb = true ∧ LooksUpAlone k s lb

/-- Once-only service of a key. -/
structure OnceOnly (env : Env) (k : String × String) (s : State) : Prop where
  /-- the requests that respond have the same hash -/
  hash : ∀ p q pr qr j j', Request k s p pr → Request k s q qr → pr.todo = .ret (.ok j) →
    qr.todo = .ret (.ok j') → pr.task.requestHash env = qr.task.requestHash env
  /-- a request with another hash makes nothing and answers 409 -/
  rejected : ∀ p q pr qr j, Request k s p pr → Request k s q qr → pr.todo = .ret (.ok j) →
    qr.task.requestHash env ≠ pr.task.requestHash env →
      History.made qr.log = [] ∧ ∀ x, qr.todo = .ret x → ∃ m, x = .error (.conflict m)
  /-- one order or one event is made -/
  effect : ∀ p q pr qr, Request k s p pr → Request k s q qr → ∀ x ∈ History.made pr.log,
    ∀ y ∈ History.made qr.log, p = q ∧ x = y
  /-- all responses are the same -/
  body : ∀ p q pr qr j j', Request k s p pr → Request k s q qr → pr.todo = .ret (.ok j) →
    qr.todo = .ret (.ok j') → j = j'

/-- What the requests have made so far, and who made it. -/
structure OnceInv (env : Env) (k : String × String) (s : State) : Prop where
  clean : ∀ p pr, Request k s p pr → ¬ AnyFailed pr.log ∧ pr.alive = true
  made : ∀ p pr, Request k s p pr → History.made pr.log ≠ [] →
    window (s.proc p) = some k ∨ ∃ body, s.world.Holds k (pr.task.requestHash env) body
  once : ∀ p q pr qr, Request k s p pr → Request k s q qr → History.made pr.log ≠ [] →
    History.made qr.log ≠ [] → p = q
  single : ∀ p pr, Request k s p pr → (History.made pr.log).length ≤ 1

section

variable {env : Env} {ok : State → Step → Prop} {s₀ s : State} {k : String × String} {p : Pid}
  {ch : Choice} {t : Task} {l : History} {c : Call} {kont : Reply c → Prog Call Reply Outcome}
  {w : World} {r : Reply c}

theorem answered_reply (hp : s.proc p = some ⟨t, l, .call c kont, true⟩) (hk : t.key = some k)
    (hx : exec env p c ch s.world = some (w, r)) (hmet : answered env k s (.step p ch) = true) :
    ∃ x now, r = (.ok x, now) := by
  simp only [answered, hp, hk, hx, bne_self_eq_false, Bool.false_or, Option.all_some] at hmet
  obtain ⟨x, now⟩ := r
  cases x with
  | ok x => exact ⟨x, now, rfl⟩
  | error err => cases hmet

/-- A process that will make something is in its window, and nothing has been made. -/
theorem OnceInv.unmade (hI : OnceInv env k s) (hK : KeyInv k s)
    (hp : s.proc p = some ⟨t, l, .call c kont, true⟩) (hk : t.key = some k) (hc : t.Calls env l c)
    (hm : Makes c) {q : Pid} {qr : Process} (hq : Request k s q qr) : History.made qr.log = [] := by
  obtain ⟨hmissed, hnone⟩ := hc.makes hk hm
  have hin : window (s.proc p) = some k := by rw [hp, window_call, hmissed]
  by_contra hne
  rcases hI.made q qr hq hne with hin' | ⟨body, hholds⟩
  · obtain rfl := hK.alone hin hin'
    obtain rfl := Option.some_inj.mp (hp.symm.trans hq.1)
    exact hne hnone
  · exact hK.free hin hholds.taken

/-- What a request has made is under its window or saved when its call is answered. -/
theorem made_recorded {x : c.Result} {now : Time} (hI : OnceInv env k s) (hK : KeyInv k s)
    (hK' : KeyInv k (s.put w p ⟨t, ⟨c, (.ok x, now)⟩ :: l, kont (.ok x, now), true⟩))
    (hp : s.proc p = some ⟨t, l, .call c kont, true⟩) (hk : t.key = some k) (hc : t.Calls env l c)
    (hstep : KeyStep k s.world w l c (⟨c, (.ok x, now)⟩ :: l))
    (hrest : Sat (t.Calls env) (t.Ends env) (⟨c, (.ok x, now)⟩ :: l) (kont (.ok x, now)))
    (hne : History.made (⟨c, (.ok x, now)⟩ :: l) ≠ []) :
    window (some ⟨t, ⟨c, (.ok x, now)⟩ :: l, kont (.ok x, now), true⟩) = some k ∨
      ∃ body, w.Holds k (t.requestHash env) body := by
  obtain ⟨hclean, -⟩ := hI.clean p _ ⟨hp, hk⟩
  have hremembered : ∀ row, Remembers (⟨c, (.ok x, now)⟩ :: l) k row →
      w.Holds k row.requestHash row.responseBody := fun row hrem =>
    hK'.remembered p _ row (Pool.put_self _ _ _ _) hrem
  have hmissed : History.missed (⟨c, (.ok x, now)⟩ :: l) = some k ∨
      ∃ body, w.Holds k (t.requestHash env) body := by
    by_cases hsave : ∃ row, c = .idem (.upsert row)
    · obtain ⟨row, rfl⟩ := hsave
      obtain ⟨hkey, -, hhash⟩ := hc.save
      obtain rfl := Option.some_inj.mp (hk.symm.trans hkey)
      rw [← hhash]
      exact Or.inr ⟨_, hremembered row (.saved (got_head _ _ _) rfl rfl)⟩
    · have hkeeps : History.missed l = some k → l ≠ [] →
          History.missed (⟨c, (.ok x, now)⟩ :: l) = some k := by
        intro hm hl
        rw [missed_cons, hm]
        rintro (⟨key, scope⟩ | ⟨row⟩) rfl
        · exact hl hc.lookup.2
        · exact hsave ⟨row, rfl⟩
      have hnil : History.missed l = some k → l ≠ [] := by
        rintro hm rfl
        cases hm
      by_cases hm : Makes c
      · obtain ⟨hmissed, -⟩ := hc.makes hk hm
        exact Or.inl (hkeeps hmissed (hnil hmissed))
      · rw [made_cons hm] at hne
        rcases hI.made p _ ⟨hp, hk⟩ hne with hin | ⟨body, hholds⟩
        · rw [hp, window_call] at hin
          exact Or.inl (hkeeps hin (hnil hin))
        · exact Or.inr ⟨body, hK.holds hp hstep hholds⟩
  rcases hmissed with hmissed | hholds
  · generalize hnext : kont (.ok x, now) = y at hrest ⊢
    cases y with
    | call c' kont' => exact Or.inl hmissed
    | ret a =>
      cases a with
      | ok j =>
        obtain ⟨row, hrem, hhash, -⟩ := Task.Ends.served hrest hk
        rw [← hhash]
        exact Or.inr ⟨_, hremembered row hrem⟩
      | error e =>
        rcases Task.Ends.refused hrest hk with hf | ⟨-, hnone⟩
        · exact absurd hf (not_anyFailed_cons hclean x now)
        · exact absurd hnone hne
  · exact Or.inr hholds

/-- A request after a step is the one of the process that made it, or was there before. -/
theorem Request.of_put {pr qr : Process} {q : Pid} (h : Request k (s.put w p pr) q qr) :
    (q = p ∧ qr = pr ∧ pr.task.key = some k) ∨ Request k s q qr ∧ q ≠ p := by
  obtain ⟨hq, hk⟩ := h
  rw [Pool.put_proc] at hq
  split at hq
  · next heq =>
    cases hq
    exact Or.inl ⟨heq, rfl, hk⟩
  · next hne => exact Or.inr ⟨⟨hq, hk⟩, hne⟩

/-- A process that has just started has made nothing. -/
theorem OnceInv.spawn (hI : OnceInv env k s) :
    OnceInv env k (s.put s.world p ((system env).start t)) := by
  refine ⟨fun q qr hq => ?_, fun q qr hq hne => ?_,
    fun q q' qr qr' hq hq' hne hne' => ?_, fun q qr hq => ?_⟩
  · rcases hq.of_put with ⟨-, rfl, -⟩ | ⟨hq, -⟩
    · exact ⟨not_anyFailed_nil, rfl⟩
    · exact hI.clean q qr hq
  · rcases hq.of_put with ⟨-, rfl, -⟩ | ⟨hq, hqp⟩
    · exact absurd rfl hne
    · rw [Pool.put_other _ _ _ _ hqp]
      exact hI.made q qr hq hne
  · rcases hq.of_put with ⟨-, rfl, -⟩ | ⟨hq, -⟩
    · exact absurd rfl hne
    · rcases hq'.of_put with ⟨-, rfl, -⟩ | ⟨hq', -⟩
      · exact absurd rfl hne'
      · exact hI.once q q' qr qr' hq hq' hne hne'
  · rcases hq.of_put with ⟨-, rfl, -⟩ | ⟨hq, -⟩
    · exact Nat.zero_le 1
    · exact hI.single q qr hq

theorem OnceInv.call (hI : OnceInv env k s) (hK : KeyInv k s)
    (hmet : ServesAlone env k s (.step p ch)) (hp : s.proc p = some ⟨t, l, .call c kont, true⟩)
    (hc : t.Calls env l c) (hstep : KeyStep k s.world w l c (⟨c, r⟩ :: l))
    (hx : exec env p c ch s.world = some (w, r))
    (hrest : Sat (t.Calls env) (t.Ends env) (⟨c, r⟩ :: l) (kont r)) :
    OnceInv env k (s.put w p ⟨t, ⟨c, r⟩ :: l, kont r, true⟩) := by
  have hK' := hK.call hp hmet.2 hstep
  -- a request that has made something did so before, or it is the first one
  have hfirst : t.key = some k → History.made (⟨c, r⟩ :: l) ≠ [] →
      ∀ q qr, Request k s q qr → History.made qr.log ≠ [] → p = q := by
    intro hk hne q qr hq hne'
    by_cases hm : Makes c
    · exact absurd (hI.unmade hK hp hk hc hm hq) hne'
    · rw [made_cons hm] at hne
      exact hI.once p q _ qr ⟨hp, hk⟩ hq hne hne'
  refine ⟨fun q qr hq => ?_, fun q qr hq hne => ?_,
    fun q q' qr qr' hq hq' hne hne' => ?_, fun q qr hq => ?_⟩
  · rcases hq.of_put with ⟨rfl, rfl, hk⟩ | ⟨hq, -⟩
    · obtain ⟨x, now, rfl⟩ := answered_reply hp hk hx hmet.1
      exact ⟨not_anyFailed_cons (hI.clean q _ ⟨hp, hk⟩).1 x now, rfl⟩
    · exact hI.clean q qr hq
  · rcases hq.of_put with ⟨rfl, rfl, hk⟩ | ⟨hq, hqp⟩
    · obtain ⟨x, now, rfl⟩ := answered_reply hp hk hx hmet.1
      rw [Pool.put_self]
      exact made_recorded hI hK hK' hp hk hc hstep hrest hne
    · rw [Pool.put_other _ _ _ _ hqp]
      refine (hI.made q qr hq hne).imp_right ?_
      rintro ⟨body, hholds⟩
      exact ⟨body, hK.holds hp hstep hholds⟩
  · rcases hq.of_put with ⟨rfl, rfl, hk⟩ | ⟨hq₀, -⟩
    · rcases hq'.of_put with ⟨rfl, -, -⟩ | ⟨hq₀', -⟩
      · rfl
      · exact hfirst hk hne q' qr' hq₀' hne'
    · rcases hq'.of_put with ⟨rfl, rfl, hk⟩ | ⟨hq₀', -⟩
      · exact (hfirst hk hne' q qr hq₀ hne).symm
      · exact hI.once q q' qr qr' hq₀ hq₀' hne hne'
  · rcases hq.of_put with ⟨rfl, rfl, hk⟩ | ⟨hq, -⟩
    · exact hc.made_le hk (hI.single q _ ⟨hp, hk⟩) r
    · exact hI.single q qr hq

/-- No request under the key dies. -/
theorem OnceInv.crash {x : Prog Call Reply Outcome} (hI : OnceInv env k s) (hne : t.key ≠ some k) :
    OnceInv env k (s.put (kill p s.world) p ⟨t, l, x, false⟩) := by
  have hold : ∀ {q qr}, Request k (s.put (kill p s.world) p ⟨t, l, x, false⟩) q qr →
      Request k s q qr ∧ q ≠ p := by
    intro q qr hq
    rcases hq.of_put with ⟨-, -, hk⟩ | hq
    · exact absurd hk hne
    · exact hq
  refine ⟨fun q qr hq => hI.clean q qr (hold hq).1, fun q qr hq hmade => ?_,
    fun q q' qr qr' hq hq' => hI.once q q' qr qr' (hold hq).1 (hold hq').1,
    fun q qr hq => hI.single q qr (hold hq).1⟩
  rw [Pool.put_other _ _ _ _ (hold hq).2]
  exact hI.made q qr (hold hq).1 hmade

theorem onceInv (hfresh : Fresh s₀)
    (h : Reach (system env) (ServesAlone env k) (· = s₀) s) : OnceInv env k s := by
  have hstart : ∀ s, s = s₀ → Fresh s := fun _ heq => heq ▸ hfresh
  refine Reach.invariant (task_sat env) (fun s hs => (hstart s hs).1) ?_ ?_ ?_ ?_ ?_ h
  · rintro s rfl
    have hnone : ∀ p pr, ¬ Request k s p pr := by
      rintro p pr ⟨hp, -⟩
      rw [hfresh.1 p] at hp
      cases hp
    exact ⟨fun p pr hp => absurd hp (hnone p pr), fun p pr hp => absurd hp (hnone p pr),
      fun p q pr qr hp => absurd hp (hnone p pr), fun p pr hp => absurd hp (hnone p pr)⟩
  · exact fun s p t _ hI _ _ => hI.spawn
  · intro s p ch t l c kont w r hr hI hmet hp hc hx hrest
    have hK := keyInv hfresh (fun _ _ hmet => hmet.2) hr
    exact hI.call hK hmet hp hc (key_step hc ((sound hstart hr).shaped hp hc) hx) hx hrest
  · intro s p t l x _ hI hmet hp
    refine hI.crash ?_
    have hcrash := hmet.1
    simp only [answered, hp] at hcrash
    simpa using hcrash
  · intro s o w _ hI _ hw
    have hidem : w.idem = s.world.idem := by cases o <;> cases hw <;> rfl
    refine ⟨hI.clean, fun q qr hq hne => ?_, hI.once, hI.single⟩
    have hmade := hI.made q qr hq hne
    unfold World.Holds at hmade ⊢
    rw [hidem]
    exact hmade

/-- A request that has responded has its response stored. -/
theorem responded_holds (hsat : ∀ p pr, s.proc p = some pr →
    Sat (Task.Calls env pr.task) (Task.Ends env pr.task) pr.log pr.todo)
    (hK : KeyInv k s) {pr : Process}
    {j : Json} (hp : Request k s p pr) (hj : pr.todo = .ret (.ok j)) :
    s.world.Holds k (pr.task.requestHash env) j := by
  have hend := hsat p pr hp.1
  rw [hj] at hend
  obtain ⟨row, hrem, hhash, rfl⟩ := Task.Ends.served hend hp.2
  rw [← hhash]
  exact hK.remembered p pr row hp.1 hrem

theorem onceOnly (hsat : ∀ p pr, s.proc p = some pr →
    Sat (Task.Calls env pr.task) (Task.Ends env pr.task) pr.log pr.todo) (hK : KeyInv k s)
    (hI : OnceInv env k s) : OnceOnly env k s := by
  have hholds : ∀ {p pr j}, Request k s p pr → pr.todo = .ret (.ok j) →
      s.world.Holds k (pr.task.requestHash env) j := responded_holds hsat hK
  -- what is made while a response is stored has the hash of that response
  have hmade : ∀ {p q pr qr j}, Request k s p pr → Request k s q qr → pr.todo = .ret (.ok j) →
      History.made qr.log ≠ [] → qr.task.requestHash env = pr.task.requestHash env := by
    intro p q pr qr j hp hq hj hne
    rcases hI.made q qr hq hne with hin | ⟨body, hheld⟩
    · exact absurd (hholds hp hj).taken (hK.free hin)
    · exact (hheld.unique (hholds hp hj)).1
  refine ⟨?_, ?_, ?_, ?_⟩
  · intro p q pr qr j j' hp hq hj hj'
    exact ((hholds hp hj).unique (hholds hq hj')).1
  · intro p q pr qr j hp hq hj hne
    have hnone : History.made qr.log = [] := by
      by_contra hq'
      exact hne (hmade hp hq hj hq')
    refine ⟨hnone, fun x hx => ?_⟩
    cases x with
    | ok j' => exact absurd ((hholds hq hx).unique (hholds hp hj)).1 hne
    | error e =>
      have hend := hsat q qr hq.1
      rw [hx] at hend
      rcases Task.Ends.refused hend hq.2 with hf | ⟨⟨m, rfl⟩, -⟩
      · exact absurd hf (hI.clean q qr hq).1
      · exact ⟨m, rfl⟩
  · intro p q pr qr hp hq x hx y hy
    have heq := hI.once p q pr qr hp hq (List.ne_nil_of_mem hx) (List.ne_nil_of_mem hy)
    subst heq
    obtain rfl := Option.some_inj.mp (hp.1.symm.trans hq.1)
    refine ⟨rfl, ?_⟩
    obtain ⟨z, hz⟩ := List.length_eq_one_iff.mp
      (le_antisymm (hI.single p pr hp) (List.length_pos_of_mem hx))
    rw [hz] at hx hy
    rw [List.mem_singleton.mp hx, List.mem_singleton.mp hy]
  · intro p q pr qr j j' hp hq hj hj'
    exact ((hholds hp hj).unique (hholds hq hj')).2

/-- A step keeps the stored response. -/
theorem holds_step (hstart : ∀ s, s = s₀ → Fresh s) (h : Reach (system env) ok (· = s₀) s)
    (hK : KeyInv k s) {s' : State} {lb : Step} (hstep : (system env).step s lb = some s')
    {hash : String} {body : Json} (hholds : s.world.Holds k hash body) :
    s'.world.Holds k hash body := by
  cases Machine.step_cases hstep with
  | spawn free => exact hholds
  | call at_call served =>
    have hc := (obeys hstart h at_call).1
    have hshaped := (sound hstart h).shaped at_call hc
    exact hK.holds at_call (key_step hc hshaped served) hholds
  | crash alive => exact hholds
  | @move o w moved => cases o <;> cases moved <;> exact hholds

/-- A request changes the orders or the outbox only as the first one to do so. -/
theorem first_change (hI : OnceInv env k s) (hK : KeyInv k s) (hs : Sound env s)
    (hp : s.proc p = some ⟨t, l, .call c kont, true⟩) (hk : t.key = some k) (hc : t.Calls env l c)
    (hx : exec env p c ch s.world = some (w, r)) (hmet : answered env k s (.step p ch) = true) :
    (w.orders = s.world.orders ∧ w.outbox = s.world.outbox) ∨
      (∀ q qr, Request k s q qr → History.made qr.log = []) ∧
        History.made (⟨c, r⟩ :: l) ≠ [] := by
  obtain ⟨w₁, heff, rfl⟩ := exec_effect (hs.shaped hp hc) hx
  obtain ⟨x, now, rfl⟩ := answered_reply hp hk hx hmet
  rcases heff.orders_outbox with hsame | ⟨d, rfl⟩ | ⟨id, rfl⟩ | ⟨id, u, rfl⟩ |
    ⟨rfl, tx, id, e, hmine, hab, hw⟩
  · exact Or.inl hsame
  · exact Or.inr ⟨fun q qr hq => hI.unmade hK hp hk hc trivial hq, List.cons_ne_nil _ _⟩
  · obtain ⟨rfl, -⟩ := hc.claim
    cases hk
  · rcases hc.outboxUpdate with ⟨rfl, -⟩ | ⟨argv, rfl, -⟩ <;> cases hk
  · refine Or.inr ⟨fun q qr hq => hI.unmade hK hp hk hc trivial hq, ?_⟩
    have htx : History.tx l = some tx := (hs.txOf hp).symm.trans hmine
    show ((History.tx l).elim [] History.events).map Sum.inr ++ History.made l ≠ []
    rw [htx]
    simp [History.events, hab, hw]

/-- In runs in which no request looks the key up in the window of another one and no request under
    the key fails, the key is served once: only the first change of the orders or the outbox by its
    requests takes place, and a stored response never changes. -/
theorem key_served_once (env : Env) (k : String × String) {s₀ s : State} (hfresh : Fresh s₀)
    (h : Reach (system env) (ServesAlone env k) (· = s₀) s) :
    OnceOnly env k s ∧
    (∀ p pr ch s', Request k s p pr → answered env k s (.step p ch) = true →
      (system env).step s (.step p ch) = some s' →
        (s'.world.orders = s.world.orders ∧ s'.world.outbox = s.world.outbox) ∨
          (∀ q qr, Request k s q qr → History.made qr.log = []) ∧
            ∃ pr', Request k s' p pr' ∧ History.made pr'.log ≠ []) ∧
    ∀ s', Reach (system env) (ServesAlone env k) (· = s) s' →
      ∀ hash body, s.world.Holds k hash body → s'.world.Holds k hash body := by
  have hstart : ∀ s, s = s₀ → Fresh s := fun _ heq => heq ▸ hfresh
  have hK : ∀ {s}, Reach (system env) (ServesAlone env k) (· = s₀) s → KeyInv k s :=
    keyInv hfresh fun _ _ hmet => hmet.2
  have hI := onceInv hfresh h
  refine ⟨onceOnly (fun p pr hp => obeys hstart h hp) (hK h) hI,
    ?_, fun s' hrun hash body hholds => ?_⟩
  · rintro p pr ch s' ⟨hp, hk⟩ hmet hstep
    cases Machine.step_cases hstep with
    | @call p ch t l c kont w r at_call served =>
      obtain rfl := Option.some_inj.mp (at_call.symm.trans hp)
      have hc := (obeys hstart h at_call).1
      refine (first_change hI (hK h) (sound hstart h) at_call hk hc served hmet).imp_right ?_
      rintro ⟨hnone, hmade⟩
      exact ⟨hnone, _, ⟨Pool.put_self _ _ _ _, hk⟩, hmade⟩
  · induction hrun with
    | start heq => exact heq ▸ hholds
    | next hr _ hstep ih => exact holds_step hstart (h.trans hr) (hK (h.trans hr)) hstep ih

end

/-! ## Two requests -/

open Platform in
def orderOf (amount : Decimal) : CreateOrderDto :=
  { userId := "user-1", merchantId := "shop-1", amount := number amount, currency := "USD" }

/-- A request for an order under the key "key-1". -/
def createUnder (p : Pid) (amount : Decimal) : Step :=
  .spawn p (.create (some "key-1") (orderOf amount))

open Platform in
/-- Requests 0 and 1 both look the key up before either has saved its response. -/
def overlappingRequests : List Step :=
  [createUnder 0 100, serve 0, createUnder 1 100, serve 1] ++ serves 0 2 ++ serves 1 2

/-- Both requests create an order. -/
theorem key_served_twice :
    ∃ s, Reach (system (platform id))
        (fun s lb => answered (platform id) ("key-1", createScope) s lb = true) (· = initial) s ∧
      s.world.orders.rows.length = 2 ∧ ¬ OnceOnly (platform id) ("key-1", createScope) s := by
  have hrun : (((system (platform id)).runChecked 2 (answered (platform id) ("key-1", createScope))
      initial overlappingRequests).map fun s => (s.world.orders.rows.length,
        (s.proc 0).any fun pr => pr.task.key == some ("key-1", createScope) &&
          !(History.made pr.log).isEmpty,
        (s.proc 1).any fun pr => pr.task.key == some ("key-1", createScope) &&
          !(History.made pr.log).isEmpty)) = some (2, true, true) := by decide +kernel
  obtain ⟨s, hs, heq⟩ := Option.map_eq_some_iff.mp hrun
  simp only [Prod.mk.injEq, Option.any_eq_true, Bool.and_eq_true, beq_iff_eq, Bool.not_eq_true',
    List.isEmpty_eq_false_iff] at heq
  obtain ⟨horders, ⟨pr, hp, hpk, hmade⟩, qr, hq, hqk, hmade'⟩ := heq
  refine ⟨s, (Check.of (answered (platform id) ("key-1", createScope))).reach hs
    (initial_below 2), horders,
    fun honce => ?_⟩
  obtain ⟨x, hx⟩ := List.exists_mem_of_ne_nil _ hmade
  obtain ⟨y, hy⟩ := List.exists_mem_of_ne_nil _ hmade'
  cases (honce.effect 0 1 pr qr ⟨hp, hpk⟩ ⟨hq, hqk⟩ x hx y hy).1

/-- The process that makes a step, and the key that it looks up with it. -/
def lookupOf (s : State) : Step → Option (Pid × String × String)
  | .step p _ =>
      match s.nextCall p with
      | some (.idem (.findUnique key scope)) => some (p, key, scope)
      | _ => none
  | _ => none

def looksUpAloneCheck (k : String × String) (n : Nat) : Check n (LooksUpAlone k) :=
  (Check.others lookupOf window rfl).imp fun s lb h => by
    cases lb with
    | step p ch =>
      intro hnext
      exact h p k (by simp only [lookupOf, hnext])
    | _ => trivial

open Platform in
/-- Request 1 repeats request 0 after its response is saved, request 2 has another body. -/
def successiveRequests : List Step :=
  createUnder 0 100 :: serves 0 3 ++ [createUnder 1 100, serve 1, createUnder 2 200, serve 2]

theorem key_served_once_run :
    ∃ s, Reach (system (platform id)) (ServesAlone (platform id) ("key-1", createScope)) (· =
      initial) s ∧
      s.world.orders.rows.length = 1 ∧ OnceOnly (platform id) ("key-1", createScope) s := by
  let check := (Check.of (answered (platform id) ("key-1", createScope))).and
    (looksUpAloneCheck ("key-1", createScope) 3)
  have hrun : (((system (platform id)).runChecked 3 check.test initial successiveRequests).map
      fun s => s.world.orders.rows.length) = some 1 := by decide +kernel
  obtain ⟨s, hs, horders⟩ := Option.map_eq_some_iff.mp hrun
  have hreach := check.reach hs (initial_below 3)
  exact ⟨s, hreach, horders, (key_served_once (platform id) _ initial_fresh hreach).1⟩

end CashbackLedger
