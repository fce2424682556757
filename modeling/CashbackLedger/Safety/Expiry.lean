import CashbackLedger.Protocol.Api
import CashbackLedger.Safety.Submitted

/-
  Stored responses and their expiry.

  `saveResponse` stores an `expiresAt`, the lookup does not read it: a request is answered from a
  stored response, or refused because of it, however old it is. Visited one after the other without
  failures, requests are treated as the expiry demands (`Honoured`) exactly when none of them looks
  up a response that has expired (`records_honoured`).
-/

namespace CashbackLedger

open Lib History

/-- A request that carries an Idempotency-Key. -/
inductive KeyedRequest where
  | create (key : String) (dto : CreateOrderDto)
  | confirm (key : String) (id : String)

namespace KeyedRequest

def key : KeyedRequest → String
  | create key _ => key
  | confirm key _ => key

def scope : KeyedRequest → String
  | create _ _ => createScope
  | confirm _ id => confirmScope id

def hash (env : Env) : KeyedRequest → String
  | create _ dto => createHash env dto
  | confirm _ id => confirmHash env id

/-- The message of the 409. -/
def rejection : KeyedRequest → String
  | create _ _ => "Idempotency-Key reused with different request body"
  | confirm _ _ => "Idempotency-Key reused with different request"

def program (env : Env) : KeyedRequest → Async Json
  | create key dto => createKeyed env key dto
  | confirm key id => confirmKeyed env key id

/-- What the request does on its own, with the time of its last call. -/
def operation (env : Env) : KeyedRequest → Async (Json × Time)
  | create _ dto => do
      let (created, now) ← awaitAt (.orders (.create dto.data))
      return (orderResponse env created, now)
  | confirm _ id => do
      let (resp, now) ← confirmAndOutbox env id
      return (resp.json, now)

/-- The operation, then its response is saved for a day. -/
def execute (env : Env) (r : KeyedRequest) : Async Json := do
  let (resp, now) ← r.operation env
  let _ ← saveResponse r.key r.scope (r.hash env) resp (some (24 * 3600)) now
  return resp

/-- The answer of a stored response, or the 409 because of it. -/
def answer (env : Env) (r : KeyedRequest) (row : IdempotencyKey) : Outcome :=
  if row.requestHash = r.hash env then .ok row.responseBody else .error (.conflict r.rejection)

end KeyedRequest

/-- Both handlers are one program: answer from what is stored, or execute. -/
theorem KeyedRequest.program_eq (env : Env) (r : KeyedRequest) :
    r.program env = (do
      match ← getCachedResponse r.key r.scope with
      | some row => MonadExcept.ofExcept (r.answer env row)
      | none => r.execute env) := by
  cases r with
  | create key dto =>
    refine congrArg (getCachedResponse key createScope >>= ·) (funext fun found => ?_)
    cases found with
    | none =>
      simp only [execute, operation, bind_assoc, pure_bind]
      rfl
    | some row =>
      by_cases hhash : row.requestHash = hashRequest env "POST" "/orders" (some dto.json)
      · simp [answer, hash, createHash, hhash, MonadExcept.ofExcept]
      · simp [answer, hash, createHash, hhash, MonadExcept.ofExcept, rejection]
  | confirm key id =>
    refine congrArg (getCachedResponse key (confirmScope id) >>= ·) (funext fun found => ?_)
    cases found with
    | none =>
      simp only [execute, operation, bind_assoc, pure_bind]
      rfl
    | some row =>
      by_cases hhash : row.requestHash = hashRequest env "POST" (confirmPath id) none
      · simp [answer, hash, confirmHash, hhash, MonadExcept.ofExcept]
      · simp [answer, hash, confirmHash, hhash, MonadExcept.ofExcept, rejection]

/-! ## One request after the other -/

/-- A request, the process that serves it and what happens beside it. -/
structure Visit where
  request : KeyedRequest
  p : Pid
  sur : Surroundings

/-- A request that has been served, with all its calls. -/
structure Visited where
  visit : Visit
  before : World
  after : World
  log : History
  outcome : Outcome

def Visit.serve (env : Env) (w : World) (v : Visit) : Option Visited :=
  (Prog.eval (recording (serveBeside env v.p v.sur)) ((w, 0), []) (v.request.program env).run).map
    fun x => { visit := v, before := w, after := x.1.1.1, log := x.1.2, outcome := x.2 }

/-- Serves requests in their order, up to one that waits for ever. -/
def serveInTurn (env : Env) (w : World) : List Visit → List Visited
  | [] => []
  | v :: visits =>
      match v.serve env w with
      | none => []
      | some x => x :: serveInTurn env x.after visits

/-! ## Expiry -/

/-- What is stored under a key and a scope. -/
def World.record (w : World) (key scope : String) : Option IdempotencyKey :=
  w.idem.find? fun r => r.key == key && r.scope == scope

/-- It has no `expiresAt`, or the time is before it. -/
def IdempotencyKey.Live (row : IdempotencyKey) (now : Time) : Prop :=
  ∀ e, row.expiresAt = some e → now < e

namespace Visited

/-- When the request comes to its lookup. -/
def time (x : Visited) : Time := x.before.clock + x.visit.sur.elapsed 0

/-- What is stored for the request when it comes. -/
def found (x : Visited) : Option IdempotencyKey :=
  x.before.record x.visit.request.key x.visit.request.scope

def lookup (x : Visited) : Σ c, Reply c :=
  ⟨.idem (.findUnique x.visit.request.key x.visit.request.scope), (.ok x.found, x.time)⟩

/-- It made no call but the lookup, and answered what is stored or 409 because of it. -/
structure FromRecord (env : Env) (x : Visited) (row : IdempotencyKey) : Prop where
  log : x.log = [x.lookup]
  outcome : x.outcome = x.visit.request.answer env row
  kept : x.after.idem = x.before.idem

/-- After the lookup it ran the operation; a response is stored with its hash and a new expiry, a
    day after a moment of the request. -/
structure Afresh (env : Env) (x : Visited) : Prop where
  ran : Ran (x.visit.request.execute env).run [x.lookup] x.log x.outcome
  saved : ∀ resp, x.outcome = .ok resp → ∃ now, x.time ≤ now ∧ now ≤ x.after.clock ∧
    x.after.record x.visit.request.key x.visit.request.scope = some
      { key := x.visit.request.key, scope := x.visit.request.scope,
        requestHash := x.visit.request.hash env, responseBody := resp,
        expiresAt := some (now + 24 * 3600 * 1000) }

/-- The request is treated as the record demands: a live one answers it, without one it is
    executed. -/
structure Honoured (env : Env) (x : Visited) : Prop where
  live : ∀ row, x.found = some row → row.Live x.time → x.FromRecord env row
  otherwise : (∀ row, x.found = some row → ¬ row.Live x.time) → x.Afresh env

end Visited

section

variable {env : Env} {r : KeyedRequest} {l l' : History}

/-! ## What is executed -/

/-- The last call was answered at this time. -/
def LastAt (l : History) (now : Time) : Prop := ∃ c res tail, l = ⟨c, (res, now)⟩ :: tail

theorem sat_operation : Sat (fun _ _ => True)
    (fun l' x => ∀ resp now, x = .ok (resp, now) → LastAt l' now) l (r.operation env).run := by
  cases r with
  | create key dto =>
    refine sat_awaitAt_bind trivial (fun o now => ?_) fun _ _ => nofun
    intro resp now' heq
    cases heq
    exact ⟨_, _, _, rfl⟩
  | confirm key id =>
    have hconfirm : Sat (fun _ _ => True)
        (fun l' x => ∀ resp now, x = .ok (resp, now) → LastAt l' now) l
          (confirmAndOutbox env id).run := by
      refine sat_transaction trivial (fun _ _ => nofun) fun now =>
        (sat_trivial _).post fun l' x _ => ?_
      cases x with
      | error e => exact ⟨trivial, fun _ => nofun⟩
      | ok resp =>
        refine ⟨trivial, fun now' resp' now'' heq => ?_, fun _ _ => ⟨trivial, fun _ => nofun⟩⟩
        cases heq
        exact ⟨_, _, _, rfl⟩
    refine Sat.act_bind hconfirm (fun l' y hy => ?_) fun _ _ _ => nofun
    obtain ⟨resp, now⟩ := y
    intro resp' now' heq
    cases heq
    exact hy resp now rfl

/-- What is saved for a request. -/
def KeyedRequest.saved (env : Env) (r : KeyedRequest) (resp : Json) (now : Time) : IdempotencyKey :=
  { key := r.key, scope := r.scope, requestHash := r.hash env, responseBody := resp,
    expiresAt := some (now + 24 * 3600 * 1000) }

/-- The response was saved last, right after the operation. -/
def SavedLast (env : Env) (r : KeyedRequest) (l : History) (resp : Json) : Prop :=
  ∃ now row now' tail, LastAt tail now ∧
    l = ⟨.idem (.upsert (r.saved env resp now)), (.ok row, now')⟩ :: tail

theorem sat_execute :
    Sat (fun _ _ => True) (fun l' x => ∀ resp, x = .ok resp → SavedLast env r l' resp) l
    (r.execute env).run := by
  refine Sat.act_bind sat_operation (fun l' y hy => ?_) fun _ _ _ => nofun
  obtain ⟨resp, now⟩ := y
  refine sat_await_bind trivial (fun row now' => ?_) fun _ _ => nofun
  intro resp' heq
  cases heq
  exact ⟨now, row, now', l', hy resp now rfl, rfl⟩

/-- Executing takes a call. -/
theorem ran_execute_ne {x : Outcome} : ¬ Ran (r.execute env).run l l x := by
  intro h
  obtain ⟨c, k, heq⟩ : ∃ c k, (r.execute env).run = .call c k := by
    cases r with
    | create key dto => exact ⟨_, _, rfl⟩
    | confirm key id => exact ⟨_, _, rfl⟩
  rw [heq] at h
  cases h with
  | call reply rest => exact absurd rest.suffix.length_le (by simp)

/-! ## What the calls leave -/

variable {p : Pid} {sur : Surroundings} {w w' w₁ : World} {t₀ : Time} {c : Call}

/-- A save that is not refused is what is found next. -/
theorem upsert_record {newId : Uuid} {row x : IdempotencyKey}
    (h : Call.run env p newId w (.idem (.upsert row)) = some (w₁, .ok x)) :
    w₁.record row.key row.scope = some row := by
  obtain ⟨⟨tbl, y⟩, hy, heq⟩ := Option.map_eq_some_iff.mp h
  cases heq
  simp only [IdemCall.run] at hy
  split at hy
  · split at hy
    · next hany =>
      cases hy
      unfold World.record
      dsimp only
      rw [Table.find?_modify (by exact fun _ => rfl)]
      cases hfind : w.idem.find? fun r => r.key == row.key && r.scope == row.scope with
      | none =>
        obtain ⟨row₀, hr, hk⟩ := Table.any_iff.mp hany
        rw [Table.find?_none hfind hr] at hk
        cases hk
      | some row₀ =>
        have hkey := Table.of_find? hfind
        rw [Option.map_some, if_pos hkey]
        simp only [Bool.and_eq_true, beq_iff_eq] at hkey
        rw [hkey.1, hkey.2]
    · next hany =>
      obtain ⟨t', ht, heq⟩ := Option.map_eq_some_iff.mp hy
      cases heq
      unfold World.record
      dsimp only
      rw [Table.find?_insert ht, if_pos (by simp)]
      cases hfind : w.idem.find? fun r => r.key == row.key && r.scope == row.scope with
      | none => rfl
      | some row₀ =>
        exact absurd (Table.any_iff.mpr ⟨row₀, Table.mem_of_find? hfind, Table.of_find? hfind⟩) hany
  · cases hy

/-- The log beside the world: all calls were answered since `t₀`, and a row that was saved last is
    what is found. -/
structure Booked (t₀ : Time) (y : (World × Nat) × History) : Prop where
  since : t₀ ≤ y.1.1.clock
  times : ∀ e ∈ y.2, t₀ ≤ e.2.2 ∧ e.2.2 ≤ y.1.1.clock
  saved : ∀ row x now tail, y.2 = ⟨.idem (.upsert row), (.ok x, now)⟩ :: tail →
    y.1.1.record row.key row.scope = some row

theorem booked_step {y y' : (World × Nat) × History} {res : Reply c} (h : Booked t₀ y)
    (hserve : recording (serveBeside env p sur) c y = some (y', res)) : Booked t₀ y' := by
  obtain ⟨z, hz, heq⟩ := Option.map_eq_some_iff.mp hserve
  cases heq
  obtain ⟨⟨w', res⟩, hexec, rfl⟩ := Option.map_eq_some_iff.mp hz
  obtain ⟨hclock, htime⟩ := exec_clock hexec
  have hlater : y.1.1.clock ≤ w'.clock := hclock ▸ Nat.le_add_right _ _
  refine ⟨h.since.trans hlater, fun e he => ?_, fun row x now tail heq => ?_⟩
  · rcases List.mem_cons.mp he with rfl | he
    · dsimp only
      rw [htime, ← hclock]
      exact ⟨h.since.trans hlater, le_rfl⟩
    · exact ⟨(h.times e he).1, (h.times e he).2.trans hlater⟩
  · cases heq
    obtain ⟨w₁, hrun, rfl⟩ := exec_run rfl hexec
    have hrecord := upsert_record hrun
    exact hrecord

theorem ends_execute {y : (World × Nat) × History} (h : Booked t₀ y) :
    Ends (recording (serveBeside env p sur)) True
      (fun y' o => Ran (r.execute env).run y.2 y'.2 o ∧ ∀ resp, o = .ok resp →
        ∃ now, t₀ ≤ now ∧ now ≤ y'.1.1.clock ∧
          y'.1.1.record r.key r.scope = some (r.saved env resp now)) y (r.execute env).run := by
  have hran := ends_ran (serveBeside env p sur) (r.execute env).run y.1 y.2
  have hstep : ∀ y c y' res, Booked t₀ y → recording (serveBeside env p sur) c y = some (y', res) →
      Booked t₀ y' := fun _ _ _ _ => booked_step
  have hbooked := ends_kept hstep h (r.execute env).run
  refine (hran.and hbooked).mono id fun y' o ⟨hran, hbooked⟩ => ⟨hran, fun resp hresp => ?_⟩
  obtain ⟨now, row, now', tail, ⟨c, res, tail', rfl⟩, hlog⟩ := sat_execute.ran hran resp hresp
  have htimes := hbooked.times ⟨c, (res, now)⟩ (by rw [hlog]; simp)
  exact ⟨now, htimes.1, htimes.2, hbooked.saved _ row now' _ hlog⟩

/-- How a keyed request is treated: by the code, whatever the record says about its expiry. -/
inductive Treated (env : Env) (x : Visited) : Prop where
  | fromRecord {row : IdempotencyKey} (found : x.found = some row) (h : x.FromRecord env row)
  | afresh (found : x.found = none) (h : x.Afresh env)

theorem ends_program (env : Env) (w : World) (v : Visit) :
    Ends (recording (serveBeside env v.p v.sur)) True
      (fun y o => Treated env ⟨v, w, y.1.1, y.2, o⟩) ((w, 0), []) (v.request.program env).run := by
  rw [KeyedRequest.program_eq]
  have hserve :
      serveBeside env v.p v.sur (.idem (.findUnique v.request.key v.request.scope)) (w, 0) =
      some (((v.sur.before 0 w).settle v.p (.idem (.findUnique v.request.key v.request.scope))
        (.ok (w.record v.request.key v.request.scope)), 1),
        (.ok (w.record v.request.key v.request.scope), (v.sur.before 0 w).clock)) :=
    serve_run (c := .idem _) (fun _ h => by cases h) rfl
  generalize hfound : w.record v.request.key v.request.scope = found at hserve
  refine ends_act_bind.mpr (ends_call.mpr ?_)
  rw [recording, hserve]
  dsimp only [Option.map_some]
  have hlookup : ∀ w' log o, (⟨v, w, w', log, o⟩ : Visited).lookup =
      ⟨.idem (.findUnique v.request.key v.request.scope),
        (.ok found, (v.sur.before 0 w).clock)⟩ := by
    intro w' log o
    rw [Visited.lookup, Visited.found, hfound]
    rfl
  cases found with
  | some row => exact ends_ret.mpr (ends_ofExcept (.fromRecord hfound ⟨by rw [hlookup], rfl, rfl⟩))
  | none =>
    refine ends_ret.mpr ((ends_execute ⟨le_refl (v.sur.before 0 w).clock, ?_, ?_⟩).mono id ?_)
    · intro e he
      rw [List.mem_singleton.mp he]
      exact ⟨le_rfl, le_rfl⟩
    · intro row x now tail heq
      cases heq
    · rintro y o ⟨hran, hsaved⟩
      refine .afresh hfound ⟨?_, hsaved⟩
      rw [hlookup]
      exact hran

end

/-- In a sequence of keyed requests, one after the other and without failures, a request is treated
    as the expiry of its record demands exactly when that record, if there is one, has not
    expired. -/
theorem record_honoured (env : Env) (w : World) (visits : List Visit) :
    ∀ x ∈ serveInTurn env w visits,
      (x.Honoured env ↔ ∀ row, x.found = some row → row.Live x.time) := by
  have htreated : ∀ x ∈ serveInTurn env w visits, Treated env x := by
    induction visits generalizing w with
    | nil => exact fun _ h => absurd h List.not_mem_nil
    | cons v visits ih =>
      intro x hx
      rw [serveInTurn] at hx
      split at hx
      · cases hx
      · next x₀ hserve =>
        rcases List.mem_cons.mp hx with rfl | hx
        · obtain ⟨⟨y, o⟩, heval, rfl⟩ := Option.map_eq_some_iff.mp hserve
          exact (ends_program env w v).eval heval
        · exact ih _ x hx
  intro x hx
  cases htreated x hx with
  | fromRecord found h =>
    constructor
    · intro honoured row hrow
      by_contra hlive
      have hafresh := honoured.otherwise fun row' hrow' => by
        rw [hrow, Option.some_inj] at hrow'
        exact hrow' ▸ hlive
      have hran := hafresh.ran
      rw [h.log] at hran
      exact ran_execute_ne hran
    · intro hlive
      refine ⟨fun row hrow _ => ?_, fun hdead => absurd (hlive _ found) (hdead _ found)⟩
      rw [found, Option.some_inj] at hrow
      exact hrow ▸ h
  | afresh found h =>
    refine iff_of_true ⟨fun row hrow => ?_, fun _ => h⟩ fun row hrow => ?_
    · rw [found] at hrow
      cases hrow
    · rw [found] at hrow
      cases hrow

/-- The calls of a request that was executed go beyond its lookup. -/
theorem Visited.Afresh.length {env : Env} {x : Visited} (h : x.Afresh env) : 1 < x.log.length := by
  obtain ⟨front, hlog⟩ := h.ran.suffix
  rw [← hlog, List.length_append, List.length_singleton]
  refine Nat.lt_add_of_pos_left (List.length_pos_iff.mpr fun hnil => ?_)
  have hran := h.ran
  rw [← hlog, hnil] at hran
  exact ran_execute_ne hran

/-- A request of process 0 with the key `key-1`, `ms` after the one before it. -/
def keyed (ms : Time) (amount : Decimal) : Visit where
  request := .create "key-1" (orderWith (Platform.number amount))
  p := 0
  sur := { alone with elapsed := fun n => if n = 0 then ms else 0 }

/-- What the record says when the request comes, when it comes, how many calls it makes, and whether
    it succeeds. -/
def Visited.summary (x : Visited) : Option (Option Time) × Time × Nat × Bool :=
  (x.found.map IdempotencyKey.expiresAt, x.time, x.log.length, x.outcome.isOk)

/-- 25 hours later the expired record still answers the same request, and refuses another one. -/
theorem expired_record_answers :
    (serveInTurn (platform id) .empty
      [keyed 0 100, keyed 90000000 100, keyed 0 200]).map Visited.summary =
        [(none, 0, 3, true), (some (some 86400000), 90000000, 1, true),
          (some (some 86400000), 90000000, 1, false)] ∧
      ¬ ∀ x ∈ serveInTurn (platform id) .empty [keyed 0 100, keyed 90000000 100, keyed 0 200],
        x.Honoured (platform id) := by
  have hrun : (serveInTurn (platform id) .empty [keyed 0 100, keyed 90000000 100, keyed 0 200]).map
      Visited.summary = [(none, 0, 3, true), (some (some 86400000), 90000000, 1, true),
        (some (some 86400000), 90000000, 1, false)] := by decide +kernel
  refine ⟨hrun, fun honoured => ?_⟩
  have hmem : (some (some 86400000), 90000000, 1, true) ∈ (serveInTurn (platform id) .empty
      [keyed 0 100, keyed 90000000 100, keyed 0 200]).map Visited.summary := by
    rw [hrun]
    simp
  obtain ⟨x, hx, hsummary⟩ := List.mem_map.mp hmem
  simp only [Visited.summary, Prod.mk.injEq, Option.map_eq_some_iff] at hsummary
  obtain ⟨⟨row, hfound, hexpiry⟩, htime, hlength, -⟩ := hsummary
  have hafresh := (honoured x hx).otherwise fun row' hrow' hlive => by
    rw [hfound, Option.some_inj] at hrow'
    subst hrow'
    have hlt := hlive _ hexpiry
    rw [htime] at hlt
    exact absurd hlt (by decide)
  exact absurd hafresh.length (by rw [hlength]; decide)

/-- 23 hours later the record is alive. -/
theorem record_honoured_in_time :
    ∃ x ∈ serveInTurn (platform id) .empty [keyed 0 100, keyed 82800000 100],
      x.summary = (some (some 86400000), 82800000, 1, true) ∧ x.Honoured (platform id) := by
  have hrun :
      (serveInTurn (platform id) .empty [keyed 0 100, keyed 82800000 100]).map Visited.summary =
      [(none, 0, 3, true), (some (some 86400000), 82800000, 1, true)] := by decide +kernel
  have hmem : (some (some 86400000), 82800000, 1, true) ∈ (serveInTurn (platform id) .empty
      [keyed 0 100, keyed 82800000 100]).map Visited.summary := by
    rw [hrun]
    simp
  obtain ⟨x, hx, hsummary⟩ := List.mem_map.mp hmem
  refine ⟨x, hx, hsummary, (record_honoured (platform id) .empty _ x hx).mpr
    fun row hrow e he => ?_⟩
  simp only [Visited.summary, hrow, Option.map_some, he, Prod.mk.injEq, Option.some_inj] at hsummary
  rw [hsummary.1, hsummary.2.1]
  decide

end CashbackLedger
