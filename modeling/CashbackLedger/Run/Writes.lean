import CashbackLedger.Safety.Handled

/-
  What open transactions are about to write.

  A call adds to the writes of its own transaction only, and only what its statement answered
  (`writes_exec`). A row that is about to be written has the id the statement was given and the time
  of that statement.
-/

namespace CashbackLedger

open Lib History

/-- The open transaction of the process writes this. -/
def World.Writes (w : World) (p : Pid) (x : TxWrite) : Prop :=
  ∃ tx, w.txOf p = some tx ∧ x ∈ tx.writes

/-- The call was a statement that writes this. -/
inductive Wrote : (c : Call) → Reply c → TxWrite → Prop where
  | intro {st : TxStmt} {a : st.Result} {now : Time} {x : TxWrite} (written : x ∈ st.write a) :
      Wrote (.tx (.stmt st)) (.ok a, now) x

section

variable {env : Env} {p q : Pid} {ch : Choice} {w w' : World} {c : Call} {r : Reply c} {x : TxWrite}

theorem World.Writes.of_killed (h : (w.setTx p none).Writes q x) : w.Writes q x := by
  obtain ⟨tx, htx, hx⟩ := h
  rw [World.txOf_setTx] at htx
  split at htx
  · cases htx
  · exact ⟨tx, htx, hx⟩

/-- What a transaction writes after a call it wrote before, or the call has added it. -/
theorem writes_exec (hs : CommitsShaped p w c) (h : exec env p c ch w = some (w', r))
    (hx : w'.Writes q x) : w.Writes q x ∨ q = p ∧ Wrote c r x := by
  obtain ⟨tx, htx, hmem⟩ := hx
  rw [exec_txOf hs h] at htx
  split at htx
  · next hq =>
    subst hq
    cases c with
    | tx c =>
      obtain ⟨r, now⟩ := r
      cases c with
      | begin =>
        cases r <;> cases htx
        exact absurd hmem List.not_mem_nil
      | commit => cases htx
      | rollback => cases htx
      | stmt st =>
        cases r with
        | error err =>
          obtain ⟨tx₀, htx₀, rfl⟩ := Option.map_eq_some_iff.mp htx
          exact Or.inl ⟨tx₀, htx₀, hmem⟩
        | ok a =>
          obtain ⟨tx₀, htx₀, rfl⟩ := Option.map_eq_some_iff.mp htx
          exact (List.mem_append.mp hmem).imp (fun hold => ⟨tx₀, htx₀, hold⟩) fun hnew =>
            ⟨rfl, .intro hnew⟩
    | _ => exact Or.inl ⟨tx, htx, hmem⟩
  · exact Or.inl ⟨tx, htx, hmem⟩

/-- A statement that was answered has run. -/
theorem stmt_run {st : TxStmt} {a : st.Result} {now : Time}
    (h : exec env p (.tx (.stmt st)) ch w = some (w', (.ok a, now))) :
    st.run env p ch.newId w = some (.ok a) := by
  obtain ⟨m, hm⟩ | ⟨w₁, hrun, -⟩ := exec_reply h
  · cases hm
  simp only [Call.run, TxCall.run] at hrun
  split at hrun
  · cases hrun
  split at hrun
  · cases hrun
  obtain ⟨y, hy, heq⟩ := Option.map_eq_some_iff.mp hrun
  cases heq
  exact hy

theorem Wrote.ledger {e : LedgerEntry} (hx : Wrote c r (.ledger e))
    (h : exec env p c ch w = some (w', r)) : e.id = ch.newId := by
  cases hx with
  | @intro st a now _ written =>
    cases st with
    | ledgerCreate d =>
      cases List.mem_singleton.mp written
      exact (exec_created (got_head _ _ _) h).1
    | orderUpdate id status => cases List.mem_singleton.mp written
    | outboxCreate d => cases List.mem_singleton.mp written
    | _ => exact absurd written List.not_mem_nil

/-- A new event: it has not been sent, and becomes due at once. -/
theorem Wrote.outbox {e : OutboxEvent} (hx : Wrote c r (.outbox e))
    (h : exec env p c ch w = some (w', r)) :
    e.id = ch.newId ∧ e.createdAt = w.clock ∧ e.availableAt = w.clock ∧
      e.sentAt = none ∧ e.status = .PENDING := by
  cases hx with
  | @intro st a now _ written =>
    cases st with
    | outboxCreate d =>
      cases List.mem_singleton.mp written
      have hrun := stmt_run h
      unfold TxStmt.run at hrun
      dsimp only at hrun
      split at hrun
      · cases hrun
      split at hrun
      · cases hrun
        exact ⟨rfl, rfl, rfl, rfl, rfl⟩
      · cases hrun
    | orderUpdate id status => cases List.mem_singleton.mp written
    | ledgerCreate d => cases List.mem_singleton.mp written
    | _ => exact absurd written List.not_mem_nil

end

end CashbackLedger
