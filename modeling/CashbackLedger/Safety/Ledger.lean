import CashbackLedger.Protocol.Payload
import CashbackLedger.Safety.Runs

/-
  No double credit and no forged credit.

  `Backed` ties each CREDIT entry to a confirmed order: the entry is made from the order that
  its transaction has read, and neither the order's fields nor its confirmation are ever undone.
  That the entries depend on no payload field but `orderId` is the lockstep of
  `Protocol.Payload`, read at the ledger.
-/

namespace CashbackLedger

open Lib History

/-- The entry credits the user of the order in the order's currency. -/
structure CreditOf (e : LedgerEntry) (o : Order) : Prop where
  orderId : e.orderId = o.id
  userId : e.userId = o.userId
  currency : e.currency = o.currency

/-- The order of the entry is stored and confirmed. -/
def Backed (w : World) (e : LedgerEntry) : Prop :=
  ∃ o ∈ w.orders, o.status = .CONFIRMED ∧ CreditOf e o

section

variable {env : Env} {ok : State → Step → Prop} {s : State} {w w' : World} {e : LedgerEntry}
  {l : History}

theorem CreditOf.of_core {o o' : Order} (h : CreditOf e o) (hc : o'.core = o.core) :
    CreditOf e o' := by
  obtain ⟨hid, huser, -, -, hcurrency, -⟩ := Order.of_core hc
  exact ⟨h.orderId.trans hid.symm, h.userId.trans huser.symm, h.currency.trans hcurrency.symm⟩

theorem Backed.mono (h : Backed w e) (hw : w.Extends w') : Backed w' e := by
  obtain ⟨o, ho, hstatus, hcredit⟩ := h
  obtain ⟨o', ho', hcore, hstatus'⟩ := hw.orders o ho
  exact ⟨o', ho', hstatus' hstatus, hcredit.of_core hcore⟩

/-- What a transaction commits to the ledger credits an order it has found confirmed. -/
theorem CommitKind.backed (hl : LogSound env w l) (h : CommitKind env l [.ledger e]) :
    Backed w e := by
  generalize hws : [TxWrite.ledger e] = ws at h
  cases h with
  | nothing => cases hws
  | confirm made => cases hws
  | @credit x o cashback entry found made =>
    cases hws
    obtain ⟨_, ⟨o', ho', hcore, hstatus⟩, -⟩ := hl.got found.1
    obtain ⟨_, huser, hid, -, -, hcurrency⟩ := hl.got made
    exact ⟨o', ho', hstatus found.2, CreditOf.of_core ⟨hid, huser, hcurrency⟩ hcore⟩

theorem backed (h : Reach (system env) ok (· = initial) s) :
    ∀ e ∈ s.world.ledger, Backed s.world e := by
  refine world_invariant (I := fun w => ∀ e ∈ w.ledger, Backed w e) fresh_of_initial ?_ ?_ ?_ ?_ h
  · rintro s rfl e he
    exact absurd he (Table.not_mem_empty e)
  · exact fun w p tx hI => hI
  · intro s p ch t l c k w _ hI _ _ hl htx hc hstep e he
    rcases hstep.ledger_origin he with he | ⟨rfl, tx, hmine, hab, hw⟩
    · exact (hI e he).mono hstep.grows
    · have hkind := hc.commit (htx ▸ hmine) hab
      rw [hw] at hkind
      exact (hkind.backed hl).mono hstep.grows
  · intro s o w hI _ hw e he
    cases o <;> cases hw <;> exact hI e he

/-- The start is like itself. -/
theorem initial_alike : initial.Alike masked initial := ⟨rfl, fun _ => .none⟩

/-- No double credit and no forged credit: in every reachable state an order has at most one
    CREDIT entry, each CREDIT entry has the user and the currency of a confirmed order, a step
    keeps every entry, and runs whose delivered messages differ in payload fields other than
    `orderId`, as they were produced or by the way they are handed over, end with one ledger. -/
theorem credits_are_genuine (env : Env) {s : State}
    (h : Reach (system env) anyStep (· = initial) s) :
    (∀ id, (s.world.ledger.rows.filter fun e => e.orderId == id && e.type == .CREDIT).length ≤ 1) ∧
    (∀ e ∈ s.world.ledger, e.type = .CREDIT →
      ∃ o ∈ s.world.orders, o.status = .CONFIRMED ∧ CreditOf e o) ∧
    (∀ lb s', (system env).step s lb = some s' → ∀ e ∈ s.world.ledger, e ∈ s'.world.ledger) ∧
    ∀ ls ls', List.Forall₂ (Label.Alike masked.move) ls ls' →
      ((system env).run initial ls).map (fun s => s.world.ledger) =
        ((system env).run initial ls').map (fun s => s.world.ledger) ∧
      ∀ net : Pid → KafkaMessage → KafkaMessage, (∀ p m, (net p m).mask = m.mask) →
        ((system env).run initial ls).map (fun s => s.world.ledger) =
          ((altered env net).run initial ls').map fun s => s.world.ledger := by
  have hledger : ∀ w w' : World, masked.world w w' → w.ledger = w'.ledger := fun w w' hw => by
    have h : w.mask.ledger = w'.mask.ledger := congrArg World.ledger hw
    exact h
  have halike : ∀ ls ls', List.Forall₂ (Label.Alike masked.move) ls ls' →
      ∀ net : Pid → KafkaMessage → KafkaMessage, (∀ p m, (net p m).mask = m.mask) →
        ((system env).run initial ls).map (fun s => s.world.ledger) =
          ((altered env net).run initial ls').map fun s => s.world.ledger :=
    fun ls ls' hls net hnet => (system_lockstep env hnet).run_eq initial_alike hls hledger
  refine ⟨fun id => ?_, fun e he _ => backed h e he, fun lb s' hstep => ?_, fun ls ls' hls => ?_⟩
  · refine s.world.ledger.length_filter_le_one fun a b ha hb => ?_
    simp only [Bool.and_eq_true, beq_iff_eq] at ha hb
    simp [Indexed.clash, ha, hb]
  · exact (step_extends fresh_of_initial h hstep).ledger
  · refine ⟨?_, halike ls ls' hls⟩
    have hid := halike ls ls' hls (fun _ m => m) fun _ _ => rfl
    rw [altered_id] at hid
    exact hid

open Platform in
/-- An order is confirmed, its event published and delivered. -/
def creditOnce : List Step :=
  createAndConfirm ++ publishEvent ++ .spawn 3 (.consume 0) :: serves 3 13

/-- The order is credited, and it is the same when the topic strips all payloads it hands over. -/
theorem credits_are_genuine_run :
    ∃ s, (system (platform id)).run initial creditOnce = some s ∧
      (∃ e ∈ s.world.ledger, ∃ o ∈ s.world.orders, o.status = .CONFIRMED ∧ CreditOf e o) ∧
      ((altered (platform id) fun _ m => m.mask).run initial creditOnce).map
        (fun s => s.world.ledger) =
        some s.world.ledger := by
  have hrun : (((system (platform id)).run initial creditOnce).map fun s =>
      s.world.ledger.rows.any fun e => e.type == .CREDIT) = some true := by decide +kernel
  obtain ⟨s, hs, hany⟩ := Option.map_eq_some_iff.mp hrun
  obtain ⟨e, he, htype⟩ := List.any_eq_true.mp hany
  obtain ⟨-, hbacked, -, htwo⟩ := credits_are_genuine (platform id) (reach_of_run hs)
  have hmove : ∀ x, masked.move x x := fun _ => rfl
  have hlabels := List.forall₂_same.mpr fun lb (_ : lb ∈ creditOnce) => Label.Alike.refl hmove lb
  have hsame := (htwo creditOnce creditOnce hlabels).2 (fun _ m => m.mask) fun _ m => m.mask_mask
  rw [hs] at hsame
  exact ⟨s, hs, ⟨e, he, hbacked e he (by simpa using htype)⟩, hsame.symm⟩

end

end CashbackLedger
