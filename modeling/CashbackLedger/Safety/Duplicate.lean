import CashbackLedger.Model.Platform
import CashbackLedger.Safety.Knowledge

/-
  Crediting an order a second time.

  The handler catches the unique violation of its insert and asks for the existing entry in the
  same transaction. PostgreSQL has aborted that transaction, so the question fails and the
  handler throws: on an order that is already credited it never returns, whatever the rule, the
  cache and the failures of its calls (`repeat_throws`).
-/

namespace CashbackLedger

open Lib History

/-- Serves the calls of `p` one after the other, no one else taking a step. -/
def serveAlone (env : Env) (p : Pid) (ch : Nat → Choice) (c : Call) (x : World × Nat) :
    Option ((World × Nat) × Reply c) :=
  (exec env p c (ch x.2) x.1).map fun y => ((y.1, x.2 + 1), y.2)

/-- Runs an async function alone from the world `w`. -/
def runAlone {α : Type} (env : Env) (p : Pid) (ch : Nat → Choice) (w : World) (x : Async α) :
    Option ((World × Nat) × Except Fault α) :=
  Prog.eval (serveAlone env p ch) (w, 0) x.run

/-- The handler returns normally, reports the existing entry and leaves the ledger as it is. -/
def ReportsExisting (env : Env) (p : Pid) (ch : Nat → Choice) (w : World)
    (handler : Async (CreditResult × Time)) (entry : LedgerEntry) : Prop :=
  ∃ w' n res now, runAlone env p ch w handler = some ((w', n), .ok (res, now)) ∧
    res.credited = false ∧ res.ledgerEntryId = some entry.id ∧ res.amount = entry.amount ∧
    res.currency = entry.currency ∧ w'.ledger = w.ledger

section

variable {env : Env} {p : Pid} {ch : Nat → Choice} {w : World} {o : Order} {x : Option Json}

/-- The log of a run in which the entry of `id` was never made. -/
def NotCredited (l : History) (id : Uuid) : Prop :=
  ∀ d entry, Got l (.stmt (.ledgerCreate d)) entry → ¬ (d.orderId = id ∧ d.type = .CREDIT)

/-- The insert of an entry that exists is refused. -/
theorem ledgerCreate_refused {ch : Choice} {w w' : World} {d : LedgerData}
    {r : Reply (.stmt (.ledgerCreate d))} {entry : LedgerEntry} (he : entry ∈ w.ledger)
    (hid : entry.orderId = d.orderId) (htype : entry.type = d.type)
    (h : exec env p (.stmt (.ledgerCreate d)) ch w = some (w', r)) : ∃ e, r.1 = .error e := by
  have hany : (w.ledger.any fun e => e.orderId == d.orderId && e.type == d.type) = true :=
    Table.any_iff.mpr ⟨entry, he, by simp [hid, htype]⟩
  rcases exec_reply h with ⟨m, hm⟩ | ⟨w₁, hrun, -⟩
  · exact ⟨_, hm⟩
  · simp only [Call.run, TxCall.run] at hrun
    split at hrun
    · exact ⟨_, (congrArg Prod.snd (Option.some_inj.mp hrun)).symm⟩
    split at hrun
    · exact ⟨_, (congrArg Prod.snd (Option.some_inj.mp hrun)).symm⟩
    · obtain ⟨y, hy, heq⟩ := Option.map_eq_some_iff.mp hrun
      have hr : y = r.1 := congrArg Prod.snd heq
      unfold TxStmt.run at hy
      dsimp only at hy
      rw [← hr]
      split at hy
      · exact ⟨_, (Option.some_inj.mp hy).symm⟩
      split at hy
      · exact ⟨_, (Option.some_inj.mp hy).symm⟩
      split at hy
      · cases hy
      split at hy
      · cases hy
      · exact ⟨_, (Option.some_inj.mp hy).symm⟩

/-- What relates the world to the log while the handler runs alone on a credited order. -/
structure RunsOnCredited (env : Env) (p : Pid) (o : Order) (ledger : Table LedgerEntry)
    (x : World × Nat) (l : History) : Prop where
  log : LogSound env x.1 l
  tx : x.1.txOf p = l.tx
  same : x.1.ledger = ledger
  never : NotCredited l o.id

theorem FoundConfirmed.id_eq {l : History} {o' : Order} (hl : LogSound env w l)
    (hx : readId env x = some o.id) (h : FoundConfirmed l x o') : o'.id = o.id := by
  obtain ⟨_, -, hid⟩ := hl.got h.1
  exact (Option.some_inj.mp (hx.symm.trans hid)).symm

theorem RunsOnCredited.step {entry : LedgerEntry} {ledger : Table LedgerEntry} {y y' : World × Nat}
    {l : History} {c : Call} {r : Reply c} (hx : readId env x = some o.id) (he : entry ∈ ledger)
    (horder : entry.orderId = o.id) (htype : entry.type = .CREDIT)
    (h : RunsOnCredited env p o ledger y l) (hc : HandlerCall x l c)
    (hs : serveAlone env p ch c y = some (y', r)) :
    RunsOnCredited env p o ledger y' (⟨c, r⟩ :: l) := by
  obtain ⟨⟨w', r'⟩, hexec, heq⟩ := Option.map_eq_some_iff.mp hs
  cases heq
  have hshaped : CommitsShaped p y.1 c := by
    rintro rfl tx htx hab
    exact CommitKind.shaped h.log (hc.commit (h.tx ▸ htx) hab)
  obtain ⟨w₁, heff, hw'⟩ := exec_effect hshaped hexec
  refine ⟨⟨exec_fact hshaped h.tx hexec, exec_answered h.tx hexec,
    h.log.mono (exec_extends hshaped hexec)⟩, ?_, ?_, ?_⟩
  · show World.txOf w' p = _
    rw [exec_txOf hshaped hexec p, if_pos rfl, h.tx]
    rfl
  · rcases heff.ledger_eq with hsame | ⟨rfl, tx, e, htx, hab, -⟩
    · show w'.ledger = ledger
      rw [hw', ← h.same, ← hsame]
      rfl
    · obtain ⟨o', cashback, entry', hf, hg, -⟩ := hc tx (h.tx ▸ htx) hab
      exact absurd ⟨hf.id_eq h.log hx, rfl⟩ (h.never _ _ hg)
  · rintro d entry' ⟨now, hm⟩ ⟨hid, hd⟩
    rcases List.mem_cons.mp hm with heq | hm
    · cases heq
      have he' : entry ∈ y.1.ledger := h.same ▸ he
      obtain ⟨err, herr⟩ :=
        ledgerCreate_refused he' (horder.trans hid.symm) (htype.trans hd.symm) hexec
      cases herr
    · exact h.never d entry' ⟨now, hm⟩ ⟨hid, hd⟩

/-- A handler on a credited order throws and leaves the ledger as it is. -/
theorem credited_throws {handler : Async (CreditResult × Time)} {entry : LedgerEntry}
    {w' : World} {n : Nat} {r : Except Fault (CreditResult × Time)}
    (hsat : Sat (HandlerCall x) (HandlerEnd x []) [] handler.run) (hp : w.txOf p = none)
    (hx : readId env x = some o.id) (he : entry ∈ w.ledger) (horder : entry.orderId = o.id)
    (htype : entry.type = .CREDIT) (h : runAlone env p ch w handler = some ((w', n), r)) :
    (∃ e, r = .error e) ∧ w'.ledger = w.ledger := by
  have hstart : RunsOnCredited env p o w.ledger (w, 0) [] :=
    ⟨trivial, hp, rfl, fun _ _ ⟨_, hm⟩ => absurd hm List.not_mem_nil⟩
  obtain ⟨l', hend, hrun⟩ := hsat.eval hstart
    (fun y l c y' r hI hc hs => hI.step hx he horder htype hc hs) h
  refine ⟨?_, hrun.same⟩
  cases r with
  | error e => exact ⟨e, rfl⟩
  | ok res =>
    obtain ⟨o', hf, cashback, entry', now, l'', hsuffix, -, hg⟩ := Credited.committed hrun.log hend
    have hid := hf.id_eq hrun.log hx
    exact absurd ⟨hid, rfl⟩ (hrun.never _ _ ((hg.cons _).mono hsuffix))

/-- On an order that is credited neither handler returns normally, so neither ever reports the
    existing entry: each call throws. -/
theorem repeat_throws (env : Env) (p : Pid) (ch : Nat → Choice) (w : World) (x : Option Json)
    (o : Order) (entry : LedgerEntry) (hp : w.txOf p = none) (_ho : o ∈ w.orders)
    (_hstatus : o.status = .CONFIRMED) (hx : readId env x = some o.id) (he : entry ∈ w.ledger)
    (horder : entry.orderId = o.id) (htype : entry.type = .CREDIT) :
    ∀ handler ∈ [processOrderConfirmed env x, domainProcessOrderConfirmed env x],
      ¬ ReportsExisting env p ch w handler entry ∧
      ∀ w' n r, runAlone env p ch w handler = some ((w', n), r) →
        (∃ e, r = .error e) ∧ w'.ledger = w.ledger := by
  intro handler hmem
  have hsat : Sat (HandlerCall x) (HandlerEnd x []) [] handler.run := by
    rcases List.mem_cons.mp hmem with rfl | hmem
    · exact sat_processOrderConfirmed env x
    · rw [List.mem_singleton.mp hmem]
      exact sat_domainProcessOrderConfirmed env x
  have hthrows : ∀ w' n r, runAlone env p ch w handler = some ((w', n), r) →
      (∃ e, r = .error e) ∧ w'.ledger = w.ledger :=
    fun _ _ _ => credited_throws hsat hp hx he horder htype
  refine ⟨?_, hthrows⟩
  rintro ⟨w', n, res, now, hrun, -⟩
  obtain ⟨⟨e, heq⟩, -⟩ := hthrows w' n _ hrun
  cases heq

end

/-! ## One credited order -/

/-- What a call threw. -/
def thrown {α : Type} : Except Fault α → Option Fault
  | .ok _ => none
  | .error e => some e

def confirmedOrder : Order :=
  { id := Platform.uuid 1, userId := "user-1", merchantId := "shop-1", amount := 100,
    currency := "USD", status := .CONFIRMED, createdAt := 0 }

/-- The entry the default rule gives `confirmedOrder`. -/
def creditEntry : LedgerEntry :=
  { id := Platform.uuid 2, userId := "user-1", orderId := Platform.uuid 1, type := .CREDIT,
    amount := 5, currency := "USD" }

/-- One confirmed order with its entry, nothing else. -/
def creditedWorld : World :=
  { World.empty with
    orders := ⟨[confirmedOrder], List.pairwise_singleton _ _⟩
    ledger := ⟨[creditEntry], List.pairwise_singleton _ _⟩ }

/-- Every call succeeds. -/
def allServed (n : Nat) : Choice := { fate := .ok, newId := Platform.uuid (100 + n) }

/-- The question for the existing entry meets the aborted transaction. -/
theorem repeat_meets_abort :
    confirmedOrder ∈ creditedWorld.orders ∧ confirmedOrder.status = .CONFIRMED ∧
    creditEntry ∈ creditedWorld.ledger ∧ creditEntry.orderId = confirmedOrder.id ∧
    creditEntry.type = .CREDIT ∧
    ∀ handler ∈ [processOrderConfirmed (platform id) (some (.str confirmedOrder.id.text)),
        domainProcessOrderConfirmed (platform id) (some (.str confirmedOrder.id.text))],
      (runAlone (platform id) 0 allServed creditedWorld handler).map (fun y => thrown y.2) =
        some (some .transactionAborted) ∧
      ¬ ReportsExisting (platform id) 0 allServed creditedWorld handler creditEntry := by
  refine ⟨List.mem_singleton_self _, rfl, List.mem_singleton_self _, rfl, rfl, ?_⟩
  have hthrown : ∀ handler : Async (CreditResult × Time),
      (runAlone (platform id) 0 allServed creditedWorld handler).map (fun y => thrown y.2) =
        some (some .transactionAborted) →
      ¬ ReportsExisting (platform id) 0 allServed creditedWorld handler creditEntry := by
    rintro handler h ⟨w', n, res, now, hrun, -⟩
    rw [hrun] at h
    cases h
  have hworker : (runAlone (platform id) 0 allServed creditedWorld
      (processOrderConfirmed (platform id) (some (.str confirmedOrder.id.text)))).map
        (fun y => thrown y.2) = some (some .transactionAborted) := by decide +kernel
  have hdomain : (runAlone (platform id) 0 allServed creditedWorld
      (domainProcessOrderConfirmed (platform id) (some (.str confirmedOrder.id.text)))).map
        (fun y => thrown y.2) = some (some .transactionAborted) := by decide +kernel
  intro handler hmem
  rcases List.mem_cons.mp hmem with rfl | hmem
  · exact ⟨hworker, hthrown _ hworker⟩
  · rw [List.mem_singleton.mp hmem]
    exact ⟨hdomain, hthrown _ hdomain⟩

theorem repeat_throws_worker :
    ¬ ReportsExisting (platform id) 0 allServed creditedWorld
      (processOrderConfirmed (platform id) (some (.str confirmedOrder.id.text))) creditEntry :=
  (repeat_throws (platform id) 0 allServed creditedWorld (some (.str confirmedOrder.id.text))
    confirmedOrder creditEntry rfl (List.mem_singleton_self _) rfl
    ((platform id).readUuid_text confirmedOrder.id) (List.mem_singleton_self _) rfl rfl _
    List.mem_cons_self).1

end CashbackLedger
