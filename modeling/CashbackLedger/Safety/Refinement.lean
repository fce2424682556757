import CashbackLedger.Lib.Simulation
import CashbackLedger.Safety.PaidRule
import CashbackLedger.Spec.Books

/-
  The system keeps the books of `Spec.Books`.

  `Represents w b` reads the orders and the ledger of a world as books: an account is a user with a
  currency, a purchase is an order, a credit is a CREDIT entry. Where only valid requests are sent,
  every step of the system, whoever takes it and whatever fails, is one step of the books or none
  (`represents_step`): an order is placed by its insert, confirmed and credited by a commit. The
  credit of an order fits it because every rule a process is told is valid.
-/

namespace CashbackLedger

open Lib History Relation

/-- A user with a currency. -/
abbrev Account : Type := String × String

abbrev CashbackBooks : Type := Books Uuid Account Decimal

def Order.account (o : Order) : Account := (o.userId, o.currency)

def LedgerEntry.account (e : LedgerEntry) : Account := (e.userId, e.currency)

def Order.purchase (o : Order) : Purchase Account Decimal :=
  { account := o.account, amount := o.amount }

/-- What a committed confirmation makes of the orders. -/
def confirmRow (id : Uuid) (t : Table Order) : Table Order :=
  t.modify (fun o => o.id == id) (fun o => { o with status := .CONFIRMED }) ⟨fun _ _ => rfl⟩

/-- The books that the orders and the ledger stand for. -/
structure Represents (w : World) (b : CashbackBooks) : Prop where
  placed : ∀ id, id ∈ b.placed ↔ ∃ o ∈ w.orders, o.id = id
  purchase : ∀ o ∈ w.orders, b.purchase o.id = o.purchase
  confirmed : ∀ o ∈ w.orders, o.id ∈ b.confirmed ↔ o.status = .CONFIRMED
  not_cancelled : ∀ o ∈ w.orders, o.status ≠ .CANCELLED
  credited : ∀ id, id ∈ b.credited ↔ w.HasCredit id
  credit : ∀ e ∈ w.ledger, b.credit e.orderId = e.amount
  account : ∀ e ∈ w.ledger, (b.purchase e.orderId).account = e.account
  no_debit : ∀ e ∈ w.ledger, e.type = .CREDIT

/-- Books in which nothing was bought yet. -/
def noBooks : CashbackBooks := Books.empty { account := ("", ""), amount := 0 }

/-- The entry credits a confirmed order, with no more than its amount. -/
structure Fits (w : World) (e : LedgerEntry) (o : Order) : Prop where
  stored : o ∈ w.orders
  confirmed : o.status = .CONFIRMED
  credits : CreditOf e o
  type : e.type = .CREDIT
  nonneg : 0 ≤ e.amount
  le : e.amount ≤ o.amount

section

variable {env : Env} {p : Pid} {newId : Uuid} {w w' w₁ : World} {b : CashbackBooks} {l : History}
  {c : Call} {e : LedgerEntry} {o o' : Order} {s s' : State}

theorem represents_noBooks : Represents World.empty noBooks where
  placed id :=
  ⟨fun h => absurd h (Finset.notMem_empty id), fun ⟨o, ho, _⟩ => absurd ho (Table.not_mem_empty o)⟩
  purchase o ho := absurd ho (Table.not_mem_empty o)
  confirmed o ho := absurd ho (Table.not_mem_empty o)
  not_cancelled o ho := absurd ho (Table.not_mem_empty o)
  credited id :=
  ⟨fun h => absurd h (Finset.notMem_empty id), fun ⟨e, he, _⟩ => absurd he (Table.not_mem_empty e)⟩
  credit e he := absurd he (Table.not_mem_empty e)
  account e he := absurd he (Table.not_mem_empty e)
  no_debit e he := absurd he (Table.not_mem_empty e)

/-- Only the orders and the ledger are read. -/
theorem Represents.congr (h : Represents w b) (horders : w'.orders = w.orders)
    (hledger : w'.ledger = w.ledger) : Represents w' b where
  placed := horders ▸ h.placed
  purchase := horders ▸ h.purchase
  confirmed := horders ▸ h.confirmed
  not_cancelled := horders ▸ h.not_cancelled
  credited id := by
    rw [h.credited id, World.HasCredit, World.HasCredit, hledger]
  credit := hledger ▸ h.credit
  account := hledger ▸ h.account
  no_debit := hledger ▸ h.no_debit

/-- An order with an id of its own is placed. -/
theorem Represents.place {t : Table Order} (h : Represents w b) (hins : w.orders.insert? o = some t)
    (hstatus : o.status = .CREATED) (hamount : 0 ≤ o.amount) :
    ∃ b', Books.Step b b' ∧ Represents { w with orders := t } b' := by
  have hnew : o.id ∉ b.placed := by
    rw [h.placed]
    rintro ⟨o₀, ho₀, hid⟩
    have hapart : (o₀.id == o.id) = false := Table.apart_of_insert hins ho₀
    simp [hid] at hapart
  have hother : ∀ o₀ ∈ w.orders, o₀.id ≠ o.id :=
    fun o₀ ho₀ hid => hnew ((h.placed _).mpr ⟨o₀, ho₀, hid⟩)
  refine ⟨_, .place o.id o.purchase hnew hamount,
    ?_, ?_, ?_, ?_, h.credited, h.credit, ?_, h.no_debit⟩
  · intro id
    show id ∈ insert o.id b.placed ↔ _
    rw [Finset.mem_insert, h.placed]
    constructor
    · rintro (rfl | ⟨o₀, ho₀, hid⟩)
      · exact ⟨o, Table.self_mem_insert hins, rfl⟩
      · exact ⟨o₀, Table.mem_of_insert hins ho₀, hid⟩
    · rintro ⟨o₀, ho₀, hid⟩
      rcases (Table.mem_insert hins).mp ho₀ with ho₀ | rfl
      · exact Or.inr ⟨o₀, ho₀, hid⟩
      · exact Or.inl hid.symm
  · intro o₀ ho₀
    show Function.update b.purchase o.id o.purchase o₀.id = o₀.purchase
    rcases (Table.mem_insert hins).mp ho₀ with ho₀ | rfl
    · rw [Function.update_of_ne (hother o₀ ho₀)]
      exact h.purchase o₀ ho₀
    · exact Function.update_self _ _ _
  · intro o₀ ho₀
    rcases (Table.mem_insert hins).mp ho₀ with ho₀ | rfl
    · exact h.confirmed o₀ ho₀
    · refine iff_of_false (fun hconf => hnew (b.confirmed_placed hconf)) fun hconf => ?_
      rw [hstatus] at hconf
      cases hconf
  · intro o₀ ho₀
    rcases (Table.mem_insert hins).mp ho₀ with ho₀ | rfl
    · exact h.not_cancelled o₀ ho₀
    · rw [hstatus]
      exact fun heq => by cases heq
  · intro e he
    have hne : e.orderId ≠ o.id := fun hid =>
      hnew (hid ▸ b.credited_placed ((h.credited _).mpr ⟨e, he, rfl, h.no_debit e he⟩))
    show (Function.update b.purchase o.id o.purchase e.orderId).account = e.account
    rw [Function.update_of_ne hne]
    exact h.account e he

theorem mem_confirmRow {id : Uuid} {t : Table Order} : o' ∈ confirmRow id t ↔
    ∃ o ∈ t, o.id = id ∧ o' = { o with status := .CONFIRMED } ∨ o.id ≠ id ∧ o' = o := by
  refine Table.mem_modify.trans (exists_congr fun o => and_congr_right fun _ => ?_)
  by_cases hid : o.id = id
  · rw [if_pos (by simpa using hid)]
    simp [hid]
  · rw [if_neg (by simpa using hid)]
    simp [hid]

/-- An order is confirmed, for the first time or once more. -/
theorem Represents.confirm {id : Uuid} {t : Table OutboxEvent} (h : Represents w b)
    (hid : ∃ o ∈ w.orders, o.id = id) :
    ∃ b', Books.Step b b' ∧
      Represents { w with orders := confirmRow id w.orders, outbox := t } b' := by
  have hrow : ∀ o' ∈ confirmRow id w.orders, ∃ o ∈ w.orders, o'.id = o.id ∧
      o'.purchase = o.purchase := by
    intro o' ho'
    rcases mem_confirmRow.mp ho' with ⟨o, ho, ⟨-, rfl⟩ | ⟨-, rfl⟩⟩
    · exact ⟨o, ho, rfl, rfl⟩
    · exact ⟨o', ho, rfl, rfl⟩
  refine ⟨_, .confirm id ((h.placed _).mpr hid), fun i => ?_, fun o' ho' => ?_, fun o' ho' => ?_,
    fun o' ho' => ?_, h.credited, h.credit, h.account, h.no_debit⟩
  · refine (h.placed i).trans ⟨fun ⟨o, ho, hi⟩ => ?_, fun ⟨o', ho', hi⟩ => ?_⟩
    · by_cases hsame : o.id = id
      · exact ⟨_, mem_confirmRow.mpr ⟨o, ho, Or.inl ⟨hsame, rfl⟩⟩, hi⟩
      · exact ⟨o, mem_confirmRow.mpr ⟨o, ho, Or.inr ⟨hsame, rfl⟩⟩, hi⟩
    · obtain ⟨o, ho, hid', -⟩ := hrow o' ho'
      exact ⟨o, ho, hid'.symm.trans hi⟩
  · obtain ⟨o, ho, hid', hpurchase⟩ := hrow o' ho'
    rw [hid', hpurchase]
    exact h.purchase o ho
  · show o'.id ∈ insert id b.confirmed ↔ _
    rw [Finset.mem_insert]
    rcases mem_confirmRow.mp ho' with ⟨o, ho, ⟨hsame, rfl⟩ | ⟨hsame, rfl⟩⟩
    · exact iff_of_true (Or.inl hsame) rfl
    · rw [or_iff_right hsame]
      exact h.confirmed o' ho
  · rcases mem_confirmRow.mp ho' with ⟨o, ho, ⟨-, rfl⟩ | ⟨-, rfl⟩⟩
    · exact fun heq => by cases heq
    · exact h.not_cancelled o' ho

/-- A confirmed order is credited. -/
theorem Represents.pay {t : Table LedgerEntry} (h : Represents w b)
    (hins : w.ledger.insert? e = some t) (hfits : Fits w e o) :
    ∃ b', Books.Step b b' ∧ Represents { w with ledger := t } b' := by
  have hother : ∀ e₀ ∈ w.ledger, e₀.orderId ≠ e.orderId := fun e₀ he₀ hid => by
    have hapart := (clash_ledger.mp (Table.apart_of_insert hins he₀)).2
    exact hapart ⟨hid, (h.no_debit e₀ he₀).trans hfits.type.symm⟩
  have hconf : e.orderId ∈ b.confirmed := by
    rw [hfits.credits.orderId]
    exact (h.confirmed o hfits.stored).mpr hfits.confirmed
  have hnew : e.orderId ∉ b.credited := by
    rw [h.credited]
    rintro ⟨e₀, he₀, hid, -⟩
    exact hother e₀ he₀ hid
  have hle : e.amount ≤ (b.purchase e.orderId).amount := by
    rw [hfits.credits.orderId, h.purchase o hfits.stored]
    exact hfits.le
  refine ⟨_, .pay e.orderId e.amount hconf hnew hfits.nonneg hle, h.placed, h.purchase, h.confirmed,
    h.not_cancelled, fun id => ?_, fun e₀ he₀ => ?_, fun e₀ he₀ => ?_, fun e₀ he₀ => ?_⟩
  · show id ∈ insert e.orderId b.credited ↔ _
    rw [Finset.mem_insert, h.credited]
    constructor
    · rintro (rfl | ⟨e₀, he₀, hkey⟩)
      · exact ⟨e, Table.self_mem_insert hins, rfl, hfits.type⟩
      · exact ⟨e₀, Table.mem_of_insert hins he₀, hkey⟩
    · rintro ⟨e₀, he₀, hkey⟩
      rcases (Table.mem_insert hins).mp he₀ with he₀ | rfl
      · exact Or.inr ⟨e₀, he₀, hkey⟩
      · exact Or.inl hkey.1.symm
  · show Function.update b.credit e.orderId e.amount e₀.orderId = e₀.amount
    rcases (Table.mem_insert hins).mp he₀ with he₀ | rfl
    · rw [Function.update_of_ne (hother e₀ he₀)]
      exact h.credit e₀ he₀
    · exact Function.update_self _ _ _
  · rcases (Table.mem_insert hins).mp he₀ with he₀ | rfl
    · exact h.account e₀ he₀
    · show (b.purchase e₀.orderId).account = e₀.account
      rw [hfits.credits.orderId, h.purchase o hfits.stored,
        LedgerEntry.account, hfits.credits.userId,
        hfits.credits.currency]
      rfl
  · rcases (Table.mem_insert hins).mp he₀ with he₀ | rfl
    · exact h.no_debit e₀ he₀
    · exact hfits.type

/-! ## What the programs commit -/

/-- A process credits an order only with the cashback of its amount under a valid rule. -/
theorem CommitKind.fits (hl : LogSound env w l) (hall : AllSourced env l)
    (htold : Told env (ValidEntry env) l) (hamounts : ∀ o ∈ w.orders, ValidAmount o.amount)
    (h : CommitKind env l [.ledger e]) : ∃ o, Fits w e o := by
  obtain ⟨o, ho, hstatus, hcredit, htype, entry,
      rule, ⟨rule', hrule', hvalidRule⟩, hrule, hstored⟩ :=
    h.paid hl hall htold
  cases hrule.symm.trans hrule'
  have hvalid := hamounts o ho
  have heq : e.amount = cashbackOf o.amount rule :=
    (Option.some_inj.mp ((cashback_stored hvalid hvalidRule).symm.trans hstored)).symm
  refine ⟨o, ho, hstatus, hcredit, htype, ?_, ?_⟩
  · rw [heq]
    exact cashback_nonneg hvalid hvalidRule
  · rw [heq]
    exact cashback_le_amount hvalid hvalidRule

/-- A confirmation is committed for an order that is stored. -/
theorem CommitKind.stored {id : Uuid} {ev : OutboxEvent} (hl : LogSound env w l)
    (h : CommitKind env l [.orderStatus id .CONFIRMED, .outbox ev]) :
    ∃ o ∈ w.orders, o.id = id := by
  generalize hws : [TxWrite.orderStatus id .CONFIRMED, .outbox ev] = ws at h
  cases h with
  | nothing => cases hws
  | credit found made => cases hws
  | confirm made =>
    simp only [List.cons.injEq, TxWrite.orderStatus.injEq] at hws
    obtain ⟨⟨rfl, -⟩, -⟩ := hws
    obtain ⟨_, -, -, o', ho', hcore⟩ := hl.got made.1
    exact ⟨o', ho', Order.id_of_core hcore⟩

theorem represents_effect {t : Task} (h : Represents w b) (hl : LogSound env w l)
    (htx : w.txOf p = History.tx l) (hc : t.Sources env l c) (ht : t.Valid)
    (htold : Told env (ValidEntry env) l) (hamounts : ∀ o ∈ w.orders, ValidAmount o.amount)
    (heff : Effect p newId w c w₁) : ∃ b', ReflGen Books.Step b b' ∧ Represents w₁ b' := by
  cases heff with
  | @order d amount t' hfits hins =>
    obtain ⟨header, dto, rfl, rfl⟩ := hc.1.orderCreate
    have hvalid : ValidAmount amount := validAmount_stored ht hfits
    obtain ⟨b', hstep, hb'⟩ := h.place hins rfl hvalid.nonneg
    exact ⟨b', .single hstep, hb'⟩
  | @confirm id ev tx t' mine hab writes ins =>
    have hkind := hc.1.commit (htx ▸ mine) hab
    rw [writes] at hkind
    obtain ⟨b', hstep, hb'⟩ := h.confirm (t := t') (hkind.stored hl)
    exact ⟨b', .single hstep, hb'⟩
  | @credit e tx t' mine hab writes ins =>
    have hkind := hc.1.commit (htx ▸ mine) hab
    rw [writes] at hkind
    obtain ⟨o, hfits⟩ := hkind.fits hl hc.2.2 htold hamounts
    obtain ⟨b', hstep, hb'⟩ := h.pay ins hfits
    exact ⟨b', .single hstep, hb'⟩
  | _ => exact ⟨b, .refl, h.congr rfl rfl⟩

/-- A step of the system is one step of the books or none. -/
theorem represents_step (henv : DecimalText env) (h : Reach (system env) Validated (· = initial) s)
    (hb : Represents s.world b) {lb : Step} (hstep : (system env).step s lb = some s') :
    ∃ b', ReflGen Books.Step b b' ∧ Represents s'.world b' := by
  cases Machine.step_cases hstep with
  | spawn free => exact ⟨b, .refl, hb⟩
  | crash alive => exact ⟨b, .refl, hb.congr rfl rfl⟩
  | @move e w moved =>
    cases e <;> cases moved <;> exact ⟨b, .refl, hb.congr rfl rfl⟩
  | call at_call served =>
    have hs := sound fresh_of_initial h
    have hI := valid henv h
    have hc := (h.sat (sourced_sat env) initial_idle at_call).1
    obtain ⟨w₁, heff, rfl⟩ := exec_effect (hs.shaped at_call hc.1) served
    obtain ⟨b', hstep', hb'⟩ := represents_effect hb (hs.logs _ _ at_call) (hs.txOf at_call) hc
      (valid_tasks h at_call) (hI.told _ _ at_call) hI.orders heff
    exact ⟨b', hstep', hb'.congr rfl rfl⟩

theorem books_simulate (henv : DecimalText env) :
    Simulates ((system env).Next Validated (· = initial)) Books.Step
      (fun s b => Represents s.world b) where
  matched hb hnext := by
    obtain ⟨h, lb, -, hstep⟩ := hnext
    exact represents_step henv h hb hstep

/-- Every reachable state stands for books that were kept from the start. -/
theorem represented (henv : DecimalText env) (h : Reach (system env) Validated (· = initial) s) :
    ∃ b, ReflTransGen Books.Step noBooks b ∧ Represents s.world b := by
  have h0 : Reach (system env) Validated (· = initial) initial := .start rfl
  exact (books_simulate henv).run represents_noBooks (h0.steps h)

/-- The system refines the books: where only valid requests are sent, every reachable state stands
    for books kept from the start, every step is one step of them or none, and every run that goes
    on from there is a run of them. -/
theorem refines_books (env : Env) (henv : DecimalText env) {s : State}
    (h : Reach (system env) Validated (· = initial) s) :
    ∃ b, ReflTransGen Books.Step noBooks b ∧ Represents s.world b ∧
      (∀ lb s', (system env).step s lb = some s' →
        ∃ b', ReflGen Books.Step b b' ∧ Represents s'.world b') ∧
      ∀ s', Reach (system env) Validated (· = s) s' →
        ∃ b', ReflTransGen Books.Step b b' ∧ Represents s'.world b' := by
  obtain ⟨b, hkept, hb⟩ := represented henv h
  exact ⟨b, hkept, hb, fun lb s' hstep => represents_step henv h hb hstep,
    fun s' hrun => (books_simulate henv).run hb (h.steps hrun)⟩

/-- An order is confirmed, its event published and delivered: the books hold a credit. -/
theorem refines_books_run : ∃ s b, (system (platform id)).run initial creditOnce = some s ∧
    ReflTransGen Books.Step noBooks b ∧ Represents s.world b ∧ b.credited.Nonempty := by
  have hrun : (((system (platform id)).run initial creditOnce).map fun s =>
      s.world.ledger.rows.any fun e => e.type == .CREDIT) = some true := by decide +kernel
  obtain ⟨s, hs, hany⟩ := Option.map_eq_some_iff.mp hrun
  have hvalid : ∀ lb ∈ creditOnce, validated lb = true := by decide +kernel
  have h0 : Reach (system (platform id)) Validated (· = initial) initial := .start rfl
  obtain ⟨b, hkept, hb, -⟩ := refines_books (platform id) (platform_decimalText id)
    (h0.of_run creditOnce (fun lb hm _ => hvalid lb hm) hs)
  obtain ⟨e, he, htype⟩ := List.any_eq_true.mp hany
  exact ⟨s, b, hs, hkept, hb, e.orderId, (hb.credited _).mpr ⟨e, he, rfl, by simpa using htype⟩⟩

end

end CashbackLedger
