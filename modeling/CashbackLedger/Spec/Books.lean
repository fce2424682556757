import Mathlib.Algebra.BigOperators.Group.Finset.Basic
import Mathlib.Algebra.Order.BigOperators.Group.Finset
import Mathlib.Logic.Relation

/-
  What the ledger is for, in its own terms.

  Purchases are placed on accounts and confirmed; a confirmed purchase is credited once, with no
  more than was paid. `Books` carries this, so books that break it cannot be built, and `Books.Step`
  is every way in which books may change. The balance of an account is what was credited to it. It
  never falls (`balance_mono`), never exceeds what the account has spent (`balance_le_spent`), and a
  credit changes the balance of one account, by its amount (`balance_pay`).

  Identities, accounts and amounts are arbitrary types.
-/

namespace CashbackLedger

open Relation

/-- What was bought on an account. -/
structure Purchase (Account α : Type*) where
  account : Account
  amount : α

/-- Who has bought what, which purchases are confirmed, and what was credited for them. -/
structure Books (Id Account α : Type*) [AddCommMonoid α] [PartialOrder α] where
  purchase : Id → Purchase Account α
  credit : Id → α
  placed : Finset Id
  confirmed : Finset Id
  credited : Finset Id
  confirmed_placed : confirmed ⊆ placed
  credited_confirmed : credited ⊆ confirmed
  amount_nonneg : ∀ id ∈ placed, 0 ≤ (purchase id).amount
  credit_nonneg : ∀ id ∈ credited, 0 ≤ credit id
  credit_le : ∀ id ∈ credited, credit id ≤ (purchase id).amount

namespace Books

variable {Id Account α : Type*} [AddCommMonoid α] [PartialOrder α]

/-- Nothing was bought yet; what stands for purchases that are not placed does not matter. -/
def empty (p : Purchase Account α) : Books Id Account α where
  purchase _ := p
  credit _ := 0
  placed := ∅
  confirmed := ∅
  credited := ∅
  confirmed_placed := Finset.Subset.refl _
  credited_confirmed := Finset.Subset.refl _
  amount_nonneg _ h := absurd h (Finset.notMem_empty _)
  credit_nonneg _ h := absurd h (Finset.notMem_empty _)
  credit_le _ h := absurd h (Finset.notMem_empty _)

variable (b : Books Id Account α)

theorem credited_placed : b.credited ⊆ b.placed := b.credited_confirmed.trans b.confirmed_placed

section changes

variable [DecidableEq Id]

/-- A purchase is placed. -/
def place (id : Id) (p : Purchase Account α) (new : id ∉ b.placed) (hp : 0 ≤ p.amount) :
    Books Id Account α :=
  have hold : ∀ i ∈ b.placed, Function.update b.purchase id p i = b.purchase i := fun i hi =>
    Function.update_of_ne (fun heq : i = id => new (heq ▸ hi)) _ _
  { b with
    purchase := Function.update b.purchase id p
    placed := insert id b.placed
    confirmed_placed := b.confirmed_placed.trans (Finset.subset_insert _ _)
    amount_nonneg := fun i hi => by
      rcases Finset.mem_insert.mp hi with rfl | hi
      · rw [Function.update_self]
        exact hp
      · rw [hold i hi]
        exact b.amount_nonneg i hi
    credit_le := fun i hi => by
      rw [hold i (b.credited_placed hi)]
      exact b.credit_le i hi }

/-- A purchase is confirmed. -/
def confirm (id : Id) (hid : id ∈ b.placed) : Books Id Account α :=
  { b with
    confirmed := insert id b.confirmed
    confirmed_placed := Finset.insert_subset hid b.confirmed_placed
    credited_confirmed := b.credited_confirmed.trans (Finset.subset_insert _ _) }

/-- A confirmed purchase is credited. -/
def pay (id : Id) (c : α) (hid : id ∈ b.confirmed) (new : id ∉ b.credited) (hc : 0 ≤ c)
    (hle : c ≤ (b.purchase id).amount) : Books Id Account α :=
  have hold : ∀ i ∈ b.credited, Function.update b.credit id c i = b.credit i := fun i hi =>
    Function.update_of_ne (fun heq : i = id => new (heq ▸ hi)) _ _
  { b with
    credit := Function.update b.credit id c
    credited := insert id b.credited
    credited_confirmed := Finset.insert_subset hid b.credited_confirmed
    credit_nonneg := fun i hi => by
      rcases Finset.mem_insert.mp hi with rfl | hi
      · rw [Function.update_self]
        exact hc
      · rw [hold i hi]
        exact b.credit_nonneg i hi
    credit_le := fun i hi => by
      rcases Finset.mem_insert.mp hi with rfl | hi
      · rw [Function.update_self]
        exact hle
      · rw [hold i hi]
        exact b.credit_le i hi }

/-- Every way in which books may change. -/
inductive Step : Books Id Account α → Books Id Account α → Prop where
  | place {b : Books Id Account α} (id : Id)
      (p : Purchase Account α) (new : id ∉ b.placed) (hp : 0 ≤ p.amount) :
      Step b (b.place id p new hp)
  | confirm {b : Books Id Account α} (id : Id) (hid : id ∈ b.placed) : Step b (b.confirm id hid)
  | pay {b : Books Id Account α} (id : Id) (c : α)
      (hid : id ∈ b.confirmed) (new : id ∉ b.credited) (hc : 0 ≤ c)
      (hle : c ≤ (b.purchase id).amount) : Step b (b.pay id c hid new hc hle)

end changes

/-! ## Balances -/

section balances

variable [DecidableEq Account]

/-- What was credited to an account. -/
def balance (a : Account) : α := ∑ id ∈ b.credited with (b.purchase id).account = a, b.credit id

/-- What was paid on an account for confirmed purchases. -/
def spent (a : Account) : α :=
  ∑ id ∈ b.confirmed with (b.purchase id).account = a, (b.purchase id).amount

variable {b}

theorem balance_nonneg [IsOrderedAddMonoid α] (a : Account) : 0 ≤ b.balance a :=
  Finset.sum_nonneg fun id hid => b.credit_nonneg id (Finset.mem_filter.mp hid).1

/-- Nobody is credited more than they have spent. -/
theorem balance_le_spent [IsOrderedAddMonoid α] (a : Account) : b.balance a ≤ b.spent a := by
  have hcredits : b.balance a ≤
      ∑ id ∈ b.credited with (b.purchase id).account = a, (b.purchase id).amount :=
    Finset.sum_le_sum fun id hid => b.credit_le id (Finset.mem_filter.mp hid).1
  refine hcredits.trans (Finset.sum_le_sum_of_subset_of_nonneg ?_ fun id hid _ => ?_)
  · exact Finset.filter_subset_filter _ b.credited_confirmed
  · exact b.amount_nonneg id (b.confirmed_placed (Finset.mem_filter.mp hid).1)

variable [DecidableEq Id]

theorem balance_place {id : Id} {p : Purchase Account α} (new : id ∉ b.placed) (hp : 0 ≤ p.amount)
    (a : Account) : (b.place id p new hp).balance a = b.balance a := by
  refine Finset.sum_congr (Finset.filter_congr fun i hi => ?_) fun _ _ => rfl
  have hne : i ≠ id := fun heq => new (heq ▸ b.credited_placed hi)
  show (Function.update b.purchase id p i).account = a ↔ _
  rw [Function.update_of_ne hne]

theorem balance_confirm {id : Id} (hid : id ∈ b.placed) (a : Account) :
    (b.confirm id hid).balance a = b.balance a := rfl

/-- A credit goes to one account. -/
theorem balance_pay {id : Id} {c : α} (hid : id ∈ b.confirmed) (new : id ∉ b.credited) (hc : 0 ≤ c)
    (hle : c ≤ (b.purchase id).amount) (a : Account) :
    (b.pay id c hid new hc hle).balance a =
      if (b.purchase id).account = a then c + b.balance a else b.balance a := by
  have hrest : ∑ i ∈ b.credited with (b.purchase i).account = a, Function.update b.credit id c i =
      b.balance a := by
    refine Finset.sum_congr rfl fun i hi => ?_
    have hne : i ≠ id := fun heq => new (heq ▸ (Finset.mem_filter.mp hi).1)
    exact Function.update_of_ne hne _ _
  show ∑ i ∈ insert id b.credited with (b.purchase i).account = a,
    Function.update b.credit id c i = _
  rw [Finset.filter_insert]
  split
  · next heq =>
    have hnot : id ∉ b.credited.filter fun i => (b.purchase i).account = a :=
      fun hm => new (Finset.mem_filter.mp hm).1
    rw [Finset.sum_insert hnot, hrest, Function.update_self]
  · exact hrest

/-- A balance never falls. -/
theorem Step.balance_le [IsOrderedAddMonoid α] {b b' : Books Id Account α} (h : Step b b')
    (a : Account) : b.balance a ≤ b'.balance a := by
  cases h with
  | place id p new hp => rw [balance_place new hp]
  | confirm id hid => rw [balance_confirm hid]
  | pay id c hid new hc hle =>
    rw [balance_pay hid new hc hle]
    split
    · exact le_add_of_nonneg_left hc
    · exact le_rfl

/-- A step changes the balance of the account of one confirmed purchase at most, by at most what was
    paid for it, and of a purchase that was not credited before. -/
theorem Step.balance_cases {b b' : Books Id Account α} (h : Step b b') :
    (∀ a, b'.balance a = b.balance a) ∨ ∃ id ∈ b.confirmed, id ∉ b.credited ∧ ∃ c, 0 ≤ c ∧
      c ≤ (b.purchase id).amount ∧ ∀ a, b'.balance a =
        if (b.purchase id).account = a then c + b.balance a else b.balance a := by
  cases h with
  | place id p new hp => exact Or.inl (balance_place new hp)
  | confirm id hid => exact Or.inl (balance_confirm hid)
  | pay id c hid new hc hle =>
    exact Or.inr ⟨id, hid, new, c, hc, hle, balance_pay hid new hc hle⟩

end balances

end Books

end CashbackLedger
