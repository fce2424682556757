import Mathlib.Algebra.BigOperators.Group.List.Basic
import Mathlib.Data.List.Nodup

/-
  Maps that list their keys in the order in which they were first set.

  `set` replaces the value of a key where it stands and appends a key that is new. `addUp` adds
  the values of a list up by key: the value of a key is then the sum over its elements, whatever
  their order, and the first key is that of the first element.
-/

namespace CashbackLedger.Lib

variable {K V α : Type} [DecidableEq K]

/-- Sets a key in a list of entries. -/
def setEntry (k : K) (v : V) : List (K × V) → List (K × V)
  | [] => [(k, v)]
  | e :: es => if e.1 = k then (k, v) :: es else e :: setEntry k v es

theorem keys_setEntry (k : K) (v : V) (es : List (K × V)) :
    (setEntry k v es).map Prod.fst =
      if k ∈ es.map Prod.fst then es.map Prod.fst else es.map Prod.fst ++ [k] := by
  induction es with
  | nil => rfl
  | cons e es ih =>
      unfold setEntry
      by_cases h : e.1 = k
      · rw [if_pos h, List.map_cons, List.map_cons, if_pos (h ▸ List.mem_cons_self), h]
      · have hk : k ∈ e.1 :: es.map Prod.fst ↔ k ∈ es.map Prod.fst :=
          List.mem_cons.trans (or_iff_right (Ne.symm h))
        simp only [if_neg h, List.map_cons, ih, hk]
        split
        · rfl
        · rfl

theorem lookup_entry (k : K) (e : K × V) (es : List (K × V)) :
    (e :: es).lookup k = if k = e.1 then some e.2 else es.lookup k := by
  rw [List.lookup_cons]
  by_cases h : k = e.1
  · rw [if_pos h, beq_iff_eq.mpr h]
  · rw [if_neg h, beq_eq_false_iff_ne.mpr h]

/-- Entries in the order in which their keys were first set, one for each key. -/
structure OrderedMap (K V : Type) where
  entries : List (K × V)
  nodup : (entries.map Prod.fst).Nodup

namespace OrderedMap

def empty : OrderedMap K V := ⟨[], List.nodup_nil⟩

def get? (m : OrderedMap K V) (k : K) : Option V := m.entries.lookup k

def set (m : OrderedMap K V) (k : K) (v : V) : OrderedMap K V where
  entries := setEntry k v m.entries
  nodup := by
    rw [keys_setEntry]
    split
    · exact m.nodup
    · next hk =>
      refine List.nodup_append.mpr ⟨m.nodup, List.nodup_singleton k, fun a ha b hb => ?_⟩
      rw [List.mem_singleton.mp hb]
      exact ne_of_mem_of_not_mem ha hk

def first? (m : OrderedMap K V) : Option (K × V) := m.entries.head?

@[simp] theorem get?_empty (k : K) : (empty : OrderedMap K V).get? k = none := rfl

theorem get?_set (m : OrderedMap K V) (k k' : K) (v : V) :
    (m.set k v).get? k' = if k' = k then some v else m.get? k' := by
  obtain ⟨es, hes⟩ := m
  show (setEntry k v es).lookup k' = if k' = k then some v else es.lookup k'
  clear hes
  induction es with
  | nil => exact lookup_entry k' (k, v) []
  | cons e es ih =>
      unfold setEntry
      by_cases he : e.1 = k
      · rw [if_pos he, lookup_entry, lookup_entry, he]
        by_cases h : k' = k
        · rw [if_pos h, if_pos h]
        · rw [if_neg h, if_neg h, if_neg h]
      · rw [if_neg he, lookup_entry, ih, lookup_entry]
        by_cases h : k' = k
        · have hne : k' ≠ e.1 := fun heq => he (heq.symm.trans h)
          rw [if_neg hne, if_pos h, if_pos h]
        · rw [if_neg h, if_neg h]

/-- The first key stays the first. -/
theorem first?_set (m : OrderedMap K V) (k : K) (v : V) :
    (m.set k v).first?.map Prod.fst = some ((m.first?.map Prod.fst).getD k) := by
  obtain ⟨es, hes⟩ := m
  show (setEntry k v es).head?.map Prod.fst = some ((es.head?.map Prod.fst).getD k)
  cases es with
  | nil => rfl
  | cons e es =>
      unfold setEntry
      split
      · next h => exact congrArg some h.symm
      · rfl

theorem get?_of_first? {m : OrderedMap K V} {k : K} {v : V} (h : m.first? = some (k, v)) :
    m.get? k = some v := by
  obtain ⟨es, hes⟩ := m
  cases es with
  | nil => cases h
  | cons e es =>
      cases h
      exact List.lookup_cons_self

/-! ## Adding up by key -/

variable [AddCommMonoid V] {key : α → K} {value : α → V}

/-- Adds a value to what is there under a key. -/
def add (m : OrderedMap K V) (k : K) (v : V) : OrderedMap K V := m.set k ((m.get? k).getD 0 + v)

def addUp (key : α → K) (value : α → V) (m : OrderedMap K V) (as : List α) : OrderedMap K V :=
  as.foldl (fun m a => m.add (key a) (value a)) m

/-- What the elements of a list add to a key. -/
def total (key : α → K) (value : α → V) (k : K) (as : List α) : V :=
  ((as.filter fun a => key a = k).map value).sum

theorem total_cons (a : α) (as : List α) (k : K) :
    total key value k (a :: as) = (if key a = k then value a else 0) + total key value k as := by
  unfold total
  by_cases h : key a = k
  · rw [List.filter_cons_of_pos (p := fun a => decide (key a = k)) (decide_eq_true h),
      List.map_cons, List.sum_cons, if_pos h]
  · rw [List.filter_cons_of_neg (by simpa using h), if_neg h, zero_add]

theorem total_perm {as as' : List α} (h : as.Perm as') (k : K) :
    total key value k as = total key value k as' :=
  ((h.filter _).map value).sum_eq

theorem getD_addUp (m : OrderedMap K V) (as : List α) (k : K) :
    ((m.addUp key value as).get? k).getD 0 = (m.get? k).getD 0 + total key value k as := by
  induction as generalizing m with
  | nil => exact (add_zero _).symm
  | cons a as ih =>
      show (((m.add (key a) (value a)).addUp key value as).get? k).getD 0 = _
      rw [ih, add, get?_set, total_cons]
      by_cases h : key a = k
      · rw [if_pos h, if_pos h.symm, h, Option.getD_some, add_assoc]
      · rw [if_neg h, if_neg (Ne.symm h), zero_add]

/-- A map that has a first key keeps it. -/
theorem first?_addUp {m : OrderedMap K V} {k : K} (h : m.first?.map Prod.fst = some k)
    (as : List α) : (m.addUp key value as).first?.map Prod.fst = some k := by
  induction as generalizing m with
  | nil => exact h
  | cons a as ih =>
      refine ih ?_
      show (m.set (key a) _).first?.map Prod.fst = some k
      rw [first?_set, h]
      rfl

/-- Added up from nothing, the first entry is the total of the first element's key. -/
theorem first?_addUp_cons (a : α) (as : List α) :
    (addUp key value empty (a :: as)).first? = some (key a, total key value (key a) (a :: as)) := by
  have hfirst : (addUp key value empty (a :: as)).first?.map Prod.fst = some (key a) :=
    first?_addUp (m := empty.add (key a) (value a)) (first?_set _ _ _) as
  obtain ⟨⟨k, v⟩, he, hk⟩ := Option.map_eq_some_iff.mp hfirst
  obtain rfl : k = key a := hk
  have hv : ((addUp key value empty (a :: as)).get? (key a)).getD 0 = _ :=
    getD_addUp empty (a :: as) (key a)
  rw [get?_of_first? he, get?_empty, Option.getD_some, Option.getD_none, zero_add] at hv
  rw [he, hv]

end OrderedMap

end CashbackLedger.Lib
