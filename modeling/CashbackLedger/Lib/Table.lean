import Mathlib.Data.List.Pairwise

/-
  Tables with unique indexes.

  `Indexed α` says which two rows the unique indexes of a table keep apart. A `Table α` carries
  the proof that no two of its rows clash, so a table that violates an index cannot be built:
  `insert?` refuses a clashing row, `modify` takes a change of rows that keeps every key
  (`KeepsKeys`).
-/

namespace CashbackLedger.Lib

/-- Which rows the unique indexes of a table keep apart. -/
class Indexed (α : Type) where
  clash : α → α → Bool
  clash_comm : ∀ a b, clash a b = clash b a

/-- The rows of a table, in insertion order. -/
structure Table (α : Type) [Indexed α] where
  rows : List α
  apart : rows.Pairwise fun a b => Indexed.clash a b = false

/-- A change of rows that no unique index notices. -/
structure KeepsKeys {α : Type} [Indexed α] (f : α → α) : Prop where
  clash : ∀ a b, Indexed.clash (f a) b = Indexed.clash a b

namespace Table

variable {α : Type} [Indexed α]

instance : Membership α (Table α) := ⟨fun t a => a ∈ t.rows⟩

theorem mem_rows {t : Table α} {a : α} : a ∈ t ↔ a ∈ t.rows := Iff.rfl

def empty : Table α := ⟨[], List.Pairwise.nil⟩

@[simp] theorem not_mem_empty (a : α) : a ∉ (empty : Table α) := by simp [mem_rows, empty]

/-- Adds a row, unless a unique index refuses it. -/
def insert? (t : Table α) (a : α) : Option (Table α) :=
  if h : ∀ b ∈ t.rows, Indexed.clash b a = false then
    some ⟨t.rows ++ [a], by
      refine List.pairwise_append.mpr ⟨t.apart, List.pairwise_singleton _ _, ?_⟩
      intro b hb a' ha'
      rw [List.mem_singleton.mp ha']
      exact h b hb⟩
  else none

/-- The rows in their order, without those that clash with an earlier one. -/
def ofList (rows : List α) : Table α := rows.foldl (fun t a => (t.insert? a).getD t) empty

/-- Changes the rows that meet `p`. -/
def modify (t : Table α) (p : α → Bool) (f : α → α) (hf : KeepsKeys f) : Table α :=
  ⟨t.rows.map fun a => if p a then f a else a, by
    refine List.pairwise_map.mpr (t.apart.imp fun {a b} hab => ?_)
    have hfb : ∀ a b, Indexed.clash a (f b) = Indexed.clash a b := fun a b => by
      rw [Indexed.clash_comm, hf.clash, Indexed.clash_comm]
    by_cases ha : p a <;> by_cases hb : p b <;> simp [ha, hb, hf.clash, hfb, hab]⟩

/-- The first row that meets `p`. -/
def find? (t : Table α) (p : α → Bool) : Option α := t.rows.find? p

/-- Does some row meet `p`? -/
def any (t : Table α) (p : α → Bool) : Bool := t.rows.any p

theorem mem_of_find? {t : Table α} {p : α → Bool} {a : α} (h : t.find? p = some a) : a ∈ t :=
  List.mem_of_find?_eq_some h

theorem of_find? {t : Table α} {p : α → Bool} {a : α} (h : t.find? p = some a) : p a = true :=
  List.find?_some h

theorem find?_none {t : Table α} {p : α → Bool} (h : t.find? p = none) {a : α} (ha : a ∈ t) :
    p a = false := by
  simpa using List.find?_eq_none.mp h a ha

theorem any_iff {t : Table α} {p : α → Bool} : t.any p = true ↔ ∃ a ∈ t, p a = true :=
  List.any_eq_true

theorem rows_insert {t t' : Table α} {a : α} (h : t.insert? a = some t') :
    t'.rows = t.rows ++ [a] := by
  unfold insert? at h
  split at h
  · cases h
    rfl
  · cases h

theorem mem_insert {t t' : Table α} {a b : α} (h : t.insert? a = some t') :
    b ∈ t' ↔ b ∈ t ∨ b = a := by
  rw [mem_rows, rows_insert h, List.mem_append, List.mem_singleton]
  exact Iff.rfl

/-- The inserted row can be told from the result. -/
theorem insert?_inj {t t' : Table α} {a b : α} (ha : t.insert? a = some t')
    (hb : t.insert? b = some t') : a = b := by
  have hrows := (rows_insert ha).symm.trans (rows_insert hb)
  exact List.singleton_inj.mp (List.append_cancel_left hrows)

/-- Inserting keeps what was there. -/
theorem mem_of_insert {t t' : Table α} {a b : α} (h : t.insert? a = some t') (hb : b ∈ t) :
    b ∈ t' :=
  (mem_insert h).mpr (Or.inl hb)

theorem self_mem_insert {t t' : Table α} {a : α} (h : t.insert? a = some t') : a ∈ t' :=
  (mem_insert h).mpr (Or.inr rfl)

/-- A row that clashes with none is inserted. -/
theorem insert_of_apart {t : Table α} {a : α} (h : ∀ b ∈ t, Indexed.clash b a = false) :
    ∃ t', t.insert? a = some t' := ⟨_, dif_pos h⟩

/-- An inserted row clashes with none that was there. -/
theorem apart_of_insert {t t' : Table α} {a b : α} (h : t.insert? a = some t') (hb : b ∈ t) :
    Indexed.clash b a = false := by
  unfold insert? at h
  split at h
  · next hapart => exact hapart b hb
  · cases h

/-- A refused insert met a row with the same key. -/
theorem clash_of_insert_none {t : Table α} {a : α} (h : t.insert? a = none) :
    ∃ b ∈ t, Indexed.clash b a = true := by
  unfold insert? at h
  split at h
  · cases h
  · rename_i hc
    simp only [not_forall, Bool.not_eq_false] at hc
    obtain ⟨b, hb, hba⟩ := hc
    exact ⟨b, hb, hba⟩

theorem mem_modify {t : Table α} {p : α → Bool} {f : α → α} {hf : KeepsKeys f} {b : α} :
    b ∈ t.modify p f hf ↔ ∃ a ∈ t, b = if p a then f a else a := by
  simp only [mem_rows, modify, List.mem_map]
  exact ⟨fun ⟨a, ha, h⟩ => ⟨a, ha, h.symm⟩, fun ⟨a, ha, h⟩ => ⟨a, ha, h.symm⟩⟩

/-- Two rows that clash are one row. -/
theorem eq_of_clash {t : Table α} {a b : α} (ha : a ∈ t) (hb : b ∈ t)
    (h : Indexed.clash a b = true) : a = b := by
  by_contra hne
  have : Std.Symm fun a b : α => Indexed.clash a b = false :=
    ⟨fun a b hab => by rw [Indexed.clash_comm]; exact hab⟩
  have hab := t.apart.forall ha hb hne
  rw [h] at hab
  cases hab

/-- A condition that only rows of one key meet is met by at most one row. -/
theorem length_filter_le_one (t : Table α) {p : α → Bool}
    (hkey : ∀ a b, p a = true → p b = true → Indexed.clash a b = true) :
    (t.rows.filter p).length ≤ 1 := by
  have hapart := t.apart.filter p
  have hp : ∀ a ∈ t.rows.filter p, p a = true := fun a ha => (List.mem_filter.mp ha).2
  generalize t.rows.filter p = rows at hapart hp
  match rows with
  | [] => exact Nat.zero_le 1
  | [a] => exact Nat.le_refl 1
  | a :: b :: rows =>
    have hab : Indexed.clash a b = false := (List.pairwise_cons.mp hapart).1 b List.mem_cons_self
    have hclash :=
      hkey a b (hp a List.mem_cons_self) (hp b (List.mem_cons_of_mem a List.mem_cons_self))
    rw [hab] at hclash
    cases hclash

/-- A row is found by a condition that only rows of its key meet. -/
theorem find?_of_mem {t : Table α} {p : α → Bool} {a : α} (ha : a ∈ t) (hp : p a = true)
    (hkey : ∀ b ∈ t, p b = true → Indexed.clash a b = true) : t.find? p = some a := by
  cases hb : t.find? p with
  | none =>
    have := find?_none hb ha
    rw [hp] at this
    cases this
  | some b =>
    have hm := mem_of_find? hb
    rw [eq_of_clash ha hm (hkey b hm (of_find? hb))]

/-- Inserting leaves what was found before, and the new row is found last. -/
theorem find?_insert {t t' : Table α} {a : α} (h : t.insert? a = some t') (p : α → Bool) :
    t'.find? p = (t.find? p).or (if p a then some a else none) := by
  unfold insert? at h
  split at h
  · cases h
    show (t.rows ++ [a]).find? p = _
    rw [List.find?_append, List.find?_singleton]
    rfl
  · cases h

/-- A change that `q` does not notice changes the row found by `q`. -/
theorem find?_modify {t : Table α} {p q : α → Bool} {f : α → α} {hf : KeepsKeys f}
    (hq : ∀ a, q (f a) = q a) :
    (t.modify p f hf).find? q = (t.find? q).map fun a => if p a then f a else a := by
  have hcomp : (q ∘ fun a => if p a then f a else a) = q := funext fun a => by
    show q (if p a then f a else a) = q a
    split
    · exact hq a
    · rfl
  show (t.rows.map _).find? q = _
  rw [List.find?_map, hcomp]
  rfl

/-- A change of rows that `q` does not find leaves what `q` finds. -/
theorem find?_modify_of_not {t : Table α} {p q : α → Bool} {f : α → α} {hf : KeepsKeys f}
    (hq : ∀ a, q (f a) = q a) (hpq : ∀ a, q a = true → p a = false) :
    (t.modify p f hf).find? q = t.find? q := by
  rw [find?_modify hq]
  cases hfound : t.find? q with
  | none => rfl
  | some a => simp [hpq a (of_find? hfound)]

/-! ## Changing every row -/

theorem ext_rows {t t' : Table α} (h : t.rows = t'.rows) : t = t' := by
  cases t
  cases t'
  cases h
  rfl

/-- Changes every row, seen by no unique index. -/
def mapRows (t : Table α) (f : α → α) (hf : KeepsKeys f) : Table α := t.modify (fun _ => true) f hf

section

variable {t : Table α} {p : α → Bool} {f : α → α} {hf : KeepsKeys f}

@[simp] theorem rows_mapRows : (t.mapRows f hf).rows = t.rows.map f := by simp [mapRows, modify]

theorem find?_mapRows (hp : ∀ a, p (f a) = p a) : (t.mapRows f hf).find? p = (t.find? p).map f := by
  have hpf : p ∘ f = p := funext hp
  rw [find?, rows_mapRows, List.find?_map, hpf]
  rfl

theorem insert?_mapRows (a : α) :
    (t.mapRows f hf).insert? (f a) = (t.insert? a).map fun t => t.mapRows f hf := by
  have hkey : ∀ b, Indexed.clash (f b) (f a) = Indexed.clash b a := fun b => by
    rw [hf.clash, Indexed.clash_comm, hf.clash, Indexed.clash_comm]
  have hclash : (∀ b ∈ (t.mapRows f hf).rows, Indexed.clash b (f a) = false) ↔
      ∀ b ∈ t.rows, Indexed.clash b a = false := by
    simp only [rows_mapRows, List.forall_mem_map, hkey]
  by_cases h : ∀ b ∈ t.rows, Indexed.clash b a = false
  · rw [insert?, insert?, dif_pos h, dif_pos (hclash.mpr h), Option.map_some, Option.some_inj]
    exact ext_rows (by simp)
  · rw [insert?, insert?, dif_neg h, dif_neg (mt hclash.mp h), Option.map_none]

theorem modify_mapRows {g : α → α} {hg : KeepsKeys g} (hp : ∀ a, p (f a) = p a)
    (hfg : ∀ a, g (f a) = f (g a)) :
    (t.mapRows f hf).modify p g hg = (t.modify p g hg).mapRows f hf := by
  refine ext_rows ?_
  simp only [modify, rows_mapRows, List.map_map, List.map_inj_left, Function.comp_apply, hp, hfg]
  intro a _
  split <;> rfl

end

/-! ## Counting rows -/

/-- How many rows meet `q`. -/
def count (t : Table α) (q : α → Bool) : Nat := t.rows.countP q

section

variable {t : Table α} {p q : α → Bool} {f : α → α} {hf : KeepsKeys f}

theorem countP_change_le {β : Type} {p q : β → Bool} {f : β → β}
    (h : ∀ b, p b = true → q (f b) = true → q b = true) (l : List β) :
    (l.map fun b => if p b then f b else b).countP q ≤ l.countP q := by
  rw [List.countP_map]
  refine List.countP_mono_left fun a _ hq => ?_
  simp only [Function.comp_apply] at hq
  split at hq
  · next hp => exact h a hp hq
  · exact hq

/-- A change that makes no row meet `q` does not raise the count. -/
theorem count_modify_le (h : ∀ a, p a = true → q (f a) = true → q a = true) :
    (t.modify p f hf).count q ≤ t.count q := countP_change_le h t.rows

/-- It lowers the count where a row that met `q` no longer does. -/
theorem count_modify_lt (h : ∀ a, p a = true → q (f a) = true → q a = true) {a : α} (ha : a ∈ t)
    (hp : p a = true) (hq : q a = true) (hout : q (f a) = false) :
    (t.modify p f hf).count q < t.count q := by
  obtain ⟨front, back, hrows⟩ := List.append_of_mem ha
  have hfront := countP_change_le h front
  have hback := countP_change_le h back
  unfold count modify
  simp only [hrows, List.map_append, List.map_cons,
    List.countP_append, List.countP_cons, hp, if_true,
    hout, hq, Bool.false_eq_true, if_false]
  omega

end

end Table

end CashbackLedger.Lib
