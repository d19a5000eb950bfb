import FutureOs.Lib.Fields
import Mathlib.Order.Nat

/-!
# Tables

A table is a list of rows in key order, so a key has at most one row.  Rows are
found by key (`lookup`) or by content (`find?`), and a new row takes the key
`nextId`, which no row has.
-/

namespace FutureOs

universe u

namespace Fields

variable {α : Type u}

/-- A key past all others. -/
def nextKey (rows : List (Nat × α)) : Nat :=
  rows.foldl (fun id row => max id row.1) 0 + 1

theorem lookup_nextKey (rows : List (Nat × α)) : lookup (nextKey rows) rows = none := by
  have hmax : ∀ (l : List (Nat × α)) (start : Nat),
      start ≤ l.foldl (fun id row => max id row.1) start ∧
        ∀ row ∈ l, row.1 ≤ l.foldl (fun id row => max id row.1) start := by
    intro l
    induction l with
    | nil =>
        simp
    | cons row l ih =>
        intro start
        obtain ⟨hstart, hrows⟩ := ih (max start row.1)
        refine ⟨le_trans (le_max_left _ _) hstart, fun r hr => ?_⟩
        rcases List.mem_cons.1 hr with rfl | hr
        · exact le_trans (le_max_right _ _) hstart
        · exact hrows r hr
  refine lookup_eq_none_of_forall_ne fun row hrow => ?_
  have hle := (hmax rows 0).2 row hrow
  unfold nextKey
  omega

end Fields

structure Table (α : Type u) where
  rows : List (Nat × α)
  sorted : Fields.Sorted rows

namespace Table

variable {α : Type u}

def empty : Table α := ⟨[], Fields.sorted_nil⟩

def lookup (t : Table α) (id : Nat) : Option α :=
  Fields.lookup id t.rows

def insert (t : Table α) (id : Nat) (row : α) : Table α :=
  ⟨Fields.insert id row t.rows, t.sorted.insert id row⟩

def erase (t : Table α) (id : Nat) : Table α :=
  ⟨Fields.erase id t.rows, t.sorted.erase id⟩

/-- The rows that meet the condition. -/
def filter (t : Table α) (p : α → Bool) : Table α :=
  ⟨t.rows.filter fun row => p row.2, List.Pairwise.filter _ t.sorted⟩

def find? (t : Table α) (p : α → Bool) : Option (Nat × α) :=
  t.rows.find? fun row => p row.2

/-- The key of a new row. -/
def nextId (t : Table α) : Nat :=
  Fields.nextKey t.rows

@[simp] theorem lookup_empty (id : Nat) : (empty : Table α).lookup id = none := rfl

theorem lookup_insert (t : Table α) (id id' : Nat) (row : α) :
    (t.insert id row).lookup id' = if id' = id then some row else t.lookup id' :=
  Fields.lookup_insert id id' row t.rows

@[simp] theorem lookup_insert_self (t : Table α) (id : Nat) (row : α) :
    (t.insert id row).lookup id = some row := by
  rw [lookup_insert, if_pos rfl]

theorem lookup_insert_of_ne
    {id id' : Nat}
    (h : id' ≠ id)
    (t : Table α)
    (row : α) :
    (t.insert id row).lookup id' = t.lookup id' := by
  rw [lookup_insert, if_neg h]

theorem lookup_erase (t : Table α) (id id' : Nat) :
    (t.erase id).lookup id' = if id' = id then none else t.lookup id' :=
  Fields.lookup_erase id id' t.rows

theorem mem_rows_iff {t : Table α} {id : Nat} {row : α} :
    (id, row) ∈ t.rows ↔ t.lookup id = some row :=
  ⟨t.sorted.lookup_of_mem, Fields.mem_of_lookup⟩

theorem ext_lookup {t t' : Table α} (h : ∀ id, t.lookup id = t'.lookup id) : t = t' := by
  obtain ⟨rows, sorted⟩ := t
  obtain ⟨rows', sorted'⟩ := t'
  obtain rfl : rows = rows' := Fields.ext sorted sorted' h
  rfl

theorem find?_eq_some
    {t : Table α}
    {p : α → Bool}
    {found : Nat × α}
    (h : t.find? p = some found) :
    t.lookup found.1 = some found.2 ∧ p found.2 = true := by
  unfold find? at h
  have hp := List.find?_some h
  exact ⟨mem_rows_iff.1 (List.mem_of_find?_eq_some h), hp⟩

theorem find?_eq_none
    {t : Table α}
    {p : α → Bool} :
    t.find? p = none ↔ ∀ id row, t.lookup id = some row → p row = false := by
  unfold find?
  rw [List.find?_eq_none]
  constructor
  · intro h id row hlook
    simpa using h (id, row) (mem_rows_iff.2 hlook)
  · intro h row hrow
    rw [h row.1 row.2 (mem_rows_iff.1 hrow)]
    exact Bool.false_ne_true

theorem lookup_nextId (t : Table α) : t.lookup t.nextId = none :=
  Fields.lookup_nextKey t.rows

theorem ne_nextId {t : Table α} {id : Nat} {row : α} (h : t.lookup id = some row) :
    id ≠ t.nextId := by
  intro heq
  rw [heq, lookup_nextId] at h
  cases h

/-- A new row changes no other. -/
theorem lookup_insert_nextId
    {t : Table α}
    {id : Nat}
    {row : α}
    (h : t.lookup id = some row)
    (row' : α) :
    (t.insert t.nextId row').lookup id = some row := by
  rw [lookup_insert_of_ne (ne_nextId h), h]

end Table
end FutureOs
