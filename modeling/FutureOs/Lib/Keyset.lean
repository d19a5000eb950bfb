import Mathlib.Data.List.Nodup
import Mathlib.Data.List.Pairwise
import Mathlib.Data.List.Sort
import Mathlib.Order.Defs.LinearOrder

/-!
# Keyset pages

Rows in descending order of a key are handed out in pages: the rows below a cursor, at
most `limit` of them, where the cursor is the key of the last row handed out.  A page
with fewer rows is the last one.

* `filter_lt_of_split`: below the key of a row is what comes behind it;
* `pagesOf`: the pages one after the other, which make up the rows (`flatten_pagesOf`)
  and have no row in common (`eq_of_mem_pagesOf`);
* `insertionSort_filter`: sorting and picking rows may be exchanged.
-/

namespace FutureOs
namespace Keyset

universe u v

section Keyset

variable {α : Type u}
variable {κ : Type v} [LinearOrder κ]
variable {key : α → κ}

/-- Strictly descending keys. -/
def Descending (key : α → κ) (rows : List α) : Prop :=
  rows.Pairwise fun a b => key b < key a

theorem filter_lt_of_split
    {front back : List α}
    {a : α}
    (h : Descending key (front ++ a :: back)) :
    (front ++ a :: back).filter (fun b => key b < key a) = back := by
  obtain ⟨_, htail, hcross⟩ := List.pairwise_append.1 h
  have hfront : front.filter (fun b => key b < key a) = [] := by
    refine List.filter_eq_nil_iff.2 fun b hb => ?_
    have hlt := hcross b hb a List.mem_cons_self
    simpa using le_of_lt hlt
  have hback : back.filter (fun b => key b < key a) = back := by
    refine List.filter_eq_self.2 fun b hb => ?_
    simpa using (List.pairwise_cons.1 htail).1 b hb
  rw [List.filter_append, hfront, List.nil_append, List.filter_cons_of_neg (by simp), hback]

theorem Descending.nodup
    {rows : List α}
    (h : Descending key rows) :
    rows.Nodup := by
  refine List.Pairwise.imp (fun {a b} hlt heq => ?_) h
  subst heq
  exact lt_irrefl _ hlt

/-- Sorted rows with keys of their own are strictly descending. -/
theorem descending_insertionSort
    {rows : List α}
    (hnodup : (rows.map key).Nodup) :
    Descending key (rows.insertionSort fun a b => key b ≤ key a) := by
  have hsorted : (rows.insertionSort fun a b => key b ≤ key a).Pairwise
      fun a b => key b ≤ key a := by
    have : Std.Total (fun a b : α => key b ≤ key a) := ⟨fun a b => le_total (key b) (key a)⟩
    have : IsTrans α (fun a b => key b ≤ key a) := ⟨fun a b c hab hbc => le_trans hbc hab⟩
    exact List.pairwise_insertionSort _ rows
  have hkeys : ((rows.insertionSort fun a b => key b ≤ key a).map key).Nodup :=
    ((List.perm_insertionSort _ rows).map key).nodup_iff.2 hnodup
  rw [List.Nodup, List.pairwise_map] at hkeys
  exact (hsorted.and hkeys).imp fun h => lt_of_le_of_ne h.1 (Ne.symm h.2)

theorem insertionSort_filter
    {rows : List α}
    (hnodup : (rows.map key).Nodup)
    (p : α → Bool) :
    (rows.filter p).insertionSort (fun a b => key b ≤ key a) =
      (rows.insertionSort fun a b => key b ≤ key a).filter p := by
  have hpicked : ((rows.filter p).map key).Nodup :=
    hnodup.sublist (List.filter_sublist.map key)
  have hasymm : ∀ a b : α, key b < key a → key a < key b → a = b :=
    fun a b hab hba => absurd (lt_trans hab hba) (lt_irrefl _)
  refine List.Perm.eq_of_pairwise (fun a b _ _ => hasymm a b)
    (descending_insertionSort hpicked)
    ((descending_insertionSort hnodup).sublist List.filter_sublist) ?_
  exact (List.perm_insertionSort _ _).trans ((List.perm_insertionSort _ rows).filter p).symm

/-- The pages of the rows: full ones, and a last one with fewer rows. -/
def pagesOf (limit : Nat) (rows : List α) : List (List α) :=
  if 0 < limit ∧ limit ≤ rows.length then
    rows.take limit :: pagesOf limit (rows.drop limit)
  else
    [rows]
termination_by rows.length
decreasing_by rw [List.length_drop]; omega

theorem flatten_pagesOf (limit : Nat) (rows : List α) :
    (pagesOf limit rows).flatten = rows := by
  fun_induction pagesOf limit rows with
  | case1 rows h ih =>
      rw [List.flatten_cons, ih, List.take_append_drop]
  | case2 rows h =>
      simp

theorem exists_page_of_mem
    {limit : Nat}
    {rows : List α}
    {a : α}
    (ha : a ∈ rows) :
    ∃ page ∈ pagesOf limit rows, a ∈ page := by
  rw [← flatten_pagesOf limit rows] at ha
  exact List.mem_flatten.1 ha

theorem mem_of_mem_page
    {limit : Nat}
    {rows page : List α}
    (hpage : page ∈ pagesOf limit rows)
    {a : α}
    (ha : a ∈ page) :
    a ∈ rows := by
  rw [← flatten_pagesOf limit rows]
  exact List.mem_flatten.2 ⟨page, hpage, ha⟩

theorem pairwise_disjoint_pagesOf
    (limit : Nat)
    {rows : List α}
    (h : rows.Nodup) :
    (pagesOf limit rows).Pairwise List.Disjoint := by
  rw [← flatten_pagesOf limit rows] at h
  exact (List.nodup_flatten.1 h).2

theorem eq_of_mem_pagesOf
    {limit : Nat}
    {rows : List α}
    (h : rows.Nodup)
    {page page' : List α}
    (hpage : page ∈ pagesOf limit rows)
    (hpage' : page' ∈ pagesOf limit rows)
    {a : α}
    (ha : a ∈ page)
    (ha' : a ∈ page') :
    page = page' := by
  by_contra hne
  have : Std.Symm (@List.Disjoint α) := ⟨fun _ _ hd _ ha hb => hd hb ha⟩
  exact (pairwise_disjoint_pagesOf limit h).forall hpage hpage' hne ha ha'

end Keyset

end Keyset
end FutureOs
