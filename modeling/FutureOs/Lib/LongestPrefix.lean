import Mathlib.Data.List.Infix
import Mathlib.Data.List.Sort
import Mathlib.Tactic.Common

/-!
# Lookup by the longest prefix

Some lists are marked, and the longest marked prefix of a list decides about it, as in a
routing table or a tree of mounts.  `longest_eq_some_iff` says which mark that is.  `tops`
keeps the lists of a collection that have no other one as a prefix (`mem_tops`), and a stable
sort leaves tied elements in their order (`filter_insertionSort`).
-/

namespace FutureOs
namespace LongestPrefix

universe u v

section Longest

variable {α : Type u}
variable {κ : Type v}
variable {mark : List α → Option κ}
variable {path : List α}

/-- The prefixes that are not empty, the shortest first. -/
def above (path : List α) : List (List α) :=
  path.inits.tail

/-- The mark of the longest marked prefix. -/
def longest (mark : List α → Option κ) (path : List α) : Option κ :=
  ((above path).filterMap mark).getLast?

theorem mem_above
    {x : List α} :
    x ∈ above path ↔ x ≠ [] ∧ x <+: path := by
  cases path with
  | nil =>
      simp [above]
  | cons a path =>
      simp only [above, List.inits_cons, List.tail_cons, List.mem_map, List.mem_inits]
      cases x with
      | nil =>
          simp
      | cons b x =>
          simp only [List.cons.injEq, List.cons_prefix_cons, ne_eq, reduceCtorEq,
            not_false_eq_true, true_and]
          constructor
          · rintro ⟨t, ht, rfl, rfl⟩
            exact ⟨rfl, ht⟩
          · rintro ⟨rfl, hx⟩
            exact ⟨x, hx, rfl, rfl⟩

theorem above_concat (path : List α) (a : α) :
    above (path ++ [a]) = above path ++ [path ++ [a]] := by
  unfold above
  rw [List.inits_append, List.tail_append_of_ne_nil]
  · simp
  · cases path <;> simp

/-- The prefixes that are neither empty nor the whole list. -/
theorem mem_above_dropLast
    {x : List α} :
    x ∈ (above path).dropLast ↔ x ≠ [] ∧ x <+: path ∧ x ≠ path := by
  cases path using List.reverseRecOn with
  | nil =>
      simp [above]
  | append_singleton parent a =>
      rw [above_concat, List.dropLast_concat, mem_above, List.prefix_concat_iff]
      refine and_congr_right fun _ => ⟨fun h => ⟨.inr h, ?_⟩, fun h => h.1.resolve_left h.2⟩
      rintro rfl
      exact absurd h.length_le (by simp)

@[simp] theorem longest_nil (mark : List α → Option κ) : longest mark [] = none := rfl

theorem longest_concat (mark : List α → Option κ) (path : List α) (a : α) :
    longest mark (path ++ [a]) = (mark (path ++ [a])).or (longest mark path) := by
  have hone : (List.filterMap mark [path ++ [a]]).getLast? = mark (path ++ [a]) := by
    cases h : mark (path ++ [a]) <;> simp [h]
  rw [longest, above_concat, List.filterMap_append, List.getLast?_append, hone, longest]

theorem longest_eq_some_iff
    {k : κ} :
    longest mark path = some k ↔
      ∃ t, t ≠ [] ∧ t <+: path ∧ mark t = some k ∧
        ∀ x, t <+: x → x <+: path → x ≠ t → mark x = none := by
  induction path using List.reverseRecOn with
  | nil =>
      simp only [longest_nil, reduceCtorEq, false_iff]
      rintro ⟨t, ht, htp, -⟩
      exact ht (List.prefix_nil.mp htp)
  | append_singleton path a ih =>
      rw [longest_concat]
      cases hmark : mark (path ++ [a]) with
      | some own =>
          simp only [Option.some_or, Option.some.injEq]
          constructor
          · rintro rfl
            refine ⟨path ++ [a], by simp, List.prefix_rfl, hmark, fun x htx hxp hne => ?_⟩
            exact absurd (List.IsPrefix.eq_of_length_le hxp htx.length_le) hne
          · rintro ⟨t, -, htp, ht, hbetween⟩
            by_cases heq : path ++ [a] = t
            · exact Option.some.inj ((heq ▸ hmark).symm.trans ht)
            · exact absurd (hbetween _ htp List.prefix_rfl heq) (by simp [hmark])
      | none =>
          rw [Option.none_or, ih]
          constructor
          · rintro ⟨t, hne, htp, ht, hbetween⟩
            refine ⟨t, hne, List.prefix_concat_iff.mpr (.inr htp), ht, fun x htx hxp hxt => ?_⟩
            cases List.prefix_concat_iff.mp hxp with
            | inl h => exact h ▸ hmark
            | inr h => exact hbetween x htx h hxt
          · rintro ⟨t, hne, htp, ht, hbetween⟩
            cases List.prefix_concat_iff.mp htp with
            | inl h =>
                rw [h, hmark] at ht
                exact absurd ht (by simp)
            | inr h =>
                exact ⟨t, hne, h, ht, fun x htx hxp hxt =>
                  hbetween x htx (List.prefix_concat_iff.mpr (.inr hxp)) hxt⟩

end Longest

section Tops

variable {α : Type u}
variable [DecidableEq α]

/-- A list with a kept one as a prefix is dropped. -/
def keepTop (kept : List (List α)) (path : List α) : List (List α) :=
  if kept.any fun root => root.isPrefixOf path then kept else kept ++ [path]

/-- The kept lists of a collection that is in the order of the lengths. -/
def tops (paths : List (List α)) : List (List α) :=
  paths.foldl keepTop []

theorem tops_concat (paths : List (List α)) (path : List α) :
    tops (paths ++ [path]) = keepTop (tops paths) path := by
  simp [tops, List.foldl_append]

theorem mem_keepTop
    {kept : List (List α)}
    {path x : List α} :
    x ∈ keepTop kept path ↔
      x ∈ kept ∨ x = path ∧ ∀ root ∈ kept, ¬ root <+: path := by
  unfold keepTop
  split
  · rename_i h
    obtain ⟨root, hroot, hpre⟩ := List.any_eq_true.mp h
    refine ⟨Or.inl, ?_⟩
    rintro (hx | ⟨-, hnone⟩)
    · exact hx
    · exact absurd (List.isPrefixOf_iff_prefix.mp hpre) (hnone root hroot)
  · rename_i h
    have hnone : ∀ root ∈ kept, ¬ root <+: path := fun root hroot hpre =>
      h (List.any_eq_true.mpr ⟨root, hroot, List.isPrefixOf_iff_prefix.mpr hpre⟩)
    simp only [List.mem_append, List.mem_singleton]
    exact or_congr_right ⟨fun hx => ⟨hx, hnone⟩, And.left⟩

theorem mem_of_mem_tops
    {paths : List (List α)}
    {x : List α}
    (hx : x ∈ tops paths) :
    x ∈ paths := by
  induction paths using List.reverseRecOn with
  | nil =>
      exact hx
  | append_singleton paths path ih =>
      rw [tops_concat, mem_keepTop] at hx
      rcases hx with hold | ⟨rfl, -⟩
      · exact List.mem_append_left _ (ih hold)
      · simp

/-- Every list has a kept one as a prefix. -/
theorem exists_top
    {paths : List (List α)}
    {y : List α}
    (hy : y ∈ paths) :
    ∃ root ∈ tops paths, root <+: y := by
  induction paths using List.reverseRecOn with
  | nil =>
      exact absurd hy (by simp)
  | append_singleton paths path ih =>
      rw [tops_concat]
      simp only [mem_keepTop]
      rcases List.mem_append.mp hy with hold | hlast
      · obtain ⟨root, hroot, hpre⟩ := ih hold
        exact ⟨root, .inl hroot, hpre⟩
      · rw [List.mem_singleton.mp hlast]
        by_cases hnone : ∀ root ∈ tops paths, ¬ root <+: path
        · exact ⟨path, .inr ⟨rfl, hnone⟩, List.prefix_rfl⟩
        · push Not at hnone
          obtain ⟨root, hroot, hpre⟩ := hnone
          exact ⟨root, .inl hroot, hpre⟩

theorem mem_tops
    {paths : List (List α)}
    (hsorted : paths.Pairwise fun a b => a.length ≤ b.length)
    {x : List α} :
    x ∈ tops paths ↔ x ∈ paths ∧ ∀ y ∈ paths, y <+: x → y = x := by
  induction paths using List.reverseRecOn with
  | nil =>
      simp [tops]
  | append_singleton paths path ih =>
      have hlast : ∀ y ∈ paths, y.length ≤ path.length := fun y hy =>
        (List.pairwise_append.mp hsorted).2.2 y hy path (by simp)
      rw [tops_concat, mem_keepTop, ih (List.pairwise_append.mp hsorted).1]
      constructor
      · rintro (⟨hx, htop⟩ | ⟨rfl, hnone⟩)
        · refine ⟨List.mem_append_left _ hx, fun y hy hyx => ?_⟩
          rcases List.mem_append.mp hy with hold | hnew
          · exact htop y hold hyx
          · rw [List.mem_singleton.mp hnew] at hyx ⊢
            exact hyx.eq_of_length_le (hlast x hx)
        · refine ⟨by simp, fun y hy hyx => ?_⟩
          rcases List.mem_append.mp hy with hold | hnew
          · obtain ⟨root, hroot, hpre⟩ := exists_top hold
            exact absurd (hpre.trans hyx) (hnone root hroot)
          · exact List.mem_singleton.mp hnew
      · rintro ⟨hx, htop⟩
        have hbelow : ∀ y ∈ paths, y <+: x → y = x := fun y hy =>
          htop y (List.mem_append_left _ hy)
        by_cases hold : x ∈ paths
        · exact .inl ⟨hold, hbelow⟩
        · have hxp : x = path := by
            rcases List.mem_append.mp hx with h | h
            · exact absurd h hold
            · exact List.mem_singleton.mp h
          -- A kept list above the new one would have to be the new one.
          refine .inr ⟨hxp, fun root hroot hpre => hold ?_⟩
          have hmem : root ∈ paths := mem_of_mem_tops hroot
          exact hbelow root hmem (hxp ▸ hpre) ▸ hmem

end Tops

section Stable

variable {α : Type u}
variable {r : α → α → Prop}
variable [DecidableRel r]

/-- What is tied keeps its order. -/
theorem filter_insertionSort
    {p : α → Bool}
    {l : List α}
    (htied : ∀ a b, p a = true → p b = true → r a b) :
    (l.insertionSort r).filter p = l.filter p := by
  have hpair : (l.filter p).Pairwise r :=
    List.pairwise_of_forall_mem_list fun a ha b hb =>
      htied a b (List.mem_filter.mp ha).2 (List.mem_filter.mp hb).2
  have hsub : (l.filter p).Sublist ((l.insertionSort r).filter p) := by
    have h := (List.sublist_insertionSort hpair List.filter_sublist).filter p
    simpa only [List.filter_filter, Bool.and_self] using h
  exact (hsub.eq_of_length ((List.perm_insertionSort r l).filter p).length_eq.symm).symm

end Stable

end LongestPrefix
end FutureOs
