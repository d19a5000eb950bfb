import Mathlib.Data.Nat.ModEq
import Mathlib.Tactic.Common

/-!
# A replay window kept in a ring

Numbers arrive in any order, some of them again.  A ring of `width` slots
remembers, under its residue, the successor of the last number taken, and a
high-water mark closes what lies a whole lap behind.  Together they decide
membership in the set of numbers taken so far, inside the window.

* `Represents`: what ring and mark say about the numbers taken;
* `Represents.fresh_iff`: the ring's test is the test on the set;
* `Represents.take`: taking a fresh number keeps the representation.
-/

namespace FutureOs
namespace ReplayWindow

variable {width : Nat}

/-- The ring's test: not in its slot, and not a lap behind the mark. -/
def Fresh (highest : Nat) (slots : Nat → Nat) (width n : Nat) : Prop :=
  slots (n % width) ≠ n + 1 ∧ ¬(width ≤ highest ∧ n ≤ highest - width)

/-- The mark is the largest number taken; a slot has the last one of its class. -/
structure Represents
    (width : Nat)
    (taken : List Nat)
    (highest : Nat)
    (slots : Nat → Nat) : Prop where
  le_highest : ∀ n ∈ taken, n ≤ highest
  highest_mem : taken ≠ [] → highest ∈ taken
  highest_nil : taken = [] → highest = 0
  slot : ∀ n ∈ taken, ∃ m ∈ taken, m % width = n % width ∧ n ≤ m ∧
    slots (n % width) = m + 1
  of_slot : ∀ n, slots (n % width) = n + 1 → n ∈ taken

theorem represents_nil : Represents width [] 0 fun _ => 0 where
  le_highest := by simp
  highest_mem h := absurd rfl h
  highest_nil _ := rfl
  slot := by simp
  of_slot n h := by simp at h

/-- Two numbers of one class are equal or at least a lap apart. -/
theorem add_le_of_mod_eq
    {n m : Nat}
    (hmod : m % width = n % width)
    (hlt : n < m) :
    n + width ≤ m := by
  have hdvd : width ∣ m - n := (Nat.modEq_iff_dvd' hlt.le).1 hmod.symm
  have hle : width ≤ m - n := Nat.le_of_dvd (by omega) hdvd
  omega

section Represents

variable {taken : List Nat}
variable {highest : Nat}
variable {slots : Nat → Nat}

/-- Inside the window a number is fresh exactly if it was not taken. -/
theorem Represents.fresh_iff
    (h : Represents width taken highest slots)
    (n : Nat) :
    Fresh highest slots width n ↔
      n ∉ taken ∧ (highest < width ∨ highest - width < n) := by
  constructor
  · rintro ⟨hslot, hbehind⟩
    refine ⟨?_, by omega⟩
    intro hmem
    obtain ⟨m, hm, hmod, hle, heq⟩ := h.slot n hmem
    rcases Nat.eq_or_lt_of_le hle with rfl | hlt
    · exact hslot heq
    · have hlap := add_le_of_mod_eq hmod hlt
      have hmark := h.le_highest m hm
      exact hbehind ⟨by omega, by omega⟩
  · rintro ⟨hmem, hinside⟩
    exact ⟨fun heq => hmem (h.of_slot n heq), by omega⟩

/-- Taking a fresh number overwrites nothing the window still needs. -/
theorem Represents.take
    (h : Represents width taken highest slots)
    {n : Nat}
    (hfresh : Fresh highest slots width n)
    {slots' : Nat → Nat}
    (hset : slots' (n % width) = n + 1)
    (hother : ∀ i, i ≠ n % width → slots' i = slots i) :
    Represents width (n :: taken) (max highest n) slots' := by
  have hlast : ∀ m ∈ taken, m % width = n % width → m ≤ n := by
    intro m hm hmod
    by_contra hlt
    have hlap := add_le_of_mod_eq hmod (Nat.lt_of_not_le hlt)
    have hmark := h.le_highest m hm
    exact hfresh.2 ⟨by omega, by omega⟩
  refine ⟨?_, ?_, by simp, ?_, ?_⟩
  · intro m hm
    rcases List.mem_cons.1 hm with rfl | hm
    · exact Nat.le_max_right _ _
    · exact Nat.le_trans (h.le_highest m hm) (Nat.le_max_left _ _)
  · intro _
    rcases Nat.le_total n highest with hle | hle
    · rw [Nat.max_eq_left hle]
      by_cases hnil : taken = []
      · have hzero := h.highest_nil hnil
        have hn : n = highest := by omega
        exact hn ▸ List.mem_cons_self
      · exact List.mem_cons_of_mem _ (h.highest_mem hnil)
    · rw [Nat.max_eq_right hle]
      exact List.mem_cons_self
  · intro m hm
    by_cases hmod : m % width = n % width
    · refine ⟨n, List.mem_cons_self, hmod.symm, ?_, by rw [hmod, hset]⟩
      rcases List.mem_cons.1 hm with rfl | hm
      · exact Nat.le_refl _
      · exact hlast m hm hmod
    · rcases List.mem_cons.1 hm with rfl | hm
      · exact absurd rfl hmod
      · obtain ⟨k, hk, hkmod, hle, heq⟩ := h.slot m hm
        exact ⟨k, List.mem_cons_of_mem _ hk, hkmod, hle,
          (hother _ hmod).trans heq⟩
  · intro m hm
    by_cases hmod : m % width = n % width
    · rw [hmod, hset] at hm
      have heq : m = n := by omega
      exact heq ▸ List.mem_cons_self
    · rw [hother _ hmod] at hm
      exact List.mem_cons_of_mem _ (h.of_slot m hm)

/-- Only which numbers were taken matters, not in which order. -/
theorem Represents.of_mem
    (h : Represents width taken highest slots)
    {taken' : List Nat}
    (hmem : ∀ n, n ∈ taken' ↔ n ∈ taken) :
    Represents width taken' highest slots where
  le_highest n hn := h.le_highest n ((hmem n).1 hn)
  highest_mem hne := by
    refine (hmem _).2 (h.highest_mem ?_)
    rintro rfl
    exact hne (List.eq_nil_iff_forall_not_mem.2 fun n hn => by
      simpa using (hmem n).1 hn)
  highest_nil hnil := by
    refine h.highest_nil (List.eq_nil_iff_forall_not_mem.2 fun n hn => ?_)
    have hn' := (hmem n).2 hn
    rw [hnil] at hn'
    simp at hn'
  slot n hn := by
    obtain ⟨m, hm, hrest⟩ := h.slot n ((hmem n).1 hn)
    exact ⟨m, (hmem m).2 hm, hrest⟩
  of_slot n hn := (hmem n).2 (h.of_slot n hn)

theorem le_foldr_max
    {n : Nat}
    (h : n ∈ taken) :
    n ≤ taken.foldr max 0 := by
  induction taken with
  | nil =>
      simp at h
  | cons m rest ih =>
      rw [List.foldr_cons]
      rcases List.mem_cons.1 h with rfl | hn
      · exact Nat.le_max_left _ _
      · exact Nat.le_trans (ih hn) (Nat.le_max_right _ _)

theorem foldr_max_le
    {bound : Nat}
    (h : ∀ n ∈ taken, n ≤ bound) :
    taken.foldr max 0 ≤ bound := by
  induction taken with
  | nil =>
      exact Nat.zero_le _
  | cons m rest ih =>
      rw [List.foldr_cons]
      exact Nat.max_le.2 ⟨h m List.mem_cons_self,
        ih fun n hn => h n (List.mem_cons_of_mem _ hn)⟩

/-- The mark is the largest number taken so far. -/
theorem Represents.highest_eq
    (h : Represents width taken highest slots) :
    highest = taken.foldr max 0 := by
  refine Nat.le_antisymm ?_ (foldr_max_le h.le_highest)
  by_cases hnil : taken = []
  · rw [h.highest_nil hnil]
    exact Nat.zero_le _
  · exact le_foldr_max (h.highest_mem hnil)

end Represents

end ReplayWindow
end FutureOs
