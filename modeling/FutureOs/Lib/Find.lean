import Mathlib.Algebra.GroupWithZero.Nat
import Mathlib.Data.List.Basic
import Mathlib.Data.List.Infix

/-!
# The first place of a pattern

`find` is the first place where a list goes on with a pattern.  `find_eq_some` and
`find_eq_none` say so, and `replaceFirst` puts something else there.
-/

namespace FutureOs
namespace Find

universe u

variable {α : Type u} [DecidableEq α]
variable {pattern : List α}
variable {text : List α}

/-- `str::find`. -/
def find (pattern : List α) : List α → Option Nat
  | [] => if pattern = [] then some 0 else none
  | c :: text =>
      if pattern.isPrefixOf (c :: text) then some 0 else (find pattern text).map (· + 1)

/-- The first place of the pattern with something else in it. -/
def replaceFirst (pattern replacement text : List α) : List α :=
  match find pattern text with
  | some i => text.take i ++ (replacement ++ text.drop (i + pattern.length))
  | none => text

theorem find_eq_some
    {i : Nat} :
    find pattern text = some i ↔
      i ≤ text.length ∧ pattern <+: text.drop i ∧ ∀ j < i, ¬ pattern <+: text.drop j := by
  induction text generalizing i with
  | nil =>
      rw [find]
      by_cases hpattern : pattern = []
      · rw [if_pos hpattern, hpattern]
        constructor
        · intro h
          obtain rfl := Option.some.inj h
          exact ⟨le_rfl, List.nil_prefix, fun j hj => absurd hj (Nat.not_lt_zero j)⟩
        · rintro ⟨hle, -, -⟩
          rw [Nat.le_zero.mp hle]
      · rw [if_neg hpattern]
        constructor
        · intro h
          cases h
        · rintro ⟨-, hstarts, -⟩
          rw [List.drop_nil] at hstarts
          exact absurd (List.prefix_nil.mp hstarts) hpattern
  | cons c text ih =>
      rw [find]
      by_cases hstarts : pattern <+: c :: text
      · rw [if_pos (List.isPrefixOf_iff_prefix.mpr hstarts)]
        constructor
        · intro h
          obtain rfl := Option.some.inj h
          exact ⟨Nat.zero_le _, hstarts, fun j hj => absurd hj (Nat.not_lt_zero j)⟩
        · rintro ⟨-, -, hfirst⟩
          cases i with
          | zero =>
              rfl
          | succ i =>
              exact absurd hstarts (hfirst 0 (Nat.succ_pos i))
      · rw [if_neg (mt List.isPrefixOf_iff_prefix.mp hstarts), Option.map_eq_some_iff]
        constructor
        · rintro ⟨k, hk, rfl⟩
          obtain ⟨hle, hat, hfirst⟩ := ih.mp hk
          refine ⟨Nat.succ_le_succ hle, hat, fun j hj => ?_⟩
          cases j with
          | zero =>
              exact hstarts
          | succ j =>
              exact hfirst j (Nat.lt_of_succ_lt_succ hj)
        · rintro ⟨hle, hat, hfirst⟩
          cases i with
          | zero =>
              exact absurd hat hstarts
          | succ i =>
              exact ⟨i, ih.mpr ⟨Nat.le_of_succ_le_succ hle, hat, fun j hj =>
                hfirst (j + 1) (Nat.succ_lt_succ hj)⟩, rfl⟩

theorem find_eq_none : find pattern text = none ↔ ¬ pattern <:+: text := by
  induction text with
  | nil =>
      rw [find, List.infix_nil]
      by_cases hpattern : pattern = []
      · simp [hpattern]
      · simp [hpattern]
  | cons c text ih =>
      rw [find, List.infix_cons_iff, not_or, ← ih]
      by_cases hstarts : pattern <+: c :: text
      · rw [if_pos (List.isPrefixOf_iff_prefix.mpr hstarts)]
        simp [hstarts]
      · rw [if_neg (mt List.isPrefixOf_iff_prefix.mp hstarts), Option.map_eq_none_iff,
          and_iff_right hstarts]

theorem find_isSome
    (h : pattern <:+: text) :
    ∃ i, find pattern text = some i := by
  cases hfind : find pattern text with
  | none =>
      exact absurd h (find_eq_none.mp hfind)
  | some i =>
      exact ⟨i, rfl⟩

/-- Where the pattern is found the text goes on with it. -/
theorem drop_of_find
    {i : Nat}
    (h : find pattern text = some i) :
    text.drop i = pattern ++ text.drop (i + pattern.length) := by
  obtain ⟨-, hstarts, -⟩ := find_eq_some.mp h
  rw [← List.drop_drop]
  exact (List.prefix_iff_eq_append.mp hstarts).symm

end Find
end FutureOs
