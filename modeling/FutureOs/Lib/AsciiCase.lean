import Mathlib.Data.Char
import Mathlib.Tactic.Common

/-!
# The case of ASCII letters

Two characters are the same up to the case of ASCII letters if `toLower` makes them the same.
For a letter these are its two cases, and for any other character itself.
-/

namespace FutureOs
namespace AsciiCase

theorem isUpper_iff {c : Char} : c.isUpper = true ↔ 65 ≤ c.toNat ∧ c.toNat ≤ 90 := by
  refine decide_eq_true_iff.trans ?_
  exact and_congr UInt32.le_iff_toNat_le UInt32.le_iff_toNat_le

theorem isLower_iff {c : Char} : c.isLower = true ↔ 97 ≤ c.toNat ∧ c.toNat ≤ 122 := by
  show (decide (c.val ≥ 97) && decide (c.val ≤ 122)) = true ↔ _
  rw [Bool.and_eq_true, decide_eq_true_iff, decide_eq_true_iff]
  exact and_congr UInt32.le_iff_toNat_le UInt32.le_iff_toNat_le

theorem toNat_toLower (c : Char) :
    c.toLower.toNat = if 65 ≤ c.toNat ∧ c.toNat ≤ 90 then c.toNat + 32 else c.toNat := by
  unfold Char.toLower
  split
  case isTrue h =>
    have hupper : 65 ≤ c.toNat ∧ c.toNat ≤ 90 :=
      ⟨UInt32.le_iff_toNat_le.1 h.1, UInt32.le_iff_toNat_le.1 h.2⟩
    rw [if_pos hupper]
    show (c.val + 32).toNat = c.val.toNat + 32
    rw [UInt32.toNat_add]
    exact Nat.mod_eq_of_lt (Nat.lt_of_le_of_lt (Nat.add_le_add_right hupper.2 32) (by decide))
  case isFalse h =>
    rw [if_neg fun hupper => h ⟨UInt32.le_iff_toNat_le.2 hupper.1,
      UInt32.le_iff_toNat_le.2 hupper.2⟩]

theorem toNat_toUpper (c : Char) :
    c.toUpper.toNat = if 97 ≤ c.toNat ∧ c.toNat ≤ 122 then c.toNat - 32 else c.toNat := by
  unfold Char.toUpper
  split
  case isTrue h =>
    have hlower : 97 ≤ c.toNat ∧ c.toNat ≤ 122 :=
      ⟨UInt32.le_iff_toNat_le.1 h.1, UInt32.le_iff_toNat_le.1 h.2⟩
    rw [if_pos hlower]
    show (c.val + 4294967264).toNat = c.val.toNat - 32
    have hlow : 97 ≤ c.val.toNat := hlower.1
    have hhigh : c.val.toNat ≤ 122 := hlower.2
    rw [UInt32.toNat_add, show (4294967264 : UInt32).toNat = 4294967264 from rfl]
    omega
  case isFalse h =>
    rw [if_neg fun hlower => h ⟨UInt32.le_iff_toNat_le.2 hlower.1,
      UInt32.le_iff_toNat_le.2 hlower.2⟩]

theorem eq_iff_toNat {c d : Char} : c = d ↔ c.toNat = d.toNat :=
  ⟨congrArg Char.toNat, fun h => Char.ext (UInt32.toNat.inj h)⟩

theorem isAlpha_iff {c : Char} :
    c.isAlpha = true ↔
      65 ≤ c.toNat ∧ c.toNat ≤ 90 ∨ 97 ≤ c.toNat ∧ c.toNat ≤ 122 := by
  show (c.isUpper || c.isLower) = true ↔ _
  rw [Bool.or_eq_true, isUpper_iff, isLower_iff]

/-- A character is the same as its two cases. -/
theorem eq_cases_iff (c d : Char) :
    c.toLower = d ∨ c.toUpper = d ↔ c.toLower = d.toLower := by
  rw [eq_iff_toNat, eq_iff_toNat, eq_iff_toNat, toNat_toLower, toNat_toUpper, toNat_toLower]
  split_ifs <;> omega

/-- What is no letter is the same as itself. -/
theorem eq_iff
    {c : Char}
    (h : c.isAlpha = false)
    (d : Char) :
    c = d ↔ c.toLower = d.toLower := by
  have hnot := mt isAlpha_iff.2 (Bool.eq_false_iff.1 h)
  rw [eq_iff_toNat, eq_iff_toNat, toNat_toLower, toNat_toLower]
  split_ifs <;> omega

theorem isAlphanum_cases
    {c : Char}
    (h : c.isAlpha = true) :
    c.toLower.isAlphanum = true ∧ c.toUpper.isAlphanum = true := by
  rw [isAlpha_iff] at h
  rw [Char.isAlphanum, Char.isAlphanum, Bool.or_eq_true, Bool.or_eq_true, isAlpha_iff,
    isAlpha_iff, toNat_toLower, toNat_toUpper]
  constructor
  · left
    split_ifs <;> omega
  · left
    split_ifs <;> omega

end AsciiCase
end FutureOs
