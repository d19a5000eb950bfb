import Mathlib.Data.List.MinMax
import Mathlib.Tactic.Common

/-!
# Time zones

A zone is an offset and the instants at which it changes.  Where the offset grows, some
local readings never occur; where it shrinks, some occur twice.  `firstAt` is the first
instant with a local reading (`firstAt_eq_some_iff`).

Instants, readings and offsets are in milliseconds.
-/

namespace FutureOs

/-- The offset before the first change, and the changes in their order. -/
structure Zone where
  initial : Int
  changes : List (Int × Int)
  ordered : (changes.map Prod.fst).Pairwise (· < ·)

namespace Zone

def offsetAt (z : Zone) (t : Int) : Int :=
  ((z.changes.filter fun change => change.1 ≤ t).getLast?.map Prod.snd).getD z.initial

/-- The local reading at an instant. -/
def localAt (z : Zone) (t : Int) : Int :=
  t + z.offsetAt t

def offsets (z : Zone) : List Int :=
  z.initial :: z.changes.map Prod.snd

/-- The first instant with a local reading. -/
def firstAt (z : Zone) (reading : Int) : Option Int :=
  ((z.offsets.map (reading - ·)).filter fun t => z.localAt t = reading).min?

/-- A zone without changes. -/
def fixed (offset : Int) : Zone where
  initial := offset
  changes := []
  ordered := List.Pairwise.nil

theorem offsetAt_mem (z : Zone) (t : Int) : z.offsetAt t ∈ z.offsets := by
  unfold offsetAt offsets
  cases h : (z.changes.filter fun change => change.1 ≤ t).getLast? with
  | none =>
      exact List.mem_cons_self
  | some change =>
      have hmem := List.mem_of_mem_filter (List.mem_of_getLast? h)
      exact List.mem_cons_of_mem _ (List.mem_map_of_mem hmem)

theorem mem_candidates_iff
    (z : Zone)
    (reading t : Int) :
    t ∈ (z.offsets.map (reading - ·)).filter (fun t => z.localAt t = reading) ↔
      z.localAt t = reading := by
  rw [List.mem_filter, decide_eq_true_eq, and_iff_right_iff_imp]
  intro h
  refine List.mem_map.2 ⟨z.offsetAt t, z.offsetAt_mem t, ?_⟩
  unfold localAt at h
  omega

/-- `firstAt` is the first instant with the reading, where there is one. -/
theorem firstAt_eq_some_iff
    {z : Zone}
    {reading t : Int} :
    z.firstAt reading = some t ↔
      z.localAt t = reading ∧ ∀ s, z.localAt s = reading → t ≤ s := by
  unfold firstAt
  rw [List.min?_eq_some_iff, mem_candidates_iff]
  simp only [mem_candidates_iff]

@[simp] theorem offsetAt_fixed (offset t : Int) : (fixed offset).offsetAt t = offset := rfl

/-- Without changes every reading occurs once. -/
@[simp] theorem firstAt_fixed (offset reading : Int) :
    (fixed offset).firstAt reading = some (reading - offset) := by
  rw [firstAt_eq_some_iff]
  unfold localAt
  simp only [offsetAt_fixed]
  exact ⟨by omega, fun s hs => by omega⟩

end Zone
end FutureOs
