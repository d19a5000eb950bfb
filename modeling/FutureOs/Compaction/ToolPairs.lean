import FutureOs.Compaction.Plan
import Mathlib.Algebra.Order.BigOperators.Group.List
import Mathlib.Data.List.Forall2

/-!
# The messages of a summary request

A model that writes a handoff summary gets the conversation itself.  `fitMessages` keeps what
fits, the first two messages and the longest tail there is room for, and `repairToolPairs`
takes out calls and results of tools whose other half is gone.  It looks for the other half by
its id alone, anywhere in the messages.
-/

namespace FutureOs
namespace Compaction

/-! ## The code -/

namespace AgentMessage

end AgentMessage

/-- The block stays: a call whose id is answered, a result whose id is declared. -/
def ContentBlock.isMatched (declared answered : List String) : ContentBlock → Bool
  | .toolCall id _ _ _ => id ∈ answered
  | .toolResult id _ _ => id ∈ declared
  | _ => true

def AgentMessage.prune (declared answered : List String) (message : AgentMessage) :
    AgentMessage :=
  { message with content := message.content.filter (·.isMatched declared answered) }

section Request

variable {messages : List AgentMessage}
variable {message : AgentMessage}
variable {declared answered : List String}
variable {id : String}
variable {manager : ContextManager}
variable {maxOutput : Nat}

/-! ## A check for pairs -/

end Request

end Compaction
end FutureOs
