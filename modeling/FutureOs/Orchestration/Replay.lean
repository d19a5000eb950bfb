import FutureOs.Lib.Machine
import FutureOs.Orchestration.Apply

/-!
# Rebuilding a goal from its ledger

A replay starts from a new goal, folds the ledger and adds what the side files hold.
It reads the clock for the new goal, for the freshness stamp and inside the fold; all
readings of one replay are the argument `now`.
-/

namespace FutureOs
namespace Orchestration

structure RegistryEntry where
  goalId : String
  objective : String
  cwd : String
  status : String
  createdAt : Nat
deriving DecidableEq

/-- The files beside the ledger; a line of `runs` that does not parse is `none`. -/
structure SideFiles where
  nextAction : Option String
  runs : Option (List (Option RunRecord))

namespace Goal

/-- The freshness stamp of a ledger read at `now`. -/
def freshness (now : Nat) (ledger : List Event) : DecisionFreshness where
  eventsMaxSeq := ledger.length
  eventsMaxTs := ((ledger.map Event.ts).filter (0 < ·)).max?
  readAt := now

/-- The goal a replay starts from. -/
def seed (now : Nat) (entry : RegistryEntry) (ledger : List Event) : Goal :=
  let goal := Goal.new now entry.goalId entry.objective entry.cwd
  { goal with
    createdAt := if 0 < entry.createdAt then entry.createdAt else goal.createdAt
    decisionFreshness := some (freshness now ledger) }

/-- The next action and the run history come from the side files. -/
def restore (goal : Goal) (files : SideFiles) : Goal :=
  { goal with
    nextAction := match files.nextAction with
      | some text => some (Text.trim text)
      | none => goal.nextAction
    history := goal.history ++ (files.runs.getD []).filterMap id }

end Goal

/-- `Store::replay`, for a registered goal with a readable ledger. -/
def replay (now : Nat) (entry : RegistryEntry) (ledger : List Event) (files : SideFiles) :
    Goal :=
  (Machine.run (apply now) (Goal.seed now entry ledger) ledger).restore files

end Orchestration
end FutureOs
