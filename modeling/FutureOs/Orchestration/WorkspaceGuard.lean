import FutureOs.Lib.Fields
import FutureOs.Orchestration.State
import Mathlib.Data.List.Sort

/-!
# The workspace guard

Which paths a claim writes, and which live leases of other agents overlap them.  What
the operating system answers (whether a process lives, how a path is resolved, whether
two paths overlap) is the parameter `Host`.
-/

namespace FutureOs
namespace Orchestration

/-- The answers of the operating system. -/
structure Host where
  pidAlive : Nat → Bool
  /-- `normalize_workspace_path_at`: the path and the directory it is relative to. -/
  normalizeAt : String → String → String
  isAbsolute : String → Bool
  pathsOverlap : String → String → Bool

structure WorkspaceConflict where
  holderAgentId : String
  holderTodoIds : List String
  overlappingPaths : List String
  holderLeaseExpiresAt : Nat
deriving DecidableEq

/-- Sort texts and remove duplicates. -/
def sortedSet (texts : List String) : List String :=
  (texts.foldl (fun set text => Fields.insert text () set) []).map Prod.fst

/-- The fallback write set of an agent. -/
def agentWorkspaces (goal : Goal) (agentId : String) : List String :=
  match goal.agentProfiles.find? fun p => p.id = agentId with
  | some profile => profile.workspaces
  | none => []

/-- The write set of a todo: its own scopes, else the fallback of the agent. -/
def todoWorkspaces (host : Host) (goal : Goal) (agentId : String) (t : Todo) : List String :=
  match t.requiredWriteScope.filter fun scope => Text.trim scope ≠ "" with
  | [] => agentWorkspaces goal agentId
  | scopes => scopes.map fun scope => host.normalizeAt scope goal.cwd

/-- The agent holds a live lease on an unfinished todo. -/
def liveHolder (host : Host) (t : Todo) (agentId : String) (now : Nat) : Bool :=
  !t.status.terminal && t.claimedBy = some agentId && t.leaseExpiresAt.any (now < ·) &&
    t.holderPid.all host.pidAlive

/-- The paths of a held todo that overlap the given ones. -/
def overlapping (host : Host) (goal : Goal) (holder : String) (mine : List String)
    (t : Todo) : List String :=
  (todoWorkspaces host goal holder t).filter fun w => mine.any fun m => host.pathsOverlap m w

/-- The conflict with one other holder. -/
def conflictWith (host : Host) (goal : Goal) (mine : List String) (now : Nat)
    (holder : String) : Option WorkspaceConflict :=
  let live := goal.todos.filter fun t => liveHolder host t holder now
  let paths := sortedSet (live.flatMap (overlapping host goal holder mine))
  let held := (live.filter fun t => overlapping host goal holder mine t ≠ []).insertionSort
    fun t t' => t.id ≤ t'.id
  if paths = [] then
    none
  else
    some
      { holderAgentId := holder
        holderTodoIds := held.map Todo.id
        overlappingPaths := paths
        holderLeaseExpiresAt := ((held.filterMap Todo.leaseExpiresAt).min?).getD now }

def conflictsForPaths (host : Host) (goal : Goal) (agentId : String) (mine : List String)
    (now : Nat) : List WorkspaceConflict :=
  if mine = [] then
    []
  else
    (sortedSet ((goal.todos.filterMap Todo.claimedBy).filter (· ≠ agentId))).filterMap
      (conflictWith host goal mine now)

def todoWorkspaceConflicts (host : Host) (goal : Goal) (agentId : String) (t : Todo)
    (now : Nat) : List WorkspaceConflict :=
  conflictsForPaths host goal agentId (todoWorkspaces host goal agentId t) now

/-- The report of the conflicts for a refused claim. -/
def renderConflicts (conflicts : List WorkspaceConflict) (now : Nat) : String :=
  conflicts.foldl
    (fun out c => out ++ "  ⚠ agent `" ++ c.holderAgentId ++ "` is writing " ++
      String.intercalate ", " c.overlappingPaths ++ " (todos: " ++
      String.intercalate ", " c.holderTodoIds ++ "; lease expires in " ++
      toString (c.holderLeaseExpiresAt - now) ++ "s)\n") ""

end Orchestration
end FutureOs
