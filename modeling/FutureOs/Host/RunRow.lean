import Mathlib.Data.List.Basic

/-!
# One row of the runs table

The writers of the host store (`host/src/store/runs.rs`,
`host/src/store/cleanup.rs`) that move the status of a run.  Each is a single
`UPDATE … WHERE`: its guard is part of the statement, so it is one step on the
row, and it reports whether the row matched.  A missing `error_type` compares
unequal to every text, as SQL's `NULL` does in a guard.

Two guards occur.  `update_run_status_if_active` and `fail_run_if_active` move a
row that is not terminal yet; the repair writers move one of the two terminal
shapes the host writes without the Agent's evidence (`unverifiedTerminal`).
The clock columns of a row are read by no writer and left out.
-/

namespace FutureOs
namespace Host

inductive RunStatus
  | running
  | waitingApproval
  | completed
  | failed
  | cancelled
deriving DecidableEq

/-- `is_terminal_run_status`. -/
def isTerminalRunStatus : RunStatus → Bool
  | .completed | .failed | .cancelled => true
  | .running | .waitingApproval => false

structure RunRow where
  status : RunStatus
  errorMessage : Option String
  errorType : Option String
deriving DecidableEq

structure UpdateRunStatusInput where
  status : RunStatus
  errorMessage : Option String
  errorType : Option String
deriving DecidableEq

/-- The agent's status, error type and message for a terminal marker. -/
structure Settlement where
  status : RunStatus
  errorType : Option String
  defaultMessage : Option String
deriving DecidableEq

namespace RunRow

/-- No terminal status yet: the guard of the writers for live rows. -/
def isActive (row : RunRow) : Bool :=
  !isTerminalRunStatus row.status

def updateRunStatusIfActive
    (input : UpdateRunStatusInput)
    (row : RunRow) : RunRow × Bool :=
  if row.isActive then
    ({ status := input.status
       errorMessage := input.errorMessage
       errorType := input.errorType <|> row.errorType }, true)
  else
    (row, false)

def failRunIfActive (errorMessage errorType : String) (row : RunRow) :
    RunRow × Bool :=
  if row.isActive then
    (⟨.failed, some errorMessage, some errorType⟩, true)
  else
    (row, false)

/-- The row carries the marker of an interrupted run. -/
def isInterrupted (row : RunRow) : Bool :=
  row.status = .cancelled ∧ row.errorType = some "interrupted"

/-- `UNVERIFIED_TERMINAL_RUN_SQL`. -/
def unverifiedTerminal (row : RunRow) : Bool :=
  row.status = .failed ∨ row.isInterrupted

/-- A row that is live again carries no failure. -/
def live : RunRow := ⟨.running, none, none⟩

def reviveUnverifiedRun (row : RunRow) : RunRow × Bool :=
  if row.unverifiedTerminal then (live, true) else (row, false)

def reanimateRun (row : RunRow) : RunRow × Bool :=
  if row.isInterrupted then (live, true) else (row, false)

/-- What a terminal state of the Agent's journal settles a repaired row to. -/
def agentTerminalSettlement (agentState : String) : Option Settlement :=
  if agentState = "completed" then
    some ⟨.completed, none, none⟩
  else if agentState = "cancelled" then
    some ⟨.cancelled, some "cancelled", some "Run was cancelled."⟩
  else if agentState = "error" ∨ agentState = "failed" then
    some ⟨.failed, some "agent_error", some "Future Agent run failed."⟩
  else if agentState = "incomplete" ∨ agentState = "interrupted" then
    some ⟨.failed, some "stream_interrupted",
      some "Future Agent response ended before a clean terminal."⟩
  else
    none

/-- The row a settlement writes, with the Agent's own message first. -/
def settled (settlement : Settlement) (error : Option String) : RunRow :=
  ⟨settlement.status, error <|> settlement.defaultMessage,
    settlement.errorType⟩

def settleUnverifiedRunFromAgent
    (agentState : String)
    (error : Option String)
    (row : RunRow) : RunRow × Bool :=
  match agentTerminalSettlement agentState with
  | none => (row, false)
  | some settlement =>
      if row.unverifiedTerminal then
        (settled settlement error, true)
      else
        (row, false)

/-- This guard reads the error type only, not the status. -/
def settleInterruptedRunFromAgent
    (agentState : String)
    (error : Option String)
    (row : RunRow) : RunRow :=
  match agentTerminalSettlement agentState with
  | none => row
  | some settlement =>
      if row.errorType = some "interrupted" then
        settled settlement error
      else
        row

theorem agentTerminalSettlement_completed
    {agentState : String}
    {settlement : Settlement}
    (h : agentTerminalSettlement agentState = some settlement)
    (hstatus : settlement.status = .completed) :
    agentState = "completed" := by
  unfold agentTerminalSettlement at h
  grind

theorem agentTerminalSettlement_cancelled
    {agentState : String}
    {settlement : Settlement}
    (h : agentTerminalSettlement agentState = some settlement)
    (hstatus : settlement.status = .cancelled) :
    agentState = "cancelled" := by
  unfold agentTerminalSettlement at h
  grind

/-- A settlement is terminal and never leaves the marker of an interruption. -/
theorem agentTerminalSettlement_terminal
    {agentState : String}
    {settlement : Settlement}
    (h : agentTerminalSettlement agentState = some settlement) :
    isTerminalRunStatus settlement.status = true ∧
      settlement.errorType ≠ some "interrupted" := by
  unfold agentTerminalSettlement at h
  grind [isTerminalRunStatus]

end RunRow

end Host
end FutureOs
