import FutureOs.Orchestration.State

/-!
# The events of a goal

Every event names its goal and the second it was recorded in; `EventKind` is the rest of
it.  The order of the kinds is that of the source.
-/

namespace FutureOs
namespace Orchestration

/-- A recipient-scoped instruction. -/
structure Instruction where
  id : String
  agentId : Option String
  text : String
  interrupt : Bool
deriving DecidableEq

inductive EventKind
  | goalStarted
  | todoAdded (todo : Todo)
  | todoCompleted (todoId : String) (noFollowUp : Bool) (successorIds : List String)
      (evidence : Option String)
  | todoSuperseded (todoId : String)
  | todoUpdated (todoId : String) (text status evidence note priority resumeWhen : Option String)
      (blocks : Option (List String)) (acceptance owner : Option String)
      (resumeAtMs : Option Nat)
  | goalCancelled (reason : String)
  | gateResolved (todoId decision : String) (note : Option String)
  | gapSatisfied (gapId : String)
  | runRecorded (record : RunRecord)
  | todoClaimed (todoId agentId : String) (leaseExpiresAt : Nat) (holderPid : Option Nat)
  | agentRegistered (agentId : String) (workspaces : List String)
  | agentOnboarded (agentId : String) (capabilities workspaces : List String)
  | workerSessionBound (agentId sessionId : String)
  | workspaceLockAcquired (agentId todoId : String) (paths : List String) (forced : Bool)
  | replanAcked (deltaKinds : List String)
  | profileSet (outcomeFloorStreakThreshold : Nat)
  | authoritySet (writeScope requiresApproval : List String)
  | todoArchived (todoId : String)
  | monitorPolled (todoId result : String) (noChangeCount : Nat)
  | turnNoProgress (todoId : String) (agentId : Option String) (idleSecs toolCallsTotal : Nat)
  | quotaSpent (runId todoId source : String) (slots : Nat)
  | evidenceAttached (todoId evidence : String)
  | todoRenewed (todoId agentId : String) (leaseExpiresAt : Nat)
  | todoReleased (todoId agentId : String)
  | todoExpired (todoId : String)
  | deliveryOutcomeRecorded (todoId outcome : String) (note : Option String)
      (deliveredTurn seq : Nat)
  | progressReported (agentId todoId message : String)
  | supervisorNote (todoId noteKind message dedupKey : String)
  | followthroughCreated (sourceTodoId followupTodoId : String) (turnsOverdue : Nat)
  | decisionSummaryRecorded (summary : Json)
  | heartbeatReceiptRecorded (agentId : Option String) (turnInstanceId : String)
      (todoId : Option String) (decision reasonCode : String)
  | schedulerAcked (agentId action cadenceClass : String) (rrule : Option String)
      (source : String)
  | schedulerTicked (agentId action : String) (rrule : Option String)
  | automationLivenessAlert (agentId : String) (elapsedSecs thresholdSecs consecutive : Nat)
  | projectionRepaired (projection : String)
      (driftCount missingRows staleRows duplicateRows rowsWritten : Nat) (backupPath : String)
  | replanRuleSetUpdated (ruleSetVersion : String) (ruleIds : List String)
  | supervisorRegistered (sessionId : String)
  | workerSteered (agentId : Option String) (instruction : String)
  | steerConsumed (agentId : Option String) (steerTs : Nat)
  | controlIssued (instruction : Instruction)
  | controlAcknowledged (instructionId : String) (agentId : Option String)
  | supervisorBatchPrepared (batchId sessionId : String) (noteKeys : List String)
      (message : String)
  | supervisorBatchDelivered (batchId : String)
  | workerStopped (agentId : Option String)
deriving DecidableEq

structure Event where
  goalId : String
  kind : EventKind
  ts : Nat
deriving DecidableEq

end Orchestration
end FutureOs
