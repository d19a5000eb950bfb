import FutureOs.Lib.Json
import FutureOs.Lib.Text

/-!
# The state of a goal

A goal owns its todos, its acceptance gaps and what is folded from its event ledger.
The operations are the ones the fold uses: they change the first todo with an id, and
never remove one.

Times of day are seconds since the epoch; a `SystemTime` is nanoseconds since the
epoch, and may lie before it.  Every reading of the clock is an argument.
-/

namespace FutureOs
namespace Orchestration

/-- Nanoseconds since the epoch. -/
abbrev SystemTime := Int

/-- Whole seconds since the epoch; zero for a time before it. -/
def SystemTime.secs (t : SystemTime) : Nat :=
  t.toNat / 10 ^ 9

/-- Unix milliseconds as a time. -/
def epochMillisAsTime (ms : Nat) : SystemTime :=
  (ms * 10 ^ 6 : Nat)

/-- Unix seconds as a time. -/
def epochSecsAsTime (secs : Nat) : SystemTime :=
  (secs * 10 ^ 9 : Nat)

inductive Priority
  | p0
  | p1
  | p2
deriving DecidableEq

inductive TaskClass
  | advancement
  | userGate
  | userAction
  | monitor
  | blocker
  | coordination
deriving DecidableEq

inductive TodoStatus
  | open
  | done
  | superseded
  | deferred
  | blocked
deriving DecidableEq

/-- Done or superseded. -/
def TodoStatus.terminal : TodoStatus → Bool
  | .done | .superseded => true
  | _ => false

inductive TodoRole
  | agent
  | user
deriving DecidableEq

structure Todo where
  id : String
  parentId : Option String
  text : String
  title : String
  taskClass : TaskClass
  status : TodoStatus
  priority : Priority
  role : TodoRole
  index : Nat
  actionKind : Option String
  gateQuestion : Option String
  decision : Option String
  note : Option String
  resumeWhenText : Option String
  resumeWhen : Option SystemTime
  consecutiveNoChange : Nat
  monitorTarget : Option String
  monitorPolicy : Option String
  monitorCadence : Option String
  blockedByGate : Option String
  failedAttempts : Nat
  successorIds : List String
  noFollowUp : Bool
  evidence : Option String
  owner : Option String
  claimedBy : Option String
  leaseExpiresAt : Option Nat
  holderPid : Option Nat
  goalBound : Bool
  globalGate : Bool
  updatedAt : Nat
  completedAt : Option Nat
  archiveState : String
  taskRepository : Option String
  continuationPolicy : Option String
  requiredWriteScope : List String
  validator : Option String
  acceptance : Option String
  maxValidationAttempts : Nat
deriving DecidableEq

namespace Todo

/-- A new todo, at the clock reading `now`. -/
def new (now : Nat) (id text : String) (taskClass : TaskClass) : Todo where
  id := id
  parentId := none
  text := text
  title := text
  taskClass := taskClass
  status := .open
  priority := .p1
  role := match taskClass with
    | .userGate | .userAction => .user
    | _ => .agent
  index := 0
  actionKind := none
  gateQuestion := none
  decision := none
  note := none
  resumeWhenText := none
  resumeWhen := none
  consecutiveNoChange := 0
  monitorTarget := none
  monitorPolicy := none
  monitorCadence := none
  blockedByGate := none
  failedAttempts := 0
  successorIds := []
  noFollowUp := false
  evidence := none
  owner := none
  claimedBy := none
  leaseExpiresAt := none
  holderPid := none
  goalBound := false
  globalGate := false
  updatedAt := now
  completedAt := none
  archiveState := "active"
  taskRepository := none
  continuationPolicy := none
  requiredWriteScope := []
  validator := none
  acceptance := none
  maxValidationAttempts := 3

/-- A due deferred todo becomes runnable again. -/
def isDueDeferred (t : Todo) (now : SystemTime) : Bool :=
  t.status = .deferred && t.resumeWhen.any (· ≤ now)

/-- Another agent holds a live lease. -/
def claimedByOther (t : Todo) (agentId : Option String) (nowEpoch : Nat) : Bool :=
  match t.claimedBy, t.leaseExpiresAt with
  | some owner, some expires => nowEpoch < expires && agentId ≠ some owner
  | _, _ => false

/-- Archive the todo: the stamp is the clock's. -/
def archive (now : Nat) (t : Todo) : Todo :=
  { t with archiveState := "archived", updatedAt := now }

/-- Mark the todo done and record the closure intent. -/
def complete (now : Nat) (noFollowUp : Bool) (successorIds : List String) (t : Todo) : Todo :=
  { t with
    status := .done
    claimedBy := none
    leaseExpiresAt := none
    holderPid := none
    noFollowUp := noFollowUp
    successorIds := successorIds
    completedAt := some now
    updatedAt := now }

end Todo

/-- One recorded turn: what the fold reads of it, and the other fields as written. -/
structure RunRecord where
  todoId : String
  terminalState : String
  evidence : String
  tools : List String
  rest : Json
deriving DecidableEq

structure AcceptanceGap where
  id : String
  description : String
  satisfied : Bool
deriving DecidableEq

structure ExecutionProfile where
  cadence : String := "bounded_progress_segment"
  spendRule : String := "spend_only_after_artifact_validation_writeback"
  outcomeFloorStreakThreshold : Nat := 0
deriving DecidableEq

structure ReplanAck where
  recorded : Bool
  deltaKinds : List String
  at' : Nat
deriving DecidableEq

def ReplanAck.hasFrontierDelta (ack : ReplanAck) : Bool :=
  ack.recorded && ack.deltaKinds.any fun kind =>
    kind ∈ ["vision_patch", "no_followup", "successor_or_supersede", "runnable_todo_set"]

structure DeliveryState where
  todoId : String
  outcome : String
  note : Option String
  deliveredTurn : Nat
  followthroughTodoId : Option String
  seq : Nat
  updatedAt : Nat
deriving DecidableEq

structure AgentProfile where
  id : String
  capabilities : List String
  workspaces : List String
deriving DecidableEq

structure Authority where
  writeScope : List String := []
  requiresApproval : List String := ["publish", "production-action", "merge"]
deriving DecidableEq

structure SteerInstruction where
  agentId : Option String
  instruction : String
  ts : Nat
deriving DecidableEq

structure LivenessAlert where
  agentId : String
  elapsedSecs : Nat
  thresholdSecs : Nat
  consecutive : Nat
  ts : Nat
deriving DecidableEq

structure TurnNoProgressRecord where
  goalId : String
  todoId : String
  agentId : Option String
  idleSecs : Nat
  toolCallsTotal : Nat
  ts : Nat
deriving DecidableEq

structure SemanticEvent where
  kind : String
  todoId : Option String
  summary : String
  ts : Nat
deriving DecidableEq

structure ReplanRuleSet where
  schemaVersion : String
  ruleIds : List String
deriving DecidableEq

/-- The stamp a replay leaves for the decisions compiled from it; never persisted. -/
structure DecisionFreshness where
  eventsMaxSeq : Nat
  eventsMaxTs : Option Nat
  readAt : Nat
deriving DecidableEq

structure Goal where
  goalId : String
  objective : String
  cwd : String
  status : String
  acceptance : List AcceptanceGap
  todos : List Todo
  history : List RunRecord
  nextAction : Option String
  registeredAgents : List String
  agentProfiles : List AgentProfile
  executionProfile : ExecutionProfile
  outcomeStreak : Nat
  replanAck : Option ReplanAck
  authority : Authority
  createdAt : Nat
  nextIndex : Nat
  quotaSpentSlots : Nat
  deliveryStates : List DeliveryState
  decisionFreshness : Option DecisionFreshness
  schedulerHeartbeats : List (String × Nat)
  livenessAlerts : List LivenessAlert
  turnNoProgress : List TurnNoProgressRecord
  frontierChangeTs : List Nat
  semanticHistory : List SemanticEvent
  replanRuleSet : Option ReplanRuleSet
  workerSessions : List (String × String)
  supervisorSessionId : Option String
  pendingSteer : Option SteerInstruction
deriving DecidableEq

/-- Change the first element that meets the test. -/
def updateFirst {α : Type} (p : α → Bool) (f : α → α) : List α → List α
  | [] => []
  | a :: rest => if p a then f a :: rest else a :: updateFirst p f rest

namespace Goal

/-- A new goal, at the clock reading `now`. -/
def new (now : Nat) (goalId objective cwd : String) : Goal where
  goalId := goalId
  objective := objective
  cwd := cwd
  status := "active"
  acceptance := []
  todos := []
  history := []
  nextAction := none
  registeredAgents := []
  agentProfiles := []
  executionProfile := {}
  outcomeStreak := 0
  replanAck := none
  authority := {}
  createdAt := now
  nextIndex := 0
  quotaSpentSlots := 0
  deliveryStates := []
  decisionFreshness := none
  schedulerHeartbeats := []
  livenessAlerts := []
  turnNoProgress := []
  frontierChangeTs := []
  semanticHistory := []
  replanRuleSet := none
  workerSessions := []
  supervisorSessionId := none
  pendingSteer := none

/-- The first todo with the id. -/
def todo (goal : Goal) (id : String) : Option Todo :=
  goal.todos.find? fun t => t.id = id

/-- Change the first todo with the id; an unknown id changes nothing. -/
def todoMut (goal : Goal) (id : String) (f : Todo → Todo) : Goal :=
  { goal with todos := updateFirst (fun t => t.id = id) f goal.todos }

/-- Archive a todo. -/
def archiveTodo (now : Nat) (goal : Goal) (todoId : String) : Goal :=
  goal.todoMut todoId (Todo.archive now)

def supersede (goal : Goal) (todoId : String) : Goal :=
  goal.todoMut todoId fun t => { t with status := .superseded }

def satisfyGap (goal : Goal) (id : String) : Goal :=
  { goal with
    acceptance := updateFirst (fun g => g.id = id) (fun g => { g with satisfied := true })
      goal.acceptance }

/-- A new todo takes the next index unless it brings one. -/
def addTodo (goal : Goal) (t : Todo) : Goal :=
  if t.index = 0 then
    { goal with
      nextIndex := goal.nextIndex + 1
      todos := goal.todos ++ [{ t with index := goal.nextIndex + 1 }] }
  else
    { goal with todos := goal.todos ++ [t] }

def frontierChanged (goal : Goal) (ts : Nat) : Goal :=
  { goal with frontierChangeTs := goal.frontierChangeTs ++ [ts] }

/-- Register an agent and replace its profile. -/
def registerAgent (goal : Goal) (profile : AgentProfile) : Goal :=
  { goal with
    registeredAgents :=
      if profile.id ∈ goal.registeredAgents then goal.registeredAgents
      else goal.registeredAgents ++ [profile.id]
    agentProfiles := goal.agentProfiles.filter (fun p => p.id ≠ profile.id) ++ [profile] }

/--
Fold a delivery outcome: the latest wins.  A fresh delivery moves the turn stamp and
clears the follow-through.
-/
def applyDeliveryOutcome (goal : Goal) (todoId outcome : String) (note : Option String)
    (deliveredTurn seq ts : Nat) : Goal :=
  let freshDelivery : Bool := outcome = "delivered"
  { goal with
    deliveryStates :=
      if goal.deliveryStates.any fun d => d.todoId = todoId then
        updateFirst (fun d => d.todoId = todoId)
          (fun d =>
            { d with
              outcome := outcome
              note := note.or d.note
              deliveredTurn := if freshDelivery then deliveredTurn else d.deliveredTurn
              followthroughTodoId := if freshDelivery then none else d.followthroughTodoId
              seq := seq
              updatedAt := ts })
          goal.deliveryStates
      else
        goal.deliveryStates ++
          [{ todoId := todoId
             outcome := outcome
             note := note
             deliveredTurn := if freshDelivery then deliveredTurn else 0
             followthroughTodoId := none
             seq := seq
             updatedAt := ts }] }

/-- Stamp the follow-up todo on the pending delivery. -/
def applyFollowthrough (goal : Goal) (sourceTodoId followupTodoId : String) (ts : Nat) :
    Goal :=
  { goal with
    deliveryStates := updateFirst (fun d => d.todoId = sourceTodoId)
      (fun d => { d with followthroughTodoId := some followupTodoId, updatedAt := ts })
      goal.deliveryStates }

end Goal

/-- `decision::truncate`. -/
def truncate (s : String) (max : Nat) : String :=
  if s.toList.length ≤ max then s else String.ofList (s.toList.take max ++ ['…'])

def semanticHistoryCap : Nat := 50

def semanticSummaryMaxChars : Nat := 200

/-- Record one summary; the oldest are dropped past the cap. -/
def Goal.recordSemanticEvent (goal : Goal) (kind : String) (todoId : Option String)
    (summary : String) (ts : Nat) : Goal :=
  let pushed := goal.semanticHistory ++
    [{ kind := kind
       todoId := todoId
       summary := truncate summary semanticSummaryMaxChars
       ts := ts }]
  { goal with semanticHistory := pushed.drop (pushed.length - semanticHistoryCap) }

end Orchestration
end FutureOs
