import FutureOs.Orchestration.Arbitration
import FutureOs.Orchestration.Judgement
import Mathlib.Data.List.Sort

/-!
# The decision kernel

`decision/mod.rs`: what a goal asks for next, as a function of its state, the clock and
the identity that asks.  `decideFor` is a row of early returns; every one of them builds
its packet with `packet`, which derives the auxiliary contracts and records the
arbitration.  Of a packet the fields that depend on the goal or on the decision are kept;
the event id, which is random, and the scan of the objective for leaks are not.
-/

namespace FutureOs
namespace Orchestration

/-- `DecisionReasonCode`: one for each way out of the kernel. -/
inductive DecisionReasonCode
  | goalCancelled
  | identityNotRegistered
  | openUserGate
  | runnableTodo
  | repairAttempt
  | blockedNoFallback
  | successionClosureMissing
  | monitorStalled
  | monitorDue
  | monitorBackoff
  | acceptanceGapOpen
  | deferredNotDue
  | workLeasedToOthers
  | validatedClosure
deriving DecidableEq

/-! ## The frontier -/

def Priority.rank : Priority → Nat
  | .p0 => 0
  | .p1 => 1
  | .p2 => 2

def Priority.name : Priority → String
  | .p0 => "P0"
  | .p1 => "P1"
  | .p2 => "P2"

/-- `sorted_runnable_at`: the frontier of an identity, the best priority first. -/
def sortedRunnableAt (goal : Goal) (agentId : Option String) (now : SystemTime) : List Todo :=
  (goal.runnableAdvancementForAt agentId now).mergeSort
    fun t t' => t.priority.rank ≤ t'.priority.rank

def laneAt (goal : Goal) (now : SystemTime) : String :=
  if (goal.openMonitorsAt now).isEmpty then "advancement_task" else "monitor"

/-- `pending_advancement_owner_aware_at`: claimable by anyone, and reserved for an owner. -/
def Goal.pendingAdvancementOwnerAwareAt (goal : Goal) (now : SystemTime) :
    List Todo × List Todo :=
  let pending := goal.todos.filter fun t =>
    t.taskClass = .advancement && t.isOpenAt now && !goal.isBlockedAt t now
  (pending.filter fun t => t.owner.isNone && !t.claimedByOther none now.secs,
    pending.filter fun t => t.owner.isSome)

structure FrontierProjection where
  replanRequired : Bool
  currentAgentAdvancement : Nat
  unclaimedAdvancement : Nat
  acceptanceGaps : Nat
  monitorsOpen : Nat
  monitorsDue : Nat
deriving DecidableEq

def frontierProjectionAt (goal : Goal) (replanRequired : Bool) (now : SystemTime) :
    FrontierProjection :=
  let (claimable, ownerScoped) := goal.pendingAdvancementOwnerAwareAt now
  { replanRequired := replanRequired
    currentAgentAdvancement :=
      ((goal.runnableAdvancementForAt none now).filter fun t => 0 < t.failedAttempts).length
    unclaimedAdvancement := claimable.length + ownerScoped.length
    acceptanceGaps := goal.unsatisfiedGaps.length
    monitorsOpen := (goal.openMonitorsAt now).length
    monitorsDue := ((goal.openMonitorsAt now).filter fun m => m.isDueAt now).length }

/-! ## The packet -/

structure SelectedTodo where
  todoId : String
  index : Nat
  priority : String
  taskClass : String
  actionKind : String
  text : String
deriving DecidableEq

structure WorkLaneContract where
  lane : String
  mustAttemptWork : Bool
  reasonCodes : List String
deriving DecidableEq

structure AutomationLiveness where
  keepActive : Bool
  pauseAllowed : Bool
  action : String
  reason : String
deriving DecidableEq

structure HeartbeatRecommendation where
  recommendedMode : String
  notify : String
deriving DecidableEq

structure SchedulerHint where
  action : String
  cadenceClass : String
  nextDueMs : Option Nat
deriving DecidableEq

structure QuotaSnapshot where
  spentSlots : Nat
  state : String
deriving DecidableEq

structure ReplanAckSnapshot where
  recorded : Bool
  deltaKinds : List String
  frontierDeltaPresent : Bool
deriving DecidableEq

structure TerminalClosure where
  kind : String
  derived : Bool
  source : String
deriving DecidableEq

structure ShouldRunPacket where
  ok : Bool
  goalId : String
  decision : String
  shouldRun : Bool
  effectiveAction : String
  reason : String
  reasonCode : DecisionReasonCode
  state : String
  status : String
  recommendedAction : String
  normalDeliveryAllowed : Bool
  selfRepairAllowed : Bool
  actionableByCodex : Bool
  requiresUserAction : Bool
  actionRequired : Bool
  selectedTodo : Option SelectedTodo
  openCount : Nat
  lifecyclePhase : String
  lifecycleFlags : List String
  activeStateNextAction : Option String
  interactionContract : InteractionContract
  workLaneContract : WorkLaneContract
  automationLiveness : AutomationLiveness
  heartbeatRecommendation : HeartbeatRecommendation
  schedulerHint : SchedulerHint
  quota : QuotaSnapshot
  executionProfile : ExecutionProfile
  surfaceStreak : Nat
  replanAck : ReplanAckSnapshot
  authority : Authority
  todoSummary : TodoSummary
  goalRouteHint : String
  frontierProjection : FrontierProjection
  schedulerArbitration : Option SchedulerArbitration
  terminalClosure : Option TerminalClosure
  decisionFreshness : Option DecisionFreshness
deriving DecidableEq

/-- `apply_arbitration`: record the arbitration, and fail closed where it is enforced. -/
def applyArbitration (p : ShouldRunPacket) (enforce : Bool) : ShouldRunPacket :=
  let arbitration := buildSchedulerArbitration p.interactionContract []
  let p := { p with schedulerArbitration := some arbitration }
  if enforce ∧ arbitration.disposition = .consistencyRepair then
    { p with
      ok := false
      shouldRun := false
      decision := "consistency_repair"
      effectiveAction := "consistency_repair"
      state := "waiting"
      status := "consistency_repair"
      recommendedAction := consistencyRepairAction
      normalDeliveryAllowed := false
      actionableByCodex := false
      schedulerHint := { p.schedulerHint with
        action := "repair_interaction_contract_projection"
        cadenceClass := "control_plane_repair" } }
  else
    p

def arbitrationEnforcement : Bool := true

/-- `heartbeat_recommendation::recommendation`. -/
def recommendation (mode : TurnMode) (mustAttempt : Bool) : HeartbeatRecommendation where
  recommendedMode := match mode with
    | .terminal => "terminal_no_followup"
    | .waitMonitor => "quiet_wait"
    | .askUser => "ask_user"
    | _ => "steering_audit_then_one_step"
  notify := if mustAttempt then "DONT_NOTIFY" else "NOTIFY_ON_GATE"

/-- The todo a packet names, as the goal has it. -/
def selectTodo (goal : Goal) (todoId : String) : SelectedTodo where
  todoId := todoId
  index := ((goal.todo todoId).map Todo.index).getD 0
  priority := ((goal.todo todoId).map fun t => t.priority.name).getD ""
  taskClass := ((goal.todo todoId).map fun t => futureGoalTaskClass t.taskClass).getD ""
  actionKind := ((goal.todo todoId).bind Todo.actionKind).getD ""
  text := ((goal.todo todoId).map Todo.text).getD ""

/-- The packet before its arbitration. -/
def draft (goal : Goal) (now : SystemTime) (reasonCode : DecisionReasonCode)
    (decision : String) (shouldRun : Bool) (effectiveAction : String) (mode : TurnMode)
    (reason : String) (userChannel : UserChannel) (agentChannel : AgentChannel) :
    ShouldRunPacket :=
  let mustAttempt := agentChannel.mustAttempt
  let gates := goal.openGatesAt now
  let replanRequired : Bool :=
    mode = .replan || !gates.isEmpty || !goal.completedWithoutClosureIntent.isEmpty ||
      (goal.openMonitorsAt now).any isMonitorStalled || !goal.unsatisfiedGaps.isEmpty
  { ok := true
    goalId := goal.goalId
    decision := decision
    shouldRun := shouldRun
    effectiveAction := effectiveAction
    reason := reason
    reasonCode := reasonCode
    state := if shouldRun then "eligible" else "waiting"
    status := match mode with
      | .terminal => "validated_closure"
      | .replan => "replan_required"
      | .askUser => "waiting_on_user"
      | .waitMonitor => "quiet_wait"
      | _ => "connected_without_run"
    recommendedAction := match mode with
      | .terminal => "validated closure; stop recurring automation"
      | .askUser => "resolve the user gate before gated work"
      | .replan => "record a frontier-changing replan delta"
      | _ => reason
    normalDeliveryAllowed := mode = .boundedDelivery
    selfRepairAllowed := mode = .replan
    actionableByCodex := shouldRun
    requiresUserAction := mode = .askUser
    actionRequired := mode = .askUser
    selectedTodo := agentChannel.selectedTodo.map (selectTodo goal)
    openCount := (goal.todos.filter fun t => t.role = .user && t.status = .open).length
    lifecyclePhase := if mode = .terminal then "closed" else "connected"
    lifecycleFlags := if mode = .terminal then ["closed"] else ["connected"]
    activeStateNextAction := goal.nextAction
    interactionContract := {
      schemaVersion := interactionContractSchemaVersion
      mode := mode
      userChannel := userChannel
      agentChannel := agentChannel
      cliChannel := {
        nextCliActions := ["loopx refresh-state", "loopx quota spend-slot"]
        spendAllowedNow := false
        spendAfterValidation := true
        spendPolicy := "spend once after validated writeback" } }
    workLaneContract := {
      lane := laneAt goal now
      mustAttemptWork := mustAttempt
      reasonCodes :=
        if agentChannel.selectedTodo.isSome then ["open_agent_todo"]
        else if !gates.isEmpty then ["open_user_gate"]
        else if !goal.unsatisfiedGaps.isEmpty then ["acceptance_gap"]
        else ["no_runnable_work"] }
    automationLiveness := {
      keepActive := mode ≠ .terminal
      pauseAllowed := mode = .terminal
      action := match mode with
        | .terminal => "pause"
        | .waitMonitor => "quiet_wait"
        | _ => "execute_bounded_work"
      reason := if mode = .terminal then "validated closure — no recurring automation"
        else "execution obligation keeps the loop alive" }
    heartbeatRecommendation := recommendation mode mustAttempt
    schedulerHint := {
      action := match mode with
        | .terminal => "stop"
        | .waitMonitor => "wait_until_due"
        | _ => "tick_next"
      cadenceClass := match mode with
        | .terminal => "terminal"
        | .waitMonitor => "monitor_backoff"
        | _ => "bounded_segment"
      nextDueMs := none }
    quota := {
      spentSlots := goal.history.length
      state := if shouldRun then "eligible" else "waiting" }
    executionProfile := goal.executionProfile
    surfaceStreak := goal.outcomeStreak
    replanAck := {
      recorded := goal.replanAck.any ReplanAck.recorded
      deltaKinds := (goal.replanAck.map ReplanAck.deltaKinds).getD []
      frontierDeltaPresent := goal.replanAck.any ReplanAck.hasFrontierDelta }
    authority := goal.authority
    todoSummary := goal.todoSummaryAt now
    goalRouteHint := mode.asStr
    frontierProjection := frontierProjectionAt goal replanRequired now
    schedulerArbitration := none
    terminalClosure := none
    decisionFreshness := goal.decisionFreshness }

/-- `packet`. -/
def packet (goal : Goal) (now : SystemTime) (reasonCode : DecisionReasonCode)
    (decision : String) (shouldRun : Bool) (effectiveAction : String) (mode : TurnMode)
    (reason : String) (userChannel : UserChannel) (agentChannel : AgentChannel) :
    ShouldRunPacket :=
  applyArbitration
    (draft goal now reasonCode decision shouldRun effectiveAction mode reason userChannel
      agentChannel)
    arbitrationEnforcement

/-! ## The pipeline -/

/-- `agent_channel`. -/
def agentChannel (primaryAction selectedTodo fallbackTodo : Option String)
    (mustAttempt deliveryAllowed quietNoopAllowed : Bool) : AgentChannel where
  mustAttempt := mustAttempt
  deliveryAllowed := deliveryAllowed
  quietNoopAllowed := quietNoopAllowed
  primaryAction := primaryAction
  selectedTodo := selectedTodo
  fallbackTodo := fallbackTodo

/-- The channel of a turn that is allowed to do nothing. -/
def quietChannel : AgentChannel :=
  agentChannel none none none false false true

def replanPacket (goal : Goal) (now : SystemTime) (code : DecisionReasonCode)
    (reason : String) : ShouldRunPacket :=
  packet goal now code "replan" true "replan" .replan reason .none
    (agentChannel none none none true false false)

/-- `is_registered_agent`: nobody in particular, or a registered peer. -/
def Goal.isRegisteredAgent (goal : Goal) (agentId : Option String) : Bool :=
  agentId.all fun id => id ∈ goal.registeredAgents

/-- `identity_gate`: the packet of a peer that is not registered. -/
def identityGate (goal : Goal) (agentId : Option String) (now : SystemTime) :
    Option ShouldRunPacket :=
  if goal.isRegisteredAgent agentId then
    none
  else
    let p := packet goal now .identityNotRegistered "skip" false
      "automation_prompt_upgrade_required" .waitMonitor
      ("quota should-run --agent-id requires coordination.registered_agents; " ++
        "register this agent identity first")
      .none quietChannel
    some { p with
      ok := false
      state := "blocked_health"
      status := "quota_collection_failed" }

def commaIds (todos : List Todo) : String :=
  String.intercalate ", " (todos.map Todo.id)

def barTexts (todos : List Todo) : String :=
  String.intercalate " | " (todos.map Todo.text)

/-- 0a. Automation of a cancelled goal is stopped. -/
def cancelledPacket (goal : Goal) (now : SystemTime) : ShouldRunPacket :=
  let p := packet goal now .goalCancelled "skip" false "cancelled" .terminal
    "goal was cancelled — automation stopped, state retained for audit" .none quietChannel
  { p with status := "cancelled" }

/-- 1. The open gates are asked; the frontier is the fallback. -/
def gatePacket (goal : Goal) (now : SystemTime) (gates userActions runnable : List Todo) :
    ShouldRunPacket :=
  let asked := String.intercalate " | " (gates.map fun g => g.gateQuestion.getD g.text)
  let question :=
    if userActions.isEmpty then asked else asked ++ " | (actions) " ++ barTexts userActions
  let fallback := runnable.head?.map Todo.id
  packet goal now .openUserGate "run" true "ask_user" .askUser
    ("open user gate(s): " ++ commaIds gates)
    { actionRequired := true
      notify := "NOTIFY"
      question := some question
      todoIds := gates.map Todo.id }
    (agentChannel (runnable.head?.map Todo.text) none fallback fallback.isSome fallback.isSome
      false)

/-- 2. The first of the frontier is delivered, with its signals. -/
def deliveryPacket (goal : Goal) (now : SystemTime) (userActions : List Todo) (t : Todo) :
    ShouldRunPacket :=
  let advisories := todoSignals goal t
  let attempt := t.failedAttempts + 1
  let (reason, code) :=
    if 1 < attempt then
      ("repair attempt " ++ toString attempt ++ " for todo " ++ t.id,
        DecisionReasonCode.repairAttempt)
    else
      ("runnable todo " ++ t.id, DecisionReasonCode.runnableTodo)
  let reason :=
    if advisories.isEmpty then reason else reason ++ " " ++ String.intercalate " " advisories
  let userChannel :=
    if userActions.isEmpty then
      UserChannel.none
    else
      { actionRequired := true
        notify := "NOTIFY"
        question := some (barTexts userActions)
        todoIds := userActions.map Todo.id }
  packet goal now code "run" true "normal_run" .boundedDelivery reason userChannel
    (agentChannel (some t.text) (some t.id) none true true false)

/-- A quiet wait. -/
def waitPacket (goal : Goal) (now : SystemTime) (code : DecisionReasonCode)
    (reason : String) : ShouldRunPacket :=
  packet goal now code "wait" false "quiet_wait" .waitMonitor reason .none quietChannel

/-- 4. A due monitor is polled once. -/
def pollPacket (goal : Goal) (now : SystemTime) (due : Todo) : ShouldRunPacket :=
  packet goal now .monitorDue "run" true "monitor_poll" .monitorPoll
    ("monitor " ++ due.id ++ " due — one read-only poll, no spend on no-change") .none
    (agentChannel (some due.text) (some due.id) none true true false)

/-- 5c. An advancement that is open or due, for whoever may take it. -/
def Goal.hasOpenAdvancement (goal : Goal) (now : SystemTime) : Bool :=
  goal.todos.any fun t => t.taskClass = .advancement && t.isOpenAt now

/-- The owners of the todos, in order. -/
def owners (goal : Goal) : List String :=
  ((goal.todos.filterMap Todo.owner).insertionSort (· ≤ ·)).dedup

/-- 6. The judgement closes the goal or names what is missing. -/
def judgedPacket (goal : Goal) (now : SystemTime) : ShouldRunPacket :=
  let judgement := terminalJudgementAt goal now
  if judgement.terminal then
    let p := packet goal now .validatedClosure "skip" false "terminal_no_followup" .terminal
      ("validated closure: todos done, gaps closed, closure intent declared — stop " ++
        "recurring automation until an explicit resume")
      .none quietChannel
    { p with
      terminalClosure := some {
        kind := "no_followup"
        derived := true
        source := "validated_goal_closure" } }
  else
    let gaps := judgement.gaps.map fun gap =>
      gap.kind ++ ":" ++ (gap.gapId.or gap.todoId).getD "-"
    replanPacket goal now .acceptanceGapOpen
      ("terminal judgement open gaps: " ++ String.intercalate ", " gaps)

/-- What is decided where no monitor is open. -/
def settlePacket (goal : Goal) (now : SystemTime) : ShouldRunPacket :=
  let gaps := goal.unsatisfiedGaps
  if !gaps.isEmpty then
    replanPacket goal now .acceptanceGapOpen
      ("acceptance gap(s) open with no runnable work: " ++
        String.intercalate ", " (gaps.map AcceptanceGap.id))
  else if goal.todos.any fun t => t.status = .deferred && !t.isDueDeferred now then
    waitPacket goal now .deferredNotDue
      "deferred todo(s) not yet due — quiet wait with backoff"
  else if goal.hasOpenAdvancement now then
    waitPacket goal now .workLeasedToOthers
      ("open advancement(s) unavailable to this agent (blocked, leased to other agents, or " ++
        "owner-scoped); owner IDs are case-sensitive: " ++
        String.intercalate ", " (owners goal) ++ " — goal is not closed")
  else
    judgedPacket goal now

/-- What is decided where nothing is runnable, blocked or left unclosed. -/
def monitorPacket (goal : Goal) (now : SystemTime) : ShouldRunPacket :=
  match monitorOutcome goal now with
  | .stalled m =>
      waitPacket goal now .monitorStalled
        ("monitor " ++ m.id ++ " stalled (" ++ toString m.consecutiveNoChange ++
          " consecutive no-change polls) — signal, not a directive: consider watch-lane " ++
          "expiry, a blocker, or superseding the monitor")
  | .due m _ => pollPacket goal now m
  | .waiting nextDueMs =>
      let p := waitPacket goal now .monitorBackoff
        "monitor(s) present, none due — quiet wait with backoff"
      { p with schedulerHint := { p.schedulerHint with nextDueMs := nextDueMs } }
  | .none => settlePacket goal now

/-- `decide_for`. -/
def decideFor (goal : Goal) (now : SystemTime) (agentId : Option String) : ShouldRunPacket :=
  if goal.status = "cancelled" then
    cancelledPacket goal now
  else
    match identityGate goal agentId now with
    | some p => p
    | none =>
        let gates := goal.openGatesAt now
        let userActions := goal.openOfAt .userAction now
        let runnable := sortedRunnableAt goal agentId now
        if !gates.isEmpty then
          gatePacket goal now gates userActions runnable
        else
          match runnable with
          | t :: _ => deliveryPacket goal now userActions t
          | [] =>
              let blockers := goal.openOfAt .blocker now
              let unclosed := goal.completedWithoutClosureIntent
              if !blockers.isEmpty then
                waitPacket goal now .blockedNoFallback
                  ("waiting on blocker(s): " ++ commaIds blockers ++ " — no runnable fallback")
              else if !unclosed.isEmpty then
                replanPacket goal now .successionClosureMissing
                  ("completed advancement without closure intent: " ++ commaIds unclosed ++
                    " — complete must declare successor or --no-follow-up")
              else
                monitorPacket goal now

end Orchestration
end FutureOs
