import FutureOs.Orchestration.State

/-!
# Scheduler arbitration

`contract.rs` and `decision/arbitration.rs`.  The interaction contract of a packet says
what the user, the agent and the scheduler may do next; the arbitration derives the
scheduler's authority from it, and fails closed to a repair where the channels contradict
each other.  `Consistent` says what a contract must meet; it is exactly what the
arbitration checks.
-/

namespace FutureOs
namespace Orchestration

/-! ## The contract -/

def interactionContractSchemaVersion : String :=
  "future_goal_interaction_contract_v0"

inductive TurnMode
  | boundedDelivery
  | askUser
  | monitorPoll
  | waitMonitor
  | replan
  | terminal
deriving DecidableEq

def TurnMode.asStr : TurnMode → String
  | .boundedDelivery => "bounded_delivery"
  | .askUser => "ask_user"
  | .monitorPoll => "monitor_poll"
  | .waitMonitor => "wait_monitor"
  | .replan => "replan"
  | .terminal => "terminal"

structure UserChannel where
  actionRequired : Bool
  notify : String
  question : Option String
  todoIds : List String
deriving DecidableEq

def UserChannel.none : UserChannel where
  actionRequired := false
  notify := "DONT_NOTIFY"
  question := .none
  todoIds := []

structure AgentChannel where
  mustAttempt : Bool
  deliveryAllowed : Bool
  quietNoopAllowed : Bool
  primaryAction : Option String
  selectedTodo : Option String
  fallbackTodo : Option String
deriving DecidableEq

structure CliChannel where
  nextCliActions : List String
  spendAllowedNow : Bool
  spendAfterValidation : Bool
  spendPolicy : String
deriving DecidableEq

structure InteractionContract where
  schemaVersion : String
  mode : TurnMode
  userChannel : UserChannel
  agentChannel : AgentChannel
  cliChannel : CliChannel
deriving DecidableEq

/-! ## The arbitration -/

def consistencyRepairAction : String :=
  "rebuild interaction_contract from the current quota decision, then rerun " ++
    "quota before applying scheduler cadence"

inductive SchedulerDisposition
  | terminalStop
  | agentMonitorOnlyWait
  | activeWork
  | agentScopeWait
  | consistencyRepair
  | humanGate
  | monitorWait
  | quietWait
  | unchangedWait
deriving DecidableEq

structure SchedulerArbitration where
  disposition : SchedulerDisposition
  reasonCode : String
  mode : String
  errors : List String
deriving DecidableEq

/-- `future_goal_mode`: the mode string the classifier branches on. -/
def futureGoalMode : TurnMode → String
  | .boundedDelivery => "bounded_delivery"
  | .askUser => "user_gate"
  | .monitorPoll => "monitor_due"
  | .waitMonitor => "monitor_quiet_skip"
  | .replan => "successor_replan_required"
  | .terminal => "terminal_no_followup"

/-- `classify_disposition`; the order of the branches is normative. -/
def classifyDisposition (mode : String) (userRequired mustAttempt quietNoopAllowed : Bool)
    (agentScopeFrontierActions : List String) : SchedulerDisposition × String :=
  if mode = "terminal_no_followup" then
    (.terminalStop, mode)
  else if mode = "agent_monitor_only" then
    (.agentMonitorOnlyWait, mode)
  else if userRequired && !mustAttempt then
    (.humanGate, "interaction_blocking_user_gate")
  else if mode = "monitor_quiet_skip" then
    (.monitorWait, "interaction_monitor_quiet_wait")
  else if mode = "successor_replan_required" ∧ mustAttempt = true then
    (.activeWork, "interaction_successor_replan_required")
  else if mode ∈ agentScopeFrontierActions then
    (.agentScopeWait, "interaction_agent_scope_wait")
  else if mode = "mapped_noop_if_unchanged" then
    (.unchangedWait, "interaction_unchanged_wait")
  else if mustAttempt then
    (.activeWork, "interaction_agent_attempt_required")
  else if quietNoopAllowed then
    (.quietWait, "interaction_quiet_noop_allowed")
  else
    (.quietWait, "interaction_delivery_not_allowed")

/-- The structural contradictions of a contract. -/
def contractErrors (contract : InteractionContract) : List String :=
  let mode := futureGoalMode contract.mode
  let userRequired := contract.userChannel.actionRequired
  let mustAttempt := contract.agentChannel.mustAttempt
  let deliveryAllowed := contract.agentChannel.deliveryAllowed
  let quietNoopAllowed := contract.agentChannel.quietNoopAllowed
  (if contract.schemaVersion ≠ interactionContractSchemaVersion then
    ["interaction_contract.schema_version_mismatch"] else []) ++
  (if deliveryAllowed && !mustAttempt then
    ["interaction_contract.delivery_without_attempt"] else []) ++
  (if quietNoopAllowed && (mustAttempt || deliveryAllowed || userRequired) then
    ["interaction_contract.quiet_noop_conflicts_with_required_action"] else []) ++
  (if mode ∈ ["terminal_no_followup", "agent_monitor_only"] ∧
      (userRequired || mustAttempt || deliveryAllowed || !quietNoopAllowed) = true then
    ["interaction_contract.terminal_conflicts_with_open_action"] else [])

/-- `build_scheduler_arbitration`. -/
def buildSchedulerArbitration (contract : InteractionContract)
    (agentScopeFrontierActions : List String) : SchedulerArbitration :=
  let errors := contractErrors contract
  let mode := futureGoalMode contract.mode
  let (disposition, reasonCode) :=
    classifyDisposition mode contract.userChannel.actionRequired
      contract.agentChannel.mustAttempt contract.agentChannel.quietNoopAllowed
      agentScopeFrontierActions
  if errors.isEmpty then
    { disposition := disposition
      reasonCode := reasonCode
      mode := mode
      errors := [] }
  else
    { disposition := .consistencyRepair
      reasonCode := "scheduler_interaction_contract_inconsistent"
      mode := mode
      errors := errors.eraseDups }

/-! ## Consistency -/

/--
The channels agree: who may deliver must attempt, a quiet turn asks nothing of anyone,
and a terminal contract is a quiet one.
-/
structure InteractionContract.Consistent (contract : InteractionContract) : Prop where
  schema : contract.schemaVersion = interactionContractSchemaVersion
  attempt : contract.agentChannel.deliveryAllowed = true →
    contract.agentChannel.mustAttempt = true
  quiet : contract.agentChannel.quietNoopAllowed = true →
    contract.agentChannel.mustAttempt = false ∧ contract.userChannel.actionRequired = false
  stopped : contract.mode = .terminal → contract.agentChannel.quietNoopAllowed = true

/-- A disposition is never chosen to be the repair. -/
theorem classifyDisposition_ne_repair
    (mode : String)
    (userRequired mustAttempt quietNoopAllowed : Bool)
    (actions : List String) :
    (classifyDisposition mode userRequired mustAttempt quietNoopAllowed actions).1 ≠
      .consistencyRepair := by
  unfold classifyDisposition
  split_ifs <;> nofun

/-- Only the terminal mode has one of the two stopping names. -/
theorem futureGoalMode_mem_iff (mode : TurnMode) :
    futureGoalMode mode ∈ ["terminal_no_followup", "agent_monitor_only"] ↔
      mode = .terminal := by
  cases mode <;> decide

theorem InteractionContract.Consistent.deliveryAllowed_of_quiet
    {contract : InteractionContract}
    (hc : contract.Consistent)
    (hquiet : contract.agentChannel.quietNoopAllowed = true) :
    contract.agentChannel.deliveryAllowed = false := by
  by_contra hdelivery
  have hmust := hc.attempt (by simpa using hdelivery)
  rw [(hc.quiet hquiet).1] at hmust
  cases hmust

/-- The checks of the arbitration are the consistency of the contract. -/
theorem contractErrors_eq_nil_iff (contract : InteractionContract) :
    contractErrors contract = [] ↔ contract.Consistent := by
  unfold contractErrors
  simp only [List.append_eq_nil_iff, ite_eq_right_iff, List.cons_ne_nil, imp_false,
    futureGoalMode_mem_iff, Bool.and_eq_true, Bool.or_eq_true, Bool.not_eq_true']
  constructor
  · rintro ⟨⟨⟨hschema, hattempt⟩, hquiet⟩, hstopped⟩
    refine ⟨not_not.1 hschema, fun h => ?_, fun h => ⟨?_, ?_⟩, fun h => ?_⟩
    · by_contra hmust
      exact hattempt ⟨h, by simpa using hmust⟩
    · by_contra hmust
      exact hquiet ⟨h, Or.inl (Or.inl (by simpa using hmust))⟩
    · by_contra huser
      exact hquiet ⟨h, Or.inr (by simpa using huser)⟩
    · by_contra hnoisy
      exact hstopped ⟨h, Or.inr (by simpa using hnoisy)⟩
  · intro hc
    have hidle : contract.agentChannel.quietNoopAllowed = true →
        ¬ ((contract.agentChannel.mustAttempt = true ∨
          contract.agentChannel.deliveryAllowed = true) ∨
          contract.userChannel.actionRequired = true) := by
      intro hquiet
      rw [(hc.quiet hquiet).1, (hc.quiet hquiet).2, hc.deliveryAllowed_of_quiet hquiet]
      simp
    refine ⟨⟨⟨fun h => h hc.schema, ?_⟩, fun h => hidle h.1 h.2⟩, ?_⟩
    · rintro ⟨hdelivery, hmust⟩
      rw [hc.attempt hdelivery] at hmust
      cases hmust
    · rintro ⟨hmode, ((huser | hmust) | hdelivery) | hnoisy⟩
      · exact hidle (hc.stopped hmode) (Or.inr huser)
      · exact hidle (hc.stopped hmode) (Or.inl (Or.inl hmust))
      · exact hidle (hc.stopped hmode) (Or.inl (Or.inr hdelivery))
      · rw [hc.stopped hmode] at hnoisy
        cases hnoisy

/-- The arbitration asks for a repair exactly where the contract is not consistent. -/
theorem buildSchedulerArbitration_repair_iff
    (contract : InteractionContract)
    (actions : List String) :
    (buildSchedulerArbitration contract actions).disposition = .consistencyRepair ↔
      ¬ contract.Consistent := by
  rw [← contractErrors_eq_nil_iff, ← List.isEmpty_iff]
  by_cases h : (contractErrors contract).isEmpty = true
  · simp only [buildSchedulerArbitration, h, if_true, not_true_eq_false, iff_false]
    exact classifyDisposition_ne_repair _ _ _ _ _
  · simp only [buildSchedulerArbitration, h, Bool.false_eq_true, if_false, not_false_eq_true]

end Orchestration
end FutureOs
