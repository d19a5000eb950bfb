import FutureOs.Orchestration.Decision

/-!
# What a decision rests on

`Exit` lists the ways out of the decision kernel with what is known of the goal at each of
them; `exit_decideFor` is the one walk through the pipeline.  The rest reads the exits
off: the goal is closed by exactly one of them, a delivery and a poll come with the todo
they are grounded in, and every contract the kernel builds is consistent, so that the
arbitration never repairs one.
-/

namespace FutureOs
namespace Orchestration

/-! ## Packets -/

theorem interactionContract_applyArbitration
    (p : ShouldRunPacket)
    (enforce : Bool) :
    (applyArbitration p enforce).interactionContract = p.interactionContract := by
  unfold applyArbitration
  dsimp only
  split <;> rfl

theorem terminalClosure_applyArbitration
    (p : ShouldRunPacket)
    (enforce : Bool) :
    (applyArbitration p enforce).terminalClosure = p.terminalClosure := by
  unfold applyArbitration
  dsimp only
  split <;> rfl

/-- On a consistent contract the arbitration is recorded, and nothing else happens. -/
theorem applyArbitration_of_consistent
    {p : ShouldRunPacket}
    (hp : p.interactionContract.Consistent)
    (enforce : Bool) :
    applyArbitration p enforce =
      { p with
        schedulerArbitration := some (buildSchedulerArbitration p.interactionContract []) } := by
  have hkeeps := mt (buildSchedulerArbitration_repair_iff p.interactionContract []).1
    (not_not.2 hp)
  unfold applyArbitration
  dsimp only
  rw [if_neg fun h => hkeeps h.2]

section Packet

variable (goal : Goal)
variable (now : SystemTime)
variable (code : DecisionReasonCode)
variable (decision : String)
variable (shouldRun : Bool)
variable (effectiveAction : String)
variable (mode : TurnMode)
variable (reason : String)
variable (user : UserChannel)
variable (agent : AgentChannel)

@[simp] theorem terminalClosure_packet :
    (packet goal now code decision shouldRun effectiveAction mode reason user
      agent).terminalClosure = none :=
  terminalClosure_applyArbitration _ _

@[simp] theorem mode_packet :
    (packet goal now code decision shouldRun effectiveAction mode reason user
      agent).interactionContract.mode = mode := by
  unfold packet
  rw [interactionContract_applyArbitration]
  rfl

@[simp] theorem userChannel_packet :
    (packet goal now code decision shouldRun effectiveAction mode reason user
      agent).interactionContract.userChannel = user := by
  unfold packet
  rw [interactionContract_applyArbitration]
  rfl

@[simp] theorem agentChannel_packet :
    (packet goal now code decision shouldRun effectiveAction mode reason user
      agent).interactionContract.agentChannel = agent := by
  unfold packet
  rw [interactionContract_applyArbitration]
  rfl

end Packet

/-- The contract is consistent, its arbitration recorded, and the packet left as it was. -/
structure ShouldRunPacket.Arbitrated (p : ShouldRunPacket) : Prop where
  consistent : p.interactionContract.Consistent
  recorded : p.schedulerArbitration = some (buildSchedulerArbitration p.interactionContract [])
  kept : p.effectiveAction ≠ "consistency_repair"

/-- What a packet is called does not matter to its arbitration. -/
theorem ShouldRunPacket.Arbitrated.relabel
    {p : ShouldRunPacket}
    (h : p.Arbitrated)
    (ok : Bool)
    (state status : String) :
    { p with ok := ok, state := state, status := status : ShouldRunPacket }.Arbitrated :=
  ⟨h.consistent, h.recorded, h.kept⟩

theorem ShouldRunPacket.Arbitrated.hint
    {p : ShouldRunPacket}
    (h : p.Arbitrated)
    (hint : SchedulerHint) :
    { p with schedulerHint := hint : ShouldRunPacket }.Arbitrated :=
  ⟨h.consistent, h.recorded, h.kept⟩

theorem ShouldRunPacket.Arbitrated.close
    {p : ShouldRunPacket}
    (h : p.Arbitrated)
    (closure : Option TerminalClosure) :
    { p with terminalClosure := closure : ShouldRunPacket }.Arbitrated :=
  ⟨h.consistent, h.recorded, h.kept⟩

section Arbitrated

variable {goal : Goal}
variable {now : SystemTime}
variable {code : DecisionReasonCode}
variable {decision : String}
variable {shouldRun : Bool}
variable {effectiveAction : String}
variable {mode : TurnMode}
variable {reason : String}
variable {user : UserChannel}
variable {agent : AgentChannel}

/-- A packet is arbitrated where its channels are consistent. -/
theorem arbitrated_packet
    (hkept : effectiveAction ≠ "consistency_repair")
    (hattempt : agent.deliveryAllowed = true → agent.mustAttempt = true)
    (hquiet : agent.quietNoopAllowed = true →
      agent.mustAttempt = false ∧ user.actionRequired = false)
    (hstopped : mode = .terminal → agent.quietNoopAllowed = true) :
    (packet goal now code decision shouldRun effectiveAction mode reason user
      agent).Arbitrated := by
  have hconsistent : (draft goal now code decision shouldRun effectiveAction mode reason user
      agent).interactionContract.Consistent := ⟨rfl, hattempt, hquiet, hstopped⟩
  unfold packet
  rw [applyArbitration_of_consistent hconsistent]
  exact ⟨hconsistent, rfl, hkept⟩

/-- A quiet turn that asks the user nothing. -/
theorem arbitrated_quiet
    (hkept : effectiveAction ≠ "consistency_repair") :
    (packet goal now code decision shouldRun effectiveAction mode reason .none
      quietChannel).Arbitrated :=
  arbitrated_packet hkept nofun (fun _ => ⟨rfl, rfl⟩) (fun _ => rfl)

/-- A turn that may not be quiet, in a mode that is not terminal. -/
theorem arbitrated_busy
    (hkept : effectiveAction ≠ "consistency_repair")
    (hattempt : agent.deliveryAllowed = true → agent.mustAttempt = true)
    (hbusy : agent.quietNoopAllowed = false)
    (hmode : mode ≠ .terminal) :
    (packet goal now code decision shouldRun effectiveAction mode reason user
      agent).Arbitrated :=
  arbitrated_packet hkept hattempt (fun h => by rw [hbusy] at h; cases h)
    (fun h => absurd h hmode)

end Arbitrated

/-! ## The frontier -/

/-- The first of the sorted frontier is on it and of the best priority. -/
theorem best_of_sortedRunnableAt
    {goal : Goal}
    {agentId : Option String}
    {now : SystemTime}
    {t : Todo}
    {rest : List Todo}
    (h : sortedRunnableAt goal agentId now = t :: rest) :
    t ∈ goal.runnableAdvancementForAt agentId now ∧
    ∀ u ∈ goal.runnableAdvancementForAt agentId now, t.priority.rank ≤ u.priority.rank := by
  have hsorted : (sortedRunnableAt goal agentId now).Pairwise
      fun t t' => decide (t.priority.rank ≤ t'.priority.rank) = true :=
    List.pairwise_mergeSort
      (fun a b c hab hbc => by simp only [decide_eq_true_eq] at *; omega)
      (fun a b => by simp only [Bool.or_eq_true, decide_eq_true_eq]; omega) _
  have hmem : ∀ u, u ∈ goal.runnableAdvancementForAt agentId now ↔ u ∈ t :: rest := by
    intro u
    rw [← h]
    exact List.mem_mergeSort.symm
  rw [h, List.pairwise_cons] at hsorted
  refine ⟨(hmem t).2 List.mem_cons_self, fun u hu => ?_⟩
  rcases List.mem_cons.1 ((hmem u).1 hu) with rfl | hrest
  · exact le_refl _
  · simpa using hsorted.1 u hrest

/-- An open todo keeps its goal open. -/
theorem isTerminal_of_open
    {goal : Goal}
    {t : Todo}
    (ht : t ∈ goal.todos)
    {now : SystemTime}
    (hopen : t.isOpenAt now = true) :
    goal.isTerminal = false := by
  by_contra h
  rw [Bool.not_eq_false] at h
  rw [isOpenAt_of_terminal (status_terminal_of_isTerminal h ht) now] at hopen
  cases hopen

/-- A lane that is not empty keeps its goal open. -/
theorem isTerminal_of_lane
    {goal : Goal}
    (taskClass : TaskClass)
    (now : SystemTime)
    (h : goal.openOfAt taskClass now ≠ []) :
    goal.isTerminal = false := by
  obtain ⟨t, ht⟩ := List.exists_mem_of_ne_nil _ h
  obtain ⟨hmem, -, hopen⟩ := mem_openOfAt.1 ht
  exact isTerminal_of_open hmem hopen

/-! ## The ways out -/

/-- A way out of the kernel, with what it tells of the goal. -/
inductive Exit (goal : Goal) (now : SystemTime) (agentId : Option String) :
    ShouldRunPacket → Prop
  | cancelled
      (hstatus : goal.status = "cancelled") :
      Exit goal now agentId (cancelledPacket goal now)
  | unidentified
      {p : ShouldRunPacket}
      (hgate : identityGate goal agentId now = some p) :
      Exit goal now agentId p
  | asks
      (hgates : goal.openGatesAt now ≠ [])
      (userActions runnable : List Todo) :
      Exit goal now agentId
        (gatePacket goal now (goal.openGatesAt now) userActions runnable)
  | delivers
      (hgates : goal.openGatesAt now = [])
      {t : Todo}
      (hfrontier : t ∈ goal.runnableAdvancementForAt agentId now)
      (hbest : ∀ u ∈ goal.runnableAdvancementForAt agentId now,
        t.priority.rank ≤ u.priority.rank)
      (userActions : List Todo) :
      Exit goal now agentId (deliveryPacket goal now userActions t)
  | polls
      {m : Todo}
      (hmonitor : m ∈ goal.openMonitorsAt now)
      (hdue : m.isDueAt now = true) :
      Exit goal now agentId (pollPacket goal now m)
  | waits
      (hopen : goal.isTerminal = false)
      (code : DecisionReasonCode)
      (reason : String)
      (hint : SchedulerHint) :
      Exit goal now agentId { waitPacket goal now code reason with schedulerHint := hint }
  | replans
      (hopen : goal.isTerminal = false)
      (code : DecisionReasonCode)
      (reason : String) :
      Exit goal now agentId (replanPacket goal now code reason)
  | closes
      (hstatus : goal.status ≠ "cancelled")
      (hgate : identityGate goal agentId now = none)
      (hclosed : goal.isTerminal = true) :
      Exit goal now agentId (judgedPacket goal now)

section Walk

variable {goal : Goal}
variable {now : SystemTime}
variable {agentId : Option String}

theorem Exit.wait
    (hopen : goal.isTerminal = false)
    (code : DecisionReasonCode)
    (reason : String) :
    Exit goal now agentId (waitPacket goal now code reason) :=
  Exit.waits hopen code reason (waitPacket goal now code reason).schedulerHint

theorem exit_judgedPacket
    (hstatus : goal.status ≠ "cancelled")
    (hgate : identityGate goal agentId now = none) :
    Exit goal now agentId (judgedPacket goal now) := by
  cases hclosed : goal.isTerminal with
  | true => exact Exit.closes hstatus hgate hclosed
  | false =>
      unfold judgedPacket
      dsimp only
      rw [terminal_terminalJudgementAt, hclosed, if_neg (by decide)]
      exact Exit.replans hclosed _ _

theorem exit_settlePacket
    (hstatus : goal.status ≠ "cancelled")
    (hgate : identityGate goal agentId now = none) :
    Exit goal now agentId (settlePacket goal now) := by
  unfold settlePacket
  dsimp only
  split
  · rename_i hgaps
    refine Exit.replans ?_ _ _
    unfold Goal.isTerminal
    simp only [Bool.not_eq_true'] at hgaps
    rw [hgaps]
    simp
  · split
    · rename_i hdeferred
      refine Exit.wait ?_ _ _
      obtain ⟨t, ht, hstatus'⟩ := List.any_eq_true.1 hdeferred
      simp only [Bool.and_eq_true, decide_eq_true_eq] at hstatus'
      by_contra h
      have hterminal := status_terminal_of_isTerminal (by simpa using h) ht
      rw [hstatus'.1] at hterminal
      cases hterminal
    · split
      · rename_i hwork
        obtain ⟨t, ht, hopen⟩ := List.any_eq_true.1 hwork
        rw [Bool.and_eq_true] at hopen
        exact Exit.wait (isTerminal_of_open ht hopen.2) _ _
      · exact exit_judgedPacket hstatus hgate

/-- So does a monitor that has an outcome. -/
theorem isTerminal_of_monitorOutcome
    (h : monitorOutcome goal now ≠ .none) :
    goal.isTerminal = false :=
  isTerminal_of_lane .monitor now fun hmonitors => h (monitorOutcome_eq_none hmonitors)

theorem exit_monitorPacket
    (hstatus : goal.status ≠ "cancelled")
    (hgate : identityGate goal agentId now = none) :
    Exit goal now agentId (monitorPacket goal now) := by
  unfold monitorPacket
  cases houtcome : monitorOutcome goal now with
  | due m rest =>
      obtain ⟨hmonitor, hdue⟩ := monitorOutcome_due houtcome
      exact Exit.polls hmonitor hdue
  | none => exact exit_settlePacket hstatus hgate
  | stalled m =>
      exact Exit.wait (isTerminal_of_monitorOutcome (by rw [houtcome]; nofun)) _ _
  | waiting nextDueMs =>
      exact Exit.waits (isTerminal_of_monitorOutcome (by rw [houtcome]; nofun)) _ _ _

end Walk

/-- Every decision is one of the ways out. -/
theorem exit_decideFor
    (goal : Goal)
    (now : SystemTime)
    (agentId : Option String) :
    Exit goal now agentId (decideFor goal now agentId) := by
  unfold decideFor
  split
  · rename_i hstatus
    exact Exit.cancelled hstatus
  · rename_i hstatus
    cases hgate : identityGate goal agentId now with
    | some p => exact Exit.unidentified hgate
    | none =>
        dsimp only
        by_cases hgates : goal.openGatesAt now = []
        · rw [hgates, if_neg (by decide)]
          cases hrunnable : sortedRunnableAt goal agentId now with
          | cons t rest =>
              obtain ⟨hfrontier, hbest⟩ := best_of_sortedRunnableAt hrunnable
              exact Exit.delivers hgates hfrontier hbest _
          | nil =>
              dsimp only
              split
              · rename_i hblockers
                refine Exit.wait (isTerminal_of_lane .blocker now ?_) _ _
                simpa using hblockers
              · split
                · rename_i hunclosed
                  refine Exit.replans ?_ _ _
                  unfold Goal.isTerminal
                  simp only [Bool.not_eq_true'] at hunclosed
                  rw [hunclosed]
                  simp
                · exact exit_monitorPacket hstatus hgate
        · rw [if_pos (by simpa using hgates)]
          exact Exit.asks hgates _ _

/-! ## Closure and delivery -/

section Decisions

variable {goal : Goal}
variable {now : SystemTime}
variable {agentId : Option String}
variable {p : ShouldRunPacket}

/-- The packet of an unknown peer waits, and closes nothing. -/
theorem identityGate_spec
    (h : identityGate goal agentId now = some p) :
    p.terminalClosure = none ∧ p.interactionContract.mode = .waitMonitor ∧ p.Arbitrated := by
  unfold identityGate at h
  split at h
  · cases h
  · obtain rfl := Option.some.inj h
    exact ⟨terminalClosure_packet .., mode_packet ..,
      (arbitrated_quiet (by decide)).relabel _ _ _⟩

/-- The packet of a terminal goal closes it. -/
theorem judgedPacket_spec
    (h : goal.isTerminal = true) :
    (judgedPacket goal now).terminalClosure =
        some { kind := "no_followup", derived := true, source := "validated_goal_closure" } ∧
      (judgedPacket goal now).interactionContract.mode = .terminal ∧
      (judgedPacket goal now).Arbitrated := by
  unfold judgedPacket
  dsimp only
  rw [terminal_terminalJudgementAt, h, if_pos rfl]
  exact ⟨rfl, mode_packet .., (arbitrated_quiet (by decide)).close _⟩

/-- An open todo of the frontier keeps its goal open. -/
theorem isTerminal_of_frontier
    {t : Todo}
    (ht : t ∈ goal.runnableAdvancementForAt agentId now) :
    goal.isTerminal = false := by
  obtain ⟨hmem, hrunnable⟩ := List.mem_filter.1 ht
  simp only [Bool.and_eq_true] at hrunnable
  exact isTerminal_of_open hmem hrunnable.1.1.1.2

/-- The closure of the kernel: what closes a goal for an identity, at no time in particular. -/
def closureFor (goal : Goal) (agentId : Option String) : Option TerminalClosure :=
  if goal.status ≠ "cancelled" ∧ goal.isRegisteredAgent agentId = true ∧
      goal.isTerminal = true then
    some { kind := "no_followup", derived := true, source := "validated_goal_closure" }
  else
    none

theorem closureFor_of_open
    (hopen : goal.isTerminal = false) :
    closureFor goal agentId = none :=
  if_neg fun h => by rw [hopen] at h; cases h.2.2

theorem identityGate_eq_none_iff :
    identityGate goal agentId now = none ↔ goal.isRegisteredAgent agentId = true := by
  unfold identityGate
  split
  · rename_i hregistered
    exact iff_of_true rfl hregistered
  · rename_i hregistered
    exact iff_of_false nofun hregistered

/-- Only the last way out closes, and it closes a terminal goal. -/
theorem Exit.terminalClosure_eq
    (h : Exit goal now agentId p) :
    p.terminalClosure = closureFor goal agentId := by
  cases h with
  | cancelled hstatus =>
      rw [closureFor, if_neg fun hall => hall.1 hstatus]
      exact terminalClosure_packet ..
  | unidentified hgate =>
      rw [closureFor, if_neg fun hall => by
        rw [identityGate_eq_none_iff.2 hall.2.1] at hgate; cases hgate]
      exact (identityGate_spec hgate).1
  | asks hgates =>
      rw [closureFor_of_open (isTerminal_of_lane .userGate now hgates)]
      exact terminalClosure_packet ..
  | delivers hgates hfrontier =>
      rw [closureFor_of_open (isTerminal_of_frontier hfrontier)]
      exact terminalClosure_packet ..
  | polls hmonitor =>
      rw [closureFor_of_open (isTerminal_of_lane .monitor now (List.ne_nil_of_mem hmonitor))]
      exact terminalClosure_packet ..
  | waits hopen | replans hopen =>
      rw [closureFor_of_open hopen]
      exact terminalClosure_packet ..
  | closes hstatus hgate hclosed =>
      rw [closureFor, if_pos ⟨hstatus, identityGate_eq_none_iff.1 hgate, hclosed⟩]
      exact (judgedPacket_spec hclosed).1

/-- A delivery: no gate is open, and the todo is the best of the frontier. -/
structure GroundedDelivery (goal : Goal) (now : SystemTime) (agentId : Option String)
    (p : ShouldRunPacket) : Prop where
  noGate : goal.openGatesAt now = []
  selected : ∃ t ∈ goal.runnableAdvancementForAt agentId now,
    p.interactionContract.agentChannel.selectedTodo = some t.id ∧
    ∀ u ∈ goal.runnableAdvancementForAt agentId now, t.priority.rank ≤ u.priority.rank

theorem Exit.delivery
    (h : Exit goal now agentId p)
    (hmode : p.interactionContract.mode = .boundedDelivery) :
    GroundedDelivery goal now agentId p := by
  cases h with
  | delivers hgates hfrontier hbest =>
      exact ⟨hgates, _, hfrontier, congrArg AgentChannel.selectedTodo (agentChannel_packet ..),
        hbest⟩
  | unidentified hgate =>
      rw [(identityGate_spec hgate).2.1] at hmode
      cases hmode
  | closes hstatus hgate hclosed =>
      rw [(judgedPacket_spec hclosed).2.1] at hmode
      cases hmode
  | cancelled | asks | polls | waits | replans =>
      cases (mode_packet ..).symm.trans hmode

theorem Exit.poll
    (h : Exit goal now agentId p)
    (hmode : p.interactionContract.mode = .monitorPoll) :
    ∃ m ∈ goal.openMonitorsAt now, m.isDueAt now = true ∧
      p.interactionContract.agentChannel.selectedTodo = some m.id := by
  cases h with
  | polls hmonitor hdue =>
      exact ⟨_, hmonitor, hdue, congrArg AgentChannel.selectedTodo (agentChannel_packet ..)⟩
  | unidentified hgate =>
      rw [(identityGate_spec hgate).2.1] at hmode
      cases hmode
  | closes hstatus hgate hclosed =>
      rw [(judgedPacket_spec hclosed).2.1] at hmode
      cases hmode
  | cancelled | asks | delivers | waits | replans =>
      cases (mode_packet ..).symm.trans hmode

/-- Every packet of the kernel is consistent. -/
theorem Exit.arbitrated
    (h : Exit goal now agentId p) :
    p.Arbitrated := by
  cases h with
  | cancelled => exact (arbitrated_quiet (by decide)).relabel _ _ _
  | unidentified hgate => exact (identityGate_spec hgate).2.2
  | asks => exact arbitrated_busy (by decide) id rfl (by decide)
  | delivers | polls | replans =>
      exact arbitrated_busy (by decide) (fun _ => rfl) rfl (by decide)
  | waits => exact (arbitrated_quiet (by decide)).hint _
  | closes hstatus hgate hclosed => exact (judgedPacket_spec hclosed).2.2

end Decisions

/--
A packet carries a closure exactly where the goal is not cancelled, the identity gate
passes and the goal is terminal, whatever the time is; a delivery is the best of the
agent's frontier and comes while no gate is open; a poll is of a due monitor; and the
arbitration of a packet is never the repair, however it is applied.
-/
theorem closure_exact_delivery_grounded
    (goal : Goal)
    (agentId : Option String)
    (now : SystemTime) :
    ((decideFor goal now agentId).terminalClosure ≠ none ↔
      goal.status ≠ "cancelled" ∧ identityGate goal agentId now = none ∧
        goal.isTerminal = true) ∧
    (∀ now' : SystemTime, (decideFor goal now' agentId).terminalClosure =
      (decideFor goal now agentId).terminalClosure) ∧
    ((decideFor goal now agentId).interactionContract.mode = .boundedDelivery →
      GroundedDelivery goal now agentId (decideFor goal now agentId)) ∧
    ((decideFor goal now agentId).interactionContract.mode = .monitorPoll →
      ∃ m ∈ goal.openMonitorsAt now, m.isDueAt now = true ∧
        (decideFor goal now agentId).interactionContract.agentChannel.selectedTodo =
          some m.id) ∧
    (∃ arbitration, (decideFor goal now agentId).schedulerArbitration = some arbitration ∧
      arbitration.disposition ≠ .consistencyRepair) ∧
    (decideFor goal now agentId).effectiveAction ≠ "consistency_repair" ∧
    (∀ actions, (buildSchedulerArbitration (decideFor goal now agentId).interactionContract
      actions).disposition ≠ .consistencyRepair) ∧
    ∀ enforce, applyArbitration (decideFor goal now agentId) enforce =
      decideFor goal now agentId := by
  have hexit := exit_decideFor goal now agentId
  have harbitrated := hexit.arbitrated
  have hnever := fun actions => mt
    (buildSchedulerArbitration_repair_iff (decideFor goal now agentId).interactionContract
      actions).1 (not_not.2 harbitrated.consistent)
  refine ⟨?_, fun now' => ?_, hexit.delivery, hexit.poll, ⟨_, harbitrated.recorded, hnever []⟩,
    harbitrated.kept, hnever, fun enforce => ?_⟩
  · rw [hexit.terminalClosure_eq, identityGate_eq_none_iff, closureFor]
    split
    · rename_i hall
      exact iff_of_true nofun hall
    · rename_i hall
      exact iff_of_false (not_not.2 rfl) hall
  · rw [hexit.terminalClosure_eq, (exit_decideFor goal now' agentId).terminalClosure_eq]
  · rw [applyArbitration_of_consistent harbitrated.consistent, ← harbitrated.recorded]

example :
    (decideFor chainGoal 0 none).interactionContract.agentChannel.selectedTodo = some "T1" := by
  decide +kernel

end Orchestration
end FutureOs
