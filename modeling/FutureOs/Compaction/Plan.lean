import FutureOs.Compaction.Projection
import FutureOs.Lib.Fallible

/-!
# The plan of a compaction

`plan` cuts the prompt: what is in front of the cut is covered by the new checkpoint, and of
it the texts of users and assistants stay as anchors.  The cut is at the start of a turn where
the recent turns fit, else inside one (`fallbackCut`), and never in front of an earlier
checkpoint.
-/

namespace FutureOs
namespace Compaction

inductive ContextError
  | noValidBoundary
  | invalidSummary
  | cancelled
  | budgetExceeded (detail : String)
  | noProgress
deriving DecidableEq

structure ContextManager where
  enabled : Bool
  reserveTokens : Int
  keepRecentTokens : Int
  contextWindow : Int
  model : String
deriving DecidableEq

/-! ## Budgets -/

/-- `TARGET_HISTORY`. -/
def targetHistory : Nat := 32000

/-- `MAX_EXPANDED_HISTORY`. -/
def maxExpandedHistory : Nat := 128000

/-- `MANUAL_RECENT_TAIL_MAX_TOKENS`. -/
def manualRecentTailMaxTokens : Nat := 15000

/-- `MAX_OUTPUT_TOKENS`. -/
def maxOutputTokens : Int := 65536

/-- `capped_output_tokens`. -/
def cappedOutputTokens (declared contextWindow : Int) : Int :=
  let capped := max 0 (min declared maxOutputTokens)
  if 0 < contextWindow then min capped (contextWindow / 4) else capped

namespace ContextManager

def window (manager : ContextManager) : Nat :=
  (max manager.contextWindow 1).toNat

/-- `input_limit_for_usage`. -/
def inputLimit (manager : ContextManager) (usage : ContextUsage) : Nat :=
  let margin := min 2048 (manager.window / 16)
  let declared : Int := if usage.outputReserveTokens < 2 ^ 31 then usage.outputReserveTokens
    else 2 ^ 31 - 1
  let reserve := (cappedOutputTokens declared manager.contextWindow).toNat
  manager.window - reserve - margin

/-- `effective_trigger`. -/
def effectiveTrigger (manager : ContextManager) (usage : ContextUsage) : Nat :=
  min (manager.window - (max manager.reserveTokens 0).toNat) (manager.inputLimit usage)

end ContextManager

/-- `projected_token_cost`. -/
def projectedTokenCost (projected : ProjectedMessage) : Nat :=
  messageTokenCost projected.message

def historyTokens (messages : List ProjectedMessage) : Nat :=
  (messages.map projectedTokenCost).sum

/-! ## The cut -/

/-- The costs between two places. -/
def spanTokens (costs : List Nat) (start stop : Nat) : Nat :=
  ((costs.drop start).take (stop - start)).sum

/-- A user's own message, which starts a turn. -/
def ProjectedMessage.startsTurn (projected : ProjectedMessage) : Bool :=
  projected.message.role = "user" && (internalSummary projected.message).isNone &&
    !projected.message.isProtected

def userStarts (messages : List ProjectedMessage) : List Nat :=
  (messages.zipIdx.filter fun (item, _) => item.startsTurn).map Prod.snd

/-- Take turns, the newest first, while they fit; the start of the last one taken. -/
def retainTurns (costs : List Nat) (keepRecentTokens : Nat) :
    List (Nat × Nat) → Nat → Option Nat → Option Nat
  | [], _, found => found
  | (start, stop) :: older, retained, found =>
      let turnTokens := spanTokens costs start stop
      if keepRecentTokens < retained + turnTokens then
        found
      else
        retainTurns costs keepRecentTokens older (retained + turnTokens) (some start)

/-- The messages below an index that fit behind the cut; the last one always does. -/
def retainMessages (costs : List Nat) (keepRecentTokens : Nat) : Nat → Nat → Nat → Nat
  | 0, _, cut => cut
  | index + 1, retained, cut =>
      let next := retained + (costs[index]?).getD 0
      if keepRecentTokens < next ∧ index + 1 < costs.length then
        cut
      else
        retainMessages costs keepRecentTokens index next index

def isTool (messages : List ProjectedMessage) (index : Nat) : Bool :=
  (messages[index]?).any fun item => item.message.role = "tool"

def isCall (messages : List ProjectedMessage) (index : Nat) : Bool :=
  (messages[index]?).any fun item =>
    item.message.role = "assistant" && item.message.hasToolCalls

/-- Back from the results of tools to the message that called them. -/
def backToCall (messages : List ProjectedMessage) : Nat → Nat
  | 0 => 0
  | cut + 1 =>
      if isTool messages (cut + 1) then
        if isCall messages cut then cut else backToCall messages cut
      else
        cut + 1

/-- `fallback_cut`. -/
def fallbackCut (messages : List ProjectedMessage) (costs : List Nat) (keepRecentTokens : Nat) :
    Option Nat :=
  if messages.length < 2 then
    none
  else
    let cut := max 1 (retainMessages costs keepRecentTokens messages.length 0
      (messages.length - 1))
    let cut := backToCall messages cut
    if 0 < cut ∧ cut < messages.length then some cut else none

/-- `turn_aware_cut`. -/
def turnAwareCut (messages : List ProjectedMessage) (costs : List Nat) (keepRecentTokens : Nat)
    (compactAllWhenEveryTurnFits : Bool) : Option Nat :=
  let starts := userStarts messages
  if starts = [] then
    if compactAllWhenEveryTurnFits = true ∧ messages ≠ [] ∧ costs.sum ≤ keepRecentTokens then
      some messages.length
    else
      fallbackCut messages costs keepRecentTokens
  else
    let turns := starts.zip (starts.tail ++ [messages.length])
    match retainTurns costs keepRecentTokens turns.reverse 0 none with
    | some start =>
        if compactAllWhenEveryTurnFits = true ∧ starts.head? = some start then
          some messages.length
        else if start = 0 then
          fallbackCut messages costs keepRecentTokens
        else
          some start
    | none => fallbackCut messages costs keepRecentTokens

/-! ## The plan -/

structure CompactionPlan where
  removed : List ProjectedMessage
  retained : List ProjectedMessage
  protectedItems : List ProjectedMessage
  targetTokens : Nat
  summaryBudget : Nat
  summarizedOutputs : Nat
  previousSummary : Option Text
  coveredFromEntryId : String
  cutoffEntryId : String
  tokensBefore : Nat
  usage : ContextUsage
  trigger : Trigger
  phase : Phase
  instructions : Option Text
deriving DecidableEq

inductive PlannedPreparation
  | unchanged (prompt : PromptContext)
  | compact (plan : CompactionPlan)
deriving DecidableEq

/-- The last message of a checkpoint. -/
def lastSummary (messages : List ProjectedMessage) : Option Nat :=
  ((messages.zipIdx.filter fun (item, _) => (internalSummary item.message).isSome).getLast?).map
    Prod.snd

/-- There is something that no checkpoint and no anchor says already. -/
def hasCompactableContent (removed : List ProjectedMessage) : Bool :=
  removed.any fun item =>
    (internalSummary item.message).isNone && !item.message.isProtected &&
      item.message.isSerialized

/-- The first of each entry. -/
def keepUnseen : List ProjectedMessage → List (Option String) → List ProjectedMessage
  | [], _ => []
  | item :: rest, seen =>
      if item.message.journalEntryId ∈ seen then
        keepUnseen rest seen
      else
        item :: keepUnseen rest (item.message.journalEntryId :: seen)

/-- The anchors of what is removed. -/
def collectProtected (removed : List ProjectedMessage) : List ProjectedMessage :=
  keepUnseen (removed.filterMap fun item => anchorOf item.message) []

/-- Keep the texts of users, and of assistants, from the first on, what there is room for; and
how many are left out. -/
def keepOutputs : Nat → List ProjectedMessage → List ProjectedMessage × Nat
  | _, [] => ([], 0)
  | outputRoom, item :: rest =>
      if item.message.role = "user" then
        let (kept, out) := keepOutputs outputRoom rest
        (item :: kept, out)
      else if projectedTokenCost item ≤ outputRoom then
        let (kept, out) := keepOutputs (outputRoom - projectedTokenCost item) rest
        (item :: kept, out)
      else
        let (kept, out) := keepOutputs outputRoom rest
        (kept, out + 1)

/-- Source ids that say something, in order. -/
def sourceIds (messages : List ProjectedMessage) : List String :=
  (messages.flatMap (·.sourceEntryIds)).filter (· ≠ "")

/-- The triggers that wait for a threshold. -/
def thresholdGated (trigger : Trigger) : Bool :=
  trigger = .automatic || trigger = .modelContextDownshift

/-- The active turn may be covered as a whole. -/
def allowFullActiveTurn (trigger : Trigger) (phase : Phase) : Bool :=
  trigger = .manual ||
    (phase = .midTurn && (trigger = .automatic || trigger = .providerContextLimit))

/-- `tokens_before`. -/
def tokensBefore (prompt : PromptContext) : Nat :=
  max (max (prompt.totalMessageTokens + prompt.usage.fixedInputTokens)
    prompt.usage.estimatedInputTokens) (prompt.usage.inputTokens.getD 0)

def keepRecent (manager : ContextManager) (trigger : Trigger) : Nat :=
  let configured := (max manager.keepRecentTokens 1).toNat
  if trigger = .manual then min configured manualRecentTailMaxTokens else configured

/-- Where the prompt is cut, if it can be. -/
def boundary (manager : ContextManager) (messages : List ProjectedMessage) (costs : List Nat)
    (trigger : Trigger) (phase : Phase) : Option Nat :=
  (turnAwareCut messages costs (keepRecent manager trigger) (trigger = .manual)).or
    (if allowFullActiveTurn trigger phase then some messages.length else none)

/-- Behind an earlier checkpoint, and behind everything where the rest is too large. -/
def finalCut (manager : ContextManager) (messages : List ProjectedMessage) (costs : List Nat)
    (trigger : Trigger) (phase : Phase) (cut : Nat) : Nat :=
  let cut := match lastSummary messages with
    | some index => max cut (index + 1)
    | none => cut
  if allowFullActiveTurn trigger phase = true ∧
      keepRecent manager trigger < (costs.drop cut).sum then
    messages.length
  else
    cut

/-- Whether the trigger leaves the prompt as it is. -/
def belowThreshold (manager : ContextManager) (prompt : PromptContext) (trigger : Trigger) : Bool :=
  let threshold := if !manager.enabled && trigger = .modelContextDownshift then
    manager.inputLimit prompt.usage
  else
    manager.effectiveTrigger prompt.usage
  thresholdGated trigger && tokensBefore prompt < threshold

/-- The budgets of a plan, and its checkpoint's range. -/
def budgeted (manager : ContextManager) (prompt : PromptContext) (trigger : Trigger) (phase : Phase)
    (instructions : Option Text) (summaryCap cut : Nat) : Except ContextError CompactionPlan := do
  let removed := prompt.messages.take cut
  let retained := prompt.messages.drop cut
  let collected := collectProtected removed
  let summaryBudget := max 1 (min (manager.window / 8) summaryCap)
  let historyRoom := manager.inputLimit prompt.usage - prompt.usage.fixedInputTokens
  let maximumTarget := min maxExpandedHistory (historyRoom * 3 / 4)
  let baseRequired := historyTokens (collected.filter (·.message.role = "user")) +
    historyTokens retained + summaryBudget + 64
  let (newest, summarizedOutputs) := keepOutputs (maximumTarget - baseRequired) collected.reverse
  let protectedItems := newest.reverse
  let required := historyTokens protectedItems + historyTokens retained + summaryBudget + 64
  ensure (required ≤ maximumTarget) (.budgetExceeded
    s!"protected text and recent history need at least {required} tokens, but compacted history can use {maximumTarget}; split large input material or use a new session")
  let coveredFrom ← context (sourceIds removed).head? .noValidBoundary
  let cutoff ← context (sourceIds removed).getLast? .noValidBoundary
  return {
    removed := removed
    retained := retained
    protectedItems := protectedItems
    targetTokens := max (min targetHistory maximumTarget) required
    summaryBudget := summaryBudget
    summarizedOutputs := summarizedOutputs
    previousSummary := removed.findSome? fun item => internalSummary item.message
    coveredFromEntryId := coveredFrom
    cutoffEntryId := cutoff
    tokensBefore := tokensBefore prompt
    usage := prompt.usage
    trigger := trigger
    phase := phase
    instructions := (instructions.map trimText).filter (· ≠ []) }

/-- `plan`. -/
def plan (manager : ContextManager) (prompt : PromptContext) (trigger : Trigger) (phase : Phase)
    (instructions : Option Text) (summaryCap : Nat) : Except ContextError PlannedPreparation :=
  let costs := prompt.messageTokenCosts
  if prompt.messages = [] ∨ (manager.enabled = false ∧ trigger = .automatic) then
    .ok (.unchanged prompt)
  else if manager.inputLimit prompt.usage ≤ prompt.usage.fixedInputTokens then
    .error (.budgetExceeded "system/tools and output reservation leave no input room")
  else if belowThreshold manager prompt trigger then
    .ok (.unchanged prompt)
  else
    match boundary manager prompt.messages costs trigger phase with
    | none =>
        if thresholdGated trigger = true ∧
            tokensBefore prompt ≤ manager.inputLimit prompt.usage then
          .ok (.unchanged prompt)
        else
          .error .noValidBoundary
    | some cut =>
        let cut := finalCut manager prompt.messages costs trigger phase cut
        if cut = 0 ∨ prompt.messages.length < cut ∨
            (cut = prompt.messages.length ∧ allowFullActiveTurn trigger phase = false) then
          .error .noValidBoundary
        else if hasCompactableContent (prompt.messages.take cut) then
          (budgeted manager prompt trigger phase instructions summaryCap cut).map .compact
        else
          .ok (.unchanged prompt)

end Compaction
end FutureOs
