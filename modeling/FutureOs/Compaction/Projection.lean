import FutureOs.Compaction.Message

/-!
# What a session sends

`projectPromptContext` rebuilds the prompt from the journal and the last checkpoint: the
anchors of what the checkpoint covers, the message that stands for it, and the rest of the
journal as it is.
-/

namespace FutureOs
namespace Compaction

inductive Trigger
  | automatic
  | providerContextLimit
  | manual
  | modelContextDownshift
deriving DecidableEq

inductive Phase
  | preTurn
  | midTurn
  | standalone
deriving DecidableEq

/-- `ContextUsage`, as far as budgets read it. -/
structure ContextUsage where
  inputTokens : Option Nat
  estimatedInputTokens : Nat
  contextWindow : Nat
  fixedInputTokens : Nat
  outputReserveTokens : Nat
deriving DecidableEq

structure ContextCheckpoint where
  entryId : String
  checkpointId : String
  coveredFromEntryId : Option String
  cutoffEntryId : Option String
  summary : List ContentBlock
  protectedEntryIds : List String
  tokensBefore : Nat
  tokensAfter : Nat
  trigger : Trigger
  phase : Option Phase
  algorithmVersion : String
  model : String
  contextWindow : Nat
deriving DecidableEq

structure ProjectedMessage where
  message : AgentMessage
  sourceEntryIds : List String
deriving DecidableEq

structure PromptContext where
  messages : List ProjectedMessage
  messageTokens : List Nat
  usage : ContextUsage
deriving DecidableEq

/-- `message_token_costs`: the costs that came along, if there is one for each message. -/
def PromptContext.messageTokenCosts (prompt : PromptContext) : List Nat :=
  if prompt.messageTokens.length = prompt.messages.length then
    prompt.messageTokens
  else
    prompt.messages.map fun projected => messageTokenCost projected.message

/-- `total_message_tokens`. -/
def PromptContext.totalMessageTokens (prompt : PromptContext) : Nat :=
  prompt.messageTokenCosts.sum

/-- Behind the last covered message; nothing is covered without a cutoff in the journal. -/
def tailStart (messages : List AgentMessage) (checkpoint : Option ContextCheckpoint) : Nat :=
  match checkpoint.bind (·.cutoffEntryId) with
  | none => 0
  | some cutoff =>
      match messages.findIdx? fun message => message.journalEntryId = some cutoff with
      | none => 0
      | some index => index + 1

/-- An anchor, with the entry it stands for. -/
def anchorOf (message : AgentMessage) : Option ProjectedMessage :=
  (protectedText message).map fun anchor => ⟨anchor, anchor.journalEntryId.toList⟩

/-- The anchors of the entries a checkpoint protects. -/
def protectedAnchors (checkpoint : ContextCheckpoint) (covered : List AgentMessage) :
    List ProjectedMessage :=
  covered.filterMap fun original =>
    if original.journalEntryId.any fun id => id ∈ checkpoint.protectedEntryIds then
      anchorOf original
    else
      none

/-- The texts of a summary, one in a line. -/
def summaryText (summary : List ContentBlock) : Text :=
  List.intercalate ['\n'] (summary.filterMap fun block =>
    match block with
    | .text said => some said
    | _ => none)

/-- The message of a checkpoint, unless its summary is empty. -/
def checkpointMessages (checkpoint : ContextCheckpoint) : List ProjectedMessage :=
  let summary := summaryText checkpoint.summary
  if summary = [] then
    []
  else
    [⟨summaryMessage summary checkpoint.entryId, [checkpoint.entryId]⟩]

/-- A message of the journal. -/
def projectRaw (message : AgentMessage) : ProjectedMessage :=
  ⟨message, message.journalEntryId.toList⟩

def projectMessages (messages : List AgentMessage) (checkpoint : Option ContextCheckpoint) :
    List ProjectedMessage :=
  let start := tailStart messages checkpoint
  (match checkpoint with
    | none => []
    | some checkpoint =>
        protectedAnchors checkpoint (messages.take start) ++ checkpointMessages checkpoint) ++
    (messages.drop start).map projectRaw

/-- `project_prompt_context`. -/
def projectPromptContext (messages : List AgentMessage) (checkpoint : Option ContextCheckpoint)
    (inputTokens : Option Nat) (contextWindow : Nat) : PromptContext :=
  let projected := projectMessages messages checkpoint
  let costs := projected.map fun item => projectedMessageTokenCosts item.message
  ⟨projected, costs.map Prod.snd, ⟨inputTokens, (costs.map Prod.fst).sum, contextWindow, 0, 0⟩⟩

/-! ## The journal -/

/-- Every message has its own entry, and a tool's result follows the call or another result. -/
structure Journal (raw : List AgentMessage) : Prop where
  identified : ∀ message ∈ raw, message.journalEntryId ≠ none
  distinct : (raw.map AgentMessage.journalEntryId).Nodup
  answered : ∀ before message after, raw = before ++ message :: after → message.role = "tool" →
    ∃ earlier previous, before = earlier ++ [previous] ∧
      (previous.role = "tool" ∨ previous.role = "assistant" ∧ previous.hasToolCalls = true)

end Compaction
end FutureOs
