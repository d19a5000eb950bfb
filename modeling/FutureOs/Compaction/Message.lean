import FutureOs.Lib.Json
import FutureOs.Lib.Text
import Mathlib.Data.List.TakeWhile

/-!
# Messages of the agent

A message with its blocks and its metadata, what compaction reads off it, and what it costs.
Three keys of the metadata are compaction's own: the journal entry a message stands for, and
whether it is an anchor (the text of an earlier message) or the message of a checkpoint.
-/

namespace FutureOs
namespace Compaction

inductive ContentBlock
  | text (text : Text)
  | image (url : Option String)
  | reasoning (text : Text) (providerMetadata : List (String × Json))
  | toolCall (id name : String) (args : Json) (providerMetadata : List (String × Json))
  | toolResult (toolCallId : String) (content : Text) (isError : Bool)
deriving DecidableEq

structure AgentMessage where
  role : String
  content : List ContentBlock
  name : String
  toolArgs : String
  metadata : Option (List (String × Json))
deriving DecidableEq

/-- `JOURNAL_ENTRY_ID_KEY`. -/
def journalEntryIdKey : String := "_future_journal_entry_id"

/-- `INTERNAL_ANCHOR_METADATA_KEY`. -/
def internalAnchorKey : String := "internal_context_anchor"

/-- `INTERNAL_CHECKPOINT_METADATA_KEY`. -/
def internalCheckpointKey : String := "internal_context_checkpoint"

/-! ## Text -/

/-- `trim().is_empty()`. -/
def isBlank (text : Text) : Bool :=
  text.all Text.isWhitespace

/-- `str::trim`. -/
def trimText (text : Text) : Text :=
  ((text.dropWhile Text.isWhitespace).reverse.dropWhile Text.isWhitespace).reverse

theorem trimText_ne_nil
    {text : Text}
    (h : isBlank text = false) :
    trimText text ≠ [] := by
  intro hnil
  have hall : (text.dropWhile Text.isWhitespace).all Text.isWhitespace = true := by
    rw [← List.all_reverse, List.all_eq_true]
    exact List.dropWhile_eq_nil_iff.mp (List.reverse_eq_nil_iff.mp hnil)
  -- What is left without the leading white space does not start with white space.
  cases hrest : text.dropWhile Text.isWhitespace with
  | nil =>
      exact absurd (List.all_eq_true.mpr (List.dropWhile_eq_nil_iff.mp hrest))
        (Bool.eq_false_iff.mp h)
  | cons c rest =>
      have hne : text.dropWhile Text.isWhitespace ≠ [] := by simp [hrest]
      have hc := List.head_dropWhile_not Text.isWhitespace hne
      simp only [hrest, List.head_cons] at hc
      rw [hrest, List.all_cons, hc] at hall
      cases hall

/-! ## Reading a message -/

namespace AgentMessage

def metadataValue (message : AgentMessage) (key : String) : Option Json :=
  message.metadata.bind (Fields.lookup key)

/-- `journal_entry_id`. -/
def journalEntryId (message : AgentMessage) : Option String :=
  ((message.metadataValue journalEntryIdKey).bind Json.asStr?).filter (· ≠ "")

def flag (message : AgentMessage) (key : String) : Bool :=
  ((message.metadataValue key).bind Json.asBool?).getD false

/-- The message of a checkpoint. -/
def isCheckpoint (message : AgentMessage) : Bool :=
  message.flag internalCheckpointKey

/-- `is_protected`. -/
def isProtected (message : AgentMessage) : Bool :=
  message.flag internalAnchorKey

/-- `has_tool_calls`. -/
def hasToolCalls (message : AgentMessage) : Bool :=
  message.content.any fun block =>
    match block with
    | .toolCall .. => true
    | _ => false

/-- `new_user`, with one text. -/
def newUser (text : Text) : AgentMessage :=
  ⟨"user", [.text text], "", "", none⟩

end AgentMessage

/-- A text block that says something. -/
def ContentBlock.isSpoken : ContentBlock → Bool
  | .text said => !isBlank said
  | _ => false

/-- `protected_text`: the texts of a user's or an assistant's message. -/
def protectedText (original : AgentMessage) : Option AgentMessage :=
  if original.role ∉ ["user", "assistant"] ∨ original.isCheckpoint = true then
    none
  else
    original.journalEntryId.bind fun id =>
      let content := original.content.filter ContentBlock.isSpoken
      if content = [] then
        none
      else
        some ⟨original.role, content, "", "",
          some (Fields.insert internalAnchorKey (.bool true) [(journalEntryIdKey, .str id)])⟩

def checkpointStart : Text := "[Context compaction:".toList

/-- What is between the brackets of a checkpoint's text. -/
def checkpointText (text : Text) : Option Text :=
  let rest := text.drop checkpointStart.length
  if checkpointStart.isPrefixOf text ∧ rest.getLast? = some ']' then
    let inner := trimText rest.dropLast
    if inner = [] then none else some inner
  else
    none

/-- `internal_summary`. -/
def internalSummary (message : AgentMessage) : Option Text :=
  if message.role ≠ "user" ∨ message.isCheckpoint = false then
    none
  else
    message.content.findSome? fun block =>
      match block with
      | .text text => checkpointText text
      | _ => none

/-- `stamp_internal_checkpoint_message`. -/
def stampCheckpoint (message : AgentMessage) (entryId : String) : AgentMessage :=
  { message with
    metadata := some (Fields.insert internalCheckpointKey (.bool true)
      (Fields.insert journalEntryIdKey (.str entryId) (message.metadata.getD []))) }

/-- The message that stands for a checkpoint. -/
def summaryMessage (summary : Text) (entryId : String) : AgentMessage :=
  stampCheckpoint (.newUser (checkpointStart ++ ' ' :: (summary ++ [']']))) entryId

/-- The block has a line in `serialize_message`; a line starts with its label. -/
def ContentBlock.isSerialized : ContentBlock → Bool
  | .text said => !isBlank said
  | .reasoning thought _ => !isBlank thought
  | .image _ => true
  | .toolCall .. => true
  | .toolResult .. => true

/-- `serialize_message` is not blank. -/
def AgentMessage.isSerialized (message : AgentMessage) : Bool :=
  message.content.any ContentBlock.isSerialized

/-! ## Costs -/

/-- `is_cjk`. -/
def isCjk (c : Char) : Bool :=
  let n := c.toNat
  (0x4E00 ≤ n && n ≤ 0x9FFF) || (0x3400 ≤ n && n ≤ 0x4DBF) || (0x3040 ≤ n && n ≤ 0x30FF) ||
    (0xAC00 ≤ n && n ≤ 0xD7AF) || (0xF900 ≤ n && n ≤ 0xFAFF) || (0x20000 ≤ n && n ≤ 0x2A6DF)

/-- `char_token_quarters`. -/
def charTokenQuarters (c : Char) : Nat :=
  if isCjk c then 6 else if c.toNat < 128 then 1 else 2

/-- `estimate_text_tokens`. -/
def estimateTextTokens (text : Text) : Nat :=
  min (((text.map charTokenQuarters).sum + 3) / 4) (2 ^ 31 - 1)

/-- What a block counts as the body of a message. -/
def ContentBlock.bodyTokens (role : String) : ContentBlock → Nat
  | .text said => estimateTextTokens said
  | .toolResult _ content _ => estimateTextTokens content
  | .toolCall _ name args _ =>
      if role = "assistant" then
        estimateTextTokens name.toList +
          estimateTextTokens (match args with
            | .str value => value.toList
            | other => other.compact)
      else
        0
  | .image _ => 0
  | .reasoning .. => 0

def ContentBlock.reasoningTokens : ContentBlock → Nat
  | .reasoning thought _ => estimateTextTokens thought
  | _ => 0

def ContentBlock.isImage : ContentBlock → Bool
  | .image _ => true
  | _ => false

/-- The images a message has as attachments only. -/
def attachmentImages (message : AgentMessage) : Nat :=
  (((message.metadataValue "attachments").bind Json.asArray?).getD []).countP fun attachment =>
    (attachment.get? "kind").bind Json.asStr? = some "image"

/-- `projected_message_token_costs`: the body alone, and all of the message. -/
def projectedMessageTokenCosts (message : AgentMessage) : Nat × Nat :=
  let body := (message.content.map (·.bodyTokens message.role)).sum
  let reasoning := (message.content.map (·.reasoningTokens)).sum
  let images := message.content.countP ContentBlock.isImage
  let attached := if images = 0 then attachmentImages message else 0
  (body, body + reasoning + 6 + (images + attached) * 2048)

/-- `projected_message_token_cost`. -/
def messageTokenCost (message : AgentMessage) : Nat :=
  (projectedMessageTokenCosts message).2

/-! ## Anchors and checkpoints -/

section Messages

variable {message anchor : AgentMessage}
variable {id entryId : String}
variable {summary : Text}

attribute [local simp] protectedText internalSummary summaryMessage stampCheckpoint

theorem journalEntryId_ne
    (h : message.journalEntryId = some id) :
    id ≠ "" := by
  simpa using (Option.filter_eq_some_iff.mp h).2

/-- What an anchor is made of. -/
theorem protectedText_eq_some :
    protectedText message = some anchor ↔
      message.role ∈ ["user", "assistant"] ∧ message.isCheckpoint = false ∧
        ∃ id, message.journalEntryId = some id ∧
          message.content.filter ContentBlock.isSpoken ≠ [] ∧
          anchor = ⟨message.role, message.content.filter ContentBlock.isSpoken, "", "",
            some (Fields.insert internalAnchorKey (.bool true) [(journalEntryIdKey, .str id)])⟩ := by
  unfold protectedText
  split
  · rename_i h
    constructor
    · intro hnone
      cases hnone
    · rintro ⟨hrole, hcheckpoint, -⟩
      rcases h with h | h
      · exact absurd hrole h
      · rw [h] at hcheckpoint
        cases hcheckpoint
  · rename_i h
    rw [not_or, not_not, Bool.not_eq_true] at h
    rw [Option.bind_eq_some_iff, and_iff_right h.1, and_iff_right h.2]
    refine exists_congr fun id => and_congr_right fun _ => ?_
    dsimp only
    split
    · rename_i hnil
      simp [hnil]
    · rename_i hne
      rw [Option.some.injEq, and_iff_right hne]
      exact eq_comm

/-- What is read off an anchor. -/
structure AnchorOf (message anchor : AgentMessage) : Prop where
  entry : anchor.journalEntryId = message.journalEntryId
  role : anchor.role = message.role
  checkpoint : anchor.isCheckpoint = false
  anchored : anchor.isProtected = true

theorem anchorOf_protectedText
    (h : protectedText message = some anchor) :
    AnchorOf message anchor := by
  obtain ⟨-, -, id, hid, -, rfl⟩ := protectedText_eq_some.mp h
  have hne := journalEntryId_ne hid
  refine ⟨?_, rfl, ?_, ?_⟩
  · rw [hid]
    simp [AgentMessage.journalEntryId, AgentMessage.metadataValue, Fields.lookup_insert,
      Fields.lookup_cons, journalEntryIdKey, internalAnchorKey, Json.asStr?, hne]
  · simp [AgentMessage.isCheckpoint, AgentMessage.flag, AgentMessage.metadataValue,
      Fields.lookup_insert, Fields.lookup_cons, internalCheckpointKey, internalAnchorKey,
      journalEntryIdKey]
  · simp [AgentMessage.isProtected, AgentMessage.flag, AgentMessage.metadataValue,
      Fields.lookup_insert, Json.asBool?]

theorem journalEntryId_protectedText
    (h : protectedText message = some anchor) :
    anchor.journalEntryId = message.journalEntryId :=
  (anchorOf_protectedText h).entry

theorem role_protectedText
    (h : protectedText message = some anchor) :
    anchor.role = message.role :=
  (anchorOf_protectedText h).role

theorem isCheckpoint_protectedText
    (h : protectedText message = some anchor) :
    anchor.isCheckpoint = false :=
  (anchorOf_protectedText h).checkpoint

theorem isProtected_protectedText
    (h : protectedText message = some anchor) :
    anchor.isProtected = true :=
  (anchorOf_protectedText h).anchored

/-- An anchor is its own anchor. -/
theorem protectedText_protectedText
    (h : protectedText message = some anchor) :
    protectedText anchor = some anchor := by
  have hid := journalEntryId_protectedText h
  have hcheckpoint := isCheckpoint_protectedText h
  obtain ⟨hrole, -, id, hmessage, hne, rfl⟩ := protectedText_eq_some.mp h
  refine protectedText_eq_some.mpr ⟨hrole, hcheckpoint, id, hid.trans hmessage, ?_, ?_⟩
  · simpa only [List.filter_filter, Bool.and_self] using hne
  · simp only [List.filter_filter, Bool.and_self]

theorem isCheckpoint_summaryMessage (summary : Text) (entryId : String) :
    (summaryMessage summary entryId).isCheckpoint = true := by
  simp [AgentMessage.isCheckpoint, AgentMessage.flag,
    AgentMessage.metadataValue, Fields.lookup_insert, Json.asBool?]

theorem protectedText_summaryMessage (summary : Text) (entryId : String) :
    protectedText (summaryMessage summary entryId) = none := by
  rw [protectedText, isCheckpoint_summaryMessage]
  simp

theorem internalSummary_eq_none
    (h : message.isCheckpoint = false) :
    internalSummary message = none := by
  simp [h]

theorem role_of_internalSummary
    (h : internalSummary message ≠ none) :
    message.role = "user" := by
  by_contra hrole
  exact h (by simp [hrole])

/-- A checkpoint with a text is read back as one. -/
theorem internalSummary_summaryMessage
    (h : isBlank summary = false) :
    internalSummary (summaryMessage summary entryId) ≠ none := by
  have hinner : isBlank (' ' :: summary) = false := by
    rw [isBlank, List.all_cons, show Text.isWhitespace ' ' = true by decide, Bool.true_and]
    exact h
  have htext : checkpointText (checkpointStart ++ ' ' :: (summary ++ [']'])) =
      some (trimText (' ' :: summary)) := by
    have hlast : (' ' :: (summary ++ [']'])).getLast? = some ']' := by
      rw [← List.cons_append, List.getLast?_concat]
    have hinit : (' ' :: (summary ++ [']'])).dropLast = ' ' :: summary := by
      rw [← List.cons_append, List.dropLast_concat]
    have hpre : checkpointStart.isPrefixOf (checkpointStart ++ ' ' :: (summary ++ [']'])) = true :=
      List.isPrefixOf_iff_prefix.mpr (List.prefix_append _ _)
    simp only [checkpointText, List.drop_left, hlast, hinit, hpre, true_and, if_true,
      if_neg (trimText_ne_nil hinner)]
  have hcheckpoint := isCheckpoint_summaryMessage summary entryId
  rw [internalSummary, hcheckpoint]
  simp [summaryMessage, stampCheckpoint, AgentMessage.newUser, htext]

end Messages

end Compaction
end FutureOs
