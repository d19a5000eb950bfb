import FutureOs.Lib.Emitting
import FutureOs.Lib.Text
import FutureOs.Llm.Sse
import FutureOs.Llm.StreamEvent

/-!
# The Responses stream

`openai_responses.rs`: `decode_frame`, the reconciliation of repeated texts and
`finish_stream`.  The code keeps its items in maps by output index; a step changes the entry
of one index (`onText` and the like).  Events are listed with the output index they belong
to, which the code's events do not carry.
-/

namespace FutureOs
namespace Llm
namespace OpenAiResponses

structure ResponseToolState where
  itemId : String
  callId : String
  name : String
  arguments : String
deriving DecidableEq

structure ResponseTextState where
  id : String
  text : String
  isOpen : Bool
deriving DecidableEq

structure ResponseReasoningState where
  /-- Identity in the stream only. -/
  id : String
  /-- Identity from the wire. -/
  providerId : Option String
  summaryParts : List (Nat × String)
  contentParts : List (Nat × String)
  emittedSummaryParts : List Nat
deriving DecidableEq

structure ResponsesState where
  texts : List (Nat × ResponseTextState)
  reasoningOpen : List (Nat × ResponseReasoningState)
  tools : List (Nat × ResponseToolState)
  finishedOutputItems : List Nat
  finished : Bool
deriving DecidableEq

def ResponsesState.new : ResponsesState where
  texts := []
  reasoningOpen := []
  tools := []
  finishedOutputItems := []
  finished := false

/-- A step on the entry of one index. -/
abbrev SlotStep (α : Type) := Emitting.Step (Option α) ModelStreamEvent

/-- A step of the decoder; events with the output index they belong to. -/
abbrev Emits := Emitting.Step ResponsesState (Option Nat × ModelStreamEvent)

section Slots

variable {α : Type}

/-- The entry of an index afterwards. -/
def setSlot (index : Nat) (slot : Option α) (slots : List (Nat × α)) : List (Nat × α) :=
  match slot with
  | some value => Fields.insert index value slots
  | none => Fields.erase index slots

def onText (index : Nat) (step : SlotStep ResponseTextState) : Emits := fun st =>
  let out := step (Fields.lookup index st.texts)
  ({ st with texts := setSlot index out.1 st.texts }, out.2.map (some index, ·))

def onReasoning (index : Nat) (step : SlotStep ResponseReasoningState) : Emits := fun st =>
  let out := step (Fields.lookup index st.reasoningOpen)
  ({ st with reasoningOpen := setSlot index out.1 st.reasoningOpen }, out.2.map (some index, ·))

def onTool (index : Nat) (step : SlotStep ResponseToolState) : Emits := fun st =>
  let out := step (Fields.lookup index st.tools)
  ({ st with tools := setSlot index out.1 st.tools }, out.2.map (some index, ·))

end Slots

/-- What a complete text adds to what is recorded; nothing where it contradicts that. -/
def suffixOf (current : Option String) (complete : String) : String :=
  (current.bind fun text => Text.stripPrefix text complete).getD
    (if current.getD "" = "" then complete else "")

section TextSteps

def openText (id : String) (slot : Option ResponseTextState) :
    ResponseTextState × List ModelStreamEvent :=
  let text := slot.getD { id := "", text := "", isOpen := false }
  let text := if text.id = "" then { text with id := id } else text
  if text.isOpen then (text, []) else ({ text with isOpen := true }, [.textStart text.id])

def appendTextDelta (id delta : String) : SlotStep ResponseTextState := fun slot =>
  if delta = "" then
    (slot, [])
  else
    let out := openText id slot
    (some { out.1 with text := out.1.text ++ delta }, out.2 ++ [.textDelta out.1.id delta])

/-- The complete text of a part or an item. -/
def takeComplete (id complete : String) : SlotStep ResponseTextState := fun slot =>
  let out := appendTextDelta id (suffixOf (slot.map (·.text)) complete) slot
  (out.1.map fun text => { text with text := complete }, out.2)

def closeText : SlotStep ResponseTextState := fun slot =>
  match slot with
  | some text =>
      if text.isOpen then (some { text with isOpen := false }, [.textEnd text.id])
      else (some text, [])
  | none => (none, [])

/-- `reconcile_text`, which every caller lets close the text. -/
def reconcileText (id : String) (complete : Option String) : SlotStep ResponseTextState :=
  match complete with
  | some complete => (takeComplete id complete).andThen closeText
  | none => closeText

end TextSteps

section ReasoningSteps

def openReasoning (index : Nat) (id : String) : SlotStep ResponseReasoningState := fun slot =>
  let providerId := if id = "" then none else some id
  match slot with
  | none =>
      let assemblyId := if id = "" then "reasoning-" ++ toString index else id
      (some { id := assemblyId, providerId := providerId, summaryParts := [],
              contentParts := [], emittedSummaryParts := [] }, [.reasoningStart assemblyId])
  | some reasoning =>
      (some { reasoning with providerId := reasoning.providerId.or providerId }, [])

/-- A blank line goes before a part that follows a part with a text. -/
def separates (reasoning : ResponseReasoningState) (summaryIndex : Nat) : Bool :=
  !reasoning.emittedSummaryParts.contains summaryIndex && 0 < summaryIndex &&
    reasoning.summaryParts.any fun part => part.1 < summaryIndex && part.2 ≠ ""

/-- The entry of an open reasoning item takes in a delta. -/
def ResponseReasoningState.takeDelta (reasoning : ResponseReasoningState)
    (summaryIndex : Nat) (delta : String) :
    ResponseReasoningState × List ModelStreamEvent :=
  let current := (Fields.lookup summaryIndex reasoning.summaryParts).getD ""
  ({ reasoning with
      emittedSummaryParts :=
        if reasoning.emittedSummaryParts.contains summaryIndex then
          reasoning.emittedSummaryParts
        else
          summaryIndex :: reasoning.emittedSummaryParts
      summaryParts := Fields.insert summaryIndex (current ++ delta) reasoning.summaryParts },
    (if separates reasoning summaryIndex then [.reasoningDelta reasoning.id "\n\n"] else []) ++
      [.reasoningDelta reasoning.id delta])

/-- A step on an open reasoning item, which is opened first. -/
def onOpen (index : Nat) (id : String)
    (step : ResponseReasoningState → ResponseReasoningState × List ModelStreamEvent) :
    SlotStep ResponseReasoningState :=
  (openReasoning index id).andThen fun slot =>
    match slot with
    | some reasoning => (some (step reasoning).1, (step reasoning).2)
    | none => (none, [])

def appendReasoningSummaryDelta (index : Nat) (id : String) (summaryIndex : Nat)
    (delta : String) : SlotStep ResponseReasoningState :=
  if delta = "" then
    Emitting.Step.skip
  else
    onOpen index id (·.takeDelta summaryIndex delta)

/-- The complete text of a summary part. -/
def ResponseReasoningState.takeComplete (reasoning : ResponseReasoningState)
    (summaryIndex : Nat) (complete : String) :
    ResponseReasoningState × List ModelStreamEvent :=
  let suffix := suffixOf (Fields.lookup summaryIndex reasoning.summaryParts) complete
  let out := if suffix = "" then (reasoning, []) else reasoning.takeDelta summaryIndex suffix
  ({ out.1 with summaryParts := Fields.insert summaryIndex complete out.1.summaryParts }, out.2)

def reconcileReasoningSummary (index : Nat) (id : String) (summaryIndex : Nat)
    (complete : String) : SlotStep ResponseReasoningState :=
  onOpen index id (·.takeComplete summaryIndex complete)

/-- `reasoning_summary_part.added`. -/
def addReasoningSummary (index : Nat) (id : String) (summaryIndex : Nat) :
    SlotStep ResponseReasoningState :=
  onOpen index id fun reasoning =>
    ({ reasoning with
        summaryParts := Fields.insert summaryIndex
          ((Fields.lookup summaryIndex reasoning.summaryParts).getD "")
          reasoning.summaryParts }, [])

def appendReasoningContent (index : Nat) (id : String) (contentIndex : Nat) (delta : String) :
    SlotStep ResponseReasoningState :=
  onOpen index id fun reasoning =>
    ({ reasoning with
        contentParts := Fields.insert contentIndex
          ((Fields.lookup contentIndex reasoning.contentParts).getD "" ++ delta)
          reasoning.contentParts }, [])

def reconcileReasoningContent (index : Nat) (id : String) (contentIndex : Nat)
    (complete : String) : SlotStep ResponseReasoningState :=
  onOpen index id fun reasoning =>
    ({ reasoning with
        contentParts := Fields.insert contentIndex complete reasoning.contentParts }, [])

end ReasoningSteps

section Metadata

def openAiItemMetadata (id : String) : Json :=
  .obj [("openai", .obj (if id = "" then [] else [("id", .str id), ("item_id", .str id)]))]

/-- The texts of the parts of a reasoning item, as they are replayed. -/
def partsJson (kind : String) (parts : List (Nat × String)) : Json :=
  .arr (parts.map fun part => .obj [("text", .str part.2), ("type", .str kind)])

def openAiReasoningMetadata (reasoning : ResponseReasoningState) (encrypted : Option String) :
    Json :=
  let identity : List (String × Json) :=
    match reasoning.providerId with
    | some id => [("id", .str id), ("item_id", .str id)]
    | none => []
  let content : List (String × Json) :=
    if reasoning.contentParts = [] then []
    else [("content", partsJson "reasoning_text" reasoning.contentParts)]
  let cipher := (encrypted.map fun text => ("encrypted_content", Json.str text)).toList
  .obj [("openai", .obj (content ++ cipher ++ identity ++
    [("summary", partsJson "summary_text" reasoning.summaryParts)]))]

end Metadata

section Items

variable (fromStr : String → Option Json)

/-- The type of an item or a part. -/
def typeOf (v : Json) : String :=
  (textField v "type").getD ""

/-- The text of a content part; other kinds of parts have none. -/
def contentText (part : Json) : Option String :=
  if textField part "type" = some "output_text" then textField part "text"
  else if textField part "type" = some "refusal" then textField part "refusal"
  else none

/-- The texts of the parts of a message, if it has a content. -/
def messageParts (item : Json) : Option (List String) :=
  ((item.get? "content").bind Json.asArray?).map fun content => content.filterMap contentText

def messageText (item : Json) : Option String :=
  (messageParts item).map String.join

/-- The texts of a list of parts, with their places. -/
def indexedTexts (item : Json) (key : String) : List (Nat × String) :=
  ((((item.get? key).bind Json.asArray?).getD []).zipIdx).filterMap fun part =>
    (textField part.1 "text").map fun text => (part.2, text)

def endReasoning (item : Json) (id : String) : SlotStep ResponseReasoningState := fun slot =>
  let reasoning := slot.getD { id := id, providerId := none, summaryParts := [],
                               contentParts := [], emittedSummaryParts := [] }
  (none, [.reasoningEnd reasoning.id
    (openAiReasoningMetadata reasoning (textField item "encrypted_content"))])

def reconcileReasoningItem (index : Nat) (item : Json) : SlotStep ResponseReasoningState :=
  let id := (textField item "id").getD ""
  (openReasoning index id).andThen <|
    (Emitting.Step.inOrder ((indexedTexts item "summary").map fun part =>
      reconcileReasoningSummary index id part.1 part.2)).andThen <|
      (Emitting.Step.inOrder ((indexedTexts item "content").map fun part =>
        reconcileReasoningContent index id part.1 part.2)).andThen (endReasoning item id)

def reconcileFunctionCall (index : Nat) (item : Json) : SlotStep ResponseToolState := fun slot =>
  let tool := slot.getD
    { itemId := (textField item "id").getD ""
      callId := (textField item "call_id").getD ""
      name := (textField item "name").getD ""
      arguments := "" }
  (none, [.toolInputEnd index tool.callId tool.name
    (parseJsonArguments fromStr ((item.get? "arguments").getD (.str tool.arguments)))
    (openAiItemMetadata tool.itemId)])

def reconcileOutputItem (index : Nat) (item : Json) : Emits :=
  if typeOf item = "message" then
    onText index (reconcileText ((textField item "id").getD "text") (messageText item))
  else if typeOf item = "refusal" then
    onText index (reconcileText ((textField item "id").getD "refusal")
      (textField item "refusal"))
  else if typeOf item = "function_call" then
    onTool index (reconcileFunctionCall fromStr index item)
  else if typeOf item = "reasoning" then
    onReasoning index (reconcileReasoningItem index item)
  else
    Emitting.Step.skip

/-- The item of an index is not reconciled again. -/
def finishItem (index : Nat) : Emits := fun st =>
  ({ st with finishedOutputItems := index :: st.finishedOutputItems }, [])

/-- An item of the final response. -/
def reconcileUnfinished (entry : Json × Nat) : Emits := fun st =>
  if st.finishedOutputItems.contains entry.2 then
    (st, [])
  else
    ((reconcileOutputItem fromStr entry.2 entry.1).andThen (finishItem entry.2)) st

def outputOf (response : Json) : List Json :=
  ((response.get? "output").bind Json.asArray?).getD []

def reconcileResponseOutput (response : Json) : Emits :=
  Emitting.Step.inOrder ((outputOf response).zipIdx.map (reconcileUnfinished fromStr))

def closeOpen : Emits := fun st =>
  ({ st with texts := [], reasoningOpen := [], tools := [] },
    (st.texts.filter (·.2.isOpen)).map (fun entry => (some entry.1, .textEnd entry.2.id)) ++
      st.reasoningOpen.map (fun entry => (some entry.1,
        .reasoningEnd entry.2.id (openAiReasoningMetadata entry.2 none))) ++
      st.tools.map fun entry => (some entry.1,
        .toolInputEnd entry.1 entry.2.callId entry.2.name
          (parseJsonArguments fromStr (.str entry.2.arguments))
          (openAiItemMetadata entry.2.itemId)))

end Items

section Response

/-- A refusal, as an item or as a part of a message. -/
def isRefusal (item : Json) : Bool :=
  textField item "type" = some "refusal" ||
    (((item.get? "content").bind Json.asArray?).getD []).any fun part =>
      textField part "type" = some "refusal"

def completedOutputReason (response : Json) : FinishReason :=
  if (outputOf response).any fun item => textField item "type" = some "function_call" then
    .toolCalls
  else if (outputOf response).any isRefusal then
    .refusal
  else
    .stop

def incompleteReason (response : Json) : FinishReason :=
  match (response.get? "incomplete_details").bind (textField · "reason") with
  | none => .incomplete
  | some reason =>
      if reason = "max_output_tokens" then .length
      else if reason = "content_filter" then .contentFilter
      else .unknown reason

def streamFailed : String := "OpenAI Responses stream failed"

def responseErrorMessage (response : Json) : String :=
  ((response.get? "error").bind (textField · "message")).getD streamFailed

def usageOf (response : Json) : Option Json :=
  (response.get? "usage").filter (· ≠ .null)

/-- The event a completed response ends with. -/
def completedEvent (response : Json) : ModelStreamEvent :=
  let status := (textField response "status").getD "completed"
  if status = "failed" then
    .error (responseErrorMessage response)
  else if status = "completed" then
    .finish (completedOutputReason response) (usageOf response)
  else if status = "incomplete" then
    .finish (incompleteReason response) (usageOf response)
  else if status = "cancelled" then
    .finish .cancelled (usageOf response)
  else
    .finish .incomplete (usageOf response)

/-- The message of a failed response or an error event. -/
def failureMessage (event : Json) : String :=
  let error := ((event.get? "response").bind (·.get? "error")).or (event.get? "error")
  (((error.bind (·.get? "message")).or (event.get? "message")).bind Json.asStr?).getD
    streamFailed

/-- The last event of a stream. -/
def endWith (event : ModelStreamEvent) : Emits := fun st =>
  ({ st with finished := true }, [(none, event)])

end Response

section Decode

variable (fromStr : String → Option Json)

inductive EventType
  | outputItemAdded
  | outputTextDelta
  | outputTextDone
  | refusalDelta
  | refusalDone
  | reasoningSummaryPartAdded
  | reasoningSummaryTextDelta
  | reasoningSummaryPartDone
  | reasoningSummaryTextDone
  | reasoningTextDelta
  | reasoningTextDone
  | functionCallArgumentsDelta
  | outputItemDone
  | completed
  | incomplete
  | failed
  | other
deriving DecidableEq

def eventTypes : List (String × EventType) :=
  [("response.output_item.added", .outputItemAdded),
   ("response.output_text.delta", .outputTextDelta),
   ("response.output_text.done", .outputTextDone),
   ("response.refusal.delta", .refusalDelta),
   ("response.refusal.done", .refusalDone),
   ("response.reasoning_summary_part.added", .reasoningSummaryPartAdded),
   ("response.reasoning_summary_text.delta", .reasoningSummaryTextDelta),
   ("response.reasoning_summary_part.done", .reasoningSummaryPartDone),
   ("response.reasoning_summary_text.done", .reasoningSummaryTextDone),
   ("response.reasoning_text.delta", .reasoningTextDelta),
   ("response.reasoning_text.done", .reasoningTextDone),
   ("response.function_call_arguments.delta", .functionCallArgumentsDelta),
   ("response.output_item.done", .outputItemDone),
   ("response.completed", .completed),
   ("response.incomplete", .incomplete),
   ("response.failed", .failed),
   ("error", .failed)]

def EventType.ofName (name : String) : EventType :=
  (eventTypes.lookup name).getD .other

/-- A step with a text of the event; none where the text is missing. -/
def withText (text : Option String) (step : String → Emits) : Emits :=
  match text with
  | some text => step text
  | none => Emitting.Step.skip

def itemOf (event : Json) : Json :=
  (event.get? "item").getD .null

def responseOf (event : Json) : Json :=
  (event.get? "response").getD .null

def addOutputItem (index : Nat) (item : Json) : Emits :=
  let id := (textField item "id").getD ""
  if typeOf item = "function_call" then
    let callId := (textField item "call_id").getD id
    let name := (textField item "name").getD ""
    onTool index fun _ =>
      (some { itemId := id, callId := callId, name := name, arguments := "" },
        [.toolInputStart index callId name none (openAiItemMetadata id)])
  else if typeOf item = "reasoning" then
    onReasoning index (openReasoning index id)
  else
    Emitting.Step.skip

def appendToolArguments (index : Nat) (delta : String) : SlotStep ResponseToolState := fun slot =>
  match slot with
  | some tool =>
      (some { tool with arguments := tool.arguments ++ delta },
        [.toolInputDelta index tool.callId delta false])
  | none => (none, [])

def decodeEvent (type : EventType) (event : Json) : Emits :=
  let index := indexField event "output_index"
  let itemId := textField event "item_id"
  let summaryIndex := indexField event "summary_index"
  let contentIndex := indexField event "content_index"
  let text := textField event "text"
  let delta := textField event "delta"
  let reasoningId := itemId.getD ""
  match type with
  | .outputItemAdded => addOutputItem index (itemOf event)
  | .outputTextDelta =>
      withText delta fun delta => onText index (appendTextDelta (itemId.getD "text") delta)
  | .outputTextDone => onText index (reconcileText (itemId.getD "text") text)
  | .refusalDelta =>
      withText delta fun delta => onText index (appendTextDelta (itemId.getD "refusal") delta)
  | .refusalDone =>
      onText index (reconcileText (itemId.getD "refusal") (textField event "refusal"))
  | .reasoningSummaryPartAdded =>
      onReasoning index (addReasoningSummary index reasoningId summaryIndex)
  | .reasoningSummaryTextDelta =>
      withText delta fun delta =>
        onReasoning index (appendReasoningSummaryDelta index reasoningId summaryIndex delta)
  | .reasoningSummaryPartDone =>
      withText ((event.get? "part").bind (textField · "text")) fun text =>
        onReasoning index (reconcileReasoningSummary index reasoningId summaryIndex text)
  | .reasoningSummaryTextDone =>
      withText text fun text =>
        onReasoning index (reconcileReasoningSummary index reasoningId summaryIndex text)
  | .reasoningTextDelta =>
      withText delta fun delta =>
        onReasoning index (appendReasoningContent index reasoningId contentIndex delta)
  | .reasoningTextDone =>
      withText text fun text =>
        onReasoning index (reconcileReasoningContent index reasoningId contentIndex text)
  | .functionCallArgumentsDelta => onTool index (appendToolArguments index (delta.getD ""))
  | .outputItemDone =>
      (reconcileOutputItem fromStr index (itemOf event)).andThen (finishItem index)
  | .completed =>
      (reconcileResponseOutput fromStr (responseOf event)).andThen <|
        (closeOpen fromStr).andThen (endWith (completedEvent (responseOf event)))
  | .incomplete =>
      (reconcileResponseOutput fromStr (responseOf event)).andThen <|
        (closeOpen fromStr).andThen (endWith (.finish (incompleteReason (responseOf event))
          (usageOf (responseOf event))))
  | .failed => endWith (.error (failureMessage event))
  | .other => Emitting.Step.skip

/-- A frame with nothing to decode. -/
def isBlank (frame : Sse.SseFrame) : Bool :=
  Text.trim frame.data = "" || Text.trim frame.data = "[DONE]"

/-- The type in the data goes before the one of the frame. -/
def eventTypeOf (frame : Sse.SseFrame) (event : Json) : EventType :=
  EventType.ofName (((textField event "type").or frame.event).getD "")

def decodeFrame (frame : Sse.SseFrame) (st : ResponsesState) :
    Except String (ResponsesState × List (Option Nat × ModelStreamEvent)) :=
  if isBlank frame then
    .ok (st, [])
  else
    match fromStr frame.data with
    | none => .error "invalid JSON"
    | some event => .ok (decodeEvent fromStr (eventTypeOf frame event) event st)

/-- What never was done is shown but not replayed. -/
def finishStream : Emits := fun st =>
  if st.finished then
    (st, [])
  else
    ((closeOpen fromStr).andThen (endWith (.finish .incomplete none)))
      { st with
        reasoningOpen := st.reasoningOpen.map fun entry =>
          (entry.1, { entry.2 with providerId := none })
        tools := st.tools.map fun entry => (entry.1, { entry.2 with itemId := "" }) }

/-- The frames of a stream, in order. -/
def decodeFrames : List Sse.SseFrame → ResponsesState →
    Except String (ResponsesState × List (Option Nat × ModelStreamEvent))
  | [], st => .ok (st, [])
  | frame :: frames, st => do
      let out ← decodeFrame fromStr frame st
      let rest ← decodeFrames frames out.1
      return (rest.1, out.2 ++ rest.2)

/-- All a stream emits. -/
def decodeStream (frames : List Sse.SseFrame) :
    Except String (List (Option Nat × ModelStreamEvent)) := do
  let out ← decodeFrames fromStr frames ResponsesState.new
  return out.2 ++ (finishStream fromStr out.1).2

end Decode

end OpenAiResponses
end Llm
end FutureOs
