import FutureOs.Lib.Text
import FutureOs.Llm.StreamEvent

/-!
# The Chat Completions stream

`openai_chat.rs`: `decode_frame`, `normalize_tool_delta`, `finish` and `finish_stream`.  A
frame changes the state of its stream and emits events; a frame that is no JSON is an error.
-/

namespace FutureOs
namespace Llm
namespace OpenAiChat

structure ChatToolState where
  id : String
  name : String
  arguments : String
  started : Bool
deriving DecidableEq

def ChatToolState.new : ChatToolState where
  id := ""
  name := ""
  arguments := ""
  started := false

structure ChatStreamState where
  textOpen : Bool
  reasoningOpen : Bool
  /-- In the order of the indices. -/
  tools : List (Nat × ChatToolState)
  finished : Bool
  streamComplete : Bool
deriving DecidableEq

def ChatStreamState.new : ChatStreamState where
  textOpen := false
  reasoningOpen := false
  tools := []
  finished := false
  streamComplete := false

/-- A step of the decoder: the state after it, and what it emits. -/
abbrev Emits := ChatStreamState → ChatStreamState × List ModelStreamEvent

def Emits.andThen (first second : Emits) : Emits := fun st =>
  let out := first st
  let out' := second out.1
  (out'.1, out.2 ++ out'.2)

/-- `normalize_tool_delta`: what to append, and whether it replaces the arguments. -/
def normalizeToolDelta (current incoming : String) : String × Bool :=
  if Text.startsWith "\x7b" incoming then
    if current = "" ∨ current = "{}" then
      (incoming, true)
    else
      match Text.stripPrefix current incoming with
      | some suffix => (suffix, false)
      | none => (incoming, false)
  else
    (incoming, false)

def mapFinishReason (reason : String) : FinishReason :=
  if reason = "stop" then .stop
  else if reason = "tool_calls" ∨ reason = "function_call" then .toolCalls
  else if reason = "length" ∨ reason = "max_tokens" then .length
  else if reason = "content_filter" then .contentFilter
  else if reason = "refusal" then .refusal
  else .unknown reason

section Finish

variable (fromStr : String → Option Json)

/-- The end of a tool call that was started. -/
def toolEnd (entry : Nat × ChatToolState) : Option ModelStreamEvent :=
  if entry.2.started then
    some (.toolInputEnd entry.1 entry.2.id entry.2.name
      (parseJsonArguments fromStr (.str entry.2.arguments)) (.obj []))
  else
    none

def finish (reason : FinishReason) (usage : Option Json) : Emits := fun st =>
  if st.finished then
    (st, (usage.map .usage).toList)
  else
    ({ st with reasoningOpen := false, textOpen := false, finished := true },
      (if st.reasoningOpen then [.reasoningEnd "reasoning" (.obj [])] else []) ++
        (if st.textOpen then [.textEnd "text"] else []) ++
          st.tools.filterMap (toolEnd fromStr) ++ [.finish reason usage])

def finishStream : Emits := fun st =>
  if st.finished then (st, []) else finish fromStr .incomplete none st

end Finish

section Delta

/-- The reasoning of a delta comes before its text, whatever the order of its fields. -/
def reasoningPart (delta : Json) : Emits := fun st =>
  match nonEmpty (((delta.get? "reasoning_content").or (delta.get? "thinking")).bind
      Json.asStr?) with
  | none => (st, [])
  | some text =>
      ({ st with reasoningOpen := true },
        (if st.reasoningOpen then [] else [.reasoningStart "reasoning"]) ++
          [.reasoningDelta "reasoning" text])

def textPart (delta : Json) : Emits := fun st =>
  let shown := ((delta.get? "content").or (delta.get? "text")).filter fun v =>
    (nonEmpty v.asStr?).isSome
  match nonEmpty ((shown.or (delta.get? "refusal")).bind Json.asStr?) with
  | none => (st, [])
  | some text =>
      ({ st with textOpen := true },
        (if st.textOpen then [] else [.textStart "text"]) ++ [.textDelta "text" text])

/-- The arguments a tool call carries; empty where it carries none. -/
def incomingOf (call : Json) : String :=
  (textField ((call.get? "function").getD .null) "arguments").getD ""

/-- The tool of a call once the call's id and name are in. -/
def ChatToolState.named (tool : ChatToolState) (call : Json) : ChatToolState :=
  let id := (textField call "id").getD ""
  let name := (textField ((call.get? "function").getD .null) "name").getD ""
  { tool with
    id := if id ≠ "" then id else tool.id
    name := if name ≠ "" then name else tool.name }

/-- A fragment of arguments is taken in. -/
def ChatToolState.receive (tool : ChatToolState) (index : Nat) (incoming : String) :
    ChatToolState × List ModelStreamEvent :=
  if incoming = "" then
    (tool, [])
  else
    let norm := normalizeToolDelta tool.arguments incoming
    ({ tool with arguments := if norm.2 then incoming else tool.arguments ++ norm.1 },
      if norm.1 ≠ "" ∨ norm.2 then [.toolInputDelta index tool.id norm.1 norm.2] else [])

def toolCallPart (call : Json) : Emits := fun st =>
  let index := indexField call "index"
  let tool := ((Fields.lookup index st.tools).getD ChatToolState.new).named call
  let starts := !tool.started && tool.id ≠ "" && tool.name ≠ ""
  let started := { tool with started := tool.started || starts }
  let out := started.receive index (incomingOf call)
  ({ st with tools := Fields.insert index out.1 st.tools },
    (if starts then [.toolInputStart index tool.id tool.name none (.obj [])] else []) ++
      out.2)

/-- The tool calls of a delta. -/
def toolCalls (delta : Json) : List Json :=
  ((delta.get? "tool_calls").bind Json.asArray?).getD []

/-- One step after the other. -/
def inOrder (steps : List Emits) : Emits :=
  steps.foldr Emits.andThen fun st => (st, [])

end Delta

section Decode

variable (fromStr : String → Option Json)

/-- The first choice of a chunk. -/
def choiceOf (chunk : Json) : Option Json :=
  ((chunk.get? "choices").bind Json.asArray?).bind List.head?

def deltaOf (chunk : Json) : Json :=
  ((choiceOf chunk).bind (·.get? "delta")).getD .null

/-- What follows the delta of a chunk: the end of the response, or its usage. -/
def closingPart (chunk : Json) : Emits := fun st =>
  let usage := (chunk.get? "usage").filter (· ≠ .null)
  match nonEmpty ((choiceOf chunk).bind (textField · "finish_reason")) with
  | some reason => finish fromStr (mapFinishReason reason) usage st
  | none => (st, (usage.map .usage).toList)

def decodeChunk (chunk : Json) : Emits :=
  let delta := deltaOf chunk
  (reasoningPart delta).andThen <| (textPart delta).andThen <|
    (inOrder ((toolCalls delta).map toolCallPart)).andThen (closingPart fromStr chunk)

def decodeFrame (data : String) (st : ChatStreamState) :
    Except String (ChatStreamState × List ModelStreamEvent) :=
  if Text.trim data = "[DONE]" then
    .ok (finish fromStr .incomplete none { st with streamComplete := true })
  else if Text.trim data = "" then
    .ok (st, [])
  else
    match fromStr data with
    | none => .error "invalid JSON"
    | some chunk =>
        match chunk.get? "error" with
        | some error =>
            .ok ({ st with finished := true, streamComplete := true },
              [.error ((textField error "message").getD "OpenAI-compatible stream error")])
        | none => .ok (decodeChunk fromStr chunk st)

/-- The frames of a stream, in order: the events of each. -/
def decodeFrames : List String → ChatStreamState →
    Except String (ChatStreamState × List (List ModelStreamEvent))
  | [], st => .ok (st, [])
  | data :: frames, st => do
      let out ← decodeFrame fromStr data st
      let rest ← decodeFrames frames out.1
      return (rest.1, out.2 :: rest.2)

end Decode

end OpenAiChat
end Llm
end FutureOs
