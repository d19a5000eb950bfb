import FutureOs.Lib.JsonMap

/-!
# The live projection and the historical fold

`rpc/broadcaster/projection.rs` and `rpc/run_snapshot.rs`.  Both join the fragments of a
run's delta streams into segments: the projection while the run is live, event by event,
under a budget and with small segments; the folder over the events of the journal.  A fold
without canonical content also drops the fragments of tool arguments that a `tool_start`
repeats.

Reading and writing JSON text is `fromStr` and `toStr`.
-/

namespace FutureOs
namespace Broadcast

structure SseEvent where
  eventType : String
  data : String
  runId : String
  epoch : Int
  idx : Int
  sessionId : String
  eventId : String
  timestamp : String
  sessionIdx : Int
  runSequence : Int
deriving DecidableEq

/-- Event types whose text accumulates. -/
def deltaTypes : List String :=
  ["text_chunk", "thinking_delta", "tool_delta", "toolcall_delta"]

/-- The fields an event takes from the last fragment it stands for. -/
def SseEvent.upTo (prior event : SseEvent) : SseEvent :=
  { prior with
    idx := event.idx
    eventId := event.eventId
    timestamp := event.timestamp
    runSequence := event.runSequence
    sessionIdx := event.sessionIdx }

/-! ## Fragments -/

/-- The text of a fragment. -/
def textOf (data : Json) : Option String :=
  (data.get? "text").bind Json.asStr?

def textLen (data : Json) : Nat :=
  ((textOf data).map String.utf8ByteSize).getD 0

def isCanonical (data : Json) : Bool :=
  (data.get? "content_key").isSome

/-- Field `key` as a `u64`. -/
def natField (data : Json) (key : String) : Option Nat :=
  (data.get? key).bind Json.asU64?

/-- `u64::checked_add`. -/
def checkedAdd64 (a b : Nat) : Option Nat :=
  if a + b < 2 ^ 64 then some (a + b) else none

/-- Where the content of a canonical fragment ends. -/
def contentEnd (data : Json) : Option Nat :=
  (natField data "content_offset").bind fun offset =>
    (natField data "content_bytes").bind fun bytes => checkedAdd64 offset bytes

/-- The fields that may differ between fragments of one stream. -/
def varying (canonical : Bool) (key : String) : Bool :=
  key = "text" ||
    (canonical && key ∈ ["content_offset", "content_bytes", "content_first_idx"])

/-- The fields that may not, up to the equality of values. -/
def stableFields (canonical : Bool) (data : Json) : Option (List (String × Json)) :=
  data.asObject?.map fun fields =>
    (fields.filter fun field => !varying canonical field.1).map fun field =>
      (field.1, field.2.normal)

/-- `same_delta_stream`. -/
def sameDeltaStream (previous next : SseEvent) (a b : Json) : Bool :=
  let canonical := isCanonical a || isCanonical b
  previous.runId = next.runId &&
    previous.epoch = next.epoch &&
    previous.eventType = next.eventType &&
    (b.get? "snapshot").bind Json.asBool? ≠ some true &&
    (!canonical ||
      ((a.get? "content_key").map Json.normal = (b.get? "content_key").map Json.normal &&
        contentEnd a = natField b "content_offset")) &&
    (stableFields canonical a).isSome &&
    stableFields canonical a = stableFields canonical b

/-- Add a fragment's text to the data of a segment. -/
def appendText (data : Json) (text : String) : Json :=
  let joined := data.put "text" (.str ((textOf data).getD "" ++ text))
  if isCanonical data then
    joined.put "content_bytes" (.num (.posInt (textLen data + text.utf8ByteSize)))
  else
    joined

section Json

variable (fromStr : String → Option Json)
variable (toStr : Json → String)

/-- The data and the text of a delta that carries a text. -/
def fragmentOf (event : SseEvent) : Option (Json × String) :=
  if event.eventType ∈ deltaTypes then
    (fromStr event.data).bind fun data => (textOf data).map fun text => (data, text)
  else
    none

/-! ## The live projection -/

def projectionSegmentBytes : Nat := 16 * 1024

/-- `Projection`: sealed segments, and the one that is still growing. -/
structure Projection where
  closed : List SseEvent := []
  pending : Option (SseEvent × Json) := none
  bytes : Nat := 0
  budget : Option Nat := none
  overBudget : Bool := false

namespace Projection

/-- `flush`: the growing segment is written once. -/
def flush (p : Projection) : Projection :=
  match p.pending with
  | some (event, data) =>
      { p with closed := p.closed ++ [{ event with data := toStr data }], pending := none }
  | none => p

def pushClosed (p : Projection) (event : SseEvent) : Projection :=
  { p.flush toStr with closed := (p.flush toStr).closed ++ [event] }

/-- A fragment opens a segment, unless it is one by its size. -/
def openSegment (p : Projection) (event : SseEvent) (data : Json) (text : String) :
    Projection :=
  if text.utf8ByteSize ≤ projectionSegmentBytes then
    { p.flush toStr with pending := some ({ event with data := "" }, data) }
  else
    p.pushClosed toStr event

/-- A fragment extends the growing segment if it fits. -/
def pushFragment (p : Projection) (event : SseEvent) (data : Json) (text : String) :
    Projection :=
  match p.pending with
  | some (prior, priorData) =>
      if textLen priorData + text.utf8ByteSize ≤ projectionSegmentBytes ∧
          sameDeltaStream prior event priorData data = true then
        { p with pending := some (prior.upTo event, appendText priorData text) }
      else
        p.openSegment toStr event data text
  | none => p.openSegment toStr event data text

/-- `push`. -/
def push (p : Projection) (event : SseEvent) : Projection :=
  if p.overBudget then
    p
  else
    let p := { p with bytes := p.bytes + (event.data.utf8ByteSize + 512) }
    if p.budget.any (· < p.bytes) then
      { p with closed := [], pending := none, overBudget := true }
    else if event.eventType = "text_delta" then
      p
    else
      match fragmentOf fromStr event with
      | some (data, text) => p.pushFragment toStr event data text
      | none => p.pushClosed toStr event

/-- The projection of a run, within a budget if there is one. -/
def ofEvents (budget : Option Nat) (events : List SseEvent) : Projection :=
  events.foldl (push fromStr toStr) { budget := budget }

/-- `view().materialize()`. -/
def materialize (p : Projection) : List SseEvent :=
  (p.flush toStr).closed

end Projection

/-! ## The folder -/

def foldedSegmentBytes : Nat := 64 * 1024

/-- `DeltaFolder`; the flag of the pending segment says whether it is more than one event. -/
structure DeltaFolder where
  output : List SseEvent := []
  pending : Option (SseEvent × Json × Bool) := none
  boundedSegments : Bool := false

namespace DeltaFolder

def flush (d : DeltaFolder) : DeltaFolder :=
  match d.pending with
  | some (event, data, merged) =>
      { d with
        output := d.output ++ [if merged then { event with data := toStr data } else event]
        pending := none }
  | none => d

/-- Whether a segment may grow by a text. -/
def grows (bounded : Bool) (data : Json) (text : String) : Bool :=
  (!bounded && !isCanonical data) || textLen data + text.utf8ByteSize ≤ foldedSegmentBytes

/-- `push`. -/
def push (d : DeltaFolder) (event : SseEvent) : DeltaFolder :=
  if event.eventType = "text_delta" then
    d
  else
    match fragmentOf fromStr event with
    | some (data, text) =>
        match d.pending with
        | some (prior, priorData, _) =>
            if sameDeltaStream prior event priorData data &&
                grows d.boundedSegments priorData text then
              { d with pending := some (prior.upTo event, appendText priorData text, true) }
            else
              { d.flush toStr with pending := some (event, data, false) }
        | none => { d with pending := some (event, data, false) }
    | none => { d.flush toStr with output := (d.flush toStr).output ++ [event] }

def finish (d : DeltaFolder) : List SseEvent :=
  (d.flush toStr).output

end DeltaFolder

/-- `coalesce_deltas`. -/
def coalesceDeltas (events : List SseEvent) : List SseEvent :=
  (events.foldl (DeltaFolder.push fromStr toStr) {}).finish toStr

/-! ## Repeated tool arguments -/

/-- `tool_id_of`. -/
def toolIdOf (data : Json) : Option String :=
  (((data.get? "tool_id").or (data.get? "tool_call_id")).bind Json.asStr?).filter (· ≠ "")

/-- `carries_arguments`. -/
def carriesArguments (data : Json) : Bool :=
  match data.get? "tool_args" with
  | none => false
  | some .null => false
  | some (.obj arguments) => !arguments.isEmpty
  | some (.arr arguments) => !arguments.isEmpty
  | some (.str arguments) => arguments ≠ ""
  | some _ => true

def toolDeltaTypes : List String :=
  ["tool_delta", "toolcall_delta"]

/-- The tool and the arguments of a start that carries them. -/
def startArguments (event : SseEvent) : Option (String × Json) :=
  if event.eventType = "tool_start" then
    (fromStr event.data).bind fun data =>
      (toolIdOf data).bind fun tool =>
        if carriesArguments data then some (tool, data.index "tool_args") else none
  else
    none

/-- One round of `streamed_arguments`: a snapshot replaces, any other fragment appends. -/
def streamData (tool : String) (streamed : String) (data : Json) : String :=
  if toolIdOf data = some tool then
    (if (data.get? "snapshot").bind Json.asBool? = some true then "" else streamed) ++
      (textOf data).getD ""
  else
    streamed

def streamEvent (tool : String) (streamed : String) (event : SseEvent) : String :=
  if event.eventType ∈ toolDeltaTypes then
    match fromStr event.data with
    | some data => streamData tool streamed data
    | none => streamed
  else
    streamed

/-- `streamed_arguments`. -/
def streamedArguments (events : List SseEvent) (tool : String) : String :=
  events.foldl (streamEvent fromStr tool) ""

/-- The tools whose fragments spell out the arguments of a start. -/
def repeatedTools (events : List SseEvent) : List String :=
  ((events.filterMap (startArguments fromStr)).filter fun start =>
    (fromStr (streamedArguments fromStr events start.1)).any fun value =>
      value.same start.2).map Prod.fst

/-- The fields a fragment may have that says nothing else. -/
def plainFields : List String :=
  ["type", "text", "tool_id", "tool_call_id", "tc_index", "snapshot"]

def isPlain (data : Json) : Bool :=
  data.asObject?.any fun fields => fields.all fun field => field.1 ∈ plainFields

/-- A plain fragment of one of the tools. -/
def repeats (repeated : List String) (data : Json) : Bool :=
  isPlain data && (toolIdOf data).any fun tool => tool ∈ repeated

def isRepeated (repeated : List String) (event : SseEvent) : Bool :=
  event.eventType ∈ toolDeltaTypes && (fromStr event.data).any (repeats repeated)

/-- `strip_repeated_tool_arguments`. -/
def stripRepeatedToolArguments (events : List SseEvent) : List SseEvent :=
  if (events.filterMap (startArguments fromStr)).isEmpty then
    events
  else
    let repeated := repeatedTools fromStr events
    if repeated.isEmpty then
      events
    else
      events.filter fun event => !isRepeated fromStr repeated event

/-- Some event carries canonical content. -/
def hasCanonical (events : List SseEvent) : Bool :=
  events.any fun event => (fromStr event.data).any isCanonical

/-- `fold_events`. -/
def foldEvents (events : List SseEvent) : List SseEvent :=
  if hasCanonical fromStr events then
    coalesceDeltas fromStr toStr events
  else
    stripRepeatedToolArguments fromStr (coalesceDeltas fromStr toStr events)

end Json

end Broadcast
end FutureOs
