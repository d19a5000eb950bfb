import FutureOs.Broadcast.Projection
import FutureOs.Content.Cursors
import FutureOs.Tools.ArgumentRepair

/-!
# Replay of a stored stream

`read_encoded_changes` of `session/content/stream.rs`, and `segmented_replay` with
`materialize_page` of `session/content/journal.rs`: the changes of a run's streams after a
cursor, in pages.  A page ends at its limit, at the budget of its metadata or at the
budget of what goes over the wire.

A replay sees one state of the tables; the identity of the storage is checked before each
page and does not change here.
-/

namespace FutureOs
namespace Content

open Broadcast (SseEvent)

def replayPageBytes : Nat := 8 * 1024 * 1024
def eventWireOverhead : Nat := 320
def inlineEventBytes : Nat := 64 * 1024
def inlineFieldBytes : Nat := 16 * 1024

/-- `content_range::StorageIdentity`. -/
structure StorageIdentity where
  databaseId : String
  restoreGeneration : String

/-- What the replay takes from libraries: `serde_json` and the summary of a shell result. -/
structure WireCodec where
  fromStr : String → Option Json
  /-- `model_summary` of the shell result that a text holds. -/
  modelSummary : String → Option String

/-! ## A page of changes -/

/-- `… WHERE stream_id=?1 ORDER BY last_cursor`. -/
def streamEntries (db : Database) (streamId : Nat) : List (Nat × ChangeRow) :=
  (db.changes.rows.filter fun entry => entry.2.streamId = streamId).insertionSort
    fun a b => a.2.lastCursor ≤ b.2.lastCursor

/-- `… AND last_cursor>?2`. -/
def changesAfter (db : Database) (streamId : Nat) (since : Int) : List (Nat × ChangeRow) :=
  (streamEntries db streamId).filter fun entry => since < entry.2.lastCursor

/-- The context of a change, of its stream and kind. -/
def contextOf (db : Database) (row : ChangeRow) : Option ContextRow :=
  (db.contexts.lookup row.contextId).filter fun context =>
    context.streamId = row.streamId ∧ eventKindOf context.descriptor = some row.eventKind

/-- The bytes a change counts for: metadata, descriptor and symbols. -/
def encodedSize (db : Database) (row : ChangeRow) : Option Nat :=
  (contextOf db row).map fun context =>
    row.metadata.compactLen + context.descriptor.compactLen + context.symbolBytes

/-- The rows of a page, and whether there are more. -/
def takeRows (db : Database) (limit : Nat) : List (Nat × ChangeRow) → List Nat → Nat →
    Except String (List Nat × Bool)
  | [], ids, _ => pure (ids, false)
  | (id, row) :: rows, ids, bytes => do
      let size ← context (encodedSize db row) "Invalid column type Null at index: 1"
      if ids.length = limit ∨ (ids ≠ [] ∧ changeMetadataBytes < bytes + size) then
        pure (ids, true)
      else
        takeRows db limit rows (ids ++ [id]) (bytes + size)

/-- `EncodedChangePage`. -/
structure EncodedChangePage where
  changes : EncodedPage := {}
  durableCursor : Int := -1
  hasMore : Bool := false

namespace Database

/-- The stream of an identity, unless it is retired. -/
def liveStream (db : Database) (stream : StreamIdentity) : Option (Nat × StreamRow) :=
  (db.streamOf stream).filter fun found => found.1 ∉ db.retired

end Database

/-- `read_encoded_changes`. -/
def readEncodedChanges (pf : Platform) (db : Database) (stream : StreamIdentity)
    (since : Int) (limit : Nat) : Except String EncodedChangePage := do
  ensure (1 ≤ limit ∧ limit ≤ 256) "invalid change page limit"
  match db.liveStream stream with
  | none => pure {}
  | some (id, row) =>
      let (ids, more) ← takeRows db limit ((changesAfter db id since).take (limit + 1)) [] 0
      let changes ← readEncoded pf db ids
      pure { changes := changes, durableCursor := row.durableCursor, hasMore := more }

/-! ## Bodies of a page -/

/-- The bodies of a change that go into its event; the others are referred to. -/
def inlineBodies (eventType : String) : List FieldBody → Nat → List FieldBody
  | [], _ => []
  | body :: bodies, inlineBytes =>
      let size := if 0 ≤ body.range.length then body.range.length.toNat else 2 ^ 64 - 1
      if eventType ∉ deltaKinds ∧
          (inlineFieldBytes < size ∨ inlineEventBytes / 2 < inlineBytes + size * 6) then
        inlineBodies eventType bodies inlineBytes
      else
        body :: inlineBodies eventType bodies (inlineBytes + size * 6)

/-- `InlineBody`: the place of its change in the page, and its cursor. -/
structure InlineBody where
  change : Nat
  cursor : Int
  body : FieldBody

/-- `inline_body_requests`. -/
def inlineBodyRequests (changes : List StoredChange) : List InlineBody :=
  changes.zipIdx.flatMap fun entry =>
    (inlineBodies entry.1.eventType entry.1.bodies 0).map fun body =>
      { change := entry.2, cursor := entry.1.lastCursor, body := body }

/-- `direct_field`: `json_extract(descriptor_json,'$[1]')`. -/
def directField (descriptor : Json) : Option String :=
  match descriptor with
  | .arr (_ :: field :: _) => field.asStr?
  | _ => none

/-- `stream_content_ranges` of a change. -/
def contentRanges (db : Database) (row : ChangeRow) : List (String × ContentRange) :=
  let direct := row.direct.bind fun range =>
    ((db.contexts.lookup row.contextId).filter fun context =>
      context.streamId = row.streamId).bind fun context =>
        (directField context.descriptor).map fun field => (field, range)
  direct.toList ++ row.links.map fun link => (link.1, link.2.range)

/-- The range a field of the change at a cursor refers to. -/
def currentRange (db : Database) (stream : StreamIdentity) (cursor : Int) (field : String) :
    Option ContentRange :=
  (db.liveStream stream).bind fun found =>
    ((db.changeAt found.1 cursor).filter fun entry =>
      entry.2.lastCursor ≤ found.2.durableCursor).bind fun entry =>
        Fields.lookup field (contentRanges db entry.2)

/-- The text of one body. -/
def readInlineBody (codec : Codec) (db : Database) (stream : StreamIdentity) (cursor : Int)
    (body : FieldBody) : Except String String := do
  let range := body.range
  ensure (currentRange db stream cursor body.field = some range)
    "event content reference changed while reading"
  ensure (0 ≤ range.length) "out of range integral type conversion attempted"
  let page ← db.objects.read codec range.id range.offset range.length.toNat
  ensure (page.nextOffset = range.offset + range.length) "inline event content is incomplete"
  pure (String.ofList page.text)

/-- `read_inline_bodies`: the outcome for each place and field. -/
def readInlineBodies (codec : Codec) (db : Database) (stream : StreamIdentity)
    (requests : List InlineBody) :
    Except String (List ((Nat × String) × Except String String)) :=
  if requests.isEmpty then
    pure []
  else do
    ensure (stream.sessionId ∈ db.segmented)
      "conversation does not support canonical content ranges"
    pure (requests.map fun request =>
      ((request.change, request.body.field),
        readInlineBody codec db stream request.cursor request.body))

/-! ## Events -/

/-- `event["data"][key] = value`; data that is no object panics. -/
def setData (event : Json) (key : String) (value : Json) : Except String Json :=
  match event.index "data" with
  | .obj _ | .null => pure (event.set "data" ((event.index "data").set key value))
  | _ => .error "cannot access key in JSON value"

/-- `event["data"]["content_refs"][name] = reference`. -/
def setReference (event : Json) (name : String) (reference : Json) : Except String Json :=
  let refs := (event.index "data").index "content_refs"
  match refs with
  | .obj _ | .null => setData event "content_refs" (refs.set name reference)
  | _ => .error "cannot access key in JSON value"

/-- `pointer_mut`, and the assignment through it. -/
def setTokens : List (List Char) → Json → Json → Option Json
  | [], _, value => some value
  | token :: tokens, .obj fields, value =>
      (Fields.lookup (String.ofList token) fields).bind fun v =>
        (setTokens tokens v value).map fun v =>
          .obj (Fields.insert (String.ofList token) v fields)
  | token :: tokens, .arr values, value =>
      (Json.parseIndex token).bind fun i => values[i]?.bind fun v =>
        (setTokens tokens v value).map fun v => .arr (values.set i v)
  | _, _, _ => none

def setPointer (event : Json) (pointer : String) (value : Json) : Option Json :=
  (Json.pointerTokens pointer.toList).bind fun tokens => setTokens tokens event value

/-- The name of a field of the data, out of its pointer. -/
def bodyName (field : String) : Option String :=
  if "/data/".toList <+: field.toList then
    some (String.ofList (Json.unescapeToken (field.toList.drop 6)))
  else
    none

/-- What the text of a body stands for. -/
def bodyValue (wire : WireCodec) (encoding : Encoding) (text : String) : Except String Json :=
  match encoding with
  | .text => pure (.str text)
  | .json => context (wire.fromStr text) "expected value"
  | .shellSummary => context ((wire.modelSummary text).map Json.str) "invalid shell result"
  | .toolArgumentsStringV1 =>
      pure (Tools.ArgumentRepair.repairStringV1 (fun raw => (wire.fromStr raw).isSome)
        (.str text))

/-- `content_refs` of a body that is not sent along. -/
def referenceOf (stream : StreamIdentity) (identity : StorageIdentity) (cursor : Int)
    (field : String) : Json :=
  .obj (Fields.insertAll [
    ("databaseId", .str identity.databaseId),
    ("restoreGeneration", .str identity.restoreGeneration),
    ("epoch", .ofInt stream.epoch),
    ("cursor", .ofInt cursor),
    ("field", .str field),
    ("offset", .num (.posInt 0)),
    ("maxBytes", .num (.posInt (64 * 1024)))] [])

/-- Put one body into the event, or a reference to it. -/
def placeBody (wire : WireCodec) (stream : StreamIdentity) (identity : StorageIdentity)
    (cursor : Int) (text : String → Option (Except String String)) (event : Json)
    (body : FieldBody) : Except String Json :=
  match text body.field with
  | none => do
      let name ← context (bodyName body.field) "invalid event body field"
      setReference event name (referenceOf stream identity cursor body.field)
  | some read => do
      let value ← read >>= bodyValue wire body.encoding
      context (setPointer event body.field value) "missing semantic content slot"

def placeBodies (wire : WireCodec) (stream : StreamIdentity) (identity : StorageIdentity)
    (cursor : Int) (text : String → Option (Except String String)) :
    List FieldBody → Json → Except String Json
  | [], event => pure event
  | body :: bodies, event => do
      let event ← placeBody wire stream identity cursor text event body
      placeBodies wire stream identity cursor text bodies event

/-- A stream of the session, not of one of its runs. -/
def isScoped (stream : StreamIdentity) : Bool :=
  stream.runId = "" ∧ stream.epoch = -1

/-- The identity of an event that does not have one of its own. -/
def defaultEventId (stream : StreamIdentity) (cursor : Int) : String :=
  if isScoped stream then
    stream.sessionId ++ ":session:" ++ toString cursor
  else
    stream.sessionId ++ ":" ++ stream.runId ++ ":" ++ toString stream.epoch ++ ":" ++
      toString cursor

/-- The fields every event has. -/
def stampEvent (stream : StreamIdentity) (change : StoredChange) (event : Json) : Json :=
  let cursor := change.lastCursor
  let event := event.set "session_id" (.str stream.sessionId)
  let event := event.set "run_id" (.str stream.runId)
  let event := event.set "epoch" (.ofInt (if isScoped stream then 0 else stream.epoch))
  let event := event.set "idx" (.ofInt (if isScoped stream then -1 else cursor))
  let event := event.set "session_idx" (.ofInt (if isScoped stream then cursor else -1))
  let event := event.set "event_type" (.str change.eventType)
  let event :=
    if (event.get? "event_id").isNone then
      event.set "event_id" (.str (defaultEventId stream cursor))
    else
      event
  event.set "data" (.str (String.ofList (event.index "data").compact))

/--
`materialize_with`.  `text` is the outcome of reading a field that is to be sent along, and
nothing for one that is referred to.
-/
def materializeWith (wire : WireCodec) (stream : StreamIdentity) (identity : StorageIdentity)
    (change : StoredChange) (text : String → Option (Except String String)) :
    Except String Json := do
  ensure (change.firstCursor ≤ change.lastCursor) "invalid canonical change range"
  let event ←
    if ((change.metadata.index "data").get? "content_key").isSome then
      setData change.metadata "content_first_idx" (.ofInt change.firstCursor)
    else
      pure change.metadata
  let event ← placeBodies wire stream identity change.lastCursor text change.bodies event
  let event ← setData event "content_format" (.num (.posInt 2))
  pure (stampEvent stream change event)

/-- A field that may be missing. -/
def optionalField {α : Type} (v : Json) (key : String) (read : Json → Option α)
    (missing : α) : Except String α :=
  match v.get? key with
  | none => pure missing
  | some value => context (read value) "invalid type"

def requiredField {α : Type} (v : Json) (key : String) (read : Json → Option α) :
    Except String α := do
  let value ← context (v.get? key) ("missing field " ++ key)
  context (read value) "invalid type"

/-- `serde_json::from_value::<SseEvent>`. -/
def sseEvent (v : Json) : Except String SseEvent := do
  let eventType ← requiredField v "event_type" Json.asStr?
  let data ← requiredField v "data" Json.asStr?
  let runId ← requiredField v "run_id" Json.asStr?
  let epoch ← requiredField v "epoch" Json.asI64?
  let idx ← requiredField v "idx" Json.asI64?
  let sessionId ← optionalField v "session_id" Json.asStr? ""
  let eventId ← optionalField v "event_id" Json.asStr? ""
  let timestamp ← optionalField v "timestamp" Json.asStr? ""
  let sessionIdx ← optionalField v "session_idx" Json.asI64? (-1)
  let runSequence ← optionalField v "run_sequence" Json.asI64? (-1)
  pure {
    eventType := eventType
    data := data
    runId := runId
    epoch := epoch
    idx := idx
    sessionId := sessionId
    eventId := eventId
    timestamp := timestamp
    sessionIdx := sessionIdx
    runSequence := runSequence }

/-- `materialize_page`, with the conversion of every event. -/
def materializePage (codec : Codec) (wire : WireCodec) (db : Database)
    (stream : StreamIdentity) (identity : StorageIdentity) (changes : List StoredChange) :
    Except String (List (Except String SseEvent)) := do
  let bodies ← readInlineBodies codec db stream (inlineBodyRequests changes)
  pure (changes.zipIdx.map fun entry =>
    materializeWith wire stream identity entry.1
      (fun field => bodies.lookup (entry.2, field)) >>= sseEvent)

/-! ## The replay -/

/-- What a replay has so far. -/
structure Progress where
  events : List SseEvent := []
  bytes : Nat := 0
  cursor : Int

/-- The events of a page, up to the budget; and whether that was it. -/
def takeEvents (bounded : Bool) : List (Except String SseEvent × Int) → Progress →
    Except String (Progress × Bool)
  | [], p => pure (p, false)
  | (value, cursor) :: values, p => do
      let event ← value
      let p : Progress := {
        events := p.events ++ [event]
        bytes := p.bytes + (strLen event.data + eventWireOverhead)
        cursor := cursor }
      if replayPageBytes < p.bytes then
        ensure (bounded = true)
          "run replay exceeds memory budget; use paged get_events_since"
        pure (p, true)
      else
        takeEvents bounded values p

section Replay

variable (codec : Codec)
variable (pf : Platform)
variable (wire : WireCodec)
variable (db : Database)
variable (identity : StorageIdentity)

/-- The loop over the pages of one stream; every round but the last takes a change. -/
def replayStream (stream : StreamIdentity) (limit : Option Nat) :
    Nat → Progress → Except String (Progress × Bool)
  | 0, p => pure (p, false)
  | fuel + 1, p =>
      let remaining := limit.map fun n => n - p.events.length
      if remaining = some 0 then
        pure (p, false)
      else do
        let page ← readEncodedChanges pf db stream p.cursor (min (remaining.getD 128) 128)
        let changes ← page.changes.decode
        ensure (∀ change ∈ changes, change.lastCursor ≤ page.durableCursor)
          "change exceeds durable watermark"
        let values ← materializePage codec wire db stream identity changes
        let (p, stop) ← takeEvents limit.isSome (values.zip (changes.map (·.lastCursor))) p
        if stop then
          pure (p, true)
        else if page.hasMore then
          replayStream stream limit fuel p
        else
          pure (p, false)

/-- The loop over the epochs of a run. -/
def replayEpochs (since : Int) (limit : Option Nat) : List StreamIdentity → Progress →
    Except String Progress
  | [], p => pure p
  | stream :: streams, p => do
      let (p, stop) ← replayStream codec pf wire db identity stream limit
        (db.changes.rows.length + 1) { p with cursor := since }
      if stop ∨ limit.any (· ≤ p.events.length) then
        pure p
      else
        replayEpochs since limit streams p

/-- The streams of a run that are not retired, by epoch. -/
def epochsOf (sessionId runId : String) (since : Int) (sessionScope : Bool) :
    List StreamIdentity :=
  ((db.streams.rows.filter fun row =>
      row.2.identity.sessionId = sessionId ∧ row.2.identity.runId = runId ∧
        row.1 ∉ db.retired ∧ (sessionScope = false ∨ row.2.identity.epoch = -1 ∨ since < -1)).map
    fun row => row.2.identity).insertionSort fun a b => a.epoch ≤ b.epoch

/-- `RunReplayPage`, without the snapshot, which a replay does not have. -/
structure RunReplayPage where
  known : Bool
  events : List SseEvent

/-- `segmented_replay`. -/
def segmentedReplay (sessionId runId : String) (since : Int) (sessionScope : Bool)
    (limit : Option Nat) : Except String RunReplayPage := do
  let epochs := epochsOf db sessionId runId since sessionScope
  let p ← replayEpochs codec pf wire db identity since limit epochs { cursor := since }
  pure { known := epochs ≠ [], events := p.events }

end Replay

end Content
end FutureOs
