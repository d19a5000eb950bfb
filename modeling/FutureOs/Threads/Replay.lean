import FutureOs.Lib.JsValue
import FutureOs.Remote.SecureChannel
import Mathlib.Data.List.Infix

/-!
# Reading a run's log back

`readRunReplay` (`replay.ts`) walks the pages of a run that a host serves.  The host is not
trusted: a page is any value.  What the read meets is a list of turns, each with the answer of
`isCurrent` before and after the page and the page itself; a read that wants another page than
there are turns has not ended.

The process-local payload of a decoded event goes along with it and is not read here.
-/

namespace FutureOs
namespace Threads
namespace Replay

/-! ## Events -/

structure ReplayEvent where
  type : String
  data : String
  runId : String
  idx : Option JsNumber
  coalescedCount : Option JsNumber
  eventId : Option String
  timestamp : Option String
deriving DecidableEq

/-- `text(value)`. -/
def text (value : JsValue) : String :=
  value.string?.getD ""

/-- `text(record[key]) || text(record[other])`. -/
def textOr (record : JsValue) (key other : String) : String :=
  if text (record.get key) ≠ "" then text (record.get key) else text (record.get other)

def nonEmpty (s : String) : Option String :=
  if s = "" then none else some s

/-- `normalizeReplayEvent`. -/
def normalizeReplayEvent (raw : JsValue) : Option ReplayEvent :=
  if raw.isObject then
    some
      { type := text (raw.get "type")
        data := text (raw.get "data")
        runId := textOr raw "runId" "run_id"
        idx := (raw.get "idx").number?
        coalescedCount :=
          (raw.get "coalescedCount").number?.or (raw.get "coalesced_count").number?
        eventId := nonEmpty (textOr raw "eventId" "event_id")
        timestamp := nonEmpty (text (raw.get "timestamp")) }
  else
    none

/-- `normalizeReplayEvents`. -/
def normalizeReplayEvents (raw : JsValue) : List ReplayEvent :=
  (raw.array?.getD []).filterMap normalizeReplayEvent

/-- The event belongs to the run, or names none. -/
def ReplayEvent.OfRun (runId : String) (event : ReplayEvent) : Prop :=
  event.runId = "" ∨ event.runId = runId

instance (runId : String) (event : ReplayEvent) : Decidable (event.OfRun runId) :=
  inferInstanceAs (Decidable (_ ∨ _))

/-! ## Coverage -/

/-- A field that is a safe integer and not negative. -/
def safeNat (value : JsValue) : Option Nat :=
  value.safeInteger?.bind fun n => if 0 ≤ n then some n.toNat else none

variable (parse : String → Option JsValue)

/-- `contentRangeStart`; `parse` is `JSON.parse`. -/
def contentRangeStart (data : String) : Option Nat :=
  if data = "" ∨ 64 * 1024 < (Remote.utf16 data.toList).length ∨
      ¬ "\"content_key\"".toList <:+: data.toList then
    none
  else do
    let value ← parse data
    if value.isRecord && (value.get "content_key").string?.isSome then
      let first ← safeNat (value.get "content_first_idx")
      let _ ← safeNat (value.get "content_offset")
      let _ ← safeNat (value.get "content_bytes")
      return first
    else
      none

/-- The index of an event, if it is a safe integer. -/
def ReplayEvent.index? (event : ReplayEvent) : Option Int :=
  event.idx.bind JsNumber.safeInteger?

/-- The loop over a tail that was not trimmed: where it ends, if every event follows on. -/
def coveredTo (cursor : Int) : List ReplayEvent → Option Int
  | [] => some cursor
  | event :: rest =>
      match event.index? with
      | none => none
      | some idx =>
          if idx ≤ cursor then
            none
          else
            let start := contentRangeStart parse event.data
            let first := (start.map Int.ofNat).getD idx
            if cursor + 1 < first ∨ first < 0 ∨ idx < first then
              none
            -- Legacy coalescing has no byte offsets, so it cannot authorize overlap.
            else if first < cursor + 1 ∧ start = none then
              none
            else
              coveredTo idx rest

/-- The loop over a trimmed tail: strict order up to the watermark. -/
def ordered (watermark : Option Int) (previous : Int) : List ReplayEvent → Bool
  | [] => true
  | event :: rest =>
      match event.index? with
      | none => false
      | some idx => previous < idx && watermark.all (idx ≤ ·) && ordered watermark idx rest

/-- `Number.isSafeInteger(rawEvents) && rawEvents >= 0`; a sum that is too large for a safe
integer is none when it is rounded, either. -/
def isRawCount (rawEvents : Option Int) : Bool :=
  rawEvents.any fun n => 0 ≤ n && n ≤ JsNumber.maxSafe

/-- `tailCoversRange`, for bounds that are safe integers. -/
def tailCoversRange (events : List ReplayEvent) (since : Int) (watermark : Option Int)
    (rawEvents : Option Int) : Bool :=
  if isRawCount rawEvents then
    if watermark.any (· ≠ since + rawEvents.getD 0) then
      false
    else
      ordered watermark since events
  else
    match coveredTo parse since events with
    | none => false
    | some cursor => watermark.all (cursor = ·)

/-! ## The read -/

structure ReplayProjection where
  runId : String
  cursor : JsNumber
  events : List ReplayEvent
deriving DecidableEq

/-- The snapshot a read began with. -/
structure Bootstrap where
  runId : String
  cursor : Int
  events : List ReplayEvent
deriving DecidableEq

structure RunReplay where
  events : List ReplayEvent
  watermark : Option Int
  rawEvents : Option Int
  truncated : Bool
  projection : Option ReplayProjection
  completePrefix : Bool
deriving DecidableEq

/-- `REPLAY_PAGE_EVENTS`. -/
def replayPageEvents : Nat := 1000

structure ReplayCommand where
  sessionId : String
  runId : String
  sinceIdx : JsNumber
  limit : Nat
  offset : JsNumber
  preferSnapshot : Bool
  replayUntilIdx : Option Int
deriving DecidableEq

/-- `isCurrent` before the page, the page, and `isCurrent` behind it. -/
structure Turn where
  isCurrent : Bool
  readPage : ReplayCommand → Except String JsValue
  stillCurrent : Bool

structure ReplayOptions where
  sessionId : String
  runId : String
  sinceIdx : JsNumber

/-- The variables of the loop. -/
structure Reading where
  events : List ReplayEvent
  bootstrap : Option Bootstrap
  legacyProjection : Option ReplayProjection
  truncated : Bool
  offset : JsNumber
  cursor : JsNumber
  watermark : Option Int
  rawEvents : Int
  rawEventsComplete : Bool
deriving DecidableEq

namespace ReplayOptions

def start (options : ReplayOptions) : Reading where
  events := []
  bootstrap := none
  legacyProjection := none
  truncated := false
  offset := .ofInt 0
  cursor := options.sinceIdx
  watermark := none
  rawEvents := 0
  rawEventsComplete := true

def command (options : ReplayOptions) (reading : Reading) : ReplayCommand where
  sessionId := options.sessionId
  runId := options.runId
  sinceIdx := reading.cursor
  limit := replayPageEvents
  offset := reading.offset
  preferSnapshot :=
    options.sinceIdx = .ofInt (-1) && reading.cursor = .ofInt (-1) &&
      reading.offset = .ofInt 0 && reading.watermark.isNone && reading.bootstrap.isNone
  replayUntilIdx := reading.watermark

end ReplayOptions

/-- The run a projection names. -/
def projectionRun (projection : JsValue) : String :=
  match (projection.get "runId").string? with
  | some runId => runId
  | none => text (projection.get "run_id")

/-- The folded events are in order, up to the boundary, and of the run. -/
def foldedValid (runId : String) (boundary : Int) (previous : Int) : List ReplayEvent → Bool
  | [] => true
  | event :: rest =>
      match event.index? with
      | none => false
      | some idx =>
          previous < idx && idx ≤ boundary && event.OfRun runId &&
            foldedValid runId boundary idx rest

/-- The events of a projection. -/
def projectionEvents (projection : JsValue) : List ReplayEvent :=
  if projection.truthy then normalizeReplayEvents (projection.get "events") else []

/-- There is an array with something in it. -/
def hasElements (value : JsValue) : Bool :=
  value.array?.any (· ≠ [])

/-- What a page does to the read. -/
inductive Progress
  | more (reading : Reading)
  | last (reading : Reading)

/-- A page with the snapshot flag. -/
def takeSnapshot (runId : String) (reading : Reading) (page : JsValue) :
    Except String Reading :=
  let raw := page.get "projection"
  let folded := projectionEvents raw
  match (raw.get "cursor").safeInteger? with
  | none => .error "replay_projection_invalid"
  | some boundary =>
      if reading.bootstrap.isSome || reading.cursor ≠ .ofInt (-1) ||
          reading.offset ≠ .ofInt 0 || reading.watermark.isSome || !raw.truthy ||
          boundary < 0 || (page.get "watermark").safeInteger? ≠ some boundary ||
          folded = [] || hasElements (page.get "events") || (page.get "hasMore").truthy ||
          (projectionRun raw ≠ "" && projectionRun raw ≠ runId) ||
          !foldedValid runId boundary (-1) folded then
        .error "replay_projection_invalid"
      else
        .ok
          { reading with
            bootstrap := some ⟨projectionRun raw, boundary, folded⟩
            cursor := .ofInt boundary }

/-- A projection that comes without the snapshot flag. -/
def legacyOf (page : JsValue) : Option ReplayProjection :=
  let raw := page.get "projection"
  if raw.truthy && hasElements (raw.get "events") then
    some
      { runId := projectionRun raw
        cursor := (raw.get "cursor").number?.getD (.ofInt (-1))
        events := normalizeReplayEvents (raw.get "events") }
  else
    none

/-- What a page of events adds. -/
def Reading.addPage (reading : Reading) (page : JsValue) : Reading :=
  let rawEvents := safeNat (page.get "rawEvents")
  { reading with
    legacyProjection :=
      if reading.bootstrap.isNone then (legacyOf page).or reading.legacyProjection
      else reading.legacyProjection
    watermark := (page.get "watermark").safeInteger?.or reading.watermark
    events := reading.events ++ normalizeReplayEvents (page.get "events")
    rawEvents := reading.rawEvents + (rawEvents.map Int.ofNat).getD 0
    rawEventsComplete := reading.rawEventsComplete && rawEvents.isSome
    truncated := reading.truncated || (page.get "truncated").truthy }

/-- Where the read goes on after a page. -/
def advance (reading : Reading) (page : JsValue) : Except String Progress :=
  if !(page.get "hasMore").truthy then
    .ok (.last reading)
  else if (page.get "watermark").safeInteger?.isSome then
    match (page.get "nextSinceIdx").safeInteger? with
    | none => .error "replay_cursor_stalled"
    | some next =>
        if (JsNumber.ofInt next).le reading.cursor then
          .error "replay_cursor_stalled"
        else
          .ok (.more { reading with cursor := .ofInt next, offset := .ofInt 0 })
  else
    match (page.get "nextOffset").number? with
    | none => .ok (.last reading)
    | some nextOffset =>
        if nextOffset.le reading.offset then
          .ok (.last reading)
        else
          .ok (.more { reading with offset := nextOffset })

/-- A page without the snapshot flag. -/
def takeEvents (runId : String) (reading : Reading) (page : JsValue) :
    Except String Progress :=
  if reading.bootstrap.isSome && (page.get "projection").truthy then
    .error "replay_snapshot_tail_replaced"
  else if reading.watermark.isSome &&
      (page.get "watermark").safeInteger? ≠ reading.watermark then
    .error "replay_window_changed"
  else if (normalizeReplayEvents (page.get "events")).any fun event => !event.OfRun runId then
    .error "replay_run_changed"
  else
    advance (reading.addPage page) page

def isSnapshot (page : JsValue) : Bool :=
  (page.get "runSnapshot").truthy

def takePage (runId : String) (reading : Reading) (page : JsValue) : Except String Progress :=
  if isSnapshot page then
    (takeSnapshot runId reading page).map .more
  else
    takeEvents runId reading page

/-- What the read returns. -/
def finish (options : ReplayOptions) (reading : Reading) : Except String RunReplay :=
  let rawEvents := if reading.rawEventsComplete then some reading.rawEvents else none
  match reading.bootstrap with
  | some bootstrap =>
      match reading.watermark with
      | none => .error "replay_prefix_invalid"
      | some boundary =>
          if reading.truncated ||
              !tailCoversRange parse reading.events bootstrap.cursor (some boundary)
                rawEvents then
            .error "replay_prefix_invalid"
          else
            .ok
              { events := []
                watermark := some boundary
                rawEvents := none
                truncated := reading.truncated
                projection := some
                  { runId := bootstrap.runId
                    cursor := .ofInt boundary
                    events := bootstrap.events ++ reading.events }
                completePrefix := true }
  | none =>
      let contiguous := reading.events.map ReplayEvent.idx =
        (List.range reading.events.length).map fun index : Nat => some (JsNumber.ofInt index)
      let completePrefix :=
        options.sinceIdx = .ofInt (-1) && !reading.truncated && contiguous &&
          reading.watermark.all (· = (reading.events.length : Int) - 1)
      .ok
        { events := reading.events
          watermark := reading.watermark
          rawEvents := rawEvents.filter (0 < ·)
          truncated := reading.truncated
          projection := reading.legacyProjection
          completePrefix := reading.legacyProjection.isSome || completePrefix }

/-- The page of a turn, if the read takes one. -/
def pageOf (options : ReplayOptions) (reading : Reading) (turn : Turn) :
    Except String JsValue :=
  if !turn.isCurrent then
    .error "stale_sync_lane"
  else
    match turn.readPage (options.command reading) with
    | .error e => .error e
    | .ok page =>
        if !turn.stillCurrent then .error "stale_sync_lane"
        else if !page.truthy then .error "replay_page_missing"
        else .ok page

/-- The loop: nothing while the read waits for a page. -/
def readFrom (options : ReplayOptions) : Reading → List Turn → Option (Except String RunReplay)
  | _, [] => none
  | reading, turn :: rest =>
      match pageOf options reading turn with
      | .error e => some (.error e)
      | .ok page =>
          match takePage options.runId reading page with
          | .error e => some (.error e)
          | .ok (.last reading') => some (finish parse options reading')
          | .ok (.more reading') => readFrom options reading' rest

/-- `readRunReplay`. -/
def readRunReplay (options : ReplayOptions) (turns : List Turn) :
    Option (Except String RunReplay) :=
  readFrom parse options options.start turns

end Replay
end Threads
end FutureOs
