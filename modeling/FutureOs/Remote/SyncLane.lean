import FutureOs.Lib.Machine
import FutureOs.Remote.RunCursor

/-!
# The lanes of a session

`SyncEngine` (`packages/remote-client/src/syncEngine.ts`) keeps one lane for each session: the
timeline with its cursor, and the operations that wait to be applied to it.  A lane takes one
step at a time.  A step reconciles, where that was asked for, and then drains the queue; it
waits while it reconciles and while the body of an event is read, and what happens then is
another step of the session.

Timelines are any type with a reducer (`projection.ts`), which may throw; a batch of events is
folded event by event.  What a reconcile stores is read from the host, and is any timeline and
any cursor.  A step may begin whenever the lane is at rest: that `loop` was called before is
not asked.  Time is in milliseconds.

`clear` and `pruneCache` are left out.
-/

namespace FutureOs
namespace Remote

/-! ## Events and operations -/

/-- An event of the live feed, as far as the lane looks at it. -/
structure LiveEvent where
  kind : String
  runId : Option String
  idx : Option Int
  coalescedCount : Option Int
  /-- The JSON of `data`, where the text is JSON. -/
  data : Option Data
  /-- The length of the text. -/
  units : Nat
  /-- The text has `"content_refs"` in it, spelt out. -/
  mentionsRefs : Bool
  /-- `hasEventPayload`. -/
  hasPayload : Bool
  /-- The length of the event's own text. -/
  size : Nat
  size_pos : 0 < size

/-- `needsContentHydration`. -/
def needsContentHydration (kind : String) (data : Option Data) : Bool :=
  ["user_message", "approval_request", "error", "agent_end", "compaction_committed",
    "compaction_failed"].contains kind &&
    match data.bind fun data => data.value.get? "content_refs" with
    | some (.obj _) => true
    | some (.arr _) => true
    | _ => false

namespace LiveEvent

def requiredContent (e : LiveEvent) : Bool :=
  !e.hasPayload && e.units ≤ 32 * 1024 && e.mentionsRefs && needsContentHydration e.kind e.data

/-- The drain waits for the body of the event. -/
def waits (e : LiveEvent) : Bool :=
  e.requiredContent || (!e.hasPayload && 32 * 1024 < e.units)

/-- What the event counts for in `bufferedBytes`. -/
def bytes (e : LiveEvent) : Nat :=
  e.size * 2

/-- `isRunStampedCompaction`. -/
def isRunStampedCompaction (e : LiveEvent) : Bool :=
  "compaction_".isPrefixOf e.kind && e.runId.isSome

/-- The run of the event, where it has one. -/
def run (e : LiveEvent) : Option String :=
  e.runId.filter (· ≠ "")

end LiveEvent

/-- What a mutation does with a timeline. -/
inductive Mutated (T : Type)
  /-- The timeline it was given. -/
  | same
  | next (timeline : T)
  | threw

/-- A queued operation; mutations are numbered by their calls. -/
inductive QueuedOp (T : Type)
  | event (e : LiveEvent) (bytes : Nat)
  | mutate (id : Nat) (apply : T → Mutated T)

def QueuedOp.isEvent {T : Type} : QueuedOp T → Bool
  | .event .. => true
  | .mutate .. => false

inductive ReconcileReason
  | gap
  | prefix_
  | truncated
  | snapshotFlip
  | open_
  | reconnect
  | resend
deriving DecidableEq

def requiresFreshPrefix : ReconcileReason → Bool
  | .prefix_ => true
  | .resend => true
  | .truncated => true
  | _ => false

structure ReconcileRequest where
  reason : ReconcileReason
  runId : Option String
deriving DecidableEq

/-! ## The lane -/

/-- A timeline's mutations in the order they were applied; whether each changed anything. -/
abbrev MutationLog : Type := List (Nat × Bool)

/-- The local state of `applyOps`. -/
structure Drain (T : Type) where
  index : Nat
  timeline : T
  changed : Bool
  flipRunId : Option String
  beforeStreaming : Bool
  justReconciledRun : Option String
  /-- The step has reconciled. -/
  request : Bool
  applied : MutationLog
  /-- The mutations run since the timeline was last stored. -/
  unsaved : List (QueuedOp T)

/-- What the lane waits for. -/
inductive LanePhase (T : Type)
  | idle
  | reconciling (version : Nat)
  | hydrating (e : LiveEvent) (bytes : Nat) (rest : List (QueuedOp T)) (drain : Drain T)

structure SyncLane (T : Type) where
  cursor : RunCursor
  timeline : Option T
  ops : List (QueuedOp T)
  bufferedBytes : Int
  replayQueue : List ReconcileRequest
  reconciling : Option ReconcileRequest
  established : Bool
  baselineVersion : Nat
  retryAttempt : Nat
  retryNotBefore : Nat
  phase : LanePhase T
  /-- The mutations that made the timeline. -/
  applied : MutationLog

/-- `MAX_REPLAY_QUEUE`. -/
def maxReplayQueue : Nat := 6

/-- `LIVE_OP_BATCH_SIZE`. -/
def liveOpBatchSize : Nat := 64

/-- `RECONCILE_RETRY_MAX_MS` bounds the backoff. -/
def retryDelay (attempt : Nat) : Nat :=
  min 30000 (500 * 2 ^ min (attempt - 1) 6)

/-- The reducer of the timelines. -/
structure Reducer (T : Type) where
  emptyTimeline : T
  /-- Nothing where it throws. -/
  append : T → LiveEvent → Option T
  streaming : T → Bool

/-- What a drain reads while it runs. -/
structure Reading where
  now : Nat
  /-- The position in the batch at which its time is up. -/
  late : Nat
  feedOmitsIndices : Bool

namespace SyncLane

variable {T : Type}

/-- A lane of `laneFor`. -/
def new : SyncLane T where
  cursor := []
  timeline := none
  ops := []
  bufferedBytes := 0
  replayQueue := []
  reconciling := none
  established := false
  baselineVersion := 0
  retryAttempt := 0
  retryNotBefore := 0
  phase := .idle
  applied := []

def invalidateBaseline (lane : SyncLane T) : SyncLane T :=
  { lane with
    established := false
    baselineVersion := lane.baselineVersion + 1 }

def enqueueReplay (lane : SyncLane T) (request : ReconcileRequest) : SyncLane T :=
  let lane := if requiresFreshPrefix request.reason then lane.invalidateBaseline else lane
  if lane.reconciling = some request || lane.replayQueue.contains request then
    lane
  else if maxReplayQueue ≤ lane.replayQueue.length then
    lane
  else
    { lane with replayQueue := lane.replayQueue ++ [request] }

/-- The prefix of the run is complete; no run needs none. -/
def isPrefixComplete (lane : SyncLane T) : Option String → Bool
  | none => true
  | some runId => runId = "" || (lane.cursor.get runId).any (·.prefixComplete)

/-- A failure backs off. -/
def backOff (lane : SyncLane T) (now : Nat) : SyncLane T :=
  { lane with
    retryAttempt := lane.retryAttempt + 1
    retryNotBefore := now + retryDelay (lane.retryAttempt + 1) }

end SyncLane

/-! ## Draining the queue -/

section Drain

variable {T : Type}

/-- `append` of the drain. -/
def Drain.append (reducer : Reducer T) (drain : Drain T) (e : LiveEvent) : Option (Drain T) :=
  (reducer.append drain.timeline e).map fun timeline =>
    { drain with
      timeline := timeline
      changed := true
      flipRunId := if e.kind = "agent_end" then e.runId.or drain.flipRunId else drain.flipRunId }

/-- How the drain goes on after an event. -/
inductive EventEnd (T : Type)
  | goOn (drain : Drain T) (lane : SyncLane T)
  /-- The event is kept in the queue with all that follows. -/
  | stop (lane : SyncLane T)
  | threw (lane : SyncLane T)

/-- The event is applied. -/
def applied (reducer : Reducer T) (drain : Drain T) (e : LiveEvent) (lane : SyncLane T) :
    EventEnd T :=
  match drain.append reducer e with
  | some drain => .goOn drain lane
  | none => .threw lane

/-- An event of the queue, with its body read: `op` is the operation as it was queued. -/
def takeEvent
    (reducer : Reducer T)
    (reading : Reading)
    (op : QueuedOp T)
    (rest : List (QueuedOp T))
    (e : LiveEvent)
    (bytes : Nat)
    (drain : Drain T)
    (lane : SyncLane T) :
    EventEnd T :=
  let spent : SyncLane T := { lane with bufferedBytes := lane.bufferedBytes - bytes }
  if e.isRunStampedCompaction then
    applied reducer drain e spent
  else
    let wasFirst := e.runId.any fun runId => (lane.cursor.get runId).isNone
    match nextEvent lane.cursor e.runId e.idx e.coalescedCount reading.feedOmitsIndices e.data with
    | (.overlap _, cursor) =>
        let spent := { spent with cursor := cursor }
        .goOn drain
          (match e.run with
          | some runId => spent.enqueueReplay ⟨.gap, some runId⟩
          | none => spent)
    | (.gap _, cursor) =>
        let kept := { lane with cursor := cursor, ops := op :: rest ++ lane.ops }
        .stop
          (match e.run with
          | some runId =>
              let kept :=
                if drain.justReconciledRun = some runId then kept.backOff reading.now else kept
              kept.enqueueReplay ⟨.gap, some runId⟩
          | none => kept)
    | (.dup, cursor) => .goOn drain { spent with cursor := cursor }
    | (.apply idx, cursor) =>
        let cursor := cursor.advance (e.runId.getD "") idx false
        match applied reducer drain e { spent with cursor := cursor } with
        | .goOn drain lane =>
            .goOn drain
              (if wasFirst && !lane.isPrefixComplete e.runId then
                lane.enqueueReplay ⟨.prefix_, some (e.runId.getD "")⟩
              else
                lane)
        | other => other
    | (.untracked, cursor) => applied reducer drain e { spent with cursor := cursor }

/-- How a drain comes to rest. -/
inductive DrainEnd (T : Type)
  | finished (drain : Drain T) (lane : SyncLane T)
  | suspended
      (e : LiveEvent)
      (bytes : Nat)
      (rest : List (QueuedOp T))
      (drain : Drain T)
      (lane : SyncLane T)
  /-- The rest of the batch is lost with what was not stored. -/
  | threw (lane : SyncLane T) (lost : List (QueuedOp T))

/-- The batch is over: its size or its time is used up. -/
def Drain.isOver (drain : Drain T) (reading : Reading) : Bool :=
  liveOpBatchSize ≤ drain.index || (0 < drain.index && reading.late ≤ drain.index)

def Drain.next (drain : Drain T) : Drain T :=
  { drain with index := drain.index + 1 }

/-- A mutation has run. -/
def Drain.ran (drain : Drain T) (op : QueuedOp T) (id : Nat) (changed : Bool) : Drain T :=
  { drain with
    applied := drain.applied ++ [(id, changed)]
    unsaved := drain.unsaved ++ [op] }

/-- The loop of `applyOps` over the operations taken out of the lane. -/
def drainOps (reducer : Reducer T) (reading : Reading) :
    List (QueuedOp T) → Drain T → SyncLane T → DrainEnd T
  | [], drain, lane => .finished drain lane
  | op :: rest, drain, lane =>
      if drain.isOver reading then
        .finished drain { lane with ops := op :: rest ++ lane.ops }
      else
        match op with
        | .mutate id apply =>
            match apply drain.timeline with
            | .same => drainOps reducer reading rest (drain.ran op id false).next lane
            | .next timeline =>
                let drain := { drain with timeline := timeline, changed := true }
                drainOps reducer reading rest (drain.ran op id true).next lane
            | .threw => .threw lane (drain.unsaved ++ op :: rest)
        | .event e bytes =>
            if e.waits then
              .suspended e bytes rest drain lane
            else
              match takeEvent reducer reading op rest e bytes drain lane with
              | .goOn drain lane => drainOps reducer reading rest drain.next lane
              | .stop lane => .finished drain lane
              | .threw lane => .threw lane (drain.unsaved ++ rest)

end Drain

/-! ## Steps of a lane -/

/-- A lane after a step, what it commits, and what a drain that threw has lost. -/
structure LaneMove (T : Type) where
  lane : SyncLane T
  commit : Option (T × MutationLog)
  lost : List (QueuedOp T)

inductive LaneStep (T : Type)
  /-- The next step of the chain. -/
  | begin (reading : Reading)
  /-- The reconcile stores a timeline. -/
  | store (timeline : T)
  | storeCursor (cursor : RunCursor)
  /-- The reconcile ends; where it fails it may invalidate the baseline. -/
  | reconciled (success invalidates : Bool) (reading : Reading)
  /-- The body of an event is there, or could not be read. -/
  | hydrated (e : Option LiveEvent) (reading : Reading)

namespace SyncLane

variable {T : Type}

/-- The lane with the timeline of the drain, and the commit of it. -/
def save (lane : SyncLane T) (drain : Drain T) : SyncLane T :=
  { lane with
    timeline := if drain.changed then some drain.timeline else lane.timeline
    applied := drain.applied }

def Commits (drain : Drain T) : Option (T × MutationLog) :=
  if drain.changed then some (drain.timeline, drain.applied) else none

/-- `runCompleteLocally`. -/
def runCompleteLocally (reducer : Reducer T) (lane : SyncLane T) (runId : String) : Bool :=
  lane.timeline.any (fun timeline => !reducer.streaming timeline) &&
    lane.isPrefixComplete (some runId)

/-- The end of the step. -/
def rest (lane : SyncLane T) (drain : Drain T) : SyncLane T :=
  { lane with
    retryAttempt := if drain.request && lane.retryNotBefore = 0 then 0 else lane.retryAttempt
    phase := .idle }

/--
`applyOps` after its loop.  The lane that is asked whether the run is complete is the
session's current one.
-/
def finish (reducer : Reducer T) (current : Option (SyncLane T)) (drain : Drain T)
    (lane : SyncLane T) : LaneMove T :=
  let saved := lane.save drain
  let flipped :=
    match drain.flipRunId.filter (· ≠ "") with
    | some runId =>
        if drain.beforeStreaming && !reducer.streaming drain.timeline &&
            !(current.getD saved).runCompleteLocally reducer runId then
          saved.enqueueReplay ⟨.snapshotFlip, some runId⟩
        else
          saved
    | none => saved
  { lane := flipped.rest drain
    commit := Commits drain
    lost := [] }

/-- The loop came to rest. -/
def settle (reducer : Reducer T) (current : Option (SyncLane T)) : DrainEnd T → LaneMove T
  | .finished drain lane => lane.finish reducer current drain
  | .suspended e bytes rest drain lane =>
      { lane :=
          { lane.save drain with
            phase := .hydrating e bytes rest { drain with changed := false, unsaved := [] } }
        commit := Commits drain
        lost := [] }
  | .threw lane lost =>
      { lane := { lane with phase := .idle }
        commit := none
        lost := lost }

/-- The queue is taken out of the lane. -/
def takeOps (lane : SyncLane T) : SyncLane T :=
  { lane with ops := [] }

def startDrain (reducer : Reducer T) (lane : SyncLane T) (justReconciledRun : Option String)
    (request : Bool) : Drain T :=
  let timeline := lane.timeline.getD reducer.emptyTimeline
  { index := 0
    timeline := timeline
    changed := false
    flipRunId := none
    beforeStreaming := reducer.streaming timeline
    justReconciledRun := justReconciledRun
    request := request
    applied := lane.applied
    unsaved := [] }

/-- `applyOps`, up to where it first waits. -/
def applyOps (reducer : Reducer T) (current : Option (SyncLane T)) (reading : Reading)
    (lane : SyncLane T) (justReconciledRun : Option String) (request : Bool) : LaneMove T :=
  settle reducer current
    (drainOps reducer reading lane.ops (lane.startDrain reducer justReconciledRun request)
      lane.takeOps)

def quiet (lane : SyncLane T) : LaneMove T where
  lane := lane
  commit := none
  lost := []

/-- The body of an event has been read, or could not be. -/
def resume (reducer : Reducer T) (current : Option (SyncLane T)) (reading : Reading)
    (isVisible : Bool) (read : Option LiveEvent) (e : LiveEvent) (bytes : Nat)
    (rest : List (QueuedOp T)) (drain : Drain T) (lane : SyncLane T) : LaneMove T :=
  if isVisible = false then
    -- the local `isCurrent` fails: the drain returns with what it holds
    quiet (lane.rest drain)
  else
    match read with
    | none =>
        let kept := { lane with ops := QueuedOp.event e bytes :: rest ++ lane.ops }
        (kept.enqueueReplay ⟨.gap, e.runId⟩).finish reducer current drain
    | some e' =>
        match takeEvent reducer reading (.event e bytes) rest e' bytes drain lane with
        | .goOn drain lane => settle reducer current (drainOps reducer reading rest drain.next lane)
        | .stop lane => lane.finish reducer current drain
        | .threw lane => settle reducer current (.threw lane (drain.unsaved ++ rest))

/-- A step of the lane; `current` is the session's current lane where that is another one. -/
def step (reducer : Reducer T) (current : Option (SyncLane T)) (isVisible isCurrent : Bool)
    (lane : SyncLane T) : LaneStep T → LaneMove T
  | .begin reading =>
      match lane.phase with
      | .idle =>
          if isCurrent = false || reading.now < lane.retryNotBefore then
            quiet lane
          else
            match lane.replayQueue with
            | request :: queue =>
                quiet
                  { lane with
                    replayQueue := queue
                    reconciling := some request
                    phase := .reconciling lane.baselineVersion }
            | [] => lane.applyOps reducer current reading none false
      | _ => quiet lane
  | .store timeline =>
      match lane.phase with
      | .reconciling version =>
          if isCurrent && lane.baselineVersion = version then
            { lane := { lane with timeline := some timeline }
              commit := some (timeline, lane.applied)
              lost := [] }
          else
            quiet lane
      | _ => quiet lane
  | .storeCursor cursor =>
      match lane.phase with
      | .reconciling version =>
          if isCurrent && lane.baselineVersion = version then
            quiet { lane with cursor := cursor }
          else
            quiet lane
      | _ => quiet lane
  | .reconciled success invalidates reading =>
      match lane.phase, lane.reconciling with
      | .reconciling version, some request =>
          let ended := { lane with reconciling := none, phase := .idle }
          if success && isCurrent && lane.baselineVersion = version then
            applyOps reducer current reading
              { ended with established := true, retryNotBefore := 0 } request.runId true
          else
            let ended := if invalidates then ended.invalidateBaseline else ended
            if isCurrent then
              quiet
                ({ ended with replayQueue := request :: ended.replayQueue }.backOff reading.now)
            else
              quiet ended
      | _, _ => quiet lane
  | .hydrated read reading =>
      match lane.phase with
      | .hydrating e bytes rest drain =>
          lane.resume reducer current reading isVisible read e bytes rest drain
      | _ => quiet lane

end SyncLane

/-! ## The session -/

structure SyncSession (T : Type) where
  sessionId : String
  /-- What `isSessionVisible` says. -/
  visible : Bool
  current : Option (SyncLane T)
  /-- The lanes that were replaced; they may still be waiting. -/
  retired : List (SyncLane T)
  /-- How many calls of `mutate` there were. -/
  mutations : Nat
  /-- The last commit. -/
  published : Option (T × MutationLog)

inductive SyncStep (T : Type)
  | event (e : LiveEvent)
  | reconcile (reason : ReconcileReason) (runId : Option String)
  | mutate (apply : T → Mutated T)
  | restart (reason : ReconcileReason)
  /-- The session comes on the screen, or goes off it. -/
  | visibility (visible : Bool)
  /-- The current lane takes a step. -/
  | lane (step : LaneStep T)
  /-- A replaced lane does. -/
  | retired (index : Nat) (step : LaneStep T)

/-- The most events the queue holds, and their bytes. -/
def maxOps : Nat := 4096

def maxBufferedBytes : Nat := 8 * 1024 * 1024

namespace SyncLane

variable {T : Type}

/-- The event does not fit. -/
def overflows (lane : SyncLane T) (e : LiveEvent) : Bool :=
  maxOps ≤ lane.ops.length || (maxBufferedBytes : Int) < lane.bufferedBytes + e.bytes

/-- The queued events are dropped for a replay. -/
def dropEvents (lane : SyncLane T) : SyncLane T :=
  { lane with
    ops := lane.ops.filter fun op => !op.isEvent
    bufferedBytes := 0 }

def push (lane : SyncLane T) (e : LiveEvent) : SyncLane T :=
  { lane with
    ops := lane.ops ++ [.event e e.bytes]
    bufferedBytes := lane.bufferedBytes + e.bytes }

/-- `event`, on the lane of the session. -/
def event (lane : SyncLane T) (sessionId : String) (e : LiveEvent) : SyncLane T :=
  let lane :=
    if !lane.established && sessionId ≠ "" then lane.enqueueReplay ⟨.open_, none⟩ else lane
  if lane.overflows e then
    let lane := lane.dropEvents.enqueueReplay ⟨.prefix_, none⟩
    if maxBufferedBytes < e.bytes then lane else lane.push e
  else
    lane.push e

/-- `carryMutations`. -/
def carryMutations (previous : Option (SyncLane T)) : List (QueuedOp T) :=
  match previous with
  | some lane => lane.ops.filter fun op => !op.isEvent
  | none => []

/-- The lane `restart` makes in place of another. -/
def successor (previous : Option (SyncLane T)) (reason : ReconcileReason) : SyncLane T :=
  let base := previous.getD new
  enqueueReplay
    { (new : SyncLane T) with
      cursor := base.cursor
      timeline := base.timeline
      ops := carryMutations previous
      established := base.established
      baselineVersion := base.baselineVersion
      applied := base.applied }
    ⟨reason, none⟩

end SyncLane

namespace SyncSession

variable {T : Type}

def start (sessionId : String) : SyncSession T where
  sessionId := sessionId
  visible := true
  current := none
  retired := []
  mutations := 0
  published := none

def isVisible (s : SyncSession T) : Bool :=
  s.sessionId = "" || s.visible

/-- `laneFor`. -/
def laneFor (s : SyncSession T) : SyncLane T :=
  s.current.getD SyncLane.new

def step (reducer : Reducer T) (s : SyncSession T) : SyncStep T → SyncSession T
  | .event e =>
      if s.isVisible then { s with current := some (s.laneFor.event s.sessionId e) } else s
  | .reconcile reason runId =>
      if s.isVisible then
        { s with current := some (s.laneFor.enqueueReplay ⟨reason, runId⟩) }
      else if requiresFreshPrefix reason then
        { s with current := s.current.map SyncLane.invalidateBaseline }
      else
        s
  | .mutate apply =>
      let lane := s.laneFor
      { s with
        current := some { lane with ops := lane.ops ++ [.mutate s.mutations apply] }
        mutations := s.mutations + 1 }
  | .restart reason =>
      if s.sessionId = "" || !s.isVisible then
        s
      else
        { s with
          current := some (SyncLane.successor s.current reason)
          retired := s.retired ++ s.current.toList }
  | .visibility visible => { s with visible := visible }
  | .lane laneStep =>
      match s.current with
      | none => s
      | some lane =>
          let move := lane.step reducer none s.isVisible s.isVisible laneStep
          { s with
            current := some move.lane
            published := if s.isVisible then move.commit.or s.published else s.published }
  | .retired index laneStep =>
      match s.retired[index]? with
      | none => s
      | some lane =>
          let move := lane.step reducer s.current s.isVisible false laneStep
          { s with retired := s.retired.set index move.lane }

end SyncSession

end Remote
end FutureOs
