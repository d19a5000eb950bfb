import FutureOs.Lib.Machine
import FutureOs.Remote.Coalesce

/-!
# The content event lane

`createContentEventLane` (`contentBody.ts`), for a `deliver` that does not throw and an
`isCurrent` that stays true.  A pump is cut into steps, and anything may be enqueued or
disposed between two of them: while it awaits, and inside `deliver` and `recover`.  What it
awaits (parsing, reading) ends at any time with any result.  Enqueue calls are numbered; the
code has no such numbers.
-/

namespace FutureOs
namespace ContentLane

structure LaneEvent where
  type : String
  data : String
  /-- The decoded payload it carries (`hasEventPayload`). -/
  payload : Option Json
deriving DecidableEq

/-- `event.data.length`. -/
def LaneEvent.length (event : LaneEvent) : Nat :=
  Remote.utf16Units event.data.toList

/-- The event can be delivered as it is. -/
def LaneEvent.inline (event : LaneEvent) : Bool :=
  event.payload.isSome ||
    (event.length ≤ 32 * 1024 && !decide ("\"content_refs\"".toList <:+: event.data.toList))

/-- An event of an enqueue call. -/
structure Numbered where
  number : Nat
  event : LaneEvent
deriving DecidableEq

/-- Where a pump stands. -/
inductive Pump
  /-- Before the condition of the loop. -/
  | loop (count : Nat)
  /-- Awaits `parseJsonText`. -/
  | parsing (held : Numbered) (captured count : Nat)
  /-- Awaits `hydrateRequiredContent`. -/
  | reading (held : Numbered) (captured count : Nat)
  /-- Before the event is delivered. -/
  | delivering (held : Numbered) (captured count : Nat)
  /-- Behind it. -/
  | counting (count : Nat)
  /-- Awaits `pause`. -/
  | paused
  /-- Before the `finally` block. -/
  | leaving
deriving DecidableEq

structure Lane where
  queue : List (Numbered × Nat)
  bytes : Nat
  running : Bool
  disposed : Bool
  version : Nat
  pumps : List Pump
  /-- The events of the enqueue calls. -/
  enqueued : List LaneEvent
  /-- The events of the calls of `deliver`. -/
  delivered : List Numbered
  /-- For each call of `recover`, how many events were enqueued by then. -/
  recovered : List Nat
deriving DecidableEq

def Lane.new : Lane where
  queue := []
  bytes := 0
  running := false
  disposed := false
  version := 0
  pumps := []
  enqueued := []
  delivered := []
  recovered := []

def Lane.valid (s : Lane) : Bool :=
  !s.disposed

/-- `fail`: the lane asks for a replay. -/
def Lane.fail (s : Lane) : Lane :=
  { s with
    version := s.version + 1
    queue := []
    bytes := 0
    recovered := if s.valid then s.recovered ++ [s.enqueued.length] else s.recovered }

/-- The start of `pump`. -/
def Lane.startPump (s : Lane) : Lane :=
  if s.running || !s.valid then
    s
  else
    { s with running := true, pumps := s.pumps ++ [.loop 0] }

def Lane.dispose (s : Lane) : Lane :=
  { s with disposed := true, version := s.version + 1, queue := [], bytes := 0 }

/-- One more enqueue call. -/
def Lane.note (s : Lane) (event : LaneEvent) : Lane :=
  { s with enqueued := s.enqueued ++ [event] }

def Lane.enqueue (maxQueuedBytes : Nat) (s : Lane) (event : LaneEvent) : Lane :=
  let next : Numbered := ⟨s.enqueued.length, event⟩
  let noted := s.note event
  if !s.valid then
    noted
  else if !s.running && s.queue.isEmpty && event.inline then
    { noted with delivered := s.delivered ++ [next] }
  else
    let size := event.length * 2 + 512
    if s.queue.length ≥ 4096 ∨ s.bytes + size > maxQueuedBytes then
      noted.fail
    else
      { noted with queue := s.queue ++ [(next, size)], bytes := s.bytes + size }.startPump

/-- `currentRead`. -/
def Lane.isCurrent (s : Lane) (captured : Nat) : Bool :=
  s.valid && captured = s.version

/-- The pump goes on here. -/
def Lane.goTo (s : Lane) (i : Nat) (pump : Pump) : Lane :=
  { s with pumps := s.pumps.set i pump }

/-- The condition of the loop, and the next event. -/
def Lane.takeNext (s : Lane) (i count : Nat) : Lane :=
  match s.queue with
  | [] => s.goTo i .leaving
  | (next, size) :: rest =>
      if !s.valid then
        s.goTo i .leaving
      else
        { s with queue := rest, bytes := s.bytes - size }.goTo i
          (if next.event.inline then
            .delivering next s.version count
          else
            .parsing next s.version count)

/-- What was awaited threw. -/
def Lane.throw (s : Lane) (i : Nat) : Lane :=
  s.fail.goTo i .leaving

/-- `if (currentRead()) options.deliver(event)`. -/
def Lane.deliver (s : Lane) (i : Nat) (held : Numbered) (captured count : Nat) : Lane :=
  if s.isCurrent captured then
    { s with delivered := s.delivered ++ [held] }.goTo i (.counting count)
  else
    s.goTo i (.counting count)

/-- The `finally` block. -/
def Lane.leave (s : Lane) (i : Nat) : Lane :=
  let left := { s with running := false, pumps := s.pumps.eraseIdx i }
  if !left.queue.isEmpty && left.valid then left.startPump else left

/-- One step of a pump, with what it awaited: a value, or nothing where that threw. -/
def Lane.resume (s : Lane) (i : Nat) (result : Option Json) : Lane :=
  match s.pumps[i]? with
  | none => s
  | some (.loop count) => s.takeNext i count
  | some (.parsing held captured count) =>
      match result with
      | none => s.throw i
      | some _ => s.goTo i (.reading held captured count)
  | some (.reading held captured count) =>
      if !s.isCurrent captured then
        s.goTo i (.loop count)
      else
        match result with
        | none => s.throw i
        | some hydrated =>
            s.goTo i
              (.delivering ⟨held.number, { held.event with payload := some hydrated }⟩
                captured count)
  | some (.delivering held captured count) => s.deliver i held captured count
  | some (.counting count) =>
      if count + 1 ≥ 64 then s.goTo i .paused else s.goTo i (.loop (count + 1))
  | some .paused => s.goTo i (.loop 0)
  | some .leaving => s.leave i

inductive Action
  | enqueue (event : LaneEvent)
  | dispose
  | resume (i : Nat) (result : Option Json)
deriving DecidableEq

def Lane.step (maxQueuedBytes : Nat) (s : Lane) : Action → Lane
  | .enqueue event => s.enqueue maxQueuedBytes event
  | .dispose => s.dispose
  | .resume i result => s.resume i result

end ContentLane
end FutureOs
