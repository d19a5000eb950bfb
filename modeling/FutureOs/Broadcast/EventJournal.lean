import FutureOs.Content.Pending
import FutureOs.Lib.Machine

/-!
# The event journal writer

The worker behind a session's event journal (`rpc/broadcaster/journal_writer.rs`):
events wait in order, a flush persists all of them at once, and where the journal
refuses the batch, one at a time.

The store is a `Ledger`: the changes of every stream with the cursors they cover,
and the checks `commit_batch` makes on cursors.  Whether an event is fit to be stored
at all, and whether the storage works just then, is not a matter of the cursors: each
attempt has its `Outcomes`, per event and free to change from one attempt to the next.
-/

namespace FutureOs
namespace Broadcast

open Content

/-- Why an event did not reach the journal. -/
inductive AppendFailure where
  | rejected (message : String)
  | unavailable (message : String)
deriving DecidableEq, Repr

def AppendFailure.message : AppendFailure → String
  | rejected message => message
  | unavailable message => message

/-! ## Outcomes -/

/-- Where in an attempt an event is looked at. -/
inductive Place where
  | encoding
  | staging
  | commit
deriving DecidableEq, Repr

/-- What becomes of an event in one attempt, its cursor apart. -/
inductive Outcome where
  | accepted
  | refused (place : Place)
  | unavailable (place : Place)
deriving DecidableEq, Repr

abbrev Outcomes := StreamIdentity → Int → Outcome

def Outcome.check (outcome : Outcome) (place : Place) : Except AppendFailure Unit :=
  if outcome = .refused place then
    .error (.rejected "content is refused")
  else if outcome = .unavailable place then
    .error (.unavailable "storage is unavailable")
  else
    .ok ()

/-! ## Events -/

/-- The `content_…` fields of an event. -/
structure Block where
  key : String
  offset : Int
  length : Nat
  last : Bool := false
deriving DecidableEq, Repr

/--
An event, by what `Writer::encode` makes of it: one change at one cursor.  `message`
is the message it ends, `staged` says that it has bodies of its own to be written
first.
-/
structure Event where
  stream : StreamIdentity
  change : Change
  single : change.firstCursor = change.lastCursor
  appends : List ContentAppend := []
  block : Option Block := none
  message : Option String := none
  staged : Bool := false

namespace Event

def cursor (event : Event) : Int :=
  event.change.lastCursor

def group (event : Event) : Group where
  stream := event.stream
  appends := event.appends
  change := event.change

end Event

/-- How far the open blocks of a stream have come: `ContentDigest::bytes`, by key. -/
abbrev Blocks := List (String × Int)

namespace Blocks

def offset (blocks : Blocks) (key : String) : Int :=
  ((blocks.find? fun block => block.1 = key).map Prod.snd).getD 0

/-- The content of the event starts where its block stopped. -/
def admits (blocks : Blocks) (event : Event) : Bool :=
  match event.block with
  | some block => block.offset = blocks.offset block.key
  | none => true

/-- The open blocks after the event. -/
def advance (blocks : Blocks) (event : Event) : Blocks :=
  let moved :=
    match event.block with
    | some block =>
        let others := blocks.filter fun other => other.1 ≠ block.key
        if block.last then others else (block.key, block.offset + block.length) :: others
    | none => blocks
  match event.message with
  | some id => moved.filter fun block => !(id ++ ":").toList.isPrefixOf block.1.toList
  | none => moved

end Blocks

/-! ## The ledger -/

structure Ledger where
  format : Nat := 2
  rows : List (StreamIdentity × Change) := []

namespace Ledger

/-- The changes of a stream, in the order they were stored. -/
def rowsOf (ledger : Ledger) (stream : StreamIdentity) : List Change :=
  (ledger.rows.filter fun row => row.1 = stream).map Prod.snd

/-- `durable_cursor`. -/
def durable (ledger : Ledger) (stream : StreamIdentity) : Int :=
  (ledger.rowsOf stream).foldl (fun cursor change => max cursor change.lastCursor) (-1)

def changeAt (ledger : Ledger) (stream : StreamIdentity) (cursor : Int) : Option Change :=
  (ledger.rowsOf stream).find? fun change => change.lastCursor = cursor

def add (ledger : Ledger) (stream : StreamIdentity) (change : Change) : Ledger :=
  { ledger with rows := ledger.rows ++ [(stream, change)] }

/-- One round of the loop over the changes in `commit_batch`. -/
def publish (stream : StreamIdentity) (change : Change) (ledger : Ledger) :
    Except AppendFailure Ledger := do
  ensure (0 ≤ change.firstCursor ∧ change.firstCursor ≤ change.lastCursor)
    (.rejected "invalid change cursor range")
  match ledger.changeAt stream change.lastCursor with
  | some stored => do
      ensure (stored = change) (.rejected "conflicting semantic change retry")
      pure ledger
  | none => do
      ensure (change.firstCursor = ledger.durable stream + 1)
        (.rejected "semantic change has a gap or conflicting overlap")
      pure (ledger.add stream change)

end Ledger

/-- The cursors of a change. -/
def cursors (change : Change) : List Int :=
  (List.range (change.lastCursor - change.firstCursor + 1).toNat).map fun i =>
    change.firstCursor + i

def checkAll (outcomes : Outcomes) (stream : StreamIdentity) :
    List Int → Except AppendFailure Unit
  | [] => pure ()
  | cursor :: rest => do
      (outcomes stream cursor).check .commit
      checkAll outcomes stream rest

def publishAll (outcomes : Outcomes) (stream : StreamIdentity) :
    List Change → Ledger → Except AppendFailure Ledger
  | [], ledger => pure ledger
  | change :: changes, ledger => do
      checkAll outcomes stream (cursors change)
      let next ← ledger.publish stream change
      publishAll outcomes stream changes next

/-- `commit_batch`: one transaction. -/
def commitChanges (outcomes : Outcomes) (stream : StreamIdentity)
    (_appends : List ContentAppend) (changes : List Change) :
    Proc Ledger AppendFailure Unit :=
  Proc.transact fun ledger =>
    (publishAll outcomes stream changes ledger).map fun next => (next, ())

/-! ## `Writer` -/

abbrev Writer := StreamIdentity → Blocks

def Writer.advance (writer : Writer) (event : Event) : Writer :=
  Function.update writer event.stream ((writer event.stream).advance event)

/-- `Writer::encode`. -/
def encode (outcomes : Outcomes) (writer : Writer) (event : Event) (pending : Pending) :
    Proc Ledger AppendFailure (Writer × Pending) := do
  let outcome := outcomes event.stream event.cursor
  Proc.lift (outcome.check .encoding)
  Proc.lift (ensure ((writer event.stream).admits event = true)
    (AppendFailure.rejected "live content has a gap or conflicting retry"))
  let room ← if event.staged then do
      Pending.flush (commitChanges outcomes) pending
      pure []
    else
      pure pending
  Proc.lift (outcome.check .staging)
  pure (writer.advance event, room)

/-- `Writer::persist_batch`, with the writer it would leave behind. -/
def persistBatch (outcomes : Outcomes) : List Event → Writer → Pending →
    Proc Ledger AppendFailure Writer
  | [], writer, pending => do
      Pending.flush (commitChanges outcomes) pending
      pure writer
  | event :: events, writer, pending => do
      let (next, room) ← encode outcomes writer event pending
      let pushed ← Pending.push (commitChanges outcomes) room event.group
      persistBatch outcomes events next pushed

/-- `Writer::persist`; the writer moves on only where all of it succeeds. -/
def persist (outcomes : Outcomes) (writer : Writer) (events : List Event) :
    Proc Ledger AppendFailure Writer := do
  let format ← Proc.read fun ledger => .ok ledger.format
  Proc.lift (ensure (format = 2) (AppendFailure.unavailable "wrong journal format"))
  persistBatch outcomes events writer []

/-! ## `flush_event_batch` -/

/-- An event that waits; `reply` is the channel of a caller that waits for it. -/
structure PendingEvent where
  event : Event
  bytes : Nat
  reply : Option Nat

abbrev Reply := Nat × Except AppendFailure Unit

/-- The worker's state; `lastError` is the journal's health. -/
structure EventJournal where
  ledger : Ledger := {}
  writer : Writer := fun _ => []
  pending : List PendingEvent := []
  lastError : Option String := none
  failed : Bool := false

/-- The outcomes of the attempt on the whole batch, and of those on single events. -/
structure Attempts where
  batch : Outcomes
  single : Outcomes

def failedText (message : String) : String :=
  "event batch commit failed: " ++ message

/-- The state of the loop over single events. -/
structure Retry where
  ledger : Ledger
  writer : Writer
  retry : List PendingEvent := []
  storageFailed : Bool := false
  replies : List Reply := []

/-- One round of that loop. -/
def retryEvent (outcomes : Outcomes) (r : Retry) (item : PendingEvent) : Retry :=
  match persist outcomes r.writer [item.event] r.ledger with
  | (ledger, .ok writer) =>
      { r with
        ledger := ledger
        writer := writer
        replies := r.replies ++ item.reply.toList.map fun reply => (reply, .ok ()) }
  | (ledger, .error (.rejected message)) =>
      -- refused for good: dropped
      { r with
        ledger := ledger
        replies := r.replies ++ item.reply.toList.map fun reply =>
          (reply, .error (.rejected (failedText message))) }
  | (ledger, .error (.unavailable message)) =>
      match item.reply with
      | some reply =>
          { r with
            ledger := ledger
            storageFailed := true
            replies := r.replies ++ [(reply, .error (.unavailable (failedText message)))] }
      | none =>
          { r with
            ledger := ledger
            storageFailed := true
            retry := r.retry ++ [item] }

/-- `flush_event_batch`: the worker, the replies sent, and whether the journal is writable. -/
def flushEventBatch (attempts : Attempts) (j : EventJournal) :
    EventJournal × List Reply × Bool :=
  if j.pending.isEmpty then
    (j, [], true)
  else
    match persist attempts.batch j.writer (j.pending.map PendingEvent.event) j.ledger with
    | (ledger, .ok writer) =>
        ({ j with
            ledger := ledger
            writer := writer
            pending := []
            lastError := none },
          j.pending.flatMap fun item => item.reply.toList.map fun reply => (reply, .ok ()),
          true)
    | (ledger, .error (.rejected message)) =>
        let r := j.pending.foldl (retryEvent attempts.single)
          { ledger := ledger, writer := j.writer }
        ({ j with
            ledger := r.ledger
            writer := r.writer
            pending := r.retry
            lastError := if r.storageFailed then some (failedText message) else j.lastError },
          r.replies,
          !r.storageFailed)
    | (ledger, .error (.unavailable message)) =>
        ({ j with
            ledger := ledger
            pending := j.pending.map fun item => { item with reply := none }
            lastError := some (failedText message) },
          j.pending.flatMap fun item => item.reply.toList.map fun reply =>
            (reply, .error (.unavailable (failedText message))),
          false)

/-! ## The worker -/

/-- `EventWriteCommand::Append`: while the journal fails, no caller is kept waiting. -/
def append (event : Event) (bytes : Nat) (reply : Option Nat) (j : EventJournal) :
    EventJournal :=
  { j with
    pending := j.pending ++ [{
      event := event
      bytes := bytes
      reply := if j.failed then none else reply }] }

/-- `flush_and_schedule`. -/
def flush (attempts : Attempts) (j : EventJournal) : EventJournal :=
  let (next, _, writable) := flushEventBatch attempts j
  { next with failed := !writable }

inductive JournalOp where
  | append (event : Event) (bytes : Nat) (reply : Option Nat)
  | flush (attempts : Attempts)

def step (j : EventJournal) : JournalOp → EventJournal
  | .append event bytes reply => append event bytes reply j
  | .flush attempts => flush attempts j

end Broadcast
end FutureOs
