import FutureOs.Lib.Utf8
import FutureOs.Orchestration.EventLog

/-!
# The supervisor outbox

Notes for the supervisor are queued on the ledger and delivered in batches.  A pass reads
the registered session, then the events, retries the first batch of that session that is
not delivered or prepares a new one, sends it, and records the delivery.  Everything but
the pass itself is read from the events.

Queueing is serialised by one lock and passes by another; between two steps of either
anything else may be appended.
-/

namespace FutureOs
namespace Orchestration

/-- One note waiting to be enqueued. -/
structure Note where
  kind : String
  todo : String
  message : String
  key : String
deriving DecidableEq

/-- A prepared batch. -/
structure Batch where
  id : String
  session : String
  keys : List String
  message : String
deriving DecidableEq

def maxBatchNotes : Nat := 32

/-! ## What the events say -/

/-- The key and the message of a queued note. -/
def EventKind.note : EventKind → Option (String × String)
  | .supervisorNote _ _ message key => some (key, message)
  | _ => none

def EventKind.prepared : EventKind → Option Batch
  | .supervisorBatchPrepared id session keys message =>
      some { id := id, session := session, keys := keys, message := message }
  | _ => none

def EventKind.delivered : EventKind → Option String
  | .supervisorBatchDelivered id => some id
  | _ => none

def EventKind.registered : EventKind → Option String
  | .supervisorRegistered session => some session
  | _ => none

def notes (events : List Event) : List (String × String) :=
  events.filterMap fun e => e.kind.note

def noteKeys (events : List Event) : List String :=
  (notes events).map Prod.fst

def prepared (events : List Event) : List Batch :=
  events.filterMap fun e => e.kind.prepared

def deliveredIds (events : List Event) : List String :=
  events.filterMap fun e => e.kind.delivered

/-- The keys of the batches the filter keeps. -/
def batchKeys (events : List Event) (keep : Batch → Bool) : List String :=
  ((prepared events).filter keep).flatMap Batch.keys

def deliveredKeys (events : List Event) : List String :=
  batchKeys events fun b => b.id ∈ deliveredIds events

/-- The keys that no new batch of the session takes again. -/
def assignedKeys (events : List Event) (session : String) : List String :=
  batchKeys events fun b => b.session = session || b.id ∈ deliveredIds events

/-- `truncate_evidence`: the head and the tail of a long text. -/
def truncateEvidence (text : String) (max : Nat) : String :=
  let bytes := text.toList
  if Utf8.size bytes ≤ max then
    text
  else
    let headBytes := max * 3 / 4
    let tailBytes := max - headBytes - 3
    String.ofList
      (Utf8.takeBytes headBytes bytes ++ '…' ::
        Utf8.dropBytes (Utf8.size bytes - tailBytes) bytes)

/-- The batch to retry: of the session, not delivered, with a key not delivered. -/
def retryBatch (events : List Event) (session : String) : Option Batch :=
  (prepared events).find? fun b =>
    b.session = session && b.id ∉ deliveredIds events &&
      !b.keys.all fun key => key ∈ deliveredKeys events

/-- The first notes that are not assigned, each key once, as many as there is room for. -/
def collectNotes : Nat → List String → List (String × String) → List (String × String)
  | 0, _, _ => []
  | _ + 1, _, [] => []
  | room + 1, assigned, note :: rest =>
      if note.1 ∈ assigned then
        collectNotes (room + 1) assigned rest
      else
        note :: collectNotes room (note.1 :: assigned) rest

def batchMessage (goalId : String) (notes : List (String × String)) : String :=
  "[future-goal] goal " ++ goalId ++ ": " ++ toString notes.length ++
    " event(s). Reconcile current status before acting; events may be stale. " ++
    "Read `future goal supervisor events --goal " ++ goalId ++ "` for full evidence.\n" ++
    String.intercalate "\n" (notes.map fun note => truncateEvidence note.2 4096)

/-- A new batch of the oldest notes, under a generated id. -/
def newBatch (goalId : String) (events : List Event) (session id : String) : Option Batch :=
  let notes := collectNotes maxBatchNotes (assignedKeys events session) (notes events)
  if notes = [] then
    none
  else
    some
      { id := id
        session := session
        keys := notes.map Prod.fst
        message := batchMessage goalId notes }

/-! ## The steps -/

/-- How far a pass has come. -/
inductive Pass
  /-- The session is read. -/
  | started (session : String)
  /-- A new batch is to be recorded. -/
  | chosen (batch : Batch)
  /-- The batch is to be sent. -/
  | ready (batch : Batch)
  /-- The remote end has accepted the batch. -/
  | accepted (batch : Batch)

/-- A prompt the remote end has accepted. -/
structure Prompt where
  session : String
  message : String
  requestId : String
deriving DecidableEq

def Batch.prompt (b : Batch) : Prompt where
  session := b.session
  message := b.message
  requestId := "goal-batch:" ++ b.id

/-- A call of `queue_many`: its notes, and those it has still to append. -/
structure QueueCall where
  notes : List Note
  rest : List Note

structure Outbox (derive : Event → String) where
  log : EventLog derive
  /-- The call that holds the notes lock. -/
  queueing : Option QueueCall
  /-- The pass that holds the outbox lock. -/
  pass : Option Pass
  sent : List Prompt

inductive OutboxOp
  /-- `queue_many` reads the keys on the ledger. -/
  | queueStart (notes : List Note)
  | queueNext (ts : Nat)
  | queueStop
  /-- A pass takes the outbox lock and replays the goal at `now`. -/
  | passStart (now : Nat)
  /-- It reads the events; `id` is the id it generates if it prepares a batch. -/
  | passChoose (id : String)
  | passPrepare (ts : Nat)
  | passPrompt
  | passDeliver (ts : Nat)
  /-- An error or a crash, at any step. -/
  | passStop
  /-- Anything else is appended to the ledger, a registration included. -/
  | append (event : Event)

section Steps

variable {derive : Event → String}
variable (entry : RegistryEntry)

def Outbox.start : Outbox derive where
  log := EventLog.empty
  queueing := none
  pass := none
  sent := []

/-- The notes whose keys are not seen yet, each key once. -/
def freshNotes : List String → List Note → List Note
  | _, [] => []
  | seen, note :: rest =>
      if note.key ∈ seen then freshNotes seen rest
      else note :: freshNotes (note.key :: seen) rest

def Note.event (note : Note) (ts : Nat) : Event where
  goalId := entry.goalId
  kind := .supervisorNote note.todo note.kind note.message note.key
  ts := ts

def Batch.preparedEvent (b : Batch) (ts : Nat) : Event where
  goalId := entry.goalId
  kind := .supervisorBatchPrepared b.id b.session b.keys b.message
  ts := ts

def Batch.deliveredEvent (b : Batch) (ts : Nat) : Event where
  goalId := entry.goalId
  kind := .supervisorBatchDelivered b.id
  ts := ts

/-- The session a replay at `now` shows. -/
def replayedSession (now : Nat) (events : List Event) : Option String :=
  (Machine.run (apply now) (Goal.seed now entry events) events).supervisorSessionId

/-- The pass after reading the events. -/
def choosePass (events : List Event) (session id : String) : Option Pass :=
  match retryBatch events session with
  | some b => some (.ready b)
  | none => (newBatch entry.goalId events session id).map Pass.chosen

def Outbox.step (s : Outbox derive) : OutboxOp → Outbox derive
  | .queueStart notes =>
      match s.queueing with
      | none =>
          { s with queueing := some ⟨notes, freshNotes (noteKeys s.log.events) notes⟩ }
      | some _ => s
  | .queueNext ts =>
      match s.queueing with
      | some ⟨notes, note :: rest⟩ =>
          match s.log.record (note.event entry ts) with
          | .ok log => { s with log := log, queueing := some ⟨notes, rest⟩ }
          | .error _ => { s with queueing := none }
      | _ => { s with queueing := none }
  | .queueStop => { s with queueing := none }
  | .passStart now =>
      match s.pass with
      | none => { s with pass := (replayedSession entry now s.log.events).map Pass.started }
      | some _ => s
  | .passChoose id =>
      match s.pass with
      | some (.started session) => { s with pass := choosePass entry s.log.events session id }
      | _ => s
  | .passPrepare ts =>
      match s.pass with
      | some (.chosen b) =>
          match s.log.record (b.preparedEvent entry ts) with
          | .ok log => { s with log := log, pass := some (.ready b) }
          | .error _ => { s with pass := none }
      | _ => s
  | .passPrompt =>
      match s.pass with
      | some (.ready b) => { s with pass := some (.accepted b), sent := s.sent ++ [b.prompt] }
      | _ => s
  | .passDeliver ts =>
      match s.pass with
      | some (.accepted b) =>
          match s.log.record (b.deliveredEvent entry ts) with
          | .ok log => { s with log := log, pass := none }
          | .error _ => { s with pass := none }
      | _ => s
  | .passStop => { s with pass := none }
  | .append event =>
      match s.log.record event with
      | .ok log => { s with log := log }
      | .error _ => s

/-- The batch a step delivers: its pass has come to the end. -/
def Outbox.delivers (s : Outbox derive) : OutboxOp → List Batch
  | .passDeliver ts =>
      match s.pass with
      | some (.accepted b) =>
          match s.log.record (b.deliveredEvent entry ts) with
          | .ok _ => [b]
          | .error _ => []
      | _ => []
  | _ => []

/-- Generated ids are new, and nothing else appends events of the outbox. -/
def Outbox.Regular (s : Outbox derive) : OutboxOp → Prop
  | .passChoose id => ∀ b ∈ prepared s.log.events, b.id ≠ id
  | .append event =>
      event.kind.note = none ∧ event.kind.prepared = none ∧ event.kind.delivered = none
  | _ => True

instance (s : Outbox derive) : ∀ op, Decidable (s.Regular op)
  | .passChoose id => inferInstanceAs (Decidable (∀ b ∈ prepared s.log.events, b.id ≠ id))
  | .append event => inferInstanceAs (Decidable (event.kind.note = none ∧ _ ∧ _))
  | .queueStart _
  | .queueNext _
  | .queueStop
  | .passStart _
  | .passPrepare _
  | .passPrompt
  | .passDeliver _
  | .passStop => isTrue trivial

end Steps

end Orchestration
end FutureOs
