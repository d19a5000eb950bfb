import FutureOs.Content.JsonBytes
import FutureOs.Content.Pending

/-!
# The counters of a batch

`Pending` of `session/content/journal.rs` with the numbers it keeps beside its groups: the
bytes of their texts, of their metadata, and how many appends they have.  A push decides by
the numbers whether there is room; `encode` has made its group from one event
(`Group.Encoded`), and what a commit answers is the parameter `outcome`.
-/

namespace FutureOs
namespace Content

/-- What one `commit_batch` is given. -/
structure Transaction where
  stream : StreamIdentity
  appends : List ContentAppend
  changes : List Change

/-- The limits `commit_batch` checks before it begins. -/
def Transaction.admitted (tx : Transaction) : Prop :=
  (tx.appends.map fun piece => Utf8.size piece.text).sum ≤ writeBytes ∧
    tx.changes.length ≤ changesPerBatch ∧ tx.appends.length ≤ changesPerBatch ∧
    (tx.changes.map fun change => change.metadata.compactLen).sum ≤ changeMetadataBytes

/-- A group with its field `metadata_bytes`. -/
structure CountedGroup where
  group : Group
  metadataBytes : Nat

/-- `Pending`, with its counters. -/
structure CountedPending where
  groups : List CountedGroup
  bytes : Nat
  metadataBytes : Nat
  appends : Nat

namespace CountedPending

/-- `Pending::default`. -/
def default : CountedPending where
  groups := []
  bytes := 0
  metadataBytes := 0
  appends := 0

/-- The groups that are pending. -/
def pending (batch : CountedPending) : Pending := batch.groups.map CountedGroup.group

/-- The condition for which a push flushes first. -/
def isFull (batch : CountedPending) (group : Group) (bytes metadata : Nat) : Bool :=
  match batch.groups with
  | [] => false
  | first :: _ =>
      first.group.stream ≠ group.stream ∨ changesPerBatch ≤ batch.groups.length ∨
        writeBytes < saturatingAdd batch.bytes bytes ∨
        changeMetadataBytes < saturatingAdd batch.metadataBytes metadata ∨
        changesPerBatch < saturatingAdd batch.appends group.appends.length

/-- Merge the group into the last one, or add it. -/
def addGroup (batch : CountedPending) (group : Group) (bytes metadata : Nat) : CountedPending :=
  let batch := { batch with
    bytes := batch.bytes + bytes
    appends := batch.appends + group.appends.length }
  match batch.groups.getLast? with
  | some prior =>
      if prior.group.combines group then
        let merged := prior.group.merge group
        let size := jsonBytes merged.change.metadata
        { batch with
          groups := batch.groups.dropLast ++ [{ group := merged, metadataBytes := size }]
          metadataBytes := batch.metadataBytes - prior.metadataBytes + size }
      else
        { batch with
          groups := batch.groups ++ [{ group := group, metadataBytes := metadata }]
          metadataBytes := batch.metadataBytes + metadata }
  | none =>
      { batch with
        groups := [{ group := group, metadataBytes := metadata }]
        metadataBytes := batch.metadataBytes + metadata }

end CountedPending

/-- The batch and the transactions that were issued. -/
structure Journal where
  batch : CountedPending
  issued : List Transaction

namespace Journal

variable {ε : Type}
variable (outcome : List Transaction → Except ε Unit)

/-- A call of `commit_batch`. -/
def commit (stream : StreamIdentity) (appends : List ContentAppend) (changes : List Change) :
    Proc Journal ε Unit := fun s =>
  let issued := s.issued ++ [{ stream := stream, appends := appends, changes := changes }]
  ({ s with issued := issued }, outcome issued)

/-- The groups are taken, and the counters start again. -/
def take : Proc Journal ε Pending := fun s =>
  ({ s with batch := CountedPending.default }, .ok s.batch.pending)

/-- `Pending::flush`. -/
def flush : Proc Journal ε Unit := do
  let groups ← take
  match groups with
  | [] => pure ()
  | first :: _ =>
      let pieces := Pending.packed groups
      Pending.commitPacked (commit outcome) first.stream (groups.map Group.change) pieces.length
        pieces

def whenM (condition : Journal → Bool) (x : Proc Journal ε Unit) : Proc Journal ε Unit := fun s =>
  if condition s then x s else (s, .ok ())

/-- `Pending::push`. -/
def push (group : Group) : Proc Journal ε Unit := do
  let bytes := group.bytes
  let metadata := jsonBytes group.change.metadata
  whenM (fun s => s.batch.isFull group bytes metadata) (flush outcome)
  fun s => ({ s with batch := s.batch.addGroup group bytes metadata }, .ok ())
  whenM (fun _ => group.change.eventType = "agent_end") (flush outcome)

end Journal

section Runs

/-- The calls on a batch, in any order. -/
inductive PendingOp
  | push (group : Group)
  | flush

/-- The journal behind a call, whether it failed or not. -/
def Journal.step {ε : Type} (outcome : List Transaction → Except ε Unit) (s : Journal) :
    PendingOp → Journal
  | .push group => (Journal.push outcome group s).1
  | .flush => (Journal.flush outcome s).1

def Journal.start : Journal where
  batch := CountedPending.default
  issued := []

end Runs

section Encoded

/-- A field of the data of an event. -/
def dataField (metadata : Json) (key : String) : Option Json :=
  (metadata.get? "data").bind fun data => data.get? key

/-- The metadata of a fragment of a body that has its key and range in the data. -/
structure IsFragment (metadata : Json) (body : BodyLink) : Prop where
  key : ∃ key, dataField metadata "content_key" = some (.str key)
  offset : dataField metadata "content_offset" = some (.ofInt body.offset)
  bytes : dataField metadata "content_bytes" = some (.ofInt body.length)

/-- A group as `encode` makes it of one event. -/
structure Group.Encoded (group : Group) : Prop where
  /-- Objects have one field of a name. -/
  canonical : group.change.metadata.Canonical
  /-- The cursor of the event, an `i64` from 0 on. -/
  cursor : 0 ≤ group.change.firstCursor ∧ group.change.firstCursor < 2 ^ 63
  /-- Bodies have a text; a fact starts at 0, and only a fragment goes on elsewhere. -/
  body : ∀ body, group.change.bodies = [body] →
    0 ≤ body.offset ∧ 0 < body.length ∧ body.length < 2 ^ 63 ∧
      (group.change.eventType ∈ deltaKinds → body.offset ≠ 0 →
        IsFragment group.change.metadata body)
  /-- Where a delta has a key, its range was read. -/
  ranged : group.change.eventType ∈ deltaKinds →
    ∀ key, dataField group.change.metadata "content_key" = some (.str key) →
      dataField group.change.metadata "content_offset" ≠ none ∧
        dataField group.change.metadata "content_bytes" ≠ none

/-- The group alone is within the limits of a commit. -/
structure Group.Fits (group : Group) : Prop where
  bytes : group.bytes ≤ writeBytes
  appends : group.appends.length ≤ changesPerBatch
  metadata : group.metadataBytes ≤ changeMetadataBytes

end Encoded

end Content
end FutureOs
