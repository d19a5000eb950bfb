import FutureOs.Content.Fold
import FutureOs.Lib.Proc

/-!
# Batches of changes

The `Pending` of `session/content/journal.rs`: changes on their way to the store.
`push` merges a fragment into the change before it where they differ in nothing but
their place (`Group.combines`), and starts a new transaction where a budget is used
up; `flush` commits what there is in one transaction.  The counters of the source
are sums over the groups here.

What a commit does is the parameter `commit`.
-/

namespace FutureOs
namespace Content

structure Group where
  stream : StreamIdentity
  appends : List ContentAppend
  change : Change

/-! ## Merging -/

/-- The second body goes on where the first one stops. -/
def continuesBody : List BodyLink → List BodyLink → Bool
  | [first], [second] =>
      first.key = second.key ∧ first.field = second.field ∧
        first.offset + first.length = second.offset
  | _, _ => false

namespace Group

/-- The condition `combine` of `push`. -/
def combines (prior group : Group) : Bool :=
  prior.stream = group.stream ∧
    prior.change.eventType = group.change.eventType ∧
    sameDeltaMetadata prior.change.metadata group.change.metadata ∧
    prior.change.lastCursor + 1 = group.change.firstCursor ∧
    continuesBody prior.change.bodies group.change.bodies ∧
    group.change.eventType ∈ deltaKinds ∧
    isSnapshot prior.change.metadata = false ∧
    isSnapshot group.change.metadata = false

/-- The metadata of the last fragment, over the range of all of them. -/
def mergedMetadata (metadata : Json) (offset length firstCursor : Int) : Json :=
  let data := (((metadata.index "data").set "content_offset" (.ofInt offset)).set
    "content_bytes" (.ofInt length)).set "content_first_idx" (.ofInt firstCursor)
  metadata.set "data" data

/-- The change for both, where they combine. -/
def merge (prior group : Group) : Group :=
  match prior.change.bodies, group.change.bodies with
  | [body], [next] =>
      let length := body.length + next.length
      { prior with
        appends := prior.appends ++ group.appends
        change := { prior.change with
          lastCursor := group.change.lastCursor
          metadata := mergedMetadata group.change.metadata body.offset length
            prior.change.firstCursor
          bodies := [{ body with length := length }] } }
  | _, _ => prior

def bytes (group : Group) : Nat :=
  (group.appends.map fun piece => Utf8.size piece.text).sum

def metadataBytes (group : Group) : Nat :=
  group.change.metadata.compactLen

end Group

/-! ## The batch -/

/-- The groups on their way, the oldest first. -/
abbrev Pending := List Group

namespace Pending

/-- No room for the group: what is pending has to go first. -/
def full (pending : Pending) (group : Group) : Bool :=
  match pending with
  | [] => false
  | first :: _ =>
      first.stream ≠ group.stream ∨ changesPerBatch ≤ pending.length ∨
        writeBytes < (pending.map Group.bytes).sum + group.bytes ∨
        changeMetadataBytes < (pending.map Group.metadataBytes).sum + group.metadataBytes ∨
        changesPerBatch <
          (pending.map fun group => group.appends.length).sum + group.appends.length

/-- Merge the group into the last one, or add it. -/
def add : Pending → Group → Pending
  | [], group => [group]
  | [last], group =>
      if last.combines group then [last.merge group] else [last, group]
  | first :: next :: rest, group => first :: add (next :: rest) group

/-- One piece more, joined to the last where it goes on and fits. -/
def pack : List ContentAppend → ContentAppend → List ContentAppend
  | [], piece => [piece]
  | [last], piece =>
      if last.key = piece.key ∧ last.digest.isNone ∧
          last.offset + Utf8.size last.text = piece.offset ∧
          Utf8.size last.text + Utf8.size piece.text ≤ writeBytes then
        [{ last with text := last.text ++ piece.text, digest := piece.digest }]
      else
        [last, piece]
  | first :: next :: rest, piece => first :: pack (next :: rest) piece

/-- The pieces of all groups. -/
def packed (pending : Pending) : List ContentAppend :=
  (pending.flatMap Group.appends).foldl pack []

section Commit

variable {σ ε : Type}
variable (commit : StreamIdentity → List ContentAppend → List Change → Proc σ ε Unit)

/-- Commit the pieces within their number, the changes with the last of them. -/
def commitPacked (stream : StreamIdentity) (changes : List Change) :
    Nat → List ContentAppend → Proc σ ε Unit
  | 0, pieces => commit stream pieces changes
  | fuel + 1, pieces =>
      if changesPerBatch < pieces.length then do
        commit stream (pieces.take changesPerBatch) []
        commitPacked stream changes fuel (pieces.drop changesPerBatch)
      else
        commit stream pieces changes

/-- `Pending::flush`; what is left is the empty batch. -/
def flush (pending : Pending) : Proc σ ε Unit :=
  match pending with
  | [] => pure ()
  | first :: _ =>
      let pieces := pending.packed
      commitPacked commit first.stream (pending.map Group.change) pieces.length pieces

/-- `Pending::push`. -/
def push (pending : Pending) (group : Group) : Proc σ ε Pending := do
  let room ← if pending.full group then do
      flush commit pending
      pure []
    else
      pure pending
  let next := add room group
  if group.change.eventType = "agent_end" then do
    flush commit next
    pure []
  else
    pure next

end Commit

end Pending

end Content
end FutureOs
