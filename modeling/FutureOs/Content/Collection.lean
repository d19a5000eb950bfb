import FutureOs.Content.Body
import FutureOs.Content.Stream

/-!
# References and collection

The three kinds of rows that refer to a content object (`schema.sql`), the
operations that write and remove them, and `collect`
(`session/content/mod.rs`), which takes an object nobody refers to apart over
several passes.

A view row of a direct body is the `direct` range of its change; the join with
the context leaves out no row, since a foreign key keeps the context and a
trigger its stream.
-/

namespace FutureOs
namespace Content

/-- The key of `content_references`, as it is stored. -/
structure ReferenceKey where
  sessionId : String
  ownerKind : String
  ownerId : String
  field : String
deriving DecidableEq, Repr

/--
The tables of the content store: the objects and streams of `db`, the rows of
`content_references`, the column `json_sha256` and the queue `content_collection`.
-/
structure Archive where
  db : Database := {}
  references : List (ReferenceKey × OwnerRow) := []
  jsonSha256 : List (Nat × String) := []
  collection : List Nat := []

/-- The view `stream_content_ranges`. -/
def streamContentRanges (db : Database) : List ContentRange :=
  db.changes.rows.flatMap fun row =>
    row.2.direct.toList ++ row.2.links.map fun link => link.2.range

/-- The ranges of `stream_body_owners`. -/
def streamBodyOwners (db : Database) : List ContentRange :=
  db.streams.rows.flatMap fun row => row.2.owners.rows.map fun owner => owner.2.range

namespace Archive

variable (a : Archive)

/-- The objects that some row refers to, row by row. -/
def referred : List Nat :=
  (a.references.map fun row => row.2.range.id) ++
    (streamContentRanges a.db).map ContentRange.id ++
    (streamBodyOwners a.db).map ContentRange.id

/-- Some row refers to the object. -/
def Refers (id : Nat) : Prop :=
  id ∈ a.referred

instance (id : Nat) : Decidable (a.Refers id) :=
  inferInstanceAs (Decidable (id ∈ _))

/-- `INSERT OR IGNORE INTO content_collection`. -/
def enqueue (ids : List Nat) : Archive :=
  { a with
    collection := ids.foldl
      (fun queue id => if id ∈ queue then queue else queue.orderedInsert (· ≤ ·) id)
      a.collection }

def withObjects (objects : Store) : Archive :=
  { a with db := { a.db with objects := objects } }

/-! ## References -/

def referenceAt (key : ReferenceKey) : Option OwnerRow :=
  (a.references.find? fun row => row.1 = key).map Prod.snd

/-- `bind_encoded`, for owners other than streams. -/
def bindEncoded (key : ReferenceKey) (range : ContentRange) (encoding : Encoding) :
    Except String Archive := do
  ensure (0 ≤ range.offset ∧ 0 ≤ range.length) "invalid content reference"
  let o ← a.db.objects.objectRow range.id
  let finish ← context (checkedAdd range.offset range.length) "content range overflow"
  ensure (finish ≤ o.byteLength) "content reference exceeds durable bytes"
  match a.referenceAt key with
  | some old =>
      ensure (old = { range := range, encoding := encoding }) "conflicting content reference"
      pure a
  | none =>
      ensure (key.ownerKind ∈ ["entry", "tool", "checkpoint"])
        "CHECK constraint failed: owner_kind IN ('entry','tool','checkpoint')"
      pure { a with
        references := a.references ++ [(key, { range := range, encoding := encoding })] }

/-- `extend_reference`, for owners other than streams. -/
def extendReference (key : ReferenceKey) (body : Nat) (next : Int) :
    Except String Archive := do
  ensure (∃ row ∈ a.referenceAt key, row.range.id = body) "staged body owner changed"
  pure { a with
    references := a.references.map fun row =>
      if row.1 = key then
        (key, { row.2 with
          range := { row.2.range with length := max row.2.range.length next } })
      else
        row }

/-- `DELETE FROM content_references`, of one row. -/
def releaseReference (key : ReferenceKey) : Archive :=
  let released := a.references.filter fun row => row.1 = key
  let kept := { a with references := a.references.filter fun row => row.1 ≠ key }
  kept.enqueue (released.map fun row => row.2.range.id)

/-! ## Streams -/

/-- `DELETE FROM stream_body_owners`, of one row. -/
def releaseOwner (streamId keyId : Nat) : Archive :=
  match a.db.streams.lookup streamId with
  | none => a
  | some stream =>
      let stream' := { stream with owners := stream.owners.erase keyId }
      let kept := { a with
        db := { a.db with streams := a.db.streams.insert streamId stream' } }
      kept.enqueue ((stream.owners.lookup keyId).toList.map fun owner => owner.range.id)

/-- `DELETE FROM stream_change_content`, of one row. -/
def releaseLink (changeId : Nat) (field : String) : Archive :=
  match a.db.changes.lookup changeId with
  | none => a
  | some row =>
      let row' := { row with links := Fields.erase field row.links }
      let kept := { a with
        db := { a.db with changes := a.db.changes.insert changeId row' } }
      kept.enqueue ((Fields.lookup field row.links).toList.map fun link => link.range.id)

/-- The objects a change refers to. -/
def changeIds (row : ChangeRow) : List Nat :=
  (row.direct.toList ++ row.links.map fun link => link.2.range).map ContentRange.id

/-- `DELETE FROM stream_changes`, of one row; its links go with it. -/
def releaseChange (changeId : Nat) : Archive :=
  match a.db.changes.lookup changeId with
  | none => a
  | some row =>
      let kept := { a with db := { a.db with changes := a.db.changes.erase changeId } }
      kept.enqueue (changeIds row)

/-- `DELETE FROM stream_runs`, of one row, and all that goes with it. -/
def releaseStream (streamId : Nat) : Archive :=
  match a.db.streams.lookup streamId with
  | none => a
  | some stream =>
      let dropped := a.db.changes.rows.filter fun row => row.2.streamId = streamId
      let kept := { a with
        db := { a.db with
          streams := a.db.streams.erase streamId
          symbols := a.db.symbols.filter fun row => row.streamId ≠ streamId
          contexts := a.db.contexts.filter fun row => row.streamId ≠ streamId
          changes := a.db.changes.filter fun row => row.streamId ≠ streamId
          retired := a.db.retired.filter fun id => id ≠ streamId } }
      kept.enqueue ((stream.owners.rows.map fun owner => owner.2.range.id) ++
        dropped.flatMap fun row => changeIds row.2)

/-! ## Digests -/

/-- `seal_json`. -/
def sealJson (codec : Codec) (id : Nat) (raw : ContentDigest) (canonical : String) :
    Except String Archive := do
  let (objects, _) ← a.db.objects.sealBody codec id raw
  match Fields.lookup id a.jsonSha256 with
  | some existing =>
      ensure (existing = canonical) "conflicting semantic JSON digest"
      pure (a.withObjects objects)
  | none =>
      pure { a.withObjects objects with
        jsonSha256 := Fields.insert id canonical a.jsonSha256 }

/-- `find_sealed`. -/
def findSealed (sha256 : String) (bytes : Int) : Option ContentRange :=
  (a.db.objects.find? fun row =>
    row.2.sha256 = some sha256 ∧ (row.2.byteLength : Int) = bytes).map fun row =>
      { id := row.1, offset := 0, length := bytes }

/-- `find_json`. -/
def findJson (sha256 : String) : Option ContentRange :=
  (a.db.objects.find? fun row =>
    row.2.isSealed ∧ Fields.lookup row.1 a.jsonSha256 = some sha256).map fun row =>
      { id := row.1, offset := 0, length := row.2.byteLength }

/-! ## Collection -/

/--
One round of `collect`: the tables, how many segments may still go, and how many
objects are gone.
-/
def collectOne (a : Archive) (remainingSegments deleted id : Nat) : Archive × Nat × Nat :=
  match Fields.lookup id a.db.objects with
  | none => (a, remainingSegments, deleted)
  | some o =>
      let a := a.enqueue [id]
      if a.Refers id then
        ({ a with collection := a.collection.filter fun other => other ≠ id },
          remainingSegments, deleted)
      else if remainingSegments = 0 then
        (a, remainingSegments, deleted)
      else
        let left := o.segments.drop remainingSegments
        let remaining := remainingSegments - min remainingSegments o.segments.length
        let jsonSha256 := Fields.erase id a.jsonSha256
        if left = [] then
          ({ a.withObjects (Fields.erase id a.db.objects) with
              jsonSha256 := jsonSha256
              collection := a.collection.filter fun other => other ≠ id },
            remaining, deleted + 1)
        else
          ({ a.withObjects (Fields.insert id { o with sha256 := none, segments := left }
                a.db.objects) with
              jsonSha256 := jsonSha256 },
            remaining, deleted)

/-- The loop of `collect`. -/
def collectAll : List Nat → Archive → Nat → Nat → Archive × Nat
  | [], a, _, deleted => (a, deleted)
  | id :: ids, a, remainingSegments, deleted =>
      let (a, remainingSegments, deleted) := collectOne a remainingSegments deleted id
      collectAll ids a remainingSegments deleted

/-- `collect`. -/
def collect (candidates : List Nat) : Except String (Archive × Nat) := do
  ensure (candidates.length ≤ 256) "content collection batch is too large"
  pure (collectAll candidates a 4 0)

end Archive

/-! ## Operations -/

/-- What writes to the content tables, one statement or call at a time. -/
inductive ArchiveOp where
  | create
  | append (id : Nat) (offset : Int) (text : Text)
  | sealBody (id : Nat) (digest : ContentDigest)
  | sealJson (id : Nat) (raw : ContentDigest) (canonical : String)
  | bind (key : ReferenceKey) (range : ContentRange) (encoding : Encoding)
  | extend (key : ReferenceKey) (body : Nat) (next : Int)
  /-- Bind what `find_sealed` finds, in one transaction. -/
  | reuse (key : ReferenceKey) (sha256 : String) (bytes : Int) (encoding : Encoding)
  /-- Bind what `find_json` finds, in one transaction. -/
  | reuseJson (key : ReferenceKey) (sha256 : String) (encoding : Encoding)
  | release (key : ReferenceKey)
  | openStream (stream : StreamIdentity)
  | bindOwner (streamId : Nat) (key : String) (range : ContentRange) (encoding : Encoding)
  | extendOwner (streamId : Nat) (key : String) (body : Nat) (next : Int)
  | publish (streamId : Nat) (change : Change) (bodies : List FieldBody)
  | releaseOwner (streamId keyId : Nat)
  | releaseLink (changeId : Nat) (field : String)
  | releaseChange (changeId : Nat)
  | releaseStream (streamId : Nat)
  | collect (candidates : List Nat)
  /-- One idle slice: the first candidates of the queue. -/
  | reclaim

namespace Archive

/-- A transaction that fails changes nothing. -/
def orKeep (a : Archive) : Except String Archive → Archive
  | .ok a' => a'
  | .error _ => a

def withDatabase (a : Archive) (db : Database) : Archive :=
  { a with db := db }

def step (codec : Codec) (pf : Platform) (a : Archive) : ArchiveOp → Archive
  | .create => a.withObjects (a.db.objects.create (Fields.nextKey a.db.objects))
  | .append id offset text =>
      a.withObjects (commit a.db.objects (a.db.objects.append codec id offset text)).1
  | .sealBody id digest =>
      a.withObjects (commit a.db.objects (a.db.objects.sealBody codec id digest)).1
  | .sealJson id raw canonical => a.orKeep (a.sealJson codec id raw canonical)
  | .bind key range encoding => a.orKeep (a.bindEncoded key range encoding)
  | .extend key body next => a.orKeep (a.extendReference key body next)
  | .reuse key sha256 bytes encoding =>
      match a.findSealed sha256 bytes with
      | some range => a.orKeep (a.bindEncoded key range encoding)
      | none => a
  | .reuseJson key sha256 encoding =>
      match a.findJson sha256 with
      | some range => a.orKeep (a.bindEncoded key range encoding)
      | none => a
  | .release key => a.releaseReference key
  | .openStream stream =>
      a.orKeep ((a.db.streamId stream).map fun result => a.withDatabase result.1)
  | .bindOwner streamId key range encoding =>
      a.orKeep ((a.db.bindOwner pf streamId key range encoding).map a.withDatabase)
  | .extendOwner streamId key body next =>
      a.orKeep ((a.db.extendOwner pf streamId key body next).map a.withDatabase)
  | .publish streamId change bodies =>
      a.orKeep ((Content.publish pf a.db streamId change bodies).map a.withDatabase)
  | .releaseOwner streamId keyId => a.releaseOwner streamId keyId
  | .releaseLink changeId field => a.releaseLink changeId field
  | .releaseChange changeId => a.releaseChange changeId
  | .releaseStream streamId => a.releaseStream streamId
  | .collect candidates => a.orKeep ((a.collect candidates).map Prod.fst)
  | .reclaim => a.orKeep ((a.collect (a.collection.take 16)).map Prod.fst)

/-- A store without content, of these segmented conversations. -/
def fresh (segmented : List String) : Archive where
  db := { segmented := segmented }

end Archive

end Content
end FutureOs
