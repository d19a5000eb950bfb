import FutureOs.Content.Compact

/-!
# Stream writes

`session/content/stream.rs` and `stream_body.rs`: `commitBatch` stages the bodies
of a stream and publishes its changes, `appendBoundary` publishes one change
without a body.  Both are transactions on the tables; the durable cursor is the
last cursor that has been published.
-/

namespace FutureOs
namespace Content

/-- `ContentAppend`; `digest` is its field `seal`. -/
structure ContentAppend where
  key : String
  offset : Int
  text : Text
  digest : Option ContentDigest := none

/-! ## The stream and its body owners -/

namespace Database

variable (db : Database)

/-- The stream of an identity. -/
def streamOf (stream : StreamIdentity) : Option (Nat × StreamRow) :=
  db.streams.find? fun row => row.identity = stream

/-- `stream_id`: the stream's row, added when it is new. -/
def streamId (stream : StreamIdentity) : Except String (Database × Nat) := do
  ensure (stream.sessionId ∈ db.segmented) "conversation does not use segmented storage"
  let (db, id) :=
    match db.streamOf stream with
    | some row => (db, row.1)
    | none =>
        ({ db with
            streams := db.streams.insert db.streams.nextId { identity := stream } },
          db.streams.nextId)
  ensure (id ∉ db.retired) "Query returned no rows"
  pure (db, id)

/-- The row with the greatest last cursor. -/
def lastOf : List (Nat × ChangeRow) → Option ChangeRow
  | [] => none
  | (_, row) :: rows =>
      match lastOf rows with
      | some last => if last.lastCursor < row.lastCursor then some row else some last
      | none => some row

/-- `… WHERE stream_id=?1 ORDER BY last_cursor DESC LIMIT 1`. -/
def lastChange (streamId : Nat) : Option ChangeRow :=
  lastOf (db.changes.rows.filter fun row => row.2.streamId = streamId)

/-- `stream_body::closed`. -/
def closed (streamId : Nat) : Bool :=
  (db.lastChange streamId).any fun row => row.eventKind = 2

/-- The symbol of a text, where the stream has it. -/
def symbolOf (pf : Platform) (streamId : Nat) (value : String) : Option Nat :=
  (db.symbols.find? fun row =>
    row.streamId = streamId ∧ row.value = StoredIdentity.key pf value).map Prod.fst

/-- The owner with this key, of a stream. -/
def ownerAt (streamId keyId : Nat) : Option OwnerRow :=
  (db.streams.lookup streamId).bind fun stream => stream.owners.lookup keyId

/-- `stream_body::get_in`. -/
def getOwner (pf : Platform) (streamId : Nat) (key : String) : Option OwnerRow :=
  (db.symbolOf pf streamId key).bind (db.ownerAt streamId)

/-- Write the owner with this key. -/
def setOwner (streamId keyId : Nat) (owner : OwnerRow) : Database :=
  match db.streams.lookup streamId with
  | some stream =>
      let stream := { stream with owners := stream.owners.insert keyId owner }
      { db with streams := db.streams.insert streamId stream }
  | none => db

/-- `stream_body::bind_in`. -/
def bindOwner (pf : Platform) (streamId : Nat) (key : String) (range : ContentRange)
    (encoding : Encoding) : Except String Database := do
  let (db, keyId) ← internValue pf db streamId key
  match db.ownerAt streamId keyId with
  | some old =>
      ensure (old = { range := range, encoding := encoding })
        "conflicting stream body reference"
      pure db
  | none =>
      ensure (db.closed streamId = false) "terminal stream cannot stage a new content owner"
      ensure (db.AdmitsRange range) "FOREIGN KEY constraint failed"
      pure (db.setOwner streamId keyId { range := range, encoding := encoding })

/-- `stream_body::extend_in`. -/
def extendOwner (pf : Platform) (streamId : Nat) (key : String) (body : Nat) (next : Int) :
    Except String Database := do
  let keyId ← context (db.symbolOf pf streamId key) "staged stream body owner changed"
  let owner ← context ((db.ownerAt streamId keyId).filter fun owner => owner.range.id = body)
    "staged stream body owner changed"
  ensure (next ≤ owner.range.length ∨ db.closed streamId = false)
    "terminal stream cannot extend content"
  let range := { owner.range with length := max owner.range.length next }
  pure (db.setOwner streamId keyId { owner with range := range })

end Database

/-! ## `commit_batch` -/

/-- The loop over the appends. -/
def stagePiece (codec : Codec) (pf : Platform) (streamId : Nat) (closed : Bool)
    (piece : ContentAppend) (db : Database) : Except String Database := do
  let owner := db.getOwner pf streamId piece.key
  ensure (∀ row ∈ owner, row.encoding = .text) "stream append encoding changed"
  let prior := owner.map OwnerRow.range
  if closed = true then
    let finish ← context (checkedAdd piece.offset (Utf8.size piece.text))
      "content range overflow"
    ensure (∃ range ∈ prior, finish ≤ range.length) "terminal stream cannot extend content"
  let (objects, body) :=
    match prior with
    | some range => (db.objects, range.id)
    | none => (db.objects.create (Fields.nextKey db.objects), Fields.nextKey db.objects)
  let (objects, range) ← objects.append codec body piece.offset piece.text
  let db := { db with objects := objects }
  let finish ← context (checkedAdd range.offset range.length) "content range overflow"
  let db ← match prior with
    | some prior => db.extendOwner pf streamId piece.key body (max prior.length finish)
    | none =>
        db.bindOwner pf streamId piece.key { id := body, offset := 0, length := finish } .text
  match piece.digest with
  | some digest => do
      let (objects, _) ← db.objects.sealBody codec body digest
      pure { db with objects := objects }
  | none => pure db

def stagePieces (codec : Codec) (pf : Platform) (streamId : Nat) (closed : Bool) :
    List ContentAppend → Database → Except String Database
  | [], db => pure db
  | piece :: pieces, db => do
      let db ← stagePiece codec pf streamId closed piece db
      stagePieces codec pf streamId closed pieces db

/-- The body a link of a change stands for. -/
def resolveLink (pf : Platform) (db : Database) (streamId : Nat) (metadata : Json)
    (link : BodyLink) : Except String FieldBody := do
  ensure (metadata.pointer? link.field ≠ none) "content link does not name a metadata field"
  let owner ← context (db.getOwner pf streamId link.key)
    "semantic change references missing content"
  let finish ← context (checkedAdd link.offset link.length) "content link overflow"
  ensure (0 ≤ link.offset ∧ 0 ≤ link.length ∧ finish ≤ owner.range.length)
    "semantic content link exceeds committed body"
  pure {
    field := link.field
    range := { id := owner.range.id, offset := link.offset, length := link.length }
    encoding := link.encoding }

def resolveLinks (pf : Platform) (db : Database) (streamId : Nat) (metadata : Json) :
    List BodyLink → Except String (List FieldBody)
  | [] => pure []
  | link :: links => do
      let body ← resolveLink pf db streamId metadata link
      let bodies ← resolveLinks pf db streamId metadata links
      pure (body :: bodies)

/-- One round of the loop over the changes. -/
def publishChange (pf : Platform) (streamId : Nat) (cursor : Int) (change : Change)
    (db : Database) : Except String (Database × Int) := do
  ensure (0 ≤ change.firstCursor ∧ change.firstCursor ≤ change.lastCursor)
    "invalid change cursor range"
  ensure (db.changeAt streamId change.lastCursor ≠ none ∨ change.firstCursor = cursor + 1)
    "semantic change has a gap or conflicting overlap"
  let bodies ← resolveLinks pf db streamId change.metadata change.bodies
  let db ← publish pf db streamId change bodies
  pure (db, max cursor change.lastCursor)

def publishChanges (pf : Platform) (streamId : Nat) :
    List Change → Int → Database → Except String (Database × Int)
  | [], cursor, db => pure (db, cursor)
  | change :: changes, cursor, db => do
      let (db, cursor) ← publishChange pf streamId cursor change db
      publishChanges pf streamId changes cursor db

namespace Database

/-- `SELECT durable_cursor FROM stream_runs`. -/
def durableCursor (db : Database) (streamId : Nat) : Except String Int :=
  (context (db.streams.lookup streamId) "Query returned no rows").map
    StreamRow.durableCursor

def setDurableCursor (db : Database) (streamId : Nat) (cursor : Int) : Database :=
  match db.streams.lookup streamId with
  | some stream =>
      { db with
        streams := db.streams.insert streamId { stream with durableCursor := cursor } }
  | none => db

end Database

/-- `commit_batch`: the transaction's database and the durable cursor. -/
def commitBatch (codec : Codec) (pf : Platform) (db : Database) (stream : StreamIdentity)
    (appends : List ContentAppend) (changes : List Change) :
    Except String (Database × Int) := do
  ensure ((appends.map fun piece => Utf8.size piece.text).sum ≤ writeBytes ∧
      changes.length ≤ changesPerBatch ∧ appends.length ≤ changesPerBatch)
    "semantic write batch exceeds budget"
  ensure ((changes.map fun change => change.metadata.compactLen).sum ≤ changeMetadataBytes)
    "semantic metadata batch exceeds budget"
  let (db, id) ← db.streamId stream
  let closed := (db.lastChange id).filter fun row => row.eventType = "agent_end"
  ensure (∀ row ∈ closed, ∀ change ∈ changes, change.lastCursor ≤ row.lastCursor)
    "run stream is already terminal"
  ensure (closed = none ∨ changes ≠ [] ∨ appends.isEmpty = true)
    "terminal stream cannot stage new content"
  let db ← stagePieces codec pf id closed.isSome appends db
  let cursor ← db.durableCursor id
  let (db, cursor) ← publishChanges pf id changes cursor db
  pure (db.setDurableCursor id cursor, cursor)

/-- `append_boundary`. -/
def appendBoundary (pf : Platform) (db : Database) (stream : StreamIdentity)
    (eventType : String) (metadata : Json) : Except String (Database × Int) := do
  ensure (metadata.compactLen ≤ changeMetadataBytes) "boundary metadata exceeds budget"
  let (db, id) ← db.streamId stream
  let cursor ← db.durableCursor id
  let change : Change := {
    firstCursor := cursor + 1
    lastCursor := cursor + 1
    eventType := eventType
    metadata := metadata }
  let db ← publish pf db id change []
  pure (db.setDurableCursor id (cursor + 1), cursor + 1)

end Content
end FutureOs
