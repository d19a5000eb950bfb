import FutureOs.Content.Stream

/-!
# Folding a settled run

`fold_settled_run` of `session/content/journal.rs` reads the delta rows of a run in
the order of their contexts and writes each group of neighbours that continue one
another as a single row.
-/

namespace FutureOs
namespace Content

/-! ## Delta metadata -/

/-- `object_eq`: equal in every field that is not skipped. -/
def objectEq (skip : List String)
    (fieldEq : String → Option Json → Option Json → Bool) (left right : Json) : Bool :=
  match left, right with
  | .obj l, .obj r =>
      ((l.map Prod.fst ++ r.map Prod.fst).filter fun key => key ∉ skip).all fun key =>
        fieldEq key (Fields.lookup key l) (Fields.lookup key r)
  | left, right => left = right

/-- `same_delta_metadata`: equal up to the clock and the range fields. -/
def sameDeltaMetadata : Json → Json → Bool :=
  objectEq ["timestamp"] fun key a b =>
    match a, b with
    | some a, some b =>
        if key = "data" then
          objectEq ["content_offset", "content_bytes", "content_first_idx"]
            (fun _ a b => a = b) a b
        else
          a = b
    | a, b => a = b

/-- `metadata["data"]["snapshot"] == true`. -/
def isSnapshot (metadata : Json) : Bool :=
  ((metadata.get? "data").bind fun data => data.get? "snapshot") = some (.bool true)

/-! ## The rows -/

/-- `FoldRow`. -/
structure FoldRow where
  id : Nat
  eventType : String
  firstCursor : Int
  lastCursor : Int
  contentId : Nat
  byteOffset : Int
  byteLength : Int
  flags : Nat
  metadata : Json
deriving DecidableEq

/-- The columns of a row with a single body. -/
def toFoldRow (entry : Nat × ChangeRow) : Option FoldRow :=
  entry.2.direct.map fun range => {
    id := entry.1
    eventType := entry.2.eventType
    firstCursor := entry.2.firstCursor
    lastCursor := entry.2.lastCursor
    contentId := range.id
    byteOffset := range.offset
    byteLength := range.length
    flags := entry.2.flags
    metadata := entry.2.metadata }

/-- `ORDER BY r.id,c.context_id,c.event_kind,c.last_cursor`. -/
def FoldsBefore (a b : ChangeRow) : Prop :=
  a.streamId < b.streamId ∨ a.streamId = b.streamId ∧
    (a.contextId < b.contextId ∨ a.contextId = b.contextId ∧
      (a.eventKind < b.eventKind ∨ a.eventKind = b.eventKind ∧
        a.lastCursor ≤ b.lastCursor))

instance (a b : ChangeRow) : Decidable (FoldsBefore a b) :=
  inferInstanceAs (Decidable (_ ∨ _ ∧ (_ ∨ _ ∧ (_ ∨ _ ∧ _))))

/-- A row of the run, without links, of a stream that is not retired. -/
def Foldable (db : Database) (sessionId runId : String) (row : ChangeRow) : Prop :=
  (∃ stream ∈ db.streams.lookup row.streamId,
    stream.identity.sessionId = sessionId ∧ stream.identity.runId = runId) ∧
  row.direct ≠ none ∧ row.links = [] ∧ row.streamId ∉ db.retired

instance (db : Database) (sessionId runId : String) (row : ChangeRow) :
    Decidable (Foldable db sessionId runId row) :=
  inferInstanceAs (Decidable (_ ∧ _ ∧ _ ∧ _))

/-- The rows of a run that folding looks at, in its order. -/
def foldEntries (db : Database) (sessionId runId : String) : List (Nat × ChangeRow) :=
  (db.changes.rows.filter fun entry => Foldable db sessionId runId entry.2).insertionSort
    fun a b => FoldsBefore a.2 b.2

def deltaKinds : List String := ["text_chunk", "thinking_delta", "tool_delta"]

/-- The test that `row` continues `prior`. -/
def merges (prior row : FoldRow) : Bool :=
  prior.eventType = row.eventType ∧ row.eventType ∈ deltaKinds ∧
    prior.contentId = row.contentId ∧ prior.flags = row.flags ∧
    prior.lastCursor + 1 = row.firstCursor ∧
    prior.byteOffset + prior.byteLength = row.byteOffset ∧
    isSnapshot prior.metadata = false ∧ isSnapshot row.metadata = false ∧
    sameDeltaMetadata prior.metadata row.metadata = true

/-! ## Collapsing a group -/

/-- The three range fields of a merged span, set in its data. -/
def withSpan (metadata : Json) (offset span firstCursor : Int) : Json :=
  match metadata with
  | .obj object =>
      match (Fields.lookup "data" object).bind Json.asObject? with
      | some data =>
          let data := Fields.insert "content_offset" (.ofInt offset) data
          let data := Fields.insert "content_bytes" (.ofInt span) data
          let data := Fields.insert "content_first_idx" (.ofInt firstCursor) data
          .obj (Fields.insert "data" (.obj data) object)
      | none => metadata
  | other => other

namespace Database

/-- `DELETE FROM stream_changes`, one row after the other. -/
def deleteChanges (db : Database) (ids : List Nat) : Database :=
  { db with changes := ids.foldl Table.erase db.changes }

/-- `UPDATE stream_changes SET …,flags=flags&~7`, with the checks of the table. -/
def updateChange (db : Database) (id : Nat) (lastCursor span : Int) (metadata : Json) :
    Except String Database := do
  match db.changes.lookup id with
  | none => pure db
  | some row =>
      let updated := { row with
        lastCursor := lastCursor
        direct := row.direct.map fun range => { range with length := span }
        metadata := metadata
        flags := row.flags / 8 * 8 }
      ensure (updated.WellFormed ∧ 0 ≤ span) "CHECK constraint failed: stream_changes"
      ensure (∀ found ∈ db.changeAt row.streamId lastCursor, found.1 = id)
        "UNIQUE constraint failed: stream_changes.stream_id, stream_changes.last_cursor"
      pure { db with changes := db.changes.insert id updated }

end Database

/-- `collapse`: a group of at least two rows becomes its first. -/
def collapse (db : Database) (rows : List FoldRow) : Except String (Database × Nat) := do
  match rows with
  | survivor :: next :: rest =>
      let last := (next :: rest).getLastD next
      let span := last.byteOffset + last.byteLength - survivor.byteOffset
      let metadata := withSpan last.metadata survivor.byteOffset span survivor.firstCursor
      let db := db.deleteChanges ((next :: rest).map FoldRow.id)
      let db ← db.updateChange survivor.id last.lastCursor span metadata
      pure (db, (next :: rest).length)
  | _ => pure (db, 0)

/-- The loop: the group so far, and how many rows are gone. -/
def foldLoop (group : List FoldRow) : List FoldRow → Database → Nat →
    Except String (Database × Nat)
  | [], db, deleted => do
      let (db, count) ← collapse db group
      pure (db, deleted + count)
  | row :: rows, db, deleted =>
      if group.getLast?.any (fun prior => merges prior row) = true then
        foldLoop (group ++ [row]) rows db deleted
      else do
        let (db, count) ← collapse db group
        foldLoop [row] rows db (deleted + count)

/-- `fold_settled_run`: the rows looked at, and those left of them. -/
def foldSettledRun (db : Database) (sessionId runId : String) :
    Except String (Database × Nat × Nat) := do
  ensure ((sessionId, runId) ∈ db.settled) "run is not settled"
  let rows := (foldEntries db sessionId runId).filterMap toFoldRow
  let (db, deleted) ← foldLoop [] rows db 0
  pure (db, rows.length, rows.length - deleted)

end Content
end FutureOs
