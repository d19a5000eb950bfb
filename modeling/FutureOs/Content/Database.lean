import FutureOs.Content.Store
import FutureOs.Lib.Json
import FutureOs.Lib.Table

/-!
# The stream tables

The tables behind a run's event stream (`session/content/schema.sql`), keyed by
their integer ids, with the checks the schema makes on every insert.  A column
that holds JSON text holds the value here, and its length is that of the compact
text.

What the code takes from libraries is the `Platform`: SHA-256 of a descriptor and
the UUID text format.
-/

namespace FutureOs

/-- Length of a string in bytes. -/
def strLen (s : String) : Nat := Utf8.size s.toList

namespace Content

structure Platform where
  /-- SHA-256 of the compact text of a value. -/
  digest : Json → Bytes
  /-- `Uuid::parse_str` and `Uuid::to_string`, on the 128-bit number. -/
  parseUuid : String → Option Nat
  renderUuid : Nat → String

/-! ## Identities -/

/-- `session::identity::StoredIdentity`. -/
inductive StoredIdentity where
  | uuid (id : Nat)
  | legacy (text : String)
deriving DecidableEq, Repr

namespace StoredIdentity

/-- Only a canonical UUID text becomes a binary identity. -/
def generated (pf : Platform) (wire : String) : Except String StoredIdentity := do
  let id ← context (pf.parseUuid wire) "invalid UUID"
  ensure (pf.renderUuid id = wire) "new identity must be a canonical UUID"
  pure (.uuid id)

def wire (pf : Platform) : StoredIdentity → String
  | .uuid id => pf.renderUuid id
  | .legacy text => text

/-- `symbols::key`. -/
def key (pf : Platform) (wire : String) : StoredIdentity :=
  match generated pf wire with
  | .ok stored => stored
  | .error _ => .legacy wire

/-- Whatever is stored renders as the text it came from. -/
@[simp] theorem wire_key (pf : Platform) (text : String) :
    (key pf text).wire pf = text := by
  unfold key
  cases h : generated pf text with
  | error e =>
      rfl
  | ok stored =>
      unfold generated at h
      obtain ⟨id, -, h⟩ := bind_eq_ok.1 h
      obtain ⟨u, hcanonical, h⟩ := bind_eq_ok.1 h
      obtain rfl := Except.ok.inj h
      exact ensure_eq_ok.1 hcanonical

end StoredIdentity

/-! ## Streams, changes and bodies -/

structure StreamIdentity where
  sessionId : String
  runId : String
  epoch : Int
deriving DecidableEq, Repr

inductive Encoding where
  | text
  | json
  | shellSummary
  | toolArgumentsStringV1
deriving DecidableEq, Repr

namespace Encoding

def name : Encoding → String
  | .text => "text"
  | .json => "json"
  | .shellSummary => "shell_summary"
  | .toolArgumentsStringV1 => "tool_args_string_v1"

def parse (value : String) : Except String Encoding :=
  if value = "text" then .ok .text
  else if value = "json" then .ok .json
  else if value = "shell_summary" then .ok .shellSummary
  else if value = "tool_args_string_v1" then .ok .toolArgumentsStringV1
  else .error "unknown canonical encoding"

@[simp] theorem parse_name (encoding : Encoding) : parse encoding.name = .ok encoding := by
  cases encoding <;> rfl

end Encoding

/-- `compact::Body`: a named body of a change. -/
structure FieldBody where
  field : String
  range : ContentRange
  encoding : Encoding
deriving DecidableEq, Repr

structure BodyLink where
  field : String
  encoding : Encoding
  key : String
  offset : Int
  length : Int
deriving DecidableEq, Repr

structure Change where
  firstCursor : Int
  lastCursor : Int
  eventType : String
  metadata : Json
  bodies : List BodyLink := []
deriving DecidableEq

structure StoredChange where
  firstCursor : Int
  lastCursor : Int
  eventType : String
  metadata : Json
  bodies : List FieldBody
deriving DecidableEq

def changeMetadataBytes : Nat := 16 * 1024
def changesPerBatch : Nat := 128

/-! ## Rows -/

/-- `stream_body_owners`, by the symbol of its key. -/
structure OwnerRow where
  range : ContentRange
  encoding : Encoding
deriving DecidableEq, Repr

/-- `stream_runs`, with the body owners of the stream. -/
structure StreamRow where
  identity : StreamIdentity
  durableCursor : Int := -1
  owners : Table OwnerRow := Table.empty

/-- `stream_symbols`. -/
structure SymbolRow where
  streamId : Nat
  value : StoredIdentity
deriving DecidableEq, Repr

/-- `stream_contexts`; the digest is that of the descriptor. -/
structure ContextRow where
  streamId : Nat
  descriptor : Json
  symbolBytes : Nat
deriving DecidableEq

/-- `stream_change_content`, by its field. -/
structure LinkRow where
  encoding : Encoding
  range : ContentRange
deriving DecidableEq, Repr

/--
`stream_changes`.  `direct` is the range of a change with a single body; `links`
are its rows of `stream_change_content`, which go when it does.
-/
structure ChangeRow where
  streamId : Nat
  contextId : Nat
  firstCursor : Int
  lastCursor : Int
  eventKind : Nat
  unknownKind : Option String
  flags : Nat
  metadata : Json
  direct : Option ContentRange
  links : List (String × LinkRow) := []
deriving DecidableEq

/-- The `CHECK` constraints of `stream_changes`. -/
def ChangeRow.WellFormed (row : ChangeRow) : Prop :=
  0 ≤ row.firstCursor ∧ row.firstCursor ≤ row.lastCursor ∧ row.eventKind ≤ 18 ∧
    (row.eventKind = 0 ↔ row.unknownKind ≠ none) ∧ row.flags ≤ 7 ∧
    row.metadata.compactLen ≤ 16384 ∧ (row.direct = none → row.flags = 0)

instance (row : ChangeRow) : Decidable row.WellFormed :=
  inferInstanceAs (Decidable (_ ∧ _ ∧ _ ∧ _ ∧ _ ∧ _ ∧ _))

/--
The tables.  `segmented` are the sessions whose storage format is 2, `retired` the
streams given up, `settled` the runs whose status is final.
-/
structure Database where
  objects : Store := []
  streams : Table StreamRow := Table.empty
  symbols : Table SymbolRow := Table.empty
  contexts : Table ContextRow := Table.empty
  changes : Table ChangeRow := Table.empty
  segmented : List String := []
  retired : List Nat := []
  settled : List (String × String) := []

/-- `json_extract(descriptor_json,'$[4]')`. -/
def eventKindOf (descriptor : Json) : Option Nat :=
  match descriptor with
  | .arr [_, _, _, _, kind] => kind.asU64?
  | _ => none

/-- The symbol references of a descriptor. -/
def symbolRefs (descriptor : Json) : List (String × Json) :=
  match descriptor with
  | .arr [_, _, _, .obj symbols, _] => symbols
  | _ => []

/-- A row id, as JSON. -/
def referenceId (id : Json) : Option Nat :=
  match id with
  | .num (.posInt n) => some n
  | _ => none

namespace Database

variable (db : Database)

/-- `INSERT INTO stream_symbols`, of a value the stream does not have. -/
def insertSymbol (row : SymbolRow) : Database × Nat :=
  ({ db with symbols := db.symbols.insert db.symbols.nextId row }, db.symbols.nextId)

/-- `INSERT INTO stream_contexts`, with its checks, references and trigger. -/
def insertContext (row : ContextRow) : Except String (Database × Nat) := do
  ensure (row.descriptor.compactLen ≤ 16384 ∧ row.symbolBytes ≤ 16384 ∧
      ∃ kind ∈ eventKindOf row.descriptor, kind ≤ 18)
    "CHECK constraint failed: stream_contexts"
  ensure (∀ ref ∈ symbolRefs row.descriptor,
      ∃ id ∈ referenceId ref.2, ∃ symbol ∈ db.symbols.lookup id,
        symbol.streamId = row.streamId)
    "context symbol belongs to another stream"
  pure ({ db with contexts := db.contexts.insert db.contexts.nextId row },
    db.contexts.nextId)

/-- A range column refers to an object and is not negative. -/
def AdmitsRange (range : ContentRange) : Prop :=
  Fields.lookup range.id db.objects ≠ none ∧ 0 ≤ range.offset ∧ 0 ≤ range.length

instance (range : ContentRange) : Decidable (db.AdmitsRange range) :=
  inferInstanceAs (Decidable (_ ∧ _ ∧ _))

/-- The row of a change with this last cursor. -/
def changeAt (streamId : Nat) (lastCursor : Int) : Option (Nat × ChangeRow) :=
  db.changes.find? fun row => row.streamId = streamId ∧ row.lastCursor = lastCursor

/-- `INSERT INTO stream_change_content`, into the links of a change. -/
def insertLink (links : List (String × LinkRow)) (body : FieldBody) :
    Except String (List (String × LinkRow)) := do
  ensure (body.encoding ∈ [Encoding.text, Encoding.json, Encoding.shellSummary])
    "CHECK constraint failed: encoding IN ('text','json','shell_summary')"
  ensure (db.AdmitsRange body.range) "FOREIGN KEY constraint failed"
  ensure (Fields.lookup body.field links = none)
    "UNIQUE constraint failed: stream_change_content.change_id, stream_change_content.field"
  pure (Fields.insert body.field { encoding := body.encoding, range := body.range } links)

def insertLinks : List FieldBody → List (String × LinkRow) →
    Except String (List (String × LinkRow))
  | [], links => pure links
  | body :: bodies, links => do
      let links ← db.insertLink links body
      insertLinks bodies links

/-- `INSERT INTO stream_changes`, and the links of the new row. -/
def insertChange (row : ChangeRow) (bodies : List FieldBody) :
    Except String Database := do
  ensure row.WellFormed "CHECK constraint failed: stream_changes"
  ensure (∀ range ∈ row.direct, db.AdmitsRange range)
    "FOREIGN KEY constraint failed"
  ensure (∃ context ∈ db.contexts.lookup row.contextId,
      context.streamId = row.streamId ∧
        eventKindOf context.descriptor = some row.eventKind)
    "change context scope or kind mismatch"
  ensure (db.changeAt row.streamId row.lastCursor = none)
    "UNIQUE constraint failed: stream_changes.stream_id, stream_changes.last_cursor"
  let links ← db.insertLinks bodies []
  pure { db with
    changes := db.changes.insert db.changes.nextId { row with links := links } }

end Database

end Content
end FutureOs
