import FutureOs.Content.Database
import Mathlib.Data.List.Sort
import Mathlib.Data.List.Dedup

/-!
# The physical codec of the event stream

`session/content/compact.rs` and `symbols.rs`.  A change is stored in parts: its
identifiers are symbols of the stream, the fields its neighbours share are an
immutable context, range fields that follow from the cursor and the body are
flags, and the rest is the remainder of its metadata.  `publish` writes the parts
and `readEncoded` with `EncodedPage.decode` puts them together again.
-/

namespace FutureOs
namespace Content

/-- `KINDS`: frozen, wire-independent codes. -/
def kinds : List String :=
  ["agent_start", "agent_end", "message_start", "message_end", "text_start",
    "text_chunk", "text_end", "thinking_start", "thinking_delta", "thinking_end",
    "tool_start", "tool_delta", "tool_input_end", "tool_end", "tool_result", "usage",
    "model_changed", "tool_sandboxed"]

/-- `kind_code`: the place in the list, counted from one, or zero. -/
def kindCode (kind : String) : Nat :=
  match kinds.idxOf? kind with
  | some i => i + 1
  | none => 0

/-- The generated column `event_type`. -/
def ChangeRow.eventType (row : ChangeRow) : String :=
  match row.eventKind with
  | 0 => row.unknownKind.getD ""
  | code + 1 => kinds.getD code ""

/-- The fields of the data that belong to the context. -/
def contextFields : List String :=
  ["type", "entry_id", "tool_id", "tool_name", "tool_type", "tc_index",
    "content_key", "block_id"]

/-- `symbols::FIELDS`. -/
def symbolFields : List String :=
  ["entry_id", "tool_id", "content_key", "block_id", "tool_name", "tool_type"]

/-- The range fields that follow from the row: flag, name, value. -/
def rangeFields (range : ContentRange) (firstCursor : Int) : List (Nat × String × Int) :=
  [(1, "content_offset", range.offset), (2, "content_bytes", range.length),
    (4, "content_first_idx", firstCursor)]

/-! ## Encode -/

/-- Replace the range fields that have their derived value by flags. -/
def takeRangeFields : List (Nat × String × Int) → List (String × Json) → Nat →
    List (String × Json) × Nat
  | [], data, flags => (data, flags)
  | (bit, key, expected) :: rest, data, flags =>
      if (Fields.lookup key data).bind Json.asI64? = some expected then
        takeRangeFields rest (Fields.erase key data) (flags ||| bit)
      else
        takeRangeFields rest data flags

/-- Split the metadata into the shared (stable) fields and the remainder. -/
def splitStable (metadata : Json) : List (String × Json) × Json :=
  match metadata with
  | .obj object =>
      let (object, stable) := Fields.moveFields ["run_sequence"] object []
      match (Fields.lookup "data" object).bind Json.asObject? with
      | some data =>
          let (data, context) := Fields.moveFields contextFields data []
          let object := Fields.insert "data" (.obj data) object
          if context = [] then
            (stable, .obj object)
          else
            (Fields.insert "data" (.obj context) stable, .obj object)
      | none => (stable, .obj object)
  | other => ([], other)

def takeFlags (change : Change) (direct : Option FieldBody) (remainder : Json) :
    Json × Nat :=
  match direct, remainder with
  | some body, .obj object =>
      match (Fields.lookup "data" object).bind Json.asObject? with
      | some data =>
          let (data, flags) :=
            takeRangeFields (rangeFields body.range change.firstCursor) data 0
          (.obj (Fields.insert "data" (.obj data) object), flags)
      | none => (remainder, 0)
  | _, _ => (remainder, 0)

def optionalStr : Option String → Json
  | some s => .str s
  | none => .null

/-- `compact::encode`: the descriptor, the remainder and the flags. -/
def encode (change : Change) (direct : Option FieldBody) : Json × Json × Nat :=
  let (stable, remainder) := splitStable change.metadata
  let (remainder, flags) := takeFlags change direct remainder
  let field := direct.map FieldBody.field
  let encoding := direct.map fun body => body.encoding.name
  (.arr [.obj stable, optionalStr field, optionalStr encoding,
    .num (.posInt (kindCode change.eventType))], remainder, flags)

/-! ## Symbols -/

/-- `symbols::intern_value`. -/
def internValue (pf : Platform) (db : Database) (streamId : Nat) (value : String) :
    Except String (Database × Nat) := do
  ensure (strLen value ≤ changeMetadataBytes) "stream symbol exceeds byte budget"
  let stored := StoredIdentity.key pf value
  match db.symbols.find? fun row => row.streamId = streamId ∧ row.value = stored with
  | some row => pure (db, row.1)
  | none => pure (db.insertSymbol { streamId := streamId, value := stored })

/-- The loop of `symbols::intern`: the data, the symbol map and the symbol bytes. -/
def internFields (pf : Platform) (streamId : Nat) : List String → Database →
    List (String × Json) → List (String × Json) → Nat →
    Except String (Database × List (String × Json) × List (String × Json) × Nat)
  | [], db, data, symbols, bytes => pure (db, data, symbols, bytes)
  | field :: fields, db, data, symbols, bytes =>
      match (Fields.lookup field data).bind Json.asStr? with
      | none => internFields pf streamId fields db data symbols bytes
      | some value => do
          let (db, id) ← internValue pf db streamId value
          internFields pf streamId fields db (Fields.erase field data)
            (Fields.insert field (.num (.posInt id)) symbols) (bytes + strLen value)

/-- `symbols::intern`. -/
def intern (pf : Platform) (db : Database) (streamId : Nat) (descriptor : Json) :
    Except String (Database × Json × Nat) := do
  match descriptor with
  | .arr [.obj stable, field, encoding, kind] =>
      let (db, stable, symbols, bytes) ←
        match (Fields.lookup "data" stable).bind Json.asObject? with
        | some data => do
            let (db, data, symbols, bytes) ←
              internFields pf streamId symbolFields db data [] 0
            pure (db, Fields.insert "data" (.obj data) stable, symbols, bytes)
        | none => pure (db, stable, [], 0)
      let encoded := Json.arr [.obj stable, field, encoding, .obj symbols, kind]
      ensure (encoded.compactLen ≤ changeMetadataBytes ∧ bytes ≤ changeMetadataBytes)
        "context exceeds symbol budget"
      pure (db, encoded, bytes)
  | _ => .error "invalid context descriptor shape"

/-! ## Publish -/

/-- `compact::context`: reuse the stream's context with this descriptor, or add it. -/
def contextId (pf : Platform) (db : Database) (streamId : Nat) (descriptor : Json)
    (symbolBytes : Nat) : Except String (Database × Nat) := do
  let candidates := (db.contexts.rows.filter fun row =>
    row.2.streamId = streamId ∧ pf.digest row.2.descriptor = pf.digest descriptor).take 9
  ensure (candidates.length < 9) "stream context digest collision budget exceeded"
  match candidates.find? fun row => row.2.descriptor = descriptor with
  | some row => pure (db, row.1)
  | none =>
      db.insertContext {
        streamId := streamId
        descriptor := descriptor
        symbolBytes := symbolBytes }

/-- The single body of a change. -/
def directBody : List FieldBody → Option FieldBody
  | [body] => some body
  | _ => none

/-- `publish` of a change whose last cursor is new. -/
def publishNew (pf : Platform) (db : Database) (streamId : Nat) (change : Change)
    (bodies : List FieldBody) : Except String Database := do
  let direct := directBody bodies
  let (descriptor, metadata, flags) := encode change direct
  let (db, descriptor, symbolBytes) ← intern pf db streamId descriptor
  let (db, context) ← contextId pf db streamId descriptor symbolBytes
  let code := kindCode change.eventType
  let row : ChangeRow := {
    streamId := streamId
    contextId := context
    firstCursor := change.firstCursor
    lastCursor := change.lastCursor
    eventKind := code
    unknownKind := if code = 0 then some change.eventType else none
    flags := flags
    metadata := metadata
    direct := direct.map FieldBody.range }
  db.insertChange row (if direct.isNone then bodies else [])

/-! ## Read -/

/-- `compact::Row`: a change row with its generated event type. -/
structure EncodedRow where
  id : Nat
  context : Nat
  first : Int
  last : Int
  kind : String
  flags : Nat
  metadata : Json
  direct : Option ContentRange
deriving DecidableEq

/-- `EncodedPage`: raw rows, contexts, symbols and links of some changes. -/
structure EncodedPage where
  rows : List EncodedRow := []
  contexts : List (Nat × Nat × Json) := []
  symbols : List (Nat × Nat × String) := []
  links : List (Nat × List FieldBody) := []

/-- Add up the bytes of a page, within its budget. -/
def chargeAll (message : String) : List Nat → Nat → Except String Nat
  | [], bytes => pure bytes
  | n :: rest, bytes => do
      ensure (bytes + n ≤ readBytes) message
      chargeAll message rest (bytes + n)

/-- A row joined with its context: same stream, same kind. -/
def encodedRow (db : Database) (id : Nat) (row : ChangeRow) :
    Except String EncodedRow := do
  let joined := (db.contexts.lookup row.contextId).filter fun context =>
    context.streamId = row.streamId ∧
      eventKindOf context.descriptor = some row.eventKind
  ensure (joined.isSome = true) "Invalid column type Null at index: 10, name: id"
  pure {
    id := id
    context := row.contextId
    first := row.firstCursor
    last := row.lastCursor
    kind := row.eventType
    flags := row.flags
    metadata := row.metadata
    direct := row.direct }

def encodedRows (db : Database) : List (Nat × ChangeRow) →
    Except String (List EncodedRow)
  | [] => pure []
  | (id, row) :: rows => do
      let first ← encodedRow db id row
      let rest ← encodedRows db rows
      pure (first :: rest)

/-- The links of a change, in the order of their fields. -/
def linkBodies (links : List (String × LinkRow)) : List FieldBody :=
  links.map fun link =>
    { field := link.1, range := link.2.range, encoding := link.2.encoding }

/-- `symbols::read`: the dictionary entries the contexts refer to. -/
def readSymbols (pf : Platform) (db : Database) (contexts : List (Nat × Nat × Json)) :
    List (Nat × Nat × String) :=
  let refs := contexts.flatMap fun context =>
    (symbolRefs context.2.2).filterMap fun ref => referenceId ref.2
  refs.dedup.filterMap fun id =>
    (db.symbols.lookup id).map fun row =>
      (id, row.streamId, row.value.wire pf)

/-- `compact::read_encoded`. -/
def readEncoded (pf : Platform) (db : Database) (ids : List Nat) :
    Except String EncodedPage := do
  ensure (ids.length ≤ 257) "change selection exceeds page budget"
  let selected := ids.filterMap fun id =>
    (db.changes.lookup id).map fun row => (id, row)
  let rows ← encodedRows db selected
  let bytes ← chargeAll "change page exceeds metadata byte budget"
    (rows.map fun row => row.metadata.compactLen) 0
  let contexts := (selected.map fun row => row.2.contextId).dedup.filterMap fun id =>
    (db.contexts.lookup id).map fun context =>
      (id, context.streamId, context.descriptor)
  let bytes ← chargeAll "change page exceeds context byte budget"
    (contexts.map fun context => context.2.2.compactLen) bytes
  let links := selected.map fun row => (row.1, linkBodies row.2.links)
  let bytes ← chargeAll "change page exceeds field byte budget"
    (links.flatMap fun entry => entry.2.map fun body => strLen body.field + 64) bytes
  let symbols := readSymbols pf db contexts
  let _ ← chargeAll "change page exceeds symbol byte budget"
    (symbols.map fun symbol => strLen symbol.2.2) bytes
  pure { rows := rows, contexts := contexts, symbols := symbols, links := links }

/-! ## Decode -/

/-- Put fields back that must not be there yet. -/
def putFields (message : String) : List (String × Json) → List (String × Json) →
    Except String (List (String × Json))
  | [], object => pure object
  | (key, value) :: rest, object => do
      ensure (Fields.lookup key object = none) message
      putFields message rest (Fields.insert key value object)

/-- The loop of `symbols::restore`. -/
def restoreFields (streamId : Nat) (symbols : List (Nat × Nat × String)) :
    List (String × Json) → List (String × Json) → Except String (List (String × Json))
  | [], stable => pure stable
  | (field, id) :: rest, stable => do
      ensure (field ∈ symbolFields) "unknown context symbol field"
      let id ← context (referenceId id) "invalid symbol ID"
      let (owner, value) ← context (Fields.lookup id symbols) "missing stream symbol"
      ensure (owner = streamId) "context symbol belongs to another stream"
      let data ← context ((Fields.lookup "data" stable).bind Json.asObject?)
        "missing context data"
      ensure (Fields.lookup field data = none) "overlapping symbol field"
      restoreFields streamId symbols rest
        (Fields.insert "data" (.obj (Fields.insert field (.str value) data)) stable)

/-- `symbols::restore`, on the parts of a descriptor `decode` looks at. -/
def restore (streamId : Nat) (symbols : List (Nat × Nat × String)) (descriptor : Json) :
    Except String (Json × Json × Json) := do
  match descriptor with
  | .arr (stable :: field :: encoding :: references :: _) =>
      let references ← context references.asObject? "missing context symbol map"
      let fields ← context stable.asObject? "invalid stream context"
      let fields ← restoreFields streamId symbols references fields
      pure (.obj fields, field, encoding)
  | _ => .error "missing context symbol map"

/-- Put the stable fields back. -/
def putStable : List (String × Json) → List (String × Json) →
    Except String (List (String × Json))
  | [], object => pure object
  | (key, value) :: rest, object => do
      if key = "data" then
        let data ← context ((Fields.lookup "data" object).bind Json.asObject?)
          "missing change data"
        let fields ← context value.asObject? "invalid context data"
        let data ← putFields "overlapping context field" fields data
        putStable rest (Fields.insert "data" (.obj data) object)
      else
        ensure (Fields.lookup key object = none) "overlapping context field"
        putStable rest (Fields.insert key value object)

/-- Put the range fields back that the flags stand for. -/
def putRangeFields (flags : Nat) : List (Nat × String × Int) → List (String × Json) →
    Except String (List (String × Json))
  | [], data => pure data
  | (bit, key, value) :: rest, data => do
      if flags &&& bit ≠ 0 then
        ensure (Fields.lookup key data = none) "overlapping range field"
        putRangeFields flags rest (Fields.insert key (.ofInt value) data)
      else
        putRangeFields flags rest data

/-- `compact::decode`. -/
def decode (stable remainder : Json) (flags : Nat) (first : Int)
    (direct : Option ContentRange) : Except String Json := do
  let stable ← context stable.asObject? "invalid stream context"
  let object ← context remainder.asObject? "invalid change metadata"
  let object ← putStable stable object
  if flags ≠ 0 then
    let range ← context direct "range flags without direct body"
    let data ← context ((Fields.lookup "data" object).bind Json.asObject?)
      "missing range data"
    let data ← putRangeFields flags (rangeFields range first) data
    pure (.obj (Fields.insert "data" (.obj data) object))
  else
    pure (.obj object)

/-- The contexts of a page with their symbols in place. -/
def parseContexts (symbols : List (Nat × Nat × String)) : List (Nat × Nat × Json) →
    Except String (List (Nat × Json × Json × Json))
  | [] => pure []
  | (id, streamId, raw) :: rest => do
      let descriptor ← restore streamId symbols raw
      let rest ← parseContexts symbols rest
      pure ((id, descriptor) :: rest)

/-- One row of `EncodedPage::decode`. -/
def decodeRowOf (parsed : List (Nat × Json × Json × Json))
    (links : List (Nat × List FieldBody)) (row : EncodedRow) :
    Except String StoredChange := do
  let (stable, field, encoding) ← context (Fields.lookup row.context parsed)
    "missing immutable stream context"
  let linked := (Fields.lookup row.id links).getD []
  let bodies ← match row.direct with
    | some range => do
        ensure (linked = []) "direct body has extra field links"
        let field ← context field.asStr? "missing direct field"
        let name ← context encoding.asStr? "missing direct encoding"
        let encoding ← Encoding.parse name
        pure [{ field := field, range := range, encoding := encoding : FieldBody }]
    | none => pure linked
  let metadata ← decode stable row.metadata row.flags row.first row.direct
  pure {
    firstCursor := row.first
    lastCursor := row.last
    eventType := row.kind
    metadata := metadata
    bodies := bodies }

def decodeRows (parsed : List (Nat × Json × Json × Json))
    (links : List (Nat × List FieldBody)) : List EncodedRow →
    Except String (List StoredChange)
  | [] => pure []
  | row :: rows => do
      let first ← decodeRowOf parsed links row
      let rest ← decodeRows parsed links rows
      pure (first :: rest)

/-- `EncodedPage::decode`. -/
def EncodedPage.decode (page : EncodedPage) : Except String (List StoredChange) := do
  let parsed ← parseContexts page.symbols page.contexts
  decodeRows parsed page.links page.rows

/-- `compact::read_ids`. -/
def readIds (pf : Platform) (db : Database) (ids : List Nat) :
    Except String (List StoredChange) := do
  let page ← readEncoded pf db ids
  page.decode

/-- `sort_by(|a, b| a.0.cmp(&b.0))`. -/
def sortBodies (bodies : List FieldBody) : List FieldBody :=
  bodies.insertionSort fun a b => a.field ≤ b.field

/-- `publish` of a change whose last cursor is taken: a retry, or a conflict. -/
def publishAgain (pf : Platform) (db : Database) (id : Nat) (change : Change)
    (bodies : List FieldBody) : Except String Database := do
  let prior ← readIds pf db [id]
  let prior ← context prior.getLast? "missing retry change"
  ensure (prior.firstCursor = change.firstCursor ∧
      prior.eventType = change.eventType ∧ prior.metadata = change.metadata)
    "conflicting semantic change retry"
  ensure (sortBodies prior.bodies = sortBodies bodies)
    "conflicting semantic content link"
  pure db

/-- `compact::publish`. -/
def publish (pf : Platform) (db : Database) (streamId : Nat) (change : Change)
    (bodies : List FieldBody) : Except String Database := do
  ensure (bodies.length ≤ 128) "change field budget exceeded"
  match db.changeAt streamId change.lastCursor with
  | some (id, _) => publishAgain pf db id change bodies
  | none => publishNew pf db streamId change bodies

end Content
end FutureOs
