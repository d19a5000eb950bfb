import FutureOs.Lib.Fields
import FutureOs.Lib.Fallible
import FutureOs.Lib.Utf8
import Mathlib.Order.Nat

/-!
# The content store

Canonical UTF-8 content (`session/content/mod.rs`) and the two maintenance passes
over it (`rechunk.rs`, `compress.rs`).  An object is its row of `content_objects`,
its marker in `content_compressed` and its rows of `content_segments`; a store is
its objects by id.  Every writer runs in a transaction, so a failed call leaves
the store as it was.

SHA-256 and gzip are the `Codec`.
-/

namespace FutureOs
namespace Content

open Utf8

def segmentBytes : Nat := 16 * 1024
def writeBytes : Nat := 64 * 1024
def readBytes : Nat := 256 * 1024
def rechunkMaxBodyBytes : Nat := 16384
def compressedChunkBytes : Nat := 8 * 1024
def compressMinBodyBytes : Nat := 512

/-- SHA-256 in hex, `GzEncoder` and `MultiGzDecoder`. -/
structure Codec where
  sha256 : Bytes → String
  encode : Bytes → Bytes
  decode : Bytes → Option Bytes

/-- What gzip promises: decoding gives back what was encoded. -/
def Codec.Lossless (codec : Codec) : Prop :=
  ∀ raw, codec.decode (codec.encode raw) = some raw

/-- `content_compressed.encoding`. -/
inductive BodyEncoding where
  | gzip
  | text
deriving DecidableEq, Repr

/--
One content object.  The schema lets `sha256` be null exactly while the object is
not sealed, so the digest is the seal.
-/
structure Object where
  byteLength : Nat := 0
  sha256 : Option String := none
  encoding : Option BodyEncoding := none
  segments : List (Nat × Bytes) := []
deriving DecidableEq, Repr

abbrev Store := List (Nat × Object)

structure ContentRange where
  id : Nat
  offset : Int
  length : Int
deriving DecidableEq, Repr

structure ContentPage where
  text : Text
  nextOffset : Int
  totalBytes : Int
  isSealed : Bool
deriving DecidableEq, Repr

namespace Object

def isSealed (o : Object) : Bool := o.sha256.isSome

/-- `INSERT INTO content_segments`, with the checks of the schema. -/
def insertSegment (o : Object) (byteOffset : Nat) (body : Bytes) :
    Except String Object := do
  ensure (1 ≤ body.length ∧ body.length ≤ 16384)
    "CHECK constraint failed: length(CAST(body AS BLOB)) BETWEEN 1 AND 16384"
  ensure (Fields.lookup byteOffset o.segments = none)
    "UNIQUE constraint failed: content_segments.content_id, content_segments.byte_offset"
  pure { o with segments := Fields.insert byteOffset body o.segments }

/-- `INSERT INTO content_compressed`. -/
def insertMarker (o : Object) (encoding : BodyEncoding) : Except String Object := do
  ensure (o.encoding = none)
    "UNIQUE constraint failed: content_compressed.content_id"
  pure { o with encoding := some encoding }

def insertSegments : List (Nat × Bytes) → Object → Except String Object
  | [], o => pure o
  | (byteOffset, body) :: rows, o => do
      let o ← o.insertSegment byteOffset body
      insertSegments rows o

end Object

namespace Store

/-- The row of `content_objects`. -/
def objectRow (s : Store) (id : Nat) : Except String Object :=
  context (Fields.lookup id s) "Query returned no rows"

/-- `INSERT INTO content_objects DEFAULT VALUES`; SQLite picks an unused id. -/
def create (s : Store) (id : Nat) : Store :=
  match Fields.lookup id s with
  | some _ => s
  | none => Fields.insert id {} s

end Store

/-- Decode one stored row (`String::from_utf8`, or `compress::decompress`). -/
def decodeRow (codec : Codec) (compressed : Bool) (raw : Bytes) :
    Except String Text := do
  if compressed then
    let plain ← context (codec.decode raw) "corrupt gzip stream"
    context (fromUtf8 plain) "stream did not contain valid UTF-8"
  else
    context (fromUtf8 raw) "invalid utf-8 sequence"

/-- The loop of `read`: the text so far, the next offset, and `utf8_cut`. -/
def readRows (codec : Codec) (compressed : Bool) (finish : Nat) :
    List (Nat × Bytes) → Text → Nat → Except String (Text × Nat × Bool)
  | [], text, next => pure (text, next, false)
  | (start, raw) :: rows, text, next => do
      let body ← decodeRow codec compressed raw
      let last := start + size body
      if last ≤ next then
        readRows codec compressed finish rows text next
      else
        ensure (start ≤ next) "stored content has a gap"
        let first := next - start
        ensure (isBoundary body first = true)
          "content offset is not a UTF-8 boundary"
        let requested := min (finish - start) (size body)
        let upTo := floorBoundary body requested
        let text := text ++ dropBytes first (takeBytes upTo body)
        let next := start + upTo
        if next < last then
          pure (text, next, decide (upTo < requested))
        else
          readRows codec compressed finish rows text next

namespace Store

/-- `content::read`. -/
def read (codec : Codec) (s : Store) (id : Nat) (offset : Int) (maxBytes : Nat) :
    Except String ContentPage := do
  ensure (0 ≤ offset ∧ maxBytes ≤ readBytes) "invalid content read budget"
  let o ← s.objectRow id
  ensure (offset ≤ o.byteLength) "content read starts past durable bytes"
  let finish := (min (saturatingAdd offset maxBytes) o.byteLength).toNat
  let compressed := decide (o.encoding = some .gzip)
  -- look back one segment: a row that reaches `offset` starts no earlier
  let lookback := (max (offset - segmentBytes) 0).toNat
  let rows := o.segments.filter fun row => lookback ≤ row.1 ∧ row.1 < finish
  let (text, next, utf8Cut) ←
    readRows codec compressed finish rows [] offset.toNat
  ensure (¬ (next < finish ∧ utf8Cut = false))
    "stored content is missing its durable tail"
  pure {
    text := text
    nextOffset := next
    totalBytes := o.byteLength
    isSealed := o.isSealed }

/--
The loop of `append`: rows of at most one segment, cut at character boundaries.
Each round writes at least one character, so `fuel = text.len()` is enough.
-/
def writeSegments (offset : Nat) (text : Text) :
    Nat → Nat → Object → Except String Object
  | 0, _, o => pure o
  | fuel + 1, written, o =>
      if written < size text then do
        let finish := floorBoundary text (min (written + segmentBytes) (size text))
        let piece := dropBytes written (takeBytes finish text)
        let o ← o.insertSegment (offset + written) (encode piece)
        writeSegments offset text fuel finish o
      else
        pure o

/-- `content::append`. -/
def append (codec : Codec) (s : Store) (id : Nat) (offset : Int) (text : Text) :
    Except String (Store × ContentRange) := do
  ensure (0 ≤ offset ∧ size text ≤ writeBytes) "invalid content append budget"
  let o ← s.objectRow id
  let finish ← context (checkedAdd offset (size text)) "content offset overflow"
  let range : ContentRange := { id := id, offset := offset, length := size text }
  if offset < o.byteLength ∨ (o.isSealed ∧ finish ≤ o.byteLength) then
    ensure (finish ≤ o.byteLength) "content append overlaps the committed tail"
    let existing ← s.read codec id offset (size text)
    ensure (existing.text = text) "conflicting content append"
    pure (s, range)
  else
    ensure (o.isSealed = false ∧ offset = o.byteLength)
      "content is sealed or append has a gap"
    let o ← writeSegments offset.toNat text (size text) 0 o
    pure (Fields.insert id { o with byteLength := finish.toNat } s, range)

end Store

/-- `ContentDigest`: the bytes it has seen, and their number as an `i64`. -/
structure ContentDigest where
  hash : Bytes := []
  bytes : Int := 0
deriving DecidableEq, Repr

namespace ContentDigest

def push (digest : ContentDigest) (text : Text) : Except String ContentDigest := do
  let bytes ← context (checkedAdd digest.bytes (size text)) "content length overflow"
  pure { hash := digest.hash ++ encode text, bytes := bytes }

def finish (codec : Codec) (digest : ContentDigest) : String :=
  codec.sha256 digest.hash

end ContentDigest

namespace Store

/-- `content::seal`. -/
def sealBody (codec : Codec) (s : Store) (id : Nat) (digest : ContentDigest) :
    Except String (Store × ContentRange) := do
  let bytes := digest.bytes
  let hash := digest.finish codec
  let o ← s.objectRow id
  let range : ContentRange := { id := id, offset := 0, length := bytes }
  if (o.byteLength : Int) = bytes ∧ o.isSealed = false then
    pure (Fields.insert id { o with sha256 := some hash } s, range)
  else
    ensure ((o.byteLength : Int) = bytes ∧ o.sha256 = some hash)
      "content seal does not match durable bytes"
    pure (s, range)

end Store

/-! ### Maintenance -/

namespace Object

def bodyBytes (o : Object) : Nat :=
  (o.segments.map fun row => row.2.length).sum

/-- The candidates of `rechunk::apply`. -/
def canRechunk (o : Object) : Bool :=
  o.encoding = none ∧ 1 < o.segments.length ∧ o.bodyBytes ≤ rechunkMaxBodyBytes

/-- One transaction of `rechunk::apply`: one row in place of all. -/
def rechunk (o : Object) : Except String (Object × Option (Nat × Nat)) := do
  if o.segments.length < 2 then
    pure (o, none)
  else
    let body := o.segments.flatMap fun row => row.2
    let repacked ← ({ o with segments := [] } : Object).insertSegment 0 body
    pure (repacked, some (o.segments.length, 1))

/-- The candidates of `compress::apply`. -/
def canCompress (o : Object) : Bool :=
  o.isSealed ∧ compressMinBodyBytes ≤ o.byteLength ∧ o.encoding = none

end Object

/-- One round of the chunking loop of `compress::apply`, the last chunk first. -/
def pushSegment (chunks : List (Nat × Bytes)) (start : Nat) (segment : Bytes) :
    List (Nat × Bytes) :=
  match chunks with
  | (first, pending) :: done =>
      if pending.length + segment.length ≤ compressedChunkBytes then
        (first, pending ++ segment) :: done
      else
        (start, segment) :: (first, pending) :: done
  | [] => [(start, segment)]

/-- Merge neighbouring segments while a chunk stays within its budget. -/
def cutChunks : List Bytes → List (Nat × Bytes) → Nat → List (Nat × Bytes)
  | [], chunks, _ => chunks.reverse
  | segment :: segments, chunks, start =>
      cutChunks segments (pushSegment chunks start segment) (start + segment.length)

namespace Object

/-- One transaction of `compress::apply`. -/
def compress (codec : Codec) (o : Object) :
    Except String (Object × Option (Nat × Nat)) := do
  if o.segments = [] then
    pure (o, none)
  else
    let chunks := cutChunks (o.segments.map Prod.snd) [] 0
    let plain := o.bodyBytes
    let encoded := chunks.map fun chunk => (chunk.1, codec.encode chunk.2)
    let compressed := (encoded.map fun row => row.2.length).sum
    if plain * 9 ≤ compressed * 10 then
      -- not worth the marker, but remembered, so the sweep looks at it once
      let o ← o.insertMarker .text
      pure (o, none)
    else
      let o ← insertSegments encoded { o with segments := [] }
      let o ← o.insertMarker .gzip
      pure (o, some (plain, compressed))

end Object

/-- What a maintenance pass reports: objects, and rows or bytes before and after. -/
structure MaintenanceCounts where
  objects : Nat := 0
  before : Nat := 0
  after : Nat := 0
deriving DecidableEq, Repr

/--
The loop of a maintenance pass.  Each candidate is one transaction; a failed one
changes nothing and ends the pass, with the earlier ones committed.
-/
def maintain (one : Object → Except String (Object × Option (Nat × Nat))) :
    List Nat → Store → MaintenanceCounts → Store × Except String MaintenanceCounts
  | [], s, counts => (s, .ok counts)
  | id :: ids, s, counts =>
      match Fields.lookup id s with
      | none => maintain one ids s counts
      | some o =>
          match one o with
          | .error e => (s, .error e)
          | .ok (o', none) => maintain one ids (Fields.insert id o' s) counts
          | .ok (o', some (before, after)) =>
              maintain one ids (Fields.insert id o' s) {
                objects := counts.objects + 1
                before := counts.before + before
                after := counts.after + after }

namespace Store

/--
The candidate query of a pass.  `order` lists the ids in the order the query
visits them (its `ORDER BY`, and SQLite's choice among equals).
-/
def candidates (s : Store) (eligible : Object → Bool) (order : List Nat)
    (limit : Int) : List Nat :=
  let ids := order.filter fun id => (Fields.lookup id s).any eligible
  if limit < 0 then ids else ids.take limit.toNat

/-- `rechunk::apply`. -/
def rechunk (s : Store) (order : List Nat) (limit : Int) :
    Store × Except String MaintenanceCounts :=
  maintain Object.rechunk (s.candidates Object.canRechunk order limit) s {}

/-- `compress::apply`. -/
def compress (codec : Codec) (s : Store) (order : List Nat) (limit : Int) :
    Store × Except String MaintenanceCounts :=
  maintain (Object.compress codec) (s.candidates Object.canCompress order limit)
    s {}

end Store

/-- The calls that write content. -/
inductive ContentOp where
  | create (id : Nat)
  | append (id : Nat) (offset : Int) (text : Text)
  | sealBody (id : Nat) (digest : ContentDigest)
  | rechunk (order : List Nat) (limit : Int)
  | compress (order : List Nat) (limit : Int)

def step (codec : Codec) (s : Store) : ContentOp → Store
  | .create id => s.create id
  | .append id offset text => (commit s (s.append codec id offset text)).1
  | .sealBody id digest => (commit s (s.sealBody codec id digest)).1
  | .rechunk order limit => (s.rechunk order limit).1
  | .compress order limit => (s.compress codec order limit).1

end Content
end FutureOs
