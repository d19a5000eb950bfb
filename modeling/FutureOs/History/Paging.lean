import FutureOs.Lib.Json
import FutureOs.Lib.Utf8Prefix

/-!
# History pages

`session/history/paging.rs`: `read_display_page` and `materialize_display_page`, with `encode`
and `Fragment::read` of `fragment_cache.rs`.  A conversation is its display index; what a row
shows, once its entry is projected and annotated, is part of the row.  The caches keep what a
read computes and are left out, and so is `verify`, which passes while the index is fixed.
-/

namespace FutureOs
namespace History

/-- `HISTORY_PAGE_BYTE_BUDGET`. -/
def pageByteBudget : Nat := 2 * 1024 * 1024

/-- `HISTORY_TAIL_ROWS`. -/
def tailRows : Nat := 150

/-- `HISTORY_PAGE_ROWS`. -/
def pageRows : Nat := 600

/-- `HISTORY_PAGE_READ_BUDGET`. -/
def pageReadBudget : Nat := 2 * 1024 * 1024

/-- `ENTRY_FRAGMENT_BYTE_BUDGET`. -/
def entryFragmentByteBudget : Nat := 1024 * 1024

/-- `content::READ_BYTES`. -/
def readBytes : Nat := 256 * 1024

/-- `LIVE_FILE_LIMIT`. -/
def liveFileLimit : Nat := 64

/-- `LIVE_FILE_BYTES`. -/
def liveFileBytes : Nat := 512 * 1024 * 1024

def i64Max : Nat := 2 ^ 63 - 1

/-- `reader::Entry`. -/
structure CanonicalEntry where
  position : Nat
  id : String
deriving DecidableEq

/-- A row of the display index, with the entry it was made from. -/
structure DisplayRow where
  isUser : Bool
  indexPayload : String
  /-- The body of the entry, in the older format. -/
  entryRecord : Option String
  /-- The header of the entry, in the canonical format. -/
  header : Option CanonicalEntry
  /-- What the row shows. -/
  payload : Json
deriving DecidableEq

structure DisplayIndex where
  canonical : Bool
  rows : List DisplayRow
  /-- Ordinals are integers of the database. -/
  fits : rows.length ≤ i64Max

structure DisplayPageRow where
  ordinal : Nat
  indexPayload : String
  entryPayload : Option String
  canonicalEntry : Option CanonicalEntry
  payload : Json
deriving DecidableEq

structure DisplayHistoryPage where
  rows : List DisplayPageRow
  hasMore : Bool
  nextOffset : Nat
  total : Nat

/-- What a client asks for. -/
structure PageRequest where
  before : Option Int
  offset : Option Int
  limit : Option Int
  fragmentOffset : Option Int

section Read

/-- `i64::clamp`. -/
def clamp (lo hi : Nat) (x : Int) : Nat :=
  (max (lo : Int) (min x hi)).toNat

/-- The columns a page selects of a row. -/
def DisplayIndex.selected (index : DisplayIndex) (row : DisplayRow) (ordinal : Nat) :
    DisplayPageRow where
  ordinal := ordinal
  indexPayload := row.indexPayload
  entryPayload := if index.canonical then none else row.entryRecord
  canonicalEntry := if index.canonical then row.header else none
  payload := row.payload

/-- All rows, by their ordinals. -/
def DisplayIndex.numbered (index : DisplayIndex) : List DisplayPageRow :=
  index.rows.zipIdx.map fun row => index.selected row.1 row.2

def DisplayIndex.total (index : DisplayIndex) : Nat := index.rows.length

/-- The ordinal of the `count`th newest user row before `stop`. -/
def DisplayIndex.exchangeStart (index : DisplayIndex) (stop count : Nat) : Nat :=
  (((index.rows.zipIdx.take stop).filter (·.1.isUser)).reverse.map (·.2))[count - 1]?.getD 0

/-- `WHERE d.ordinal >= start AND d.ordinal < stop ORDER BY d.ordinal`. -/
def DisplayIndex.rowsBetween (index : DisplayIndex) (start stop : Nat) : List DisplayPageRow :=
  (index.numbered.take stop).drop start

/-- The bytes a row counts for while it is read. -/
def DisplayPageRow.size (row : DisplayPageRow) : Nat :=
  row.indexPayload.utf8ByteSize + (row.entryPayload.map String.utf8ByteSize).getD 0 +
    (row.canonicalEntry.map fun entry => entry.id.utf8ByteSize + 32).getD 0

/-- The loop that reads the rows of a page: the rows, and where the next page starts. -/
def takeRows (canonical : Bool) (rowsCap : Option Nat) (after : DisplayPageRow → Nat) :
    Nat → Nat → Nat → List DisplayPageRow → Except String (List DisplayPageRow × Nat)
  | _, _, next, [] => .ok ([], next)
  | count, bodyBytes, next, row :: rest =>
      if 0 < count ∧ pageReadBudget < bodyBytes + row.size then
        .ok ([], next)
      else if canonical = true ∧ readBytes < row.size then
        .error "canonical display header exceeds the read budget"
      else if pageReadBudget ≤ bodyBytes + row.size ∨ rowsCap.any (· ≤ count + 1) then
        .ok ([row], after row)
      else
        (takeRows canonical rowsCap after (count + 1) (bodyBytes + row.size) (after row)
          rest).map fun out => (row :: out.1, out.2)

/-- A page backwards from `before`: the exchanges asked for, newest row first. -/
def readBackward (index : DisplayIndex) (before : Int) (limit : Option Int) :
    Except String DisplayHistoryPage :=
  let stop := clamp 0 index.total before
  let start := index.exchangeStart stop (clamp 1 100 (limit.getD 10))
  let rowsCap := if before = i64Max then tailRows else pageRows
  (takeRows index.canonical (some rowsCap) (·.ordinal) 0 0 stop
    (index.rowsBetween start stop).reverse).map fun out =>
      { rows := out.1, hasMore := 0 < out.2, nextOffset := out.2, total := index.total }

/-- A page forwards from an offset. -/
def readForward (index : DisplayIndex) (offset limit : Option Int) :
    Except String DisplayHistoryPage :=
  let start := clamp 0 index.total (offset.getD 0)
  let stop := min (start + clamp 1 1000 (limit.getD 250)) index.total
  let rows := index.rowsBetween start stop
  (takeRows index.canonical none (·.ordinal + 1) 0 0 start
    (if index.canonical then rows.take 64 else rows)).map fun out =>
      { rows := out.1, hasMore := out.2 < index.total, nextOffset := out.2
        total := index.total }

def readDisplayPage (index : DisplayIndex) (request : PageRequest) :
    Except String DisplayHistoryPage :=
  match request.before with
  | some before => readBackward index before request.limit
  | none => readForward index request.offset request.limit

end Read

section Fragments

/-- The derived files other reads hold. -/
structure Live where
  files : Nat
  bytes : Nat

/-- An entry too large for a page, as JSON text. -/
structure Fragment where
  text : Text
  sha256 : String
  entryId : Json

def Fragment.len (body : Fragment) : Nat := Utf8.size body.text

inductive Encoded
  | inline (len : Nat)
  | large (body : Fragment)

def Encoded.len : Encoded → Nat
  | .inline len => len
  | .large body => body.len

variable (sha256 : Text → String)

/-- What crosses the limit is written to a derived file. -/
def encode (live : Live) (value : Json) (inlineLimit : Nat) : Except String Encoded :=
  let text := value.compact
  if Utf8.size text ≤ inlineLimit then
    .ok (.inline (Utf8.size text))
  else if liveFileLimit ≤ live.files then
    .error "derived file budget is busy; retry this read"
  else if liveFileBytes < live.bytes + Utf8.size text then
    .error "derived file byte budget exceeded; retry or request a smaller history range"
  else
    .ok (.large { text := text, sha256 := sha256 text, entryId := value.index "id" })

/-- The bytes from `offset` on, cut back to the last boundary within the limit. -/
def Fragment.read (body : Fragment) (offset limit : Nat) : Except String Text :=
  if ¬ offset < body.len then
    .error "invalid history fragment offset"
  else
    let bytes := ((Utf8.encode body.text).drop offset).take (min limit (body.len - offset))
    let stop := Utf8.validUpTo bytes
    if stop < bytes.length ∧ Utf8.isPending (bytes.drop stop) = false then
      .error "invalid history fragment offset"
    else if stop = 0 then
      .error "history fragment made no progress"
    else
      match Utf8.fromUtf8 (bytes.take stop) with
      | some text => .ok text
      | none => .error "invalid utf-8"

end Fragments

section Materialize

structure HistoryEntryFragment where
  entryId : Json
  ordinal : Nat
  offset : Nat
  totalBytes : Nat
  json : Text
  sha256 : String
deriving DecidableEq

structure HistoryPage where
  entries : List Json
  hasMore : Bool
  nextOffset : Nat
  total : Nat
  fragment : Option HistoryEntryFragment
deriving DecidableEq

/-- `usize::try_from`. -/
def toUsize (n : Int) : Except String Nat :=
  if 0 ≤ n then .ok n.toNat else .error "out of range integral type conversion attempted"

variable (sha256 : Text → String)

/-- The fragment of an entry that fills the page. -/
def fragmentPage (page : DisplayHistoryPage) (request : PageRequest) (row : DisplayPageRow)
    (body : Fragment) : Except String HistoryPage := do
  let offset ← toUsize (request.fragmentOffset.getD 0)
  let json ← body.read offset entryFragmentByteBudget
  return {
    entries := []
    hasMore := page.hasMore || 1 < page.rows.length
    nextOffset := if request.before.isSome then row.ordinal else row.ordinal + 1
    total := page.total
    fragment := some {
      entryId := body.entryId, ordinal := row.ordinal, offset := offset
      totalBytes := body.len, json := json, sha256 := body.sha256 } }

/-- The loop over the rows of a page: those that fit, in the order they were read. -/
def materializeRows (live : Live) (page : DisplayHistoryPage) (request : PageRequest) :
    List Json → Nat → List DisplayPageRow → Except String HistoryPage
  | entries, _, [] =>
      .ok {
        entries := if request.before.isSome then entries.reverse else entries
        hasMore := page.hasMore, nextOffset := page.nextOffset, total := page.total
        fragment := none }
  | entries, bytes, row :: rest => do
      let encoded ← encode sha256 live row.payload (pageByteBudget - 65)
      if pageByteBudget < encoded.len + (bytes + 1) then
        if entries ≠ [] then
          return {
            entries := if request.before.isSome then entries.reverse else entries
            hasMore := true
            nextOffset := if request.before.isSome then row.ordinal + 1 else row.ordinal
            total := page.total, fragment := none }
        else
          match encoded with
          | .inline _ => throw "oversized entry was not spooled"
          | .large body => fragmentPage page request row body
      else if request.fragmentOffset.getD 0 ≠ 0 then
        throw "history changed during fragmented read"
      else
        materializeRows live page request (entries ++ [row.payload]) (bytes + encoded.len + 1)
          rest

def materializeDisplayPage (live : Live) (page : DisplayHistoryPage) (request : PageRequest) :
    Except String HistoryPage :=
  materializeRows sha256 live page request [] 64 page.rows

def readHistoryPage (live : Live) (index : DisplayIndex) (request : PageRequest) :
    Except String HistoryPage := do
  let page ← readDisplayPage index request
  materializeDisplayPage sha256 live page request

end Materialize

section Wire

/-- A page as it is sent. -/
def HistoryPage.toJson (page : HistoryPage) : Json :=
  let fragment : List (String × Json) :=
    match page.fragment with
    | none => []
    | some fragment =>
        [("fragment", .obj [
          ("entryId", fragment.entryId),
          ("json", .str (String.ofList fragment.json)),
          ("offset", .num (.posInt fragment.offset)),
          ("ordinal", .num (.posInt fragment.ordinal)),
          ("sha256", .str fragment.sha256),
          ("totalBytes", .num (.posInt fragment.totalBytes))])]
  .obj ([("entries", .arr page.entries)] ++ fragment ++
    [("hasMore", .bool page.hasMore), ("nextOffset", .num (.posInt page.nextOffset)),
     ("total", .num (.posInt page.total))])

/-- The bytes of a page once it is encoded. -/
def HistoryPage.encodedLen (page : HistoryPage) : Nat := page.toJson.compactLen

end Wire

end History
end FutureOs
