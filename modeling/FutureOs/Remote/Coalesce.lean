import FutureOs.Lib.Fallible
import FutureOs.Lib.Json
import FutureOs.Lib.Machine
import Mathlib.Data.List.Infix

/-!
# Coalescing the live lane

`Coalescer` (`packages/remote-server/src/events/coalesce.rs`) merges a stream's
consecutive text fragments inside a short window into one event.

A payload is represented by what `serde_json` reads in it: the fields of the
body but for `data`, and the value of the text in `data`.  The lengths the code
looks at (the payload in bytes; for the client, the text of `data` in UTF-16
code units) are carried along, and those of a merged payload are computed from
its compact text.
-/

namespace FutureOs
namespace Remote

/-- `wrapping_add` and the like on `i64`. -/
def wrapI64 (n : Int) : Int :=
  Int.bmod n (2 ^ 64)

/-- UTF-16 code units of a text. -/
def utf16Units (t : Text) : Nat :=
  (t.map fun c => if c.toNat < 0x10000 then 1 else 2).sum

/-- The text in `data`, as it is read. -/
structure Data where
  value : Json
  units : Nat
  /-- The text has `"content_key"` in it, spelt out. -/
  mentions : Bool

/-- `to_string` of a value. -/
def Data.print (value : Json) : Data where
  value := value
  units := utf16Units value.compact
  mentions := "\"content_key\"".toList <:+: value.compact

structure Payload where
  /-- The fields of the body without `data`, if it is an object. -/
  fields : Option (List (String × Json))
  /-- `data`, if it is a text that is JSON. -/
  data : Option Data
  length : Nat

structure EventPublish where
  subject : String
  payload : Payload
  statusSubject : Option String

/-- A field of the body. -/
def EventPublish.get? (event : EventPublish) (key : String) : Option Json :=
  event.payload.fields.bind (Fields.lookup key)

/-- `FRAGMENT_TYPES`: events whose text accumulates on the client. -/
def fragmentTypes : List String :=
  ["text_chunk", "text_delta", "thinking_delta", "tool_delta", "toolcall_delta"]

/-- `COALESCE_WINDOW`, in milliseconds. -/
def coalesceWindow : Nat := 100

/-- `MAX_MERGED_FRAGMENTS`. -/
def maxMergedFragments : Nat := 512

/-- `MAX_EVENT_BYTES`. -/
def maxEventBytes : Nat := 900 * 1024

/-- `MAX_MERGED_BYTES`. -/
def maxMergedBytes : Nat := maxEventBytes - 4096

/-- The stream a fragment belongs to. -/
structure StreamKey where
  session : String
  run : String
  epoch : Int
  eventType : String
  tool : String
  block : String
  content : String
deriving DecidableEq

/-- The parts of a fragment event the coalescer needs. -/
structure Fragment where
  key : StreamKey
  idx : Int
  firstIdx : Int
  contentOffset : Option Nat
  contentEnd : Option Nat
  text : String
  replaces : Bool

/-- `u64::checked_add`. -/
def checkedAddU64 (a b : Nat) : Option Nat :=
  if a + b < 2 ^ 64 then some (a + b) else none

/-- A text field, empty where there is none. -/
def textOf (event : EventPublish) (key : String) : String :=
  ((event.get? key).bind Json.asStr?).getD ""

/-- The index of an event, as the lane reads it. -/
def idxOf (event : EventPublish) : Int :=
  ((event.get? "idx").bind Json.asI64?).getD (-1)

/-- The content key, if it is a text. -/
def canonicalOf (data : Json) : Option String :=
  (data.get? "content_key").bind Json.asStr?

def natOf (data : Json) (key : String) : Option Nat :=
  (data.get? key).bind Json.asU64?

def streamKeyOf (event : EventPublish) (eventType : String) (data : Json) : StreamKey where
  session := textOf event "sessionId"
  run := textOf event "runId"
  epoch := ((event.get? "epoch").bind Json.asI64?).getD 0
  eventType := eventType
  tool := (((data.get? "tool_id").or (data.get? "tool_call_id")).bind
    Json.asStr?).getD ""
  block := (((data.get? "block_id").bind Json.asStr?).or
    ((data.get? "blockId").bind Json.asStr?)).getD ""
  content := (canonicalOf data).getD ""

/-- Where canonical content starts. -/
def offsetOf (data : Json) : Option Nat :=
  (canonicalOf data).bind fun _ => natOf data "content_offset"

/-- Where canonical content ends. -/
def endOf (data : Json) : Option Nat :=
  (offsetOf data).bind fun offset =>
    (natOf data "content_bytes").bind fun bytes => checkedAddU64 offset bytes

/-- Canonical content without the byte range of its text. -/
def misplaced (data : Json) (text : String) : Prop :=
  (canonicalOf data).isSome = true ∧
    (offsetOf data = none ∨ endOf data = none ∨
      natOf data "content_bytes" ≠ some text.utf8ByteSize)

instance (data : Json) (text : String) : Decidable (misplaced data text) := by
  unfold misplaced
  infer_instance

/-- `fragment_of`. -/
def fragmentOf (event : EventPublish) : Option Fragment := do
  let eventType ← (event.get? "type").bind Json.asStr?
  if eventType ∉ fragmentTypes then
    none
  else
    let data ← event.payload.data.map Data.value
    let text ← (data.get? "text").bind Json.asStr?
    if misplaced data text then
      none
    else
      return {
        key := streamKeyOf event eventType data
        idx := idxOf event
        firstIdx :=
          if (canonicalOf data).isSome then
            ((data.get? "content_first_idx").bind Json.asI64?).getD (idxOf event)
          else
            idxOf event
        contentOffset := offsetOf data
        contentEnd := endOf data
        text := text
        replaces := (data.get? "snapshot").bind Json.asBool? = some true }

/-! ## Merging -/

/-- `data` with the byte range and first index of the whole group. -/
def rangedData
    (event : EventPublish)
    (object : List (String × Json))
    (text : String)
    (covered : Nat) :
    Option (List (String × Json)) :=
  if (Fields.lookup "content_key" object).isSome then do
    let offset ← (← Fields.lookup "content_offset" object).asU64?
    let bytes ← (← Fields.lookup "content_bytes" object).asU64?
    let stop ← checkedAddU64 offset bytes
    if stop < text.utf8ByteSize then
      none
    else
      let idx ← (← event.get? "idx").asI64?
      if 2 ^ 63 ≤ covered then
        none
      else
        return Fields.insert "content_first_idx"
          (Json.ofInt (wrapI64 (idx - covered + 1)))
          (Fields.insert "content_bytes" (.num (.posInt text.utf8ByteSize))
            (Fields.insert "content_offset"
              (.num (.posInt (stop - text.utf8ByteSize))) object))
  else
    some object

/-- The length of a payload that is printed. -/
def printedLength (fields : List (String × Json)) (data : Json) : Nat :=
  (Json.obj (Fields.insert "data" (.str (String.ofList data.compact)) fields)).compactLen

/-- `merged_payload`. -/
def mergedPayload
    (event : EventPublish)
    (text : String)
    (covered : Nat)
    (replaces : Bool) :
    Option Payload := do
  let fields ← event.payload.fields
  let data ← event.payload.data
  let object ← data.value.asObject?
  let object ← rangedData event object text covered
  let object := Fields.insert "text" (.str text) object
  let object := if replaces then Fields.insert "snapshot" (.bool true) object else object
  let fields := Fields.insert "coalescedCount" (.num (.posInt covered)) fields
  return {
    fields := some fields
    data := some (Data.print (.obj object))
    length := printedLength fields (.obj object) }

/-- The group that waits for company. -/
structure PendingGroup where
  key : StreamKey
  newestIdx : Int
  firstIdx : Int
  contentEnd : Option Nat
  bytes : Nat
  event : EventPublish
  text : String
  replaces : Bool
  merged : Nat
  opened : Nat

namespace PendingGroup

/-- A group of one. -/
def start (fragment : Fragment) (event : EventPublish) (now : Nat) : PendingGroup where
  key := fragment.key
  newestIdx := fragment.idx
  firstIdx := fragment.firstIdx
  contentEnd := fragment.contentEnd
  bytes := event.payload.length
  event := event
  text := fragment.text
  replaces := fragment.replaces
  merged := 0
  opened := now

/-- `Pending::accepts`. -/
def accepts (p : PendingGroup) (fragment : Fragment) (event : EventPublish) : Bool :=
  p.key = fragment.key ∧
  checkedAdd p.newestIdx 1 = some fragment.firstIdx ∧
  p.contentEnd = fragment.contentOffset ∧
  p.merged + 1 < maxMergedFragments ∧
  p.bytes + event.payload.length ≤ maxMergedBytes

def join (p : PendingGroup) (fragment : Fragment) (event : EventPublish) :
    PendingGroup :=
  { p with
    text := if fragment.replaces then fragment.text else p.text ++ fragment.text
    replaces := p.replaces || fragment.replaces
    merged := p.merged + 1
    bytes := p.bytes + event.payload.length
    newestIdx := fragment.idx
    contentEnd := fragment.contentEnd
    event := event }

/-- The number of source indices the group stands for. -/
def covered (p : PendingGroup) : Nat :=
  if p.contentEnd.isSome then
    ((wrapI64 (p.newestIdx - p.firstIdx + 1)) % 2 ^ 64).toNat
  else
    p.merged + 1

/-- What is published for the group. -/
def publish (p : PendingGroup) : List EventPublish :=
  if p.merged = 0 then
    [p.event]
  else
    match mergedPayload p.event p.text p.covered p.replaces with
    | some payload => [{ p.event with payload := payload }]
    | none => []

end PendingGroup

structure Coalescer where
  pending : Option PendingGroup
  window : Nat

namespace Coalescer

def flush (c : Coalescer) : Coalescer × List EventPublish :=
  match c.pending with
  | none => (c, [])
  | some p => ({ c with pending := none }, p.publish)

/-- The window of the group is over. -/
def expired (c : Coalescer) (now : Nat) : Bool :=
  c.pending.any fun p => c.window ≤ now - p.opened

/-- `offer`, once an expired group is gone. -/
def offerLive (c : Coalescer) (event : EventPublish) (now : Nat) :
    Coalescer × List EventPublish :=
  match fragmentOf event with
  | none =>
      let (c, out) := c.flush
      (c, out ++ [event])
  | some fragment =>
      match c.pending with
      | none => ({ c with pending := some (.start fragment event now) }, [])
      | some p =>
          if p.accepts fragment event then
            ({ c with pending := some (p.join fragment event) }, [])
          else
            let (c, out) := c.flush
            ({ c with pending := some (.start fragment event now) }, out)

def offer (c : Coalescer) (event : EventPublish) (now : Nat) :
    Coalescer × List EventPublish :=
  if c.expired now then
    let (c, out) := c.flush
    let (c, out') := c.offerLive event now
    (c, out ++ out')
  else
    c.offerLive event now

end Coalescer

end Remote
end FutureOs
