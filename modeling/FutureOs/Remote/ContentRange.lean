import FutureOs.Lib.Json
import FutureOs.Lib.Proc
import FutureOs.Lib.Utf8

/-!
# Ranges of a canonical body

`ContentCursors::apply` (`content_range.rs`) and `applyContentRange` (`contentRange.ts`): a
fragment states which bytes of its body it brings, and what was applied before is trimmed
off.  The Rust function changes the fragment in place; the other returns a new one.
-/

namespace FutureOs
namespace ContentRange

/-- The kinds of events whose text is part of a body. -/
def deltaKinds : List String :=
  ["text_chunk", "thinking_delta", "tool_delta"]

/-- `content_key`, where it is a string. -/
def keyOf (data : Json) : Option String :=
  (data.get? "content_key").bind Json.asStr?

/-- The text of a fragment; empty where it has none. -/
def textOf (data : Json) : String :=
  ((data.get? "text").bind Json.asStr?).getD ""

def isSealed (data : Json) : Bool :=
  data.get? "content_seal" = some (.bool true)

/-- A fragment with another text and range. -/
def withRange (data : Json) (text : String) (offset length : Nat) : Json :=
  ((data.set "text" (.str text)).set "content_offset" (.num (.posInt offset))).set
    "content_bytes" (.num (.posInt length))

section Rust

/-- Run, epoch and key. -/
abbrev Identity := String × Int × String

structure ContentCursors where
  offsets : Identity → Option Nat

def ContentCursors.default : ContentCursors where
  offsets := fun _ => none

def ContentCursors.insert (cursors : ContentCursors) (identity : Identity) (seen : Nat) :
    ContentCursors where
  offsets := Function.update cursors.offsets identity (some seen)

def ContentCursors.remove (cursors : ContentCursors) (identity : Identity) :
    ContentCursors where
  offsets := Function.update cursors.offsets identity none

/-- The bytes of a body that were applied. -/
def ContentCursors.seen (cursors : ContentCursors) (identity : Identity) : Nat :=
  (cursors.offsets identity).getD 0

/-- `data[key].as_u64()`, or this error. -/
def requireU64 (data : Json) (key error : String) : Except String Nat :=
  match (data.get? key).bind Json.asU64? with
  | some n => .ok n
  | none => .error error

/-- `content_offset` and `content_bytes`, whose sum is a 64-bit number. -/
def rangeOf (data : Json) : Except String (Nat × Nat) := do
  let offset ← requireU64 data "content_offset" "invalid canonical content offset"
  let length ← requireU64 data "content_bytes" "invalid canonical content length"
  if offset + length < 2 ^ 64 then
    return (offset, length)
  else
    .error "canonical content range overflow"

/-- `text.get(n..)`. -/
def getFrom (text : String) (n : Nat) : Option String :=
  if Utf8.isBoundary text.toList n then
    some (String.ofList (Utf8.dropBytes n text.toList))
  else
    none

/-- A delta without what was applied before. -/
def trimmed (data : Json) (offset length seen : Nat) : Except String Json :=
  let text := textOf data
  if text.utf8ByteSize ≠ length then
    .error "canonical content byte length mismatch"
  else
    let overlap := min (seen - offset) length
    match getFrom text overlap with
    | none => .error "canonical overlap splits UTF-8"
    | some tail => .ok (withRange data tail (offset + overlap) (length - overlap))

/-- What `apply` changes: the cursors and the fragment. -/
abbrev Applying := Proc (ContentCursors × Json) String

def currentData : Applying Json := fun s => (s, .ok s.2)

def currentCursors : Applying ContentCursors := fun s => (s, .ok s.1)

def setData (data : Json) : Applying Unit := fun s => ((s.1, data), .ok ())

def setCursors (cursors : ContentCursors) : Applying Unit := fun s => ((cursors, s.2), .ok ())

def apply (run : String) (epoch : Int) (kind : String) : Applying Unit := do
  let data ← currentData
  match keyOf data with
  | none => pure ()
  | some key =>
      let identity := (run, epoch, key)
      let range ← Proc.lift (rangeOf data)
      let cursors ← currentCursors
      let seen := cursors.seen identity
      if range.1 > seen ∧ isSealed data = false then
        Proc.lift (.error "canonical content has a missing prefix")
      if kind ∈ deltaKinds then
        let trimmedData ← Proc.lift (trimmed data range.1 range.2 seen)
        setData trimmedData
      let data ← currentData
      if isSealed data then
        setCursors (cursors.remove identity)
      else
        setCursors (cursors.insert identity (max (range.1 + range.2) seen))

end Rust

section TypeScript

/-- `Map<string, number>`. -/
abbrev Offsets := String → Option Nat

/-- Numbers up to `Number.MAX_SAFE_INTEGER` are exact. -/
def isSafeInteger (n : Nat) : Bool :=
  n < 2 ^ 53

/-- A safe integer from 0 on.  The parameter gives the value of a float that is whole. -/
def safeNat (wholeFloat : String → Option Nat) : Json → Option Nat
  | .num (.posInt n) => if isSafeInteger n then some n else none
  | .num (.float text) => (wholeFloat text).filter isSafeInteger
  | _ => none

/-- Bytes of a code point in UTF-8. -/
def byteWidth (c : Char) : Nat :=
  let point := c.toNat
  if point ≤ 0x7F then 1 else if point ≤ 0x7FF then 2 else if point ≤ 0xFFFF then 3 else 4

/-- UTF-16 units of a code point: the length of a one-character string. -/
def unitWidth (c : Char) : Nat :=
  if c.toNat ≤ 0xFFFF then 1 else 2

/-- Where the walk over a fragment stands; no `trim` yet is the code's -1. -/
structure Walk where
  bytes : Nat
  units : Nat
  trim : Option Nat
deriving DecidableEq

def Walk.step (overlap : Nat) (walk : Walk) (c : Char) : Walk :=
  let bytes := walk.bytes + byteWidth c
  let units := walk.units + unitWidth c
  { bytes, units, trim := if bytes = overlap then some units else walk.trim }

def walkText (overlap : Nat) (text : String) : Walk :=
  text.toList.foldl (Walk.step overlap)
    { bytes := 0, units := 0, trim := if overlap = 0 then some 0 else none }

/-- `text.slice(trim)`, where `trim` units end between two characters. -/
def dropUnits : Nat → List Char → List Char
  | _, [] => []
  | n, c :: t => if unitWidth c ≤ n then dropUnits (n - unitWidth c) t else c :: t

def sliceFrom (text : String) (trim : Nat) : String :=
  String.ofList (dropUnits trim text.toList)

/-- The fragment without what was applied before. -/
def trimmedPayload (payload : Json) (offset length seen : Nat) : Except String Json :=
  let text := textOf payload
  let overlap := min (seen - offset) length
  let walk := walkText overlap text
  match walk.trim with
  | none => .error "Canonical content length or UTF-8 boundary mismatch"
  | some trim =>
      if walk.bytes ≠ length then
        .error "Canonical content length or UTF-8 boundary mismatch"
      else
        .ok (withRange payload (sliceFrom text trim) (offset + overlap) (length - overlap))

/-- `content_offset` and `content_bytes`, whose sum is a safe integer. -/
def safeRange (wholeFloat : String → Option Nat) (payload : Json) :
    Except String (Nat × Nat) :=
  match (payload.get? "content_offset").bind (safeNat wholeFloat),
      (payload.get? "content_bytes").bind (safeNat wholeFloat) with
  | some offset, some length =>
      if isSafeInteger (offset + length) then
        .ok (offset, length)
      else
        .error "Invalid canonical content range"
  | _, _ => .error "Invalid canonical content range"

def setOffsets (offsets : Offsets) : Proc Offsets String Unit := fun _ => (offsets, .ok ())

def applyContentRange (wholeFloat : String → Option Nat) (payload : Json)
    (eventType : String) : Proc Offsets String Json := do
  match keyOf payload with
  | none => pure payload
  | some key =>
      let range ← Proc.lift (safeRange wholeFloat payload)
      let offsets ← Proc.read Except.ok
      let seen := (offsets key).getD 0
      if range.1 > seen ∧ isSealed payload = false then
        Proc.lift (.error "Canonical content has a missing prefix")
      let result ←
        if eventType ∈ deltaKinds then
          Proc.lift (trimmedPayload payload range.1 range.2 seen)
        else
          pure payload
      if isSealed payload then
        setOffsets (Function.update offsets key none)
      else
        setOffsets (Function.update offsets key (some (max seen (range.1 + range.2))))
      return result

end TypeScript

end ContentRange
end FutureOs
