import FutureOs.Lib.Text
import FutureOs.Lib.Utf8

/-!
# Server-sent events

`llm/sse.rs`: `SseDecoder::push` and `finish`.  The bytes of unfinished lines stay in the
buffer, and `scanned` of them are known to hold no line feed.  A push that fails gives no
frames, and nothing is pushed after it.
-/

namespace FutureOs
namespace Llm
namespace Sse

def maxEventBytes : Nat := 8 * 1024 * 1024

structure SseFrame where
  event : Option String
  data : String
deriving DecidableEq

/-- The fields of the event that is not finished. -/
structure PendingEvent where
  event : Option String
  data : List String
  eventBytes : Nat
deriving DecidableEq

structure SseDecoder extends PendingEvent where
  buffer : Bytes
  scanned : Nat
deriving DecidableEq

def PendingEvent.default : PendingEvent where
  event := none
  data := []
  eventBytes := 0

def SseDecoder.default : SseDecoder where
  toPendingEvent := PendingEvent.default
  buffer := []
  scanned := 0

inductive SseError
  | exceeded
  | invalidUtf8
deriving DecidableEq

def lineFeed : UInt8 := 10
def carriageReturn : UInt8 := 13

/-- `line.strip_suffix(b"\r").unwrap_or(line)`. -/
def stripReturn (line : Bytes) : Bytes :=
  if line.getLast? = some carriageReturn then line.dropLast else line

/-- Field name and value of a line. -/
def splitField (line : String) : String × String :=
  match Text.splitOnce ':' line with
  | some (field, value) => (field, (Text.stripPrefix " " value).getD value)
  | none => (line, "")

def PendingEvent.finishFrame (p : PendingEvent) : PendingEvent × Option SseFrame :=
  if p.event = none ∧ p.data = [] then
    ({ p with eventBytes := 0 }, none)
  else
    (PendingEvent.default, some { event := p.event, data := String.intercalate "\n" p.data })

def PendingEvent.field (p : PendingEvent) (line : String) : PendingEvent :=
  let (field, value) := splitField line
  if field = "event" then { p with event := some value }
  else if field = "data" then { p with data := p.data ++ [value] }
  else p

/-- A line without its line feed.  The sum of bytes is far from saturating. -/
def PendingEvent.takeLine (p : PendingEvent) (line : Bytes) :
    Except SseError (PendingEvent × Option SseFrame) :=
  match Utf8.fromUtf8 (stripReturn line) with
  | none => .error .invalidUtf8
  | some text =>
      if text = [] then
        .ok p.finishFrame
      else
        let p := { p with eventBytes := p.eventBytes + (Utf8.size text + 1) }
        if p.eventBytes > maxEventBytes then .error .exceeded
        else if text.head? = some ':' then .ok (p, none)
        else .ok (p.field (String.ofList text), none)

/-- The loop of `push`: the event that stays unfinished, what was consumed, and the frames. -/
def scanLines (buffer : Bytes) (p : PendingEvent) (consumed scanned : Nat) :
    Except SseError (PendingEvent × Nat × List SseFrame) :=
  match _hfind : (buffer.drop scanned).findIdx? (· = lineFeed) with
  | none => .ok (p, consumed, [])
  | some relative =>
      let newline := scanned + relative
      match p.takeLine ((buffer.drop consumed).take (newline - consumed)) with
      | .error e => .error e
      | .ok (p', frame) =>
          match scanLines buffer p' (newline + 1) (newline + 1) with
          | .error e => .error e
          | .ok (last, stop, frames) => .ok (last, stop, frame.toList ++ frames)
termination_by buffer.length - scanned
decreasing_by
  have hlt := (List.findIdx?_eq_some_iff_getElem.1 _hfind).1
  rw [List.length_drop] at hlt
  omega

def SseDecoder.push (d : SseDecoder) (bytes : Bytes) :
    Except SseError (SseDecoder × List SseFrame) :=
  let buffer := d.buffer ++ bytes
  if buffer.length > maxEventBytes then
    .error .exceeded
  else
    match scanLines buffer d.toPendingEvent 0 d.scanned with
    | .error e => .error e
    | .ok (p, consumed, frames) =>
        let rest := buffer.drop consumed
        .ok ({ toPendingEvent := p, buffer := rest, scanned := rest.length }, frames)

def SseDecoder.finish (d : SseDecoder) : Except SseError (List SseFrame) :=
  if d.buffer ≠ [] then
    match { d with buffer := d.buffer ++ [lineFeed] }.push [] with
    | .error e => .error e
    | .ok (d', frames) => .ok (frames ++ d'.finishFrame.2.toList)
  else
    .ok d.finishFrame.2.toList

/-- The pushes of a stream and its end: the frames delivered, and whether all went well. -/
def SseDecoder.run (d : SseDecoder) : List Bytes → List SseFrame × Bool
  | [] =>
      match d.finish with
      | .error _ => ([], false)
      | .ok frames => (frames, true)
  | bytes :: rest =>
      match d.push bytes with
      | .error _ => ([], false)
      | .ok (d', frames) => (frames ++ (d'.run rest).1, (d'.run rest).2)

end Sse
end Llm
end FutureOs
