import FutureOs.Lib.Lines
import FutureOs.Orchestration.AcknowledgedAppends
import FutureOs.Orchestration.EventLog

/-!
# The ledger as a file

The ledger is a file of lines.  A reader takes the whole file as UTF-8 text and fails at
a line it cannot parse; an append skips such lines while it looks for the id of its
event, and writes behind whatever the file ends with.

What a line says is up to the JSON library: `LineFormat` is the text a stored event is
written as and what a line is read as, and `LineFormat.Lawful` what JSON promises of it.
-/

namespace FutureOs
namespace Orchestration

/-- What a line of the ledger is read as. -/
inductive LineText
  | notJson
  | malformed (eventId : String)
  | unknownKind (eventId : String)
  | event (stored : StoredEvent)
deriving DecidableEq

namespace LineText

/-- The id field of a line, empty where there is none; text that is not JSON is skipped. -/
def id? : LineText → Option String
  | .notJson => none
  | .malformed eventId => some eventId
  | .unknownKind eventId => some eventId
  | .event stored => some stored.eventId

def stored? : LineText → Option StoredEvent
  | .event stored => some stored
  | _ => none

/-- A reader accepts the line. -/
def isEntry : LineText → Bool
  | .unknownKind _ | .event _ => true
  | _ => false

end LineText

/-- The text of a stored event, and what a line says. -/
structure LineFormat where
  render : StoredEvent → Text
  read : Text → LineText

/-- The white space of JSON. -/
def isJsonSpace (c : Char) : Bool :=
  c = ' ' || c = '\t' || c = '\n' || c = '\r'

namespace LineFormat

/--
White space before a line means nothing; an accepted line is an object, and behind a
JSON value there is only white space.
-/
structure Lawful (format : LineFormat) : Prop where
  leading : ∀ w t, (∀ c ∈ w, isJsonSpace c = true) → format.read (w ++ t) = format.read t
  opening : ∀ t, (format.read t).isEntry = true → (t.dropWhile isJsonSpace).head? = some '{'
  trailing : ∀ t u, (format.read t).isEntry = true → (∃ c ∈ u, isJsonSpace c = false) →
    (format.read (t ++ u)).isEntry = false

/-- The event is written as one line that reads back. -/
structure Writes (format : LineFormat) (stored : StoredEvent) : Prop where
  reads : format.read (format.render stored) = .event stored
  object : (format.render stored).head? = some '{'
  oneLine : '\n' ∉ format.render stored ∧ '\r' ∉ format.render stored

/-- The text of lines. -/
def rendered (format : LineFormat) (written : List StoredEvent) : Text :=
  written.flatMap fun stored => format.render stored ++ ['\n']

end LineFormat

/-- The lines of a file that are not blank. -/
def ledgerLines (text : Text) : List Text :=
  (Lines.lines text).filter fun line => !Lines.isBlank line

/-- `read_to_string`. -/
def readToString (file : Bytes) : Except String Text :=
  context (Utf8.fromUtf8 file) "stream did not contain valid UTF-8"

section File

variable (format : LineFormat)
variable (derive : Event → String)
variable (entry : RegistryEntry)

/-- One line of the file: an unknown kind is skipped, a bad line is an error. -/
def parseText (out : List StoredEvent) (line : Text) : Except String (List StoredEvent) :=
  match format.read line with
  | .event stored => parseLine derive out stored
  | .unknownKind _ => .ok out
  | .malformed _ | .notJson => .error "parse event line"

/-- `parse_ledger`, on the text of the file. -/
def parseLedgerText (text : Text) : Except String (List StoredEvent) :=
  (ledgerLines text).foldlM (parseText format derive) []

/-- `read_ledger`: what a replay folds. -/
def readLedger (file : Bytes) : Except String (List StoredEvent) := do
  let text ← readToString file
  parseLedgerText format derive text

/-- The goal folded from the text. -/
def foldLedgerText (now : Nat) (text : Text) : Except String Goal := do
  let stored ← parseLedgerText format derive text
  .ok (Machine.run (apply now) (Goal.new now entry.goalId entry.objective entry.cwd)
    (stored.map StoredEvent.event))

/-- The lines `append_event_locked` writes. -/
def appendText (stored : StoredEvent) (validate : Text → Except String Unit) (file : Bytes) :
    Except String (List StoredEvent) := do
  let text ← readToString file
  match ((ledgerLines text).map format.read).find? fun line =>
      line.id? = some stored.eventId with
  | some line =>
      if line.stored?.map StoredEvent.event = some stored.event then
        .ok []
      else
        .error ("conflicting event_id `" ++ stored.eventId ++
          "` — same id, different content (StateEventConflictError)")
  | none => do
      validate text
      .ok [stored]

/-- What an edit has to meet under the append lock, on the text. -/
def validateChangeText (now : Nat) (event : Event) (text : Text) : Except String Unit := do
  let goal ← foldLedgerText format derive entry now text
  match ← changedId event with
  | some id => validateDependencyChange (apply now goal event) id
  | none => .ok ()

/-- The lines a call writes behind the file. -/
def LedgerCall.writes (file : Bytes) : LedgerCall → Except String (List StoredEvent)
  | .append event => appendText format (storedAs derive event) (fun _ => .ok ()) file
  | .appendTodoChange now event =>
      appendText format (storedAs derive event)
        (validateChangeText format derive entry now event) file
  | .tryClaim host now request => do
      let leaseSecs ← normalizeTtl request.leaseSecs
      let text ← readToString file
      let goal ← foldLedgerText format derive entry now text
      let (written, _) ← decideClaim host derive now leaseSecs request goal
      .ok written

/-- The file after a call; a call that fails its checks writes nothing. -/
def fileStep (file : Bytes) (call : LedgerCall) : Bytes :=
  match call.writes format derive entry file with
  | .ok written => file ++ Utf8.encode (format.rendered written)
  | .error _ => file

/-- The file after a write of a call's lines that stops at byte `k`. -/
def tornFile (file : Bytes) (written : List StoredEvent) (k : Nat) : Bytes :=
  file ++ (Utf8.encode (format.rendered written)).take k

/-- The events a call acknowledges. -/
def acknowledgedBy (file : Bytes) (call : LedgerCall) : List Event :=
  match call.writes format derive entry file with
  | .ok written =>
      match call with
      | .append event => [event]
      | .appendTodoChange _ event => [event]
      | .tryClaim _ _ _ => written.map StoredEvent.event
  | .error _ => []

end File

end Orchestration
end FutureOs
