import FutureOs.Lib.Bisect
import FutureOs.Lib.Fallible
import FutureOs.Lib.Json
import FutureOs.Lib.Text
import FutureOs.Lib.WaterFill

/-!
# The context budget of a discussion

`fusion/budget.rs` and `fusion/reports.rs` of the host, with `parse_json` of the fusion
crate.  Sizes are bytes of the forwarded text: within a JSON string for the reports of
participants, the compact text of the value for a map.  Sizes in memory stay below `2^64`,
where the additions of the code saturate.

A parameter stands for `serde_json::from_str`.
-/

namespace FutureOs
namespace Fusion

def usizeMax : Nat := 2 ^ 64 - 1

def saturatingAddUsize (a b : Nat) : Nat :=
  min (a + b) usizeMax

def saturatingMulUsize (a b : Nat) : Nat :=
  min (a * b) usizeMax

def contextMargin : Nat := 8192

structure ModelConfig where
  model : String

structure Configuration where
  panel : List ModelConfig
  moderator : ModelConfig

structure Budget where
  /-- Window and output of each model, in the order of the names. -/
  models : List (String × Nat × Nat)
  participantBytes : Nat
  mappingBytes : Nat
  participantPool : Nat
  moderatorRoom : Nat
  reviewRoom : Nat
deriving DecidableEq

section Reports

variable (fromStr : String → Option Json)

/-- The body of a text in a code fence: what follows its first line, without the fence. -/
def unfenced (text : String) : String :=
  if Text.startsWith "```" text ∧ "```".toList.isSuffixOf text.toList then
    match Text.splitOnce '\n' text with
    | some (_, body) => String.ofList (body.toList.take (body.toList.length - 3))
    | none => text
  else
    text

/-- `parse_json`. -/
def parseJson (text : String) : Option Json :=
  fromStr (Text.trim (unfenced (Text.trim text)))

/-- `forwarded_bytes`. -/
def forwardedBytes (phase text : String) : Except String Nat :=
  if phase = "analyzing" ∨ phase = "reviewing" ∨ phase = "synthesizing" then
    .ok (Json.literalLen text)
  else if phase = "issue_mapping" then
    (context (parseJson fromStr text) "invalid JSON").map Json.compactLen
  else
    .ok text.utf8ByteSize

def notice : Text :=
  "\n[Report shortened to fit context; remaining material is retained in the discussion record.]".toList

/-- The cost of a report in a structured source packet. -/
def packetBytes (t : Text) : Nat :=
  Json.literalLen (String.ofList t)

/-- The first `end` bytes, back to a character, with the notice. -/
def shortenedAt (t : Text) (cut : Nat) : Text :=
  Utf8.takeBytes (Utf8.floorBoundary t cut) t ++ notice

/-- `fit_text`. -/
def fitText (text : String) (capacity : Nat) : Except String String := do
  if packetBytes text.toList ≤ capacity then
    return text
  ensure (packetBytes notice ≤ capacity) "No room for a usable report"
  let t := text.toList
  let low := Bisect.lastPass (fun mid => packetBytes (shortenedAt t mid) ≤ capacity)
    (Utf8.size t) 0 (Utf8.size t)
  return String.ofList (shortenedAt t low)

end Reports

section Admission

def modelName (m : Json) : String :=
  ((m.index "provider").asStr?.getD "") ++ "/" ++ ((m.index "id").asStr?.getD "")

/-- The capacities of the models of a configuration that the catalog knows. -/
def modelCapacities (catalog : Json) (config : Configuration) :
    Except String (List (String × Nat × Nat)) :=
  (config.panel ++ [config.moderator]).foldlM (fun models profile =>
    match (((catalog.index "models").asArray?).getD []).find? fun m =>
        modelName m = profile.model with
    | none => .ok models
    | some model => do
        let window ← context (model.index "contextWindow").asU64?
          "Fusion requires a known model context window"
        ensure (0 < window) "Fusion requires a positive context window"
        let output ← context ((model.index "maxTokens").asU64?.filter (0 < ·))
          ("Fusion model " ++ profile.model ++ " requires positive maxTokens from list_models; upgrade Agent and Host together")
        return Fields.insert profile.model (window, min (max output 1) window) models)
    []

/-- What a window leaves for material. -/
def roomOf (base window output : Nat) : Nat :=
  window - saturatingAddUsize (min output (window / 4)) base

def Budget.new (catalog : Json) (config : Configuration) (inputBytes : Nat) :
    Except String Budget := do
  let models ← modelCapacities catalog config
  let (window, output) ← context (Fields.lookup config.moderator.model models)
    "Missing moderator capacity"
  let base := saturatingAddUsize (saturatingAddUsize contextMargin inputBytes) 16384
  let room := roomOf base window output
  let reviewRoom := ((models.map fun m => roomOf base m.2.1 m.2.2).min?).getD 0
  let participantBytes := min (room / max config.panel.length 1) (reviewRoom / 2)
  ensure (1024 ≤ participantBytes)
    "Task context leaves insufficient moderator capacity; narrow the discussion before dispatch"
  let mappingBytes := min (reviewRoom - participantBytes) room
  ensure (1024 ≤ mappingBytes) "Insufficient context for a sourced moderator map"
  return {
    models := models
    participantBytes := participantBytes
    mappingBytes := mappingBytes
    participantPool := saturatingMulUsize participantBytes config.panel.length
    moderatorRoom := room
    reviewRoom := reviewRoom }

end Admission

section Material

variable (fromStr : String → Option Json)

def responseOf (report : Json) : String :=
  (report.index "response").asStr?.getD ""

/-- The pool of a phase. -/
def Budget.pool (b : Budget) (phase : String) : Nat :=
  if phase = "analyzing" then b.participantPool else b.moderatorRoom

/-- What one report may take in a phase. -/
def Budget.perReport (b : Budget) (phase : String) : Nat :=
  if phase = "analyzing" then b.reviewRoom - 1024 else usizeMax

/-- The direct answer of a report, where it parses and has one that is not blank. -/
def directAnswer (original : String) : String :=
  match (parseJson fromStr original).bind fun v => (v.index "current_answer").asStr? with
  | some answer => if (Text.trim answer).isEmpty then original else answer
  | none => original

/-- One report with its limit: kept, or shortened and named. -/
def fitReport (phase : String) (report : Json) (limit : Nat) :
    Except String (Json × Option String) := do
  let original := responseOf report
  let bytes ← forwardedBytes fromStr phase original
  if bytes ≤ limit then
    return (report, none)
  let text ← fitText (directAnswer fromStr original) limit
  return ((report.set "response" (.str text)).set "forwarded_truncated" (.bool true),
    some ((report.index "participant").asStr?.getD ""))

/-- `fit_material`: the budget and the reports after it, and who was shortened. -/
def Budget.fitMaterial (b : Budget) (phase : String) (reports : List Json) :
    Except String (Budget × List Json × List String) := do
  let costs ← reports.mapM fun report => forwardedBytes fromStr phase (responseOf report)
  let limits := WaterFill.pour costs (b.perReport phase) costs.length
    (WaterFill.Pouring.start (b.pool phase) costs)
  let fitted ← (reports.zip limits).mapM fun entry => fitReport fromStr phase entry.1 entry.2
  let shortened := fitted.filterMap (·.2)
  let reports := fitted.map (·.1)
  if phase = "analyzing" then
    let sizes ← reports.mapM fun report => forwardedBytes fromStr phase (responseOf report)
    let largest := (sizes.max?).getD 0
    return ({ b with mappingBytes := min b.mappingBytes (b.reviewRoom - largest) },
      reports, shortened)
  else
    return (b, reports, shortened)

/-- A budget some admission made, after any number of phases. -/
inductive Admitted : Budget → Prop
  | new {catalog config inputBytes b} :
      Budget.new catalog config inputBytes = .ok b → Admitted b
  | fit {b b' phase reports reports' shortened} :
      Admitted b → b.fitMaterial fromStr phase reports = .ok (b', reports', shortened) →
        Admitted b'

end Material

end Fusion
end FutureOs
