import FutureOs.Remote.Coalesce

/-!
# The client's cursor of a run

`runCursor.ts` and `contentRange.ts` of `packages/thread-projection`: how a
client tells the next event of a run from a repeated, an overlapping or a lost
one.  The cursor is a `Map` of at most eight runs in the order they came in.

Numbers are integers here; one with a fraction or an exponent is none of the
code's safe integers.
-/

namespace FutureOs
namespace Remote

/-- `Number.isSafeInteger`. -/
def safeInteger (n : Int) : Prop :=
  -(2 ^ 53 - 1) ≤ n ∧ n ≤ 2 ^ 53 - 1

instance (n : Int) : Decidable (safeInteger n) := by
  unfold safeInteger
  infer_instance

inductive CursorEvent
  | apply (idx : Int)
  | dup
  | overlap (fromIdx : Int)
  | gap (fromIdx : Int)
  | untracked
deriving DecidableEq

structure RunCursorEntry where
  highWater : Int
  prefixComplete : Bool
deriving DecidableEq

abbrev RunCursor : Type := List (String × RunCursorEntry)

/-- `MAX_RUNS`. -/
def maxRuns : Nat := 8

namespace RunCursor

def get (cursor : RunCursor) (runId : String) : Option RunCursorEntry :=
  Fields.lookup runId cursor

/-- `Map.set`: an entry that is there keeps its place. -/
def set (cursor : RunCursor) (runId : String) (entry : RunCursorEntry) : RunCursor :=
  if (cursor.get runId).isSome then
    cursor.map fun (k, e) => if k = runId then (k, entry) else (k, e)
  else
    cursor ++ [(runId, entry)]

/-- The oldest entries go while there are too many; `fuel` is how many there are. -/
def evict : Nat → RunCursor → RunCursor
  | 0, cursor => cursor
  | fuel + 1, cursor =>
      if maxRuns < cursor.length then
        match cursor with
        | [] => []
        | (oldest, _) :: _ => evict fuel (Fields.erase oldest cursor)
      else
        cursor

/-- `advanceCursor`. -/
def advance
    (cursor : RunCursor)
    (runId : String)
    (idx : Int)
    (completePrefix : Bool) :
    RunCursor :=
  let cursor :=
    match cursor.get runId with
    | none => cursor.set runId ⟨idx, completePrefix⟩
    | some entry =>
        if entry.highWater < idx then
          cursor.set runId ⟨idx, entry.prefixComplete || completePrefix⟩
        else if completePrefix ∧ entry.prefixComplete = false then
          cursor.set runId { entry with prefixComplete := true }
        else
          cursor
  evict cursor.length cursor

end RunCursor

/-- A field that is a safe integer and not negative. -/
def safeField (data : Json) (key : String) : Option Nat :=
  match data.get? key with
  | some (.num (.posInt n)) => if n ≤ 2 ^ 53 - 1 then some n else none
  | _ => none

/-- `contentRangeStart`. -/
def contentRangeStart (data : Option Data) : Option Nat := do
  let data ← data
  if 64 * 1024 < data.units ∨ data.mentions = false then
    none
  else
    let _ ← canonicalOf data.value
    let first ← safeField data.value "content_first_idx"
    let _ ← safeField data.value "content_offset"
    let _ ← safeField data.value "content_bytes"
    return first

/-- `coveredFrom`: where the source indices of an event start. -/
def coveredFrom (idx : Int) (coalescedCount : Option Int) : Int :=
  let count :=
    match coalescedCount with
    | some count => if safeInteger count ∧ 0 < count then min count (idx + 1) else 1
    | none => 1
  idx - count + 1

/-- The canonical start of an event, unless it lies above its index. -/
def canonicalStart (idx : Int) (data : Option Data) : Option Nat :=
  (contentRangeStart data).filter fun start => (start : Int) ≤ idx

/-- Where an event's coverage starts. -/
def coveredStart (idx : Int) (coalescedCount : Option Int) (data : Option Data) : Int :=
  match canonicalStart idx data with
  | some start => start
  | none => coveredFrom idx coalescedCount

/-- `nextEvent`. -/
def nextEvent
    (cursor : RunCursor)
    (runId : Option String)
    (idx coalescedCount : Option Int)
    (omitIndices : Bool)
    (data : Option Data) :
    CursorEvent × RunCursor :=
  match runId, idx with
  | some runId, some idx =>
      if runId = "" then
        (.untracked, cursor)
      else
        let start := coveredStart idx coalescedCount data
        match cursor.get runId with
        | none =>
            if (contentRangeStart data).any (fun first => 0 < first) ∧
                omitIndices = false then
              (.gap (-1), cursor)
            else
              (.apply idx, cursor.advance runId idx (start = 0))
        | some entry =>
            if idx ≤ entry.highWater then
              (.dup, cursor)
            else if start = entry.highWater + 1 ∨
                ((contentRangeStart data).isSome ∧ start ≤ entry.highWater + 1) then
              (.apply idx, cursor.set runId { entry with highWater := idx })
            else if start ≤ entry.highWater then
              (.overlap entry.highWater, cursor)
            else if omitIndices then
              (.apply idx, cursor.set runId { entry with highWater := idx })
            else
              (.gap entry.highWater, cursor)
  | _, _ => (.untracked, cursor)

end Remote
end FutureOs
