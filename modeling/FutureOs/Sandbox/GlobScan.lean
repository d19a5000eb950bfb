import FutureOs.Lib.DirTree
import FutureOs.Lib.GlobSegments
import FutureOs.Sandbox.GlobMemo
import FutureOs.Sandbox.MountPlan

/-!
# The scan for globs

`sandbox/linux/glob_scan.rs`: one walk for all patterns that share a static root, which
goes into a directory if some pattern may match below it.  A pattern without `**` looks at
one depth only, and one with `**` prunes by the segments before it.

The tree has no symbolic links, so the branches for them are left out.  The clock says at
each check of the budget whether the command was aborted or the time is over.  Results are
kept in the order they are found; the maps of the source sort them.
-/

namespace FutureOs
namespace Sandbox
namespace GlobScan

open DirTree (Node Lookup Visitor)

/-! ## The budget -/

def maxMatches : Nat := 2048
def maxDepth : Nat := 64
def maxPatterns : Nat := 256
def maxResultBytes : Nat := 4 * 1024 * 1024

inductive ScanCode
  | cancelled
  | timeout
  | patternLimit
  | patternInvalid
  | ioError
  | matchLimit
  | resultBytesLimit
  | depthLimit
deriving DecidableEq

/-- The fields of `ScanError`, without the time it took. -/
structure ScanError where
  code : ScanCode
  phase : String
  root : PathBuf
  pattern : String
  visited : Nat
  unique : Nat
  detail : String
deriving DecidableEq

inductive Interruption
  | cancelled
  | timeout
deriving DecidableEq

/-- What a scan is called with. -/
structure Scan where
  crate : RegexCrate
  phase : String
  /-- What the check with this number finds. -/
  clock : Nat → Option Interruption
  durationMs : Nat

/-- The budget, and the paths found for each pattern. -/
structure ScanState where
  checks : Nat
  visited : Nat
  bytes : Nat
  found : List (String × PathBuf)
deriving DecidableEq

namespace ScanState

def new : ScanState := ⟨0, 0, 0, []⟩

/-- `budget.matches`. -/
def unique (s : ScanState) : Nat :=
  (s.found.map Prod.snd).dedup.length

end ScanState

section Budget

variable (scan : Scan)

def errorOf (s : ScanState) (code : ScanCode) (root : PathBuf) (pattern detail : String) :
    ScanError :=
  ⟨code, scan.phase, root, pattern, s.visited, s.unique, detail⟩

/-- `Budget::check`. -/
def check (root : PathBuf) (pattern : String) (s : ScanState) : Except ScanError ScanState :=
  match scan.clock s.checks with
  | none => .ok { s with checks := s.checks + 1 }
  | some .cancelled =>
      .error (errorOf scan s .cancelled root pattern "command aborted before execution")
  | some .timeout =>
      .error (errorOf scan s .timeout root pattern
        ("shared_scan_budget_ms=" ++ toString scan.durationMs))

end Budget

/-! ## Patterns -/

/-- `contains(['*', '?'])`. -/
def hasGlob (part : String) : Bool :=
  part.toList.any fun c => c = '*' ∨ c = '?'

structure Pattern where
  text : String
  matcher : List Char → Bool
  prefixes : List (List Char → Bool)
  recursive : Bool
  depth : Nat

/-- `scan_root`. -/
def scanRoot (pattern : String) : PathBuf :=
  (PathBuf.parse pattern).takeWhile fun part => !hasGlob part

/-- The parts of a pattern behind its root. -/
def partsOf (text : String) (root : PathBuf) : List String :=
  (PathBuf.parse text).drop root.length

/-- The parts before the first one with `**`. -/
def finiteParts (parts : List String) : List String :=
  parts.takeWhile fun part => !Glob.hasDouble part.toList

/-- Matchers of the first part, the first two, and so on. -/
def compilePrefixes (crate : RegexCrate) (parts : List String) :
    Except String (List (List Char → Bool)) :=
  (List.range parts.length).mapM fun i =>
    compileMatcher crate (PathBuf.text (parts.take (i + 1)))

def Pattern.compile (crate : RegexCrate) (text : String) (root : PathBuf) :
    Except String Pattern := do
  let parts := partsOf text root
  let prefixes ← compilePrefixes crate (finiteParts parts)
  let matcher ← compileMatcher crate text.toList
  return { text
           matcher
           prefixes
           recursive := parts.any fun part => Glob.hasDouble part.toList
           depth := parts.length }

/-- `can_descend`. -/
def Pattern.canDescend (p : Pattern) (relative : PathBuf) (depth : Nat) : Bool :=
  if p.recursive = false ∧ p.depth ≤ depth then
    false
  else if depth = 0 then
    true
  else
    let checked := min depth p.prefixes.length
    if checked = 0 then
      true
    else
      match p.prefixes[checked - 1]? with
      | some matcher => matcher (PathBuf.text (relative.take checked))
      | none => false

/-! ## One walk -/

/-- The patterns of one walk. -/
structure Group where
  root : PathBuf
  patterns : List Pattern

namespace Group

variable (scan : Scan)
variable (group : Group)

def context : String :=
  match group.patterns with
  | [] => ""
  | first :: _ =>
      first.text ++ " [shared root: " ++ toString group.patterns.length ++ " rules]"

/-- Below the root. -/
def depth (path : PathBuf) : Nat :=
  path.length - group.root.length

/-- The pattern looks at this depth, and matches. -/
def takes (p : Pattern) (path : PathBuf) : Bool :=
  (p.recursive || group.depth path = p.depth) && p.matcher path.text

/-- A match for a pattern. -/
def record (p : Pattern) (path : PathBuf) (s : ScanState) : Except ScanError ScanState :=
  if (p.text, path) ∈ s.found then
    .ok s
  else
    let s :=
      { s with
        found := s.found ++ [(p.text, path)]
        bytes := s.bytes + (String.ofList path.text).utf8ByteSize + p.text.utf8ByteSize }
    let detail := "unique_limit=2048, snapshot_bytes=" ++ toString s.bytes ++
      ", byte_limit=4194304"
    if maxMatches < s.unique then
      .error (errorOf scan s .matchLimit group.root p.text detail)
    else if maxResultBytes < s.bytes then
      .error (errorOf scan s .resultBytesLimit group.root p.text detail)
    else
      .ok s

def visitPattern (path : PathBuf) (s : ScanState) (p : Pattern) :
    Except ScanError ScanState :=
  match check scan group.root p.text s with
  | .error e => .error e
  | .ok s => if group.takes p path then group.record scan p path s else .ok s

/-- Some pattern may match below the directory. -/
def descends (path : PathBuf) : Bool :=
  group.patterns.any fun p =>
    p.canDescend (path.drop group.root.length) (group.depth path)

/-- The pattern that asks for the descent, for the message. -/
def asking (path : PathBuf) : String :=
  match group.patterns.find? fun p =>
      p.canDescend (path.drop group.root.length) (group.depth path) with
  | some p => p.text
  | none => ""

/-- The body of the loop over the entries of a walk. -/
def visit (path : PathBuf) (isDir : Bool) (s : ScanState) :
    Except ScanError (ScanState × Bool) := do
  let s ← check scan group.root group.context s
  let s := { s with visited := s.visited + 1 }
  let s ← check scan group.root group.context s
  let s ← group.patterns.foldlM (group.visitPattern scan path) s
  if isDir && group.descends path then
    if maxDepth ≤ group.depth path then
      .error (errorOf scan s .depthLimit group.root (group.asking path)
        ("depth=" ++ toString (group.depth path) ++ ", limit=64"))
    else
      .ok (s, true)
  else
    .ok (s, false)

def visitor : Visitor String ScanState ScanError where
  visit := group.visit scan
  closed _ reason s :=
    match check scan group.root group.context s with
    | .error e => e
    | .ok s => errorOf scan s .ioError group.root group.context reason

/-- The walk of one group. -/
def walk (tree : Node String) (s : ScanState) : Except ScanError ScanState := do
  let s ← check scan group.root group.context s
  match tree.lookup group.root.tail with
  | .missing => return s
  | .blocked reason =>
      .error (errorOf scan s .ioError group.root group.context reason)
  | .found node => do
      let s ← node.walk (group.visitor scan) group.root s
      let s ← check scan group.root group.context s
      check scan group.root group.context s

end Group

/-! ## The scan -/

/-- The patterns that are registered so far, each with its root. -/
abbrev Registered : Type := List (PathBuf × Pattern)

def register (scan : Scan) (acc : Registered × ScanState) (text : String) :
    Except ScanError (Registered × ScanState) := do
  let root := scanRoot text
  let s ← check scan root text acc.2
  if acc.1.any fun entry => entry.2.text = text then
    return (acc.1, s)
  else if maxPatterns ≤ acc.1.length then
    .error (errorOf scan s .patternLimit root text "limit=256")
  else
    match Pattern.compile scan.crate text root with
    | .error detail => .error (errorOf scan s .patternInvalid root text detail)
    | .ok p => return (acc.1 ++ [(root, p)], s)

/-- One group for each root, in the order of the roots. -/
def groupsOf (registered : Registered) : List Group :=
  ((registered.map Prod.fst).dedup.insertionSort (· ≤ ·)).map fun root =>
    ⟨root, (registered.filter fun entry => entry.1 = root).map Prod.snd⟩

/-- The paths found for each pattern. -/
def matchesOf (found : List (String × PathBuf)) (text : String) : List PathBuf :=
  (found.filter fun entry => entry.1 = text).map Prod.snd

/-- `scan`. -/
def run (scan : Scan) (tree : Node String) (patterns : List String) :
    Except ScanError (String → List PathBuf) := do
  let (registered, s) ← patterns.foldlM (register scan) ([], ScanState.new)
  let s ← (groupsOf registered).foldlM (fun s group => group.walk scan tree s) s
  return matchesOf s.found

end GlobScan
end Sandbox
end FutureOs
