import FutureOs.Lib.Fallible
import FutureOs.Lib.LongestPrefix
import FutureOs.Sandbox.Rules
import Mathlib.Data.List.Dedup
import Mathlib.Data.List.Lex

/-!
# The Linux mount plan

`LinuxSandboxPlan::compile` turns the rules into lists of paths to mount, `runner::prepare`
puts the mounts in order, and `Sandbox.readable` and `Sandbox.writable` say what a process
under them can do.  A path is mounted where a rule names it: a literal path, the root of a
subtree, or an existing path that a glob matches.

The file tree has no symbolic links.  A scan for globs finds every existing path that
matches, or fails; whether it stays inside its limits is the host's answer.  The digest of
the policy is left out.
-/

namespace FutureOs
namespace Sandbox

open LongestPrefix

/-- What is above a path and the path itself, from the root down. -/
abbrev ancestors (path : PathBuf) : List PathBuf :=
  above path

/-! ## The host -/

structure FileTree where
  paths : List PathBuf
  isDir : PathBuf → Bool
  hasRoot : [rootComponent] ∈ paths
  absolute : ∀ path ∈ paths, path.head? = some rootComponent
  /-- What is above an existing path is an existing directory. -/
  parents : ∀ path ∈ paths, ∀ above ∈ (ancestors path).dropLast,
    above ∈ paths ∧ isDir above = true

structure Host where
  tree : FileTree
  /-- A scan for the patterns stays inside its limits. -/
  scanFits : List String → Bool

/-! ## The plan -/

inductive PlanError
  | ruleLayerUnavailable (detail : String)
  | unsafePath (path : PathBuf)
  | unsupportedMatcher (pattern : String)
  | globScan
  | mountLimit
  | unsupportedAccessCombination (path : PathBuf)
  | missingReopen (path : PathBuf)
  | pathInspection (path : PathBuf)
deriving DecidableEq

/-- The lists of `LinuxSandboxPlan`; of the globs only their mounts. -/
structure MountPlan where
  writableRoots : List PathBuf
  readOnlyPaths : List PathBuf
  unreadablePaths : List PathBuf
  reopenedPaths : List PathBuf
  reopenedReadOnlyPaths : List PathBuf
  omittedMissingProtectedPaths : List PathBuf
deriving DecidableEq

/-- A rule with its place in the order. -/
structure FlatRule where
  priority : Nat
  ruleIndex : Nat
  rule : Rule
deriving DecidableEq

namespace FlatRule

/-- The rule comes before the place. -/
def isBefore (entry : FlatRule) (priority ruleIndex : Nat) : Bool :=
  entry.priority < priority || (entry.priority = priority && entry.ruleIndex < ruleIndex)

/-- The rule comes after the place. -/
def isAfter (entry : FlatRule) (priority ruleIndex : Nat) : Bool :=
  priority < entry.priority || (entry.priority = priority && ruleIndex < entry.ruleIndex)

end FlatRule

def flattened (ruleSet : RuleSet) : List FlatRule :=
  ruleSet.layers.zipIdx.flatMap fun (rules, priority) =>
    rules.zipIdx.map fun (rule, ruleIndex) => ⟨priority, ruleIndex, rule⟩

/-- `rule_matches`, with the matcher of the plan. -/
def ruleMatches (rule : Rule) (path : PathBuf) (op : Op) : Bool :=
  rule.access.covers op &&
    match rule.matcher with
    | .literal target => path = target
    | .subtree lexical canonical => pathWithin path lexical || pathWithin path canonical
    | .glob pattern => Glob.globMatches pattern.toList path.text

/-- `rule_blocks`. -/
def ruleBlocks (rule : Rule) (path : PathBuf) (op : Op) : Bool :=
  !rule.allows && ruleMatches rule path op

/-- `effective_blocked`. -/
def effectiveBlocked (rules : List FlatRule) (path : PathBuf) (op : Op) : Bool :=
  (rules.find? fun entry => ruleMatches entry.rule path op).any fun entry => !entry.rule.allows

/-- `matched_by_earlier_rule`. -/
def matchedByEarlierRule (rules : List FlatRule) (entry : FlatRule) (path : PathBuf) (op : Op) :
    Bool :=
  rules.any fun candidate =>
    candidate.isBefore entry.priority entry.ruleIndex && ruleMatches candidate.rule path op

/-- `protected_by_later_rule`. -/
def protectedByLaterRule (rules : List FlatRule) (entry : FlatRule) (path : PathBuf) (op : Op) :
    Bool :=
  rules.any fun candidate =>
    candidate.isAfter entry.priority entry.ruleIndex && ruleBlocks candidate.rule path op

/-- `mount_path_exists`: below a file nothing can be inspected. -/
def mountPathExists (tree : FileTree) (path : PathBuf) : Except PlanError Bool :=
  if path ∈ tree.paths then
    .ok true
  else if (ancestors path).any fun above => above ∈ tree.paths && !tree.isDir above then
    .error (.pathInspection path)
  else
    .ok false

/-- `validate_absolute`. -/
def validateAbsolute (path : PathBuf) : Except PlanError Unit :=
  ensure (path.isAbsolute = true ∧ ".." ∉ path) (.unsafePath path)

-- over the characters of the text, not over all characters
local instance decidableForallChar (text : List Char) (p : Char → Prop) [DecidablePred p] :
    Decidable (∀ c ∈ text, p c) :=
  List.decidableBAll p text

/-- `validate_glob`. -/
def validateGlob (pattern : String) : Except PlanError Unit := do
  validateAbsolute (PathBuf.parse pattern)
  ensure (∀ c ∈ pattern.toList, c ∉ ['[', ']', '{', '}']) (.unsupportedMatcher pattern)

/-- `normalize_exact`. -/
def normalizeExact (paths : List PathBuf) : List PathBuf :=
  (paths.insertionSort (· ≤ ·)).dedup

/-- `normalize_roots`: a root inside another one is dropped. -/
def normalizeRoots (paths : List PathBuf) : List PathBuf :=
  tops (paths.insertionSort fun a b => a.length ≤ b.length)

/-- What a scan finds for a pattern. -/
def expandGlob (tree : FileTree) (pattern : String) : List PathBuf :=
  normalizeExact (tree.paths.filter fun path => Glob.isMatch pattern.toList path.text)

def globPattern? (rule : Rule) : Option String :=
  match rule.matcher with
  | .glob pattern => some pattern
  | _ => none

/-- `expand_globs`. -/
def expandGlobs (host : Host) (patterns : List String) : Except PlanError Unit := do
  patterns.forM validateGlob
  ensure (host.scanFits patterns = true) .globScan

/-- The paths a rule names. -/
def namedPaths (tree : FileTree) (rule : Rule) : List PathBuf :=
  match rule.matcher with
  | .literal path => [path]
  | .subtree lexical canonical => normalizeExact [lexical, canonical]
  | .glob pattern => expandGlob tree pattern

/-- The paths of a matcher are checked before they are used. -/
def validateMatcher (rule : Rule) : Except PlanError Unit :=
  match rule.matcher with
  | .literal path => validateAbsolute path
  | .subtree lexical canonical => do
      validateAbsolute lexical
      validateAbsolute canonical
  | .glob _ => pure ()

/-- The lists while they are made. -/
inductive MountList
  | writableRoots
  | readOnly
  | unreadable
  | reopened
  | reopenedReadOnly
  | missingProtected
deriving DecidableEq

/-- The lists as one: each path with the list it is on, in order. -/
abbrev Placements : Type := List (MountList × PathBuf)

def Placements.on (placements : Placements) (list : MountList) : List PathBuf :=
  placements.filterMap fun placement => if placement.1 = list then some placement.2 else none

/-- `apply_rule`: where a path of the rule goes. -/
def applyRule (tree : FileTree) (rules : List FlatRule) (entry : FlatRule) (path : PathBuf)
    (placements : Placements) : Except PlanError Placements :=
  if entry.rule.allows then
    let readBlocked := effectiveBlocked rules path .read
    if entry.rule.access.coversWrite && !matchedByEarlierRule rules entry path .write then
      if readBlocked then
        .error (.unsupportedAccessCombination path)
      else if protectedByLaterRule rules entry path .write then do
        let exists_ ← mountPathExists tree path
        ensure (exists_ = true) (.missingReopen path)
        return placements ++ [(.reopened, path)]
      else
        return placements ++ [(.writableRoots, path)]
    else if entry.rule.access.coversRead && !matchedByEarlierRule rules entry path .read &&
        protectedByLaterRule rules entry path .read then do
      let exists_ ← mountPathExists tree path
      ensure (exists_ = true) (.missingReopen path)
      return placements ++ [(.reopenedReadOnly, path)]
    else
      return placements
  else
    let blocksRead :=
      entry.rule.access.coversRead && !matchedByEarlierRule rules entry path .read
    let blocksWrite :=
      entry.rule.access.coversWrite && !matchedByEarlierRule rules entry path .write
    if !blocksRead && !blocksWrite then
      return placements
    else do
      let exists_ ← mountPathExists tree path
      if !exists_ then
        return placements ++ [(.missingProtected, path)]
      else if blocksRead then
        return placements ++ [(.unreadable, path)]
      else
        return placements ++ [(.readOnly, path)]

/-- A rule, with all the paths it names. -/
def applyPaths (tree : FileTree) (rules : List FlatRule) (placements : Placements)
    (entry : FlatRule) : Except PlanError Placements := do
  validateMatcher entry.rule
  (namedPaths tree entry.rule).foldlM
    (fun placements path => applyRule tree rules entry path placements) placements

/-- `MAX_MOUNTS`. -/
def maxMounts : Nat := (9000 - 32) / 4

/-- The lists as they are mounted. -/
def finishPlan (placements : Placements) : MountPlan :=
  let missing := normalizeExact (placements.on .missingProtected)
  let unreadable := normalizeExact (placements.on .unreadable)
  let readOnly := normalizeExact (placements.on .readOnly)
  { writableRoots := normalizeRoots (placements.on .writableRoots)
    readOnlyPaths := readOnly.filter fun path => path ∉ unreadable && path ∉ missing
    unreadablePaths := unreadable.filter fun path => path ∉ missing
    reopenedPaths := normalizeExact (placements.on .reopened)
    reopenedReadOnlyPaths := normalizeExact (placements.on .reopenedReadOnly)
    omittedMissingProtectedPaths := missing }

def MountPlan.mountCount (plan : MountPlan) : Nat :=
  plan.writableRoots.length + plan.readOnlyPaths.length + plan.unreadablePaths.length +
    plan.reopenedPaths.length + plan.reopenedReadOnlyPaths.length

/-- `compile`. -/
def compile (host : Host) (ruleSet : RuleSet) : Except PlanError MountPlan := do
  if let some detail := ruleSet.resolutionErrors.head? then
    throw (.ruleLayerUnavailable detail)
  validateAbsolute ruleSet.workspace
  ruleSet.tempRoots.forM validateAbsolute
  let rules := flattened ruleSet
  expandGlobs host (rules.filterMap fun entry => globPattern? entry.rule)
  let bases : Placements := ruleSet.writableBases.map fun root => (.writableRoots, root)
  let placements ← rules.foldlM (applyPaths host.tree rules) bases
  let plan := finishPlan placements
  ensure (plan.mountCount ≤ maxMounts) .mountLimit
  return plan

/-! ## The mounts -/

inductive MountKind
  | writable
  | readOnly
  | unreadable
deriving DecidableEq

structure Mount where
  target : PathBuf
  kind : MountKind
deriving DecidableEq

def mountsOf (paths : List PathBuf) (kind : MountKind) : List Mount :=
  paths.map fun path => ⟨path, kind⟩

/-- The mounts of `prepare` before they are sorted. -/
def MountPlan.listed (plan : MountPlan) : List Mount :=
  mountsOf plan.writableRoots .writable ++ mountsOf plan.readOnlyPaths .readOnly ++
    mountsOf plan.unreadablePaths .unreadable ++
    mountsOf plan.reopenedReadOnlyPaths .readOnly ++ mountsOf plan.reopenedPaths .writable

/-- The mounts of `prepare`: a stable sort by depth. -/
def MountPlan.mounts (plan : MountPlan) : List Mount :=
  plan.listed.insertionSort fun a b => a.target.length ≤ b.target.length

/-! ## What the mounts grant -/

/-- The last mount at a target. -/
def lastAt (mounts : List Mount) (target : PathBuf) : Option MountKind :=
  ((mounts.filter fun mount => mount.target = target).getLast?).map (·.kind)

/-- The deepest target above a path decides; without one the read-only root does. -/
def decidingKind (mounts : List Mount) (path : PathBuf) : MountKind :=
  (longest (lastAt mounts) path).getD .readOnly

/-- An unreadable directory hides what is below it. -/
def hidden (mounts : List Mount) (path : PathBuf) : Bool :=
  (ancestors path).dropLast.any fun above => lastAt mounts above = some .unreadable

def readable (mounts : List Mount) (path : PathBuf) : Bool :=
  decidingKind mounts path ≠ .unreadable && !hidden mounts path

def writable (mounts : List Mount) (path : PathBuf) : Bool :=
  decidingKind mounts path = .writable && !hidden mounts path

end Sandbox
end FutureOs
