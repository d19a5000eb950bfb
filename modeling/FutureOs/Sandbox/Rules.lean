import FutureOs.Lib.Fields
import FutureOs.Lib.Glob
import FutureOs.Lib.Text

/-!
# Approval rules

The rules of `sandbox/rules.rs`: the first rule that matches a path decides, layer by layer,
and without one reads are open and writes are allowed inside the workspace and the temporary
roots.  A path is the list of its components, of which an absolute one has the root first.
-/

namespace FutureOs
namespace Sandbox

abbrev PathBuf : Type := List String

scoped instance : LawfulBEq PathBuf := inferInstance

/-- The component of the root. -/
def rootComponent : String := "/"

namespace PathBuf

/-- `Path::new`: empty components and dots are dropped. -/
def parse (text : String) : PathBuf :=
  let parts := (Text.split '/' text).filter fun part => part ≠ "" ∧ part ≠ "."
  if Text.startsWith "/" text then rootComponent :: parts else parts

/-- `to_string_lossy`. -/
def text : PathBuf → List Char
  | [] => []
  | root :: parts =>
      if root = rootComponent then
        '/' :: List.intercalate ['/'] (parts.map String.toList)
      else
        List.intercalate ['/'] ((root :: parts).map String.toList)

def isAbsolute (path : PathBuf) : Bool :=
  path.head? = some rootComponent

end PathBuf

/-- `path_within`. -/
def pathWithin (path root : PathBuf) : Bool :=
  root.isPrefixOf path

theorem pathWithin_iff
    {path root : PathBuf} :
    pathWithin path root = true ↔ root <+: path :=
  List.isPrefixOf_iff_prefix

inductive Op
  | read
  | write
deriving DecidableEq

inductive Access
  | read
  | write
  | both
deriving DecidableEq

namespace Access

def coversRead : Access → Bool
  | .read => true
  | .both => true
  | .write => false

def coversWrite : Access → Bool
  | .write => true
  | .both => true
  | .read => false

def covers (access : Access) : Op → Bool
  | .read => access.coversRead
  | .write => access.coversWrite

end Access

inductive Decision
  | ask
  | allow
  | deny
deriving DecidableEq

inductive RuleMatcher
  | literal (path : PathBuf)
  | subtree (lexical canonical : PathBuf)
  | glob (pattern : String)
deriving DecidableEq

structure Rule where
  matcher : RuleMatcher
  access : Access
  decision : Decision
deriving DecidableEq

/-- `RuleSetSnapshot`: the rules of each layer, the highest first. -/
structure RuleSet where
  workspace : PathBuf
  tempRoots : List PathBuf
  layers : List (List Rule)
  resolutionErrors : List String
deriving DecidableEq

namespace Rule

/-- `PathRule::matches`; a glob is the regular expression it was turned into. -/
def applies (rule : Rule) (path : PathBuf) (op : Op) : Bool :=
  rule.access.covers op &&
    match rule.matcher with
    | .literal target => path = target
    | .subtree lexical canonical => pathWithin path lexical || pathWithin path canonical
    | .glob pattern => Glob.isMatch pattern.toList path.text

def allows (rule : Rule) : Bool :=
  rule.decision = .allow

end Rule

namespace RuleSet

/-- All rules in the order of their priority. -/
def rules (ruleSet : RuleSet) : List Rule :=
  ruleSet.layers.flatten

/-- Where writes need no rule. -/
def writableBases (ruleSet : RuleSet) : List PathBuf :=
  ruleSet.workspace :: ruleSet.tempRoots

/-- `evaluate`. -/
def evaluate (ruleSet : RuleSet) (path : PathBuf) (op : Op) : Decision :=
  match ruleSet.rules.find? fun rule => rule.applies path op with
  | some rule => rule.decision
  | none =>
      match op with
      | .read => .allow
      | .write =>
          if pathWithin path ruleSet.workspace ||
              ruleSet.tempRoots.any fun root => pathWithin path root then
            .allow
          else
            .ask

end RuleSet

end Sandbox
end FutureOs
