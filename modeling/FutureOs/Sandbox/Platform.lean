import FutureOs.Sandbox.Rules

/-!
# Rules on a platform

Linux compares paths and globs as they are.  macOS ignores the case of ASCII letters in a path
component and the case of all letters in a glob.  `RuleSet.evaluateOn` is the engine for any
way of comparing; on Linux it is `RuleSet.evaluate`.
-/

namespace FutureOs
namespace Sandbox

structure Platform where
  /-- `component_eq`. -/
  sameComponent : String → String → Bool
  /-- A character of a glob and one of a path. -/
  sameChar : Char → Char → Bool

namespace Platform

def linux : Platform where
  sameComponent a b := a = b
  sameChar a b := a = b

/-- `eq_ignore_ascii_case`. -/
def eqIgnoreAsciiCase (a b : String) : Bool :=
  a.toList.map Char.toLower = b.toList.map Char.toLower

/-- `fold` is the simple case folding of the regex engine. -/
def macos (fold : Char → Char) : Platform where
  sameComponent := eqIgnoreAsciiCase
  sameChar a b := fold a = fold b

/-- `path_within`. -/
def pathWithin (platform : Platform) (path root : PathBuf) : Bool :=
  decide (root.length ≤ path.length) &&
    (path.zip root).all fun (a, b) => platform.sameComponent a b

/-- `PathRule::matches`. -/
def applies (platform : Platform) (rule : Rule) (path : PathBuf) (op : Op) : Bool :=
  rule.access.covers op &&
    match rule.matcher with
    | .literal target => path = target
    | .subtree lexical canonical =>
        platform.pathWithin path lexical || platform.pathWithin path canonical
    | .glob pattern => Glob.acceptsBy platform.sameChar (Glob.tokens pattern.toList) path.text

theorem pathWithin_linux (path root : PathBuf) :
    linux.pathWithin path root = Sandbox.pathWithin path root := by
  induction root generalizing path with
  | nil =>
      simp [pathWithin, Sandbox.pathWithin]
  | cons first rest ih =>
      cases path with
      | nil =>
          simp [pathWithin, Sandbox.pathWithin]
      | cons component path =>
          have hrest := ih path
          simp only [pathWithin, Sandbox.pathWithin] at hrest
          simp only [pathWithin, Sandbox.pathWithin, List.length_cons, List.zip_cons_cons,
            List.all_cons, List.isPrefixOf, Nat.add_le_add_iff_right, ← hrest]
          rw [Bool.and_left_comm]
          congr 1
          exact decide_eq_decide.mpr eq_comm

theorem applies_linux (rule : Rule) (path : PathBuf) (op : Op) :
    linux.applies rule path op = rule.applies path op := by
  cases hmatcher : rule.matcher with
  | literal target =>
      simp [applies, Rule.applies, hmatcher]
  | subtree lexical canonical =>
      simp [applies, Rule.applies, hmatcher, pathWithin_linux]
  | glob pattern =>
      simp [applies, Rule.applies, hmatcher, linux, Glob.isMatch, Glob.acceptsBy_eq]

end Platform

/-- Where there is no rule. -/
def RuleSet.fallbackOn (ruleSet : RuleSet) (platform : Platform) (path : PathBuf) :
    Op → Decision
  | .read => .allow
  | .write =>
      if platform.pathWithin path ruleSet.workspace ||
          ruleSet.tempRoots.any fun root => platform.pathWithin path root then
        .allow
      else
        .ask

/-- `evaluate`, on any platform. -/
def RuleSet.evaluateOn (ruleSet : RuleSet) (platform : Platform) (path : PathBuf) (op : Op) :
    Decision :=
  match ruleSet.rules.find? fun rule => platform.applies rule path op with
  | some rule => rule.decision
  | none => ruleSet.fallbackOn platform path op

theorem RuleSet.evaluateOn_linux (ruleSet : RuleSet) (path : PathBuf) (op : Op) :
    ruleSet.evaluateOn .linux path op = ruleSet.evaluate path op := by
  simp only [evaluateOn, evaluate, Platform.applies_linux]
  cases ruleSet.rules.find? fun rule => rule.applies path op with
  | some rule =>
      rfl
  | none =>
      cases op with
      | read =>
          rfl
      | write =>
          simp only [fallbackOn, Platform.pathWithin_linux]

end Sandbox
end FutureOs
