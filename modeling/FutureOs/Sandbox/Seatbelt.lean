import FutureOs.Lib.Sexp
import FutureOs.Sandbox.GlobRegex
import FutureOs.Sandbox.Platform

/-!
# Seatbelt profiles

`sandbox/seatbelt.rs` writes the rules of a session as a profile for `sandbox-exec`: a base
that opens reads, and then every rule from the lowest priority to the highest, since the
last clause that matches decides.

`Sbpl` is what such a profile means.  Seatbelt's regular expression engine is not part of the
repository; `Sbpl.Engine` is what it is asked, and `Sbpl.Documented` what a profile relies on.
-/

namespace FutureOs
namespace Sandbox

open Regex (Atom Item Expr)

/-! ## What is written -/

namespace Seatbelt

/-- `sb_quote_str`. -/
def sbQuoteStr (raw : List Char) : List Char :=
  '"' :: raw.flatMap (fun c => if c = '"' ∨ c = '\\' then ['\\', c] else [c]) ++ ['"']

/-- `sb_quote`. -/
def sbQuote (path : PathBuf) : List Char :=
  sbQuoteStr path.text

/-- `as_str` of the expression `build_glob_regex` compiles. -/
def globSource (glob : List Char) : List Char :=
  ['^'] ++ globExpression glob ++ ['$']

/-- The loop of `matcher_filter`: an ASCII letter becomes a class of both cases. -/
def foldCase (source : List Char) : List Char :=
  source.flatMap fun c => if c.isAlpha then ['[', c.toLower, c.toUpper, ']'] else [c]

/-- `matcher_filter`. -/
def matcherFilter (rule : Rule) : List Char :=
  match rule.matcher with
  | .literal path => "(literal ".toList ++ sbQuote path ++ [')']
  | .subtree _ canonical => "(subpath ".toList ++ sbQuote canonical ++ [')']
  | .glob pattern =>
      "(regex ".toList ++ sbQuoteStr (foldCase (globSource pattern.toList)) ++ [')']

def verb : Decision → List Char
  | .allow => "allow".toList
  | .ask => "deny".toList
  | .deny => "deny".toList

/-- `emit_rule`. -/
def emitRule (rule : Rule) : List Char :=
  (if rule.access.coversRead then
    '(' :: verb rule.decision ++ " file-read* ".toList ++ matcherFilter rule ++ [')', '\n']
  else
    []) ++
  (if rule.access.coversWrite then
    '(' :: verb rule.decision ++ " file-write* ".toList ++ matcherFilter rule ++ [')', '\n']
  else
    [])

/-- Up to the base, clause by clause. -/
def preamble : List String :=
  ["(version 1)\n",
    "(deny default)\n; process management — build toolchains fork/exec constantly\n",
    "(allow process-fork) ",
    "(allow process-exec) ",
    "(allow process-info*)\n",
    "(allow signal (target same-sandbox)) ",
    "(allow pseudo-tty)\n; system infrastructure (broad in v2; narrow via smoke tests)\n",
    "(allow sysctl-read) ",
    "(allow mach-lookup) ",
    "(allow ipc-posix*) ",
    "(allow file-ioctl)\n; network: unrestricted in v2\n",
    "(allow network*) ",
    "(allow system-socket)\n; ── base: reads open, writes to workspace + temp + pseudo-devices ──\n",
    "(allow file-read*)\n"]

/-- The pseudo-devices behind `(allow file-write*`, filter by filter. -/
def deviceWrites : List String :=
  ["(literal \"/dev/null\") ",
    "(literal \"/dev/zero\")\n ",
    "(literal \"/dev/stdout\") ",
    "(literal \"/dev/stderr\")\n ",
    "(regex #\"^/dev/fd/\") ",
    "(regex #\"^/dev/tty\") ",
    "(literal \"/dev/dtracehelper\")\n"]

def writableRoot (root : PathBuf) : List Char :=
  "  (subpath ".toList ++ sbQuote root ++ [')', '\n']

/-- `build_profile`; `tempRoots` is what `temp_roots` gives. -/
def buildProfile (ruleSet : RuleSet) (tempRoots : List PathBuf) : List Char :=
  if ruleSet.resolutionErrors ≠ [] then
    "(version 1)\n(deny default)\n".toList
  else
    preamble.flatMap String.toList ++ "(allow file-write*\n ".toList ++
      deviceWrites.flatMap String.toList ++ writableRoot ruleSet.workspace ++
      tempRoots.flatMap writableRoot ++ [')', '\n'] ++
      "; ── rule layers (low→high priority; last match wins) ──\n".toList ++
      ruleSet.layers.reverse.flatMap fun layer => layer.reverse.flatMap emitRule

/-- The devices a profile always opens for writing. -/
def IsPseudoDevice (path : List Char) : Prop :=
  path ∈ ["/dev/null", "/dev/zero", "/dev/stdout", "/dev/stderr", "/dev/dtracehelper"].map
      String.toList ∨
    "/dev/fd/".toList <+: path ∨ "/dev/tty".toList <+: path

end Seatbelt

/-! ## What it means -/

namespace Sbpl

/-- Whether a regular expression matches a text. -/
abbrev Engine : Type := List Char → List Char → Bool

/--
An expression between the two anchors matches the texts of its language; without the one
at the end, the texts that go on from one.
-/
structure Documented (engine : Engine) : Prop where
  whole : ∀ e, Regex.WellFormed e → ∀ t,
    engine (['^'] ++ Regex.text e ++ ['$']) t = true ↔
      t ∈ Regex.language (fun a b => a = b) e
  front : ∀ e, Regex.WellFormed e → ∀ t,
    engine (['^'] ++ Regex.text e) t = true ↔
      ∃ s, s <+: t ∧ s ∈ Regex.language (fun a b => a = b) e

def operation : Op → List Char
  | .read => "file-read*".toList
  | .write => "file-write*".toList

section Evaluation

variable (engine : Engine)
variable (path : List Char)

/-- `subpath` follows the volume, which ignores the case of ASCII letters. -/
def filterMatches (filter : Sexp) : Bool :=
  match filter.items with
  | [.atom name, .text content] =>
      if name = "literal".toList then
        path = content
      else if name = "subpath".toList then
        (Platform.macos Char.toLower).pathWithin (PathBuf.parse (String.ofList path))
          (PathBuf.parse (String.ofList content))
      else if name = "regex".toList then
        engine content path
      else
        false
  | [.atom name, .raw content] => name = "regex".toList && engine content path
  | _ => false

/-- Whether a clause allows the operation, if it says anything about it. -/
def verdict (op : Op) (clause : Sexp) : Option Bool :=
  match clause.items with
  | .atom verb :: .atom name :: filters =>
      if (name = operation op ∨ name = "default".toList) ∧
          (filters = [] ∨ filters.any (filterMatches engine path) = true) then
        if verb = "allow".toList then
          some true
        else if verb = "deny".toList then
          some false
        else
          none
      else
        none
  | _ => none

/-- The last clause that matches decides. -/
def allowsClauses (op : Op) (clauses : List Sexp) : Bool :=
  (clauses.filterMap (verdict engine path op)).getLast? = some true

/-- A profile that cannot be read allows nothing. -/
def allows (profile : List Char) (op : Op) : Bool :=
  match Sexp.read profile with
  | some clauses => allowsClauses engine path op clauses
  | none => false

end Evaluation

end Sbpl

end Sandbox
end FutureOs
