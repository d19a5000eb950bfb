import FutureOs.Sandbox.Seatbelt

/-!
# Reading a profile

The text of a profile is read back as its clauses (`read_buildProfile`), whatever the paths and
globs of its rules contain.  What the engine is given for a glob is the expression of the glob
with a class of both cases for each ASCII letter (`engine_globSource`).
-/

namespace FutureOs
namespace Sandbox
namespace Seatbelt

open Regex (Atom Item Expr)
open Sexp (Reader)

/-! ## The regular expression of a glob -/

/-- How a literal of a glob is written in a profile. -/
def caseLiteral (c : Char) : Atom :=
  if c.isAlpha then .oneOf [c.toLower, c.toUpper] else globLiteral c

theorem caseLiteral_wellFormed (c : Char) : (caseLiteral c).WellFormed := by
  unfold caseLiteral
  split
  case isTrue h =>
    intro d hd
    obtain ⟨hlower, hupper⟩ := AsciiCase.isAlphanum_cases h
    rcases List.mem_pair.1 hd with rfl | rfl
    · rw [Regex.isMember, hlower]
      rfl
    · rw [Regex.isMember, hupper]
      rfl
  case isFalse => exact (globLiteral_literal c).1

theorem caseLiteral_accepts (c d : Char) :
    (caseLiteral c).accepts (fun a b => a = b) d = decide (c.toLower = d.toLower) := by
  rw [Bool.eq_iff_iff, decide_eq_true_iff]
  unfold caseLiteral
  split
  case isTrue =>
    rw [← AsciiCase.eq_cases_iff]
    simp [Atom.accepts]
  case isFalse h =>
    rw [(globLiteral_literal c).accepts_eq, decide_eq_true_iff]
    exact AsciiCase.eq_iff (Bool.eq_false_iff.2 h) d

theorem foldCase_append (s t : List Char) : foldCase (s ++ t) = foldCase s ++ foldCase t :=
  List.flatMap_append

theorem foldCase_literal (c : Char) :
    foldCase (globLiteral c).text = (caseLiteral c).text := by
  have hmetas : ∀ d ∈ Regex.metas, d.isAlpha = false := by
    have hall : Regex.metas.all (fun d => !d.isAlpha) = true := rfl
    simpa using hall
  by_cases hmeta : c ∈ Regex.metas
  · simp [caseLiteral, globLiteral, foldCase, Atom.text, hmeta, hmetas c hmeta]
  · by_cases halpha : c.isAlpha
    · simp [caseLiteral, globLiteral, foldCase, Atom.text, hmeta, halpha]
    · simp [caseLiteral, globLiteral, foldCase, Atom.text, hmeta, halpha]

/-- Only the literals of an expression contain letters. -/
theorem foldCase_text (tokens : List Glob.Token) :
    foldCase (Regex.text (exprOf (.many .anyChar) globLiteral tokens)) =
      Regex.text (exprOf (.many .anyChar) caseLiteral tokens) := by
  induction tokens with
  | nil =>
      rfl
  | cons token tokens ih =>
      cases token with
      | anything =>
          rw [exprOf, exprOf, Regex.text_cons, Regex.text_cons, foldCase_append, ih]
          rfl
      | segment =>
          rw [exprOf, exprOf, Regex.text_cons, Regex.text_cons, foldCase_append, ih]
          rfl
      | one =>
          rw [exprOf, exprOf, Regex.text_cons, Regex.text_cons, foldCase_append, ih]
          rfl
      | literal c =>
          rw [exprOf, exprOf, Regex.text_cons, Regex.text_cons, foldCase_append, ih]
          exact congrArg (· ++ _) (foldCase_literal c)

theorem foldCase_globSource (glob : List Char) :
    foldCase (globSource glob) =
      ['^'] ++ Regex.text (exprOf (.many .anyChar) caseLiteral (Glob.tokens glob)) ++
        ['$'] := by
  rw [globSource, globExpression_eq, foldCase_append, foldCase_append, foldCase_text]
  rfl

theorem exprOf_caseLiteral_wellFormed (tokens : List Glob.Token) :
    Regex.WellFormed (exprOf (.many .anyChar) caseLiteral tokens) :=
  exprOf_wellFormed (.inr rfl) tokens fun c _ => caseLiteral_wellFormed c

section Engine

variable {engine : Sbpl.Engine}

/-- Seatbelt ignores the case of ASCII letters in a glob. -/
theorem engine_globSource
    (hengine : Sbpl.Documented engine)
    (glob t : List Char) :
    engine (foldCase (globSource glob)) t =
      Glob.acceptsBy (Platform.macos Char.toLower).sameChar (Glob.tokens glob) t := by
  rw [foldCase_globSource, Bool.eq_iff_iff,
    hengine.whole _ (exprOf_caseLiteral_wellFormed _), ← Regex.accepts_iff,
    accepts_exprOf (.inr rfl) caseLiteral_accepts (fun c => by simp [eq_comm])]
  rfl

end Engine

/-! ## The clauses of a rule -/

/-- The name of the filter of a rule, and the text it is given. -/
def filterName (rule : Rule) : List Char :=
  match rule.matcher with
  | .literal _ => "literal".toList
  | .subtree _ _ => "subpath".toList
  | .glob _ => "regex".toList

def filterText (rule : Rule) : List Char :=
  match rule.matcher with
  | .literal path => path.text
  | .subtree _ canonical => canonical.text
  | .glob pattern => foldCase (globSource pattern.toList)

def filterOf (name content : List Char) : Sexp :=
  .ofList [.atom name, .text content]

def clauseOf (op : Op) (rule : Rule) : Sexp :=
  .ofList [.atom (verb rule.decision), .atom (Sbpl.operation op),
    filterOf (filterName rule) (filterText rule)]

def clausesOf (rule : Rule) : List Sexp :=
  (if rule.access.coversRead then [clauseOf .read rule] else []) ++
    (if rule.access.coversWrite then [clauseOf .write rule] else [])

section Reading

variable (outer : List (List Sexp))
variable (forms : List Sexp)

theorem run_filter
    {opening name : List Char}
    (hopening : Reader.run ⟨outer, forms, .idle⟩ opening =
      some ⟨forms :: outer, [.atom name], .idle⟩)
    (content : List Char) :
    Reader.run ⟨outer, forms, .idle⟩ (opening ++ sbQuoteStr content ++ [')']) =
      some ⟨outer, forms ++ [filterOf name content], .idle⟩ := by
  rw [List.append_assoc, Reader.run_append_of_run hopening,
    show sbQuoteStr content = Sexp.quote content from rfl,
    Reader.run_append_of_run (Reader.run_quote _ _ content)]
  rfl

theorem run_matcherFilter (rule : Rule) :
    Reader.run ⟨outer, forms, .idle⟩ (matcherFilter rule) =
      some ⟨outer, forms ++ [filterOf (filterName rule) (filterText rule)], .idle⟩ := by
  unfold matcherFilter filterName filterText
  cases rule.matcher with
  | literal path => exact run_filter outer forms rfl _
  | subtree lexical canonical => exact run_filter outer forms rfl _
  | glob pattern => exact run_filter outer forms rfl _

theorem run_clause
    (rule : Rule)
    {opening : List Char}
    {op : Op}
    (hopening : Reader.run ⟨outer, forms, .idle⟩ opening =
      some ⟨forms :: outer, [.atom (verb rule.decision), .atom (Sbpl.operation op)], .idle⟩) :
    Reader.run ⟨outer, forms, .idle⟩ (opening ++ matcherFilter rule ++ [')', '\n']) =
      some ⟨outer, forms ++ [clauseOf op rule], .idle⟩ := by
  rw [List.append_assoc, Reader.run_append_of_run hopening,
    Reader.run_append_of_run (run_matcherFilter _ _ rule)]
  rfl

theorem run_ite
    {written : List Char}
    {form : Sexp}
    (h : Reader.run ⟨outer, forms, .idle⟩ written =
      some ⟨outer, forms ++ [form], .idle⟩)
    {b : Bool} :
    Reader.run ⟨outer, forms, .idle⟩ (if b then written else []) =
      some ⟨outer, forms ++ (if b then [form] else []), .idle⟩ := by
  cases b with
  | true => exact h
  | false =>
      simp only [Bool.false_eq_true, if_false, List.append_nil]
      rfl

theorem run_emitRule (rule : Rule) :
    Reader.run ⟨outer, forms, .idle⟩ (emitRule rule) =
      some ⟨outer, forms ++ clausesOf rule, .idle⟩ := by
  have hread : ∀ forms, Reader.run ⟨outer, forms, .idle⟩
      ('(' :: verb rule.decision ++ " file-read* ".toList) =
        some ⟨forms :: outer, [.atom (verb rule.decision), .atom (Sbpl.operation .read)],
          .idle⟩ := by
    intro forms
    cases rule.decision <;> rfl
  have hwrite : ∀ forms, Reader.run ⟨outer, forms, .idle⟩
      ('(' :: verb rule.decision ++ " file-write* ".toList) =
        some ⟨forms :: outer, [.atom (verb rule.decision), .atom (Sbpl.operation .write)],
          .idle⟩ := by
    intro forms
    cases rule.decision <;> rfl
  rw [emitRule, Reader.run_append_of_run
    (run_ite outer forms (run_clause outer forms rule (hread forms))),
    run_ite outer _ (run_clause outer _ rule (hwrite _)), List.append_assoc]
  rfl

theorem run_flatMap
    {α : Type}
    {text : α → List Char}
    {read : α → List Sexp}
    (h : ∀ a forms, Reader.run ⟨outer, forms, .idle⟩ (text a) =
      some ⟨outer, forms ++ read a, .idle⟩)
    (l : List α) :
    Reader.run ⟨outer, forms, .idle⟩ (l.flatMap text) =
      some ⟨outer, forms ++ l.flatMap read, .idle⟩ := by
  induction l generalizing forms with
  | nil =>
      rw [List.flatMap_nil, List.flatMap_nil, List.append_nil]
      rfl
  | cons a l ih =>
      rw [List.flatMap_cons, List.flatMap_cons, Reader.run_append_of_run (h a forms), ih,
        List.append_assoc]

end Reading

/-! ## The clauses of a profile -/

def word (name : String) : Sexp :=
  .atom name.toList

def preambleForms : List Sexp :=
  [.ofList [word "version", word "1"],
    .ofList [word "deny", word "default"],
    .ofList [word "allow", word "process-fork"],
    .ofList [word "allow", word "process-exec"],
    .ofList [word "allow", word "process-info*"],
    .ofList [word "allow", word "signal", .ofList [word "target", word "same-sandbox"]],
    .ofList [word "allow", word "pseudo-tty"],
    .ofList [word "allow", word "sysctl-read"],
    .ofList [word "allow", word "mach-lookup"],
    .ofList [word "allow", word "ipc-posix*"],
    .ofList [word "allow", word "file-ioctl"],
    .ofList [word "allow", word "network*"],
    .ofList [word "allow", word "system-socket"],
    .ofList [word "allow", word "file-read*"]]

def deviceFilters : List Sexp :=
  [filterOf "literal".toList "/dev/null".toList,
    filterOf "literal".toList "/dev/zero".toList,
    filterOf "literal".toList "/dev/stdout".toList,
    filterOf "literal".toList "/dev/stderr".toList,
    .ofList [word "regex", .raw "^/dev/fd/".toList],
    .ofList [word "regex", .raw "^/dev/tty".toList],
    filterOf "literal".toList "/dev/dtracehelper".toList]

def rootFilter (root : PathBuf) : Sexp :=
  filterOf "subpath".toList root.text

/-- The base for writes. -/
def writesForm (roots : List PathBuf) : Sexp :=
  .ofList (word "allow" :: word "file-write*" ::
    (deviceFilters ++ roots.map rootFilter))

/-- A piece of text adds one form; its characters are given, so that reading them computes. -/
def AddsForm (outer : List (List Sexp)) (piece : String) (form : Sexp) : Prop :=
  ∃ cs, piece = String.ofList cs ∧ ∀ forms,
    Reader.run ⟨outer, forms, .idle⟩ cs = some ⟨outer, forms ++ [form], .idle⟩

theorem run_pieces
    {outer : List (List Sexp)}
    {pieces : List String}
    {news : List Sexp}
    (h : List.Forall₂ (AddsForm outer) pieces news)
    (forms : List Sexp) :
    Reader.run ⟨outer, forms, .idle⟩ (pieces.flatMap String.toList) =
      some ⟨outer, forms ++ news, .idle⟩ := by
  induction h generalizing forms with
  | nil =>
      rw [List.append_nil]
      rfl
  | cons hpiece hpieces ih =>
      obtain ⟨cs, rfl, hrun⟩ := hpiece
      rw [List.flatMap_cons, String.toList_ofList, Reader.run_append_of_run (hrun forms), ih,
        List.append_assoc]
      rfl

set_option maxRecDepth 1000 in
theorem run_preamble :
    Reader.new.run (preamble.flatMap String.toList) =
      some ⟨[], preambleForms, .idle⟩ := by
  refine @run_pieces [] preamble preambleForms ?_ []
  unfold preamble preambleForms
  repeat' first | exact .nil | refine .cons ⟨_, rfl, fun _ => rfl⟩ ?_

theorem run_deviceWrites
    (outer : List (List Sexp))
    (forms : List Sexp) :
    Reader.run ⟨outer, forms, .idle⟩ (deviceWrites.flatMap String.toList) =
      some ⟨outer, forms ++ deviceFilters, .idle⟩ := by
  refine run_pieces ?_ forms
  unfold deviceWrites deviceFilters
  repeat' first | exact .nil | refine .cons ⟨_, rfl, fun _ => rfl⟩ ?_

theorem run_writableRoot
    (outer : List (List Sexp))
    (forms : List Sexp)
    (root : PathBuf) :
    Reader.run ⟨outer, forms, .idle⟩ (writableRoot root) =
      some ⟨outer, forms ++ [rootFilter root], .idle⟩ := by
  have hopening : Reader.run ⟨outer, forms, .idle⟩ "  (subpath ".toList =
      some ⟨forms :: outer, [.atom "subpath".toList], .idle⟩ := rfl
  have hfilter := run_filter outer forms hopening root.text
  have htext : writableRoot root =
      "  (subpath ".toList ++ sbQuoteStr root.text ++ [')'] ++ ['\n'] := by
    rw [List.append_assoc _ [')'] ['\n']]
    rfl
  rw [htext, Reader.run_append_of_run hfilter]
  rfl

theorem run_comment
    (outer : List (List Sexp))
    (forms : List Sexp) :
    Reader.run ⟨outer, forms, .idle⟩
        "; ── rule layers (low→high priority; last match wins) ──\n".toList =
      some ⟨outer, forms, .idle⟩ := by
  obtain ⟨cs, hcs, hrun⟩ : ∃ cs,
      "; ── rule layers (low→high priority; last match wins) ──\n" = String.ofList cs ∧
        Reader.run ⟨outer, forms, .idle⟩ cs = some ⟨outer, forms, .idle⟩ := ⟨_, rfl, rfl⟩
  rw [hcs, String.toList_ofList, hrun]

/-- A profile is its base, and then the rules from the last to the first. -/
theorem read_buildProfile
    (ruleSet : RuleSet)
    (hresolved : ruleSet.resolutionErrors = [])
    (tempRoots : List PathBuf) :
    Sexp.read (buildProfile ruleSet tempRoots) =
      some (preambleForms ++ [writesForm (ruleSet.workspace :: tempRoots)] ++
        ruleSet.rules.reverse.flatMap clausesOf) := by
  have hrules : (ruleSet.layers.reverse.flatMap fun layer => layer.reverse.flatMap emitRule) =
      ruleSet.rules.reverse.flatMap emitRule := by
    rw [RuleSet.rules]
    induction ruleSet.layers with
    | nil => rfl
    | cons layer layers ih => simp [ih]
  have hrun : Reader.new.run (buildProfile ruleSet tempRoots) =
      some ⟨[], preambleForms ++ [writesForm (ruleSet.workspace :: tempRoots)] ++
        ruleSet.rules.reverse.flatMap clausesOf, .idle⟩ := by
    have hopen : Reader.run ⟨[], preambleForms, .idle⟩
        "(allow file-write*\n ".toList =
          some ⟨[preambleForms], [word "allow", word "file-write*"], .idle⟩ := rfl
    have hroots : ∀ forms, Reader.run ⟨[preambleForms], forms, .idle⟩
        ((ruleSet.workspace :: tempRoots).flatMap writableRoot) =
          some ⟨[preambleForms],
            forms ++ (ruleSet.workspace :: tempRoots).flatMap fun root => [rootFilter root],
            .idle⟩ := fun forms =>
      run_flatMap _ _ (fun root forms => run_writableRoot _ forms root) _
    rw [buildProfile, if_neg (not_not.2 hresolved), hrules]
    simp only [List.append_assoc]
    rw [Reader.run_append_of_run run_preamble, Reader.run_append_of_run hopen,
      Reader.run_append_of_run (run_deviceWrites _ _), ← List.append_assoc (writableRoot _),
      ← List.flatMap_cons, Reader.run_append_of_run (hroots _), ← List.map_eq_flatMap]
    have hclose : Reader.run ⟨[preambleForms], [word "allow", word "file-write*"] ++
        deviceFilters ++ (ruleSet.workspace :: tempRoots).map rootFilter, .idle⟩
          [')', '\n'] =
        some ⟨[], preambleForms ++ [writesForm (ruleSet.workspace :: tempRoots)],
          .idle⟩ := rfl
    rw [Reader.run_append_of_run hclose, Reader.run_append_of_run (run_comment _ _),
      run_flatMap _ _ (fun rule forms => run_emitRule _ forms rule), List.append_assoc]
  rw [Sexp.read, hrun]

end Seatbelt
end Sandbox
end FutureOs
