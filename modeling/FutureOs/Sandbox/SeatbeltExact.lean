import FutureOs.Sandbox.PathText
import FutureOs.Sandbox.SeatbeltText

/-!
# A profile decides like the rules

Reversing the layers and the rules of each turns the last clause that matches into the first
rule that does (`getLast?_reverse_flatMap`), so a profile decides like the rules with the case
of ASCII letters ignored in globs (`allows_buildProfile`).  The rules ignore any case there, so
the two differ where only another letter makes a rule match (`allows_iff_evaluate`).
-/

namespace FutureOs
namespace Sandbox
namespace Seatbelt

/-! ## What the clauses say -/

/-- The paths of a rule come from texts, and the two of a subtree are the same. -/
def Resolved (rule : Rule) : Prop :=
  match rule.matcher with
  | .literal path => path.IsPath
  | .subtree lexical canonical => lexical = canonical ∧ canonical.IsPath
  | .glob _ => True

/-- What a profile compares like. -/
abbrev asciiCase : Platform :=
  .macos Char.toLower

section Verdicts

variable {engine : Sbpl.Engine}
variable {path : PathBuf}

theorem pathWithin_text
    {root : PathBuf}
    (hpath : path.IsPath)
    (hroot : root.IsPath) :
    Sbpl.filterMatches engine path.text (rootFilter root) = asciiCase.pathWithin path root := by
  show asciiCase.pathWithin (PathBuf.parse (String.ofList path.text))
    (PathBuf.parse (String.ofList root.text)) = _
  rw [PathBuf.parse_text hpath, PathBuf.parse_text hroot]

/-- The filter of a rule matches the paths the rule does. -/
theorem filterMatches_eq
    (hengine : Sbpl.Documented engine)
    (hpath : path.IsPath)
    {rule : Rule}
    (hrule : Resolved rule)
    (op : Op) :
    (rule.access.covers op &&
      Sbpl.filterMatches engine path.text (filterOf (filterName rule) (filterText rule))) =
        asciiCase.applies rule path op := by
  obtain ⟨matcher, access, decision⟩ := rule
  refine congrArg (access.covers op && ·) ?_
  cases matcher with
  | literal target =>
      show decide (path.text = target.text) = decide (path = target)
      rw [decide_eq_decide]
      exact ⟨PathBuf.text_injective hpath hrule, congrArg _⟩
  | subtree lexical canonical =>
      obtain ⟨rfl, hcanonical⟩ := hrule
      exact (pathWithin_text hpath hcanonical).trans (Bool.or_self _).symm
  | glob pattern => exact engine_globSource hengine pattern.toList path.text

theorem verdict_clauseOf
    (t : List Char)
    (op other : Op)
    (rule : Rule) :
    Sbpl.verdict engine t op (clauseOf other rule) =
      if other = op ∧
          Sbpl.filterMatches engine t (filterOf (filterName rule) (filterText rule)) = true then
        some rule.allows
      else
        none := by
  have hnames : Sbpl.operation other = Sbpl.operation op ∨
      Sbpl.operation other = "default".toList ↔ other = op := by
    cases other <;> cases op <;> decide
  rw [Sbpl.verdict, clauseOf, Sexp.items_ofList]
  simp only [hnames, List.cons_ne_nil, false_or, List.any_cons, List.any_nil, Bool.or_false]
  refine if_congr Iff.rfl ?_ rfl
  unfold Rule.allows
  cases rule.decision <;> rfl

theorem filterMap_clause
    (t : List Char)
    (op other : Op)
    (rule : Rule)
    (b : Bool) :
    (if b then [clauseOf other rule] else []).filterMap (Sbpl.verdict engine t op) =
      if other = op ∧ (b &&
          Sbpl.filterMatches engine t (filterOf (filterName rule) (filterText rule))) = true then
        [rule.allows]
      else
        [] := by
  cases b with
  | false =>
      simp
  | true =>
      rw [if_pos rfl, List.filterMap_cons, verdict_clauseOf, Bool.true_and]
      split_ifs <;> rfl

/-- A rule says something exactly if it applies. -/
theorem filterMap_clausesOf
    (hengine : Sbpl.Documented engine)
    (hpath : path.IsPath)
    {rule : Rule}
    (hrule : Resolved rule)
    (op : Op) :
    (clausesOf rule).filterMap (Sbpl.verdict engine path.text op) =
      if asciiCase.applies rule path op then [rule.allows] else [] := by
  rw [← filterMatches_eq hengine hpath hrule op, clausesOf, List.filterMap_append,
    filterMap_clause, filterMap_clause]
  cases op with
  | read => simp [Access.covers]
  | write => simp [Access.covers]

theorem filterMap_preamble
    (engine : Sbpl.Engine)
    (t : List Char)
    (op : Op) :
    preambleForms.filterMap (Sbpl.verdict engine t op) =
      match op with
      | .read => [false, true]
      | .write => [false] := by
  cases op with
  | read => rfl
  | write => rfl

/-- No device filter matches any other path. -/
theorem any_deviceFilters
    (hengine : Sbpl.Documented engine)
    {t : List Char}
    (hdevice : ¬ IsPseudoDevice t) :
    deviceFilters.any (Sbpl.filterMatches engine t) = false := by
  obtain ⟨hliteral, hprefixes⟩ := not_or.1 hdevice
  obtain ⟨hfd, htty⟩ := not_or.1 hprefixes
  have hfront : ∀ cs : List Char, (∀ c ∈ cs, c ∉ Regex.metas) → ¬ cs <+: t →
      engine ('^' :: cs) t = false := by
    intro cs hcs hnot
    rw [Bool.eq_false_iff]
    intro hmatch
    rw [← Regex.text_verbatim cs] at hmatch
    obtain ⟨s, hs, hmem⟩ := (hengine.front _ (Regex.verbatim_wellFormed hcs) t).1 hmatch
    exact hnot (Regex.mem_language_verbatim.1 hmem ▸ hs)
  have hnever : ∀ content ∈ ["/dev/null", "/dev/zero", "/dev/stdout", "/dev/stderr",
      "/dev/dtracehelper"].map String.toList, decide (t = content) = false := by
    intro content hcontent
    rw [decide_eq_false_iff_not]
    rintro rfl
    exact hliteral hcontent
  have hfilters : ∀ filter ∈ deviceFilters, Sbpl.filterMatches engine t filter = false :=
    List.forall_mem_cons.2 ⟨hnever _ (by simp), List.forall_mem_cons.2 ⟨hnever _ (by simp),
      List.forall_mem_cons.2 ⟨hnever _ (by simp), List.forall_mem_cons.2 ⟨hnever _ (by simp),
        List.forall_mem_cons.2 ⟨hfront "/dev/fd/".toList (by simp [Regex.metas]) hfd,
          List.forall_mem_cons.2 ⟨hfront "/dev/tty".toList (by simp [Regex.metas]) htty,
            List.forall_mem_singleton.2 (hnever _ (by simp))⟩⟩⟩⟩⟩⟩
  rw [List.any_eq_false]
  exact fun filter hfilter => Bool.not_eq_true _ ▸ hfilters filter hfilter

theorem filterMap_writesForm
    (hengine : Sbpl.Documented engine)
    (hpath : path.IsPath)
    (hdevice : ¬ IsPseudoDevice path.text)
    {roots : List PathBuf}
    (hroots : ∀ root ∈ roots, root.IsPath)
    (op : Op) :
    [writesForm roots].filterMap (Sbpl.verdict engine path.text op) =
      if op = .write ∧ roots.any (asciiCase.pathWithin path) = true then [true] else [] := by
  have hany : (deviceFilters ++ roots.map rootFilter).any
      (Sbpl.filterMatches engine path.text) = roots.any (asciiCase.pathWithin path) := by
    rw [List.any_append, any_deviceFilters hengine hdevice, Bool.false_or, List.any_map]
    rw [Bool.eq_iff_iff, List.any_eq_true, List.any_eq_true]
    refine exists_congr fun root => and_congr_right fun hroot => ?_
    rw [Function.comp_apply, pathWithin_text hpath (hroots root hroot)]
  have hname : word "file-write*" = .atom (Sbpl.operation .write) := rfl
  have hoperation : Sbpl.operation .write = Sbpl.operation op ∨
      Sbpl.operation .write = "default".toList ↔ op = .write := by
    cases op <;> decide
  have hsome : deviceFilters ++ roots.map rootFilter ≠ [] := by
    simp [deviceFilters]
  rw [List.filterMap_cons, Sbpl.verdict, writesForm, Sexp.items_ofList, hname]
  simp only [word, hoperation, hany, hsome, false_or, if_true]
  split_ifs <;> rfl

end Verdicts

/-! ## The last clause and the first rule -/

/-- What is said last is said by the first that says something. -/
theorem getLast?_reverse_flatMap
    {α : Type}
    (decides : α → Bool)
    (answer : α → Bool)
    (base : List Bool)
    (l : List α) :
    (base ++ l.reverse.flatMap fun a => if decides a then [answer a] else []).getLast? =
      match l.find? decides with
      | some a => some (answer a)
      | none => base.getLast? := by
  induction l with
  | nil =>
      simp
  | cons a l ih =>
      rw [List.reverse_cons, List.flatMap_append, ← List.append_assoc, List.find?_cons,
        List.flatMap_singleton]
      cases decides a with
      | true =>
          rw [if_pos rfl]
          exact List.getLast?_concat
      | false =>
          rw [if_neg Bool.false_ne_true, List.append_nil]
          exact ih

/-- A profile, where its rules and roots are resolved and the path is no device. -/
theorem allows_buildProfile
    {engine : Sbpl.Engine}
    (hengine : Sbpl.Documented engine)
    {ruleSet : RuleSet}
    (hresolved : ruleSet.resolutionErrors = [])
    (hrules : ∀ rule ∈ ruleSet.rules, Resolved rule)
    (hroots : ∀ root ∈ ruleSet.writableBases, root.IsPath)
    {path : PathBuf}
    (hpath : path.IsPath)
    (hdevice : ¬ IsPseudoDevice path.text)
    (op : Op) :
    Sbpl.allows engine path.text (buildProfile ruleSet ruleSet.tempRoots) op =
      decide (ruleSet.evaluateOn asciiCase path op = .allow) := by
  have hflat : (ruleSet.rules.reverse.flatMap clausesOf).filterMap
      (Sbpl.verdict engine path.text op) = ruleSet.rules.reverse.flatMap fun rule =>
        if asciiCase.applies rule path op then [rule.allows] else [] := by
    rw [List.filterMap_flatMap]
    refine List.flatMap_congr fun rule hrule => ?_
    exact filterMap_clausesOf hengine hpath (hrules rule (List.mem_reverse.1 hrule)) op
  rw [Sbpl.allows, read_buildProfile ruleSet hresolved]
  simp only [Sbpl.allowsClauses]
  rw [List.filterMap_append, List.filterMap_append, hflat, getLast?_reverse_flatMap,
    RuleSet.evaluateOn]
  cases hfind : ruleSet.rules.find? fun rule => asciiCase.applies rule path op with
  | some rule =>
      simp only [Option.some.injEq]
      exact decide_eq_decide.2 decide_eq_true_iff
  | none =>
      have hwrites := filterMap_writesForm hengine hpath hdevice hroots op
      simp only
      rw [RuleSet.writableBases, List.any_cons] at hwrites
      rw [filterMap_preamble, hwrites]
      cases op with
      | read => rfl
      | write =>
          simp only [true_and, RuleSet.fallbackOn]
          split_ifs <;> rfl

/-! ## The rules on macOS -/

/-- On macOS a glob is the expression of `build_glob_regex` without regard to case. -/
theorem buildGlobRegex_macos
    {crate : RegexCrate}
    (hcrate : crate.Documented)
    {pattern : List Char}
    {matcher : List Char → Bool}
    (h : buildGlobRegex crate true pattern = .ok matcher) :
    matcher = Glob.acceptsBy (Platform.macos crate.fold).sameChar (Glob.tokens pattern) :=
  buildGlobRegex_spec hcrate h

section Folding

variable {fold : Char → Char}

/-- The engine folds ASCII letters as well. -/
theorem applies_of_asciiCase
    (hfold : ∀ c d : Char, c.toLower = d.toLower → fold c = fold d)
    {rule : Rule}
    {path : PathBuf}
    {op : Op}
    (h : asciiCase.applies rule path op = true) :
    (Platform.macos fold).applies rule path op = true := by
  obtain ⟨matcher, access, decision⟩ := rule
  cases matcher with
  | literal target => exact h
  | subtree lexical canonical => exact h
  | glob pattern =>
      obtain ⟨hcovers, hglob⟩ := Bool.and_eq_true_iff.1 h
      refine Bool.and_eq_true_iff.2 ⟨hcovers, Glob.acceptsBy_mono ?_ _ _ hglob⟩
      intro c d hcd
      exact decide_eq_true (hfold c d (of_decide_eq_true hcd))

theorem find?_eq_of_imp
    {α : Type}
    {p q : α → Bool}
    (himp : ∀ a, p a = true → q a = true)
    {l : List α}
    (hfirst : ∀ a, l.find? q = some a → p a = true) :
    l.find? p = l.find? q := by
  induction l with
  | nil =>
      rfl
  | cons a l ih =>
      rw [List.find?_cons] at hfirst ⊢
      rw [List.find?_cons]
      cases hq : q a with
      | true =>
          rw [hq] at hfirst
          rw [hfirst a rfl]
      | false =>
          rw [hq] at hfirst
          rw [Bool.eq_false_iff.2 (mt (himp a) (Bool.eq_false_iff.1 hq))]
          exact ih hfirst

/--
A profile decides like the rules with only the case of ASCII letters ignored in globs.  Where
the first rule that matches without regard to any case does so without regard to ASCII case,
this is what the rules decide.
-/
theorem allows_iff_evaluate
    {engine : Sbpl.Engine}
    (hengine : Sbpl.Documented engine)
    (hfold : ∀ c d : Char, c.toLower = d.toLower → fold c = fold d)
    {ruleSet : RuleSet}
    (hresolved : ruleSet.resolutionErrors = [])
    (hrules : ∀ rule ∈ ruleSet.rules, Resolved rule)
    (hroots : ∀ root ∈ ruleSet.writableBases, root.IsPath)
    {path : PathBuf}
    (hpath : path.IsPath)
    (hdevice : ¬ IsPseudoDevice path.text)
    (op : Op) :
    (Sbpl.allows engine path.text (buildProfile ruleSet ruleSet.tempRoots) op = true ↔
      ruleSet.evaluateOn asciiCase path op = .allow) ∧
    ((∀ rule, (ruleSet.rules.find? fun rule => (Platform.macos fold).applies rule path op) =
        some rule → asciiCase.applies rule path op = true) →
      (Sbpl.allows engine path.text (buildProfile ruleSet ruleSet.tempRoots) op = true ↔
        ruleSet.evaluateOn (.macos fold) path op = .allow)) := by
  have hallows := allows_buildProfile hengine hresolved hrules hroots hpath hdevice op
  have hascii : Sbpl.allows engine path.text (buildProfile ruleSet ruleSet.tempRoots) op =
      true ↔ ruleSet.evaluateOn asciiCase path op = .allow := by
    rw [hallows, decide_eq_true_iff]
  refine ⟨hascii, fun hfirst => hascii.trans ?_⟩
  have hfind := find?_eq_of_imp (fun rule => applies_of_asciiCase hfold) hfirst
  rw [RuleSet.evaluateOn, RuleSet.evaluateOn, hfind]
  rfl

end Folding

/-! ## Two profiles -/

/-- Folds one letter that is not ASCII. -/
def accentFold (c : Char) : Char :=
  if c = 'É' then 'é' else c.toLower

theorem accentFold_of_toLower
    {c d : Char}
    (h : c.toLower = d.toLower) :
    accentFold c = accentFold d := by
  have haccent : ∀ a : Char, a = 'É' ↔ a.toLower = 'É' := fun a =>
    eq_comm.trans ((@AsciiCase.eq_iff 'É' (by decide) a).trans eq_comm)
  unfold accentFold
  rw [h]
  refine if_congr ?_ rfl rfl
  rw [haccent c, haccent d, h]

def smallEngine : Sbpl.Engine :=
  Regex.anchored fun a b => a = b

theorem smallEngine_documented : Sbpl.Documented smallEngine where
  whole := Regex.anchored_whole
  front := Regex.anchored_front

/-- A guard for a glob, and one root to write to. -/
def guarded (pattern : String) : RuleSet where
  workspace := ["/", "work"]
  tempRoots := []
  layers := [[⟨.glob pattern, .read, .deny⟩]]
  resolutionErrors := []

/-- ASCII letters of either case are guarded. -/
theorem pem_denied :
    Sbpl.allows smallEngine "/a.PEM".toList (buildProfile (guarded "/*.pem") []) .read = true ↔
      (guarded "/*.pem").evaluateOn (.macos accentFold) ["/", "a.PEM"] .read = .allow :=
  (@allows_iff_evaluate accentFold smallEngine smallEngine_documented
    (fun _ _ => accentFold_of_toLower) (guarded "/*.pem") rfl
    (List.forall_mem_singleton.2 trivial)
    (List.forall_mem_singleton.2 ⟨"/work", by decide⟩)
    ["/", "a.PEM"] ⟨"/a.PEM", by decide⟩
    (by unfold IsPseudoDevice; decide) .read).2 fun rule hrule => by
      cases hrule
      decide

/-- The rules deny a name of another case, and the profile allows it. -/
theorem accented_name_allowed :
    Sbpl.Documented smallEngine ∧
      (∀ c d : Char, c.toLower = d.toLower → accentFold c = accentFold d) ∧
      Sbpl.allows smallEngine "/é".toList (buildProfile (guarded "/É*") []) .read = true ∧
      (guarded "/É*").evaluateOn (.macos accentFold) ["/", "é"] .read = .deny := by
  refine ⟨smallEngine_documented, fun _ _ => accentFold_of_toLower, ?_, by decide⟩
  rw [Sbpl.allows, read_buildProfile (guarded "/É*") rfl]
  decide +kernel

end Seatbelt
end Sandbox
end FutureOs
