import FutureOs.Sandbox.PlanMarks

/-!
# What the mount plan grants

A mounted path speaks for everything below it, but a rule may be about that path alone: then
what is below gets the mount of a rule that does not decide there.  `grants_iff` says for which
rules and files that never gives more than `RuleSet::evaluate`: they have to be `WellNested`.
-/

namespace FutureOs
namespace Sandbox

open LongestPrefix

/-! ## Rules and what is below -/

section Below

variable {tree : FileTree}
variable {ruleSet : RuleSet}
variable {op : Op}
variable {path : PathBuf}
variable {entry : FlatRule}
variable {plan : MountPlan}

/-- The rule is about single paths, not about what is below them. -/
def Rule.exact (rule : Rule) : Bool :=
  match rule.matcher with
  | .literal _ => true
  | .subtree _ _ => false
  | .glob _ => true

theorem ruleMatches_below
    {below : PathBuf}
    (hexact : entry.rule.exact = false)
    (hmatches : ruleMatches entry.rule path op = true)
    (hbelow : path <+: below) :
    ruleMatches entry.rule below op = true := by
  unfold Rule.exact at hexact
  unfold ruleMatches at hmatches ⊢
  cases hmatcher : entry.rule.matcher with
  | literal target =>
      simp [hmatcher] at hexact
  | glob pattern =>
      simp [hmatcher] at hexact
  | subtree lexical canonical =>
      simp only [hmatcher, Bool.and_eq_true, Bool.or_eq_true, pathWithin_iff] at hmatches ⊢
      exact ⟨hmatches.1, hmatches.2.imp (·.trans hbelow) (·.trans hbelow)⟩

theorem named_of_exact
    (hexact : entry.rule.exact = true)
    (hmatches : ruleMatches entry.rule path op = true)
    (htree : path ∈ tree.paths) :
    path ∈ namedPaths tree entry.rule := by
  unfold Rule.exact at hexact
  unfold namedPaths
  rw [ruleMatches_eq, Rule.applies, Bool.and_eq_true] at hmatches
  cases hmatcher : entry.rule.matcher with
  | literal target =>
      simpa [hmatcher] using hmatches.2
  | subtree lexical canonical =>
      simp [hmatcher] at hexact
  | glob pattern =>
      simp only [hmatcher] at hmatches
      simp [expandGlob, mem_normalizeExact, htree, hmatches.2]

/-- What a rule matches is at or below a path it names, and it matches all there is between. -/
theorem exists_named_above
    (hmatches : ruleMatches entry.rule path op = true)
    (htree : path ∈ tree.paths) :
    ∃ named ∈ namedPaths tree entry.rule, named <+: path ∧
      ∀ between, named <+: between → between <+: path →
        ruleMatches entry.rule between op = true := by
  cases hexact : entry.rule.exact with
  | true =>
      refine ⟨path, named_of_exact hexact hmatches htree, List.prefix_rfl, fun x hx hxp => ?_⟩
      rwa [← List.IsPrefix.eq_of_length_le hx hxp.length_le]
  | false =>
      have hcovers := ruleMatches_covers hmatches
      cases hmatcher : entry.rule.matcher with
      | literal target =>
          simp [Rule.exact, hmatcher] at hexact
      | glob pattern =>
          simp [Rule.exact, hmatcher] at hexact
      | subtree lexical canonical =>
          have hroot : ∀ root, root = lexical ∨ root = canonical →
              root ∈ namedPaths tree entry.rule := by
            intro root hroot
            simpa [namedPaths, hmatcher, mem_normalizeExact] using hroot
          have hbelow : ∀ root ∈ namedPaths tree entry.rule, ∀ x, root <+: x →
              ruleMatches entry.rule x op = true := fun root hnamed x =>
            ruleMatches_below hexact (ruleMatches_of_named hnamed hcovers)
          simp only [ruleMatches, hmatcher, Bool.and_eq_true, Bool.or_eq_true, pathWithin_iff]
            at hmatches
          rcases hmatches.2 with h | h
          · exact ⟨lexical, hroot _ (.inl rfl), h, fun x hx _ => hbelow _ (hroot _ (.inl rfl)) x hx⟩
          · exact ⟨canonical, hroot _ (.inr rfl), h, fun x hx _ =>
              hbelow _ (hroot _ (.inr rfl)) x hx⟩

theorem mem_tree_above
    (htree : path ∈ tree.paths)
    {above : PathBuf}
    (hne : above ≠ [])
    (habove : above <+: path) :
    above ∈ tree.paths := by
  by_cases heq : above = path
  · exact heq ▸ htree
  · exact (tree.parents path htree above (mem_above_dropLast.mpr ⟨hne, habove, heq⟩)).1

/-- Above a path is one where the plan mounts: its rule names it, and there that rule or an
earlier one is settled. -/
theorem exists_settled_above
    (hplan : Compiled tree ruleSet plan)
    (htree : path ∈ tree.paths)
    (hdecider : decider ruleSet op path = some entry) :
    ∃ named ∈ namedPaths tree entry.rule, named ≠ [] ∧ named <+: path ∧
      (∀ between, named <+: between → between <+: path →
        ruleMatches entry.rule between op = true) ∧
      ∃ first, settled tree ruleSet op named = some first ∧
        (first = entry ∨ first.before entry) := by
  have hmem := decider_mem hdecider
  obtain ⟨named, hnamed, habove, hbetween⟩ :=
    exists_named_above (decider_matches hdecider) htree
  have hne := hplan.named_ne entry hmem named hnamed
  have hmatches := hbetween named List.prefix_rfl habove
  refine ⟨named, hnamed, hne, habove, hbetween, ?_⟩
  obtain ⟨first, hfirst⟩ := exists_decider hmem hmatches
  rcases decider_first hfirst hmem hmatches with rfl | hbefore
  · exact ⟨entry, settled_eq_some.mpr ⟨hfirst, hnamed⟩, .inl rfl⟩
  · refine ⟨first, settled_eq_some.mpr ⟨hfirst, ?_⟩, .inr hbefore⟩
    cases hexact : first.rule.exact with
    | true =>
        exact named_of_exact hexact (decider_matches hfirst)
          (mem_tree_above htree hne habove)
    | false =>
        -- An earlier rule about the subtree would decide about the path as well.
        have hbelow := ruleMatches_below hexact (decider_matches hfirst) habove
        rcases decider_first hdecider (decider_mem hfirst) hbelow with rfl | hafter
        · exact absurd hbefore (FlatRule.before_asymm hbefore)
        · exact absurd hafter (FlatRule.before_asymm hbefore)

end Below

/-! ## Marks -/

section Marks

variable {tree : FileTree}
variable {ruleSet : RuleSet}
variable {path : PathBuf}
variable {entry : FlatRule}
variable {plan : MountPlan}

theorem not_hides_of_settled_write
    (hplan : Compiled tree ruleSet plan)
    (hsettled : settled tree ruleSet .write path = some entry)
    (hallows : entry.rule.allows = true) :
    hides tree ruleSet path = false := by
  have hread := hplan.reads path entry hsettled hallows
  rw [effectiveBlocked_eq] at hread
  refine Bool.eq_false_iff.mpr fun hhides => ?_
  obtain ⟨reader, hreader, hblocks⟩ := (Option.any_eq_true _ _).mp hhides
  rw [(settled_eq_some.mp hreader).1, Option.any_some, hblocks] at hread
  cases hread

/-- Nothing is mounted over an unreadable path. -/
theorem mark_eq_unreadable
    (hplan : Compiled tree ruleSet plan) :
    mark tree ruleSet path = some .unreadable ↔ hides tree ruleSet path = true := by
  cases hhides : hides tree ruleSet path with
  | false =>
      unfold mark
      split_ifs <;> simp_all
  | true =>
      have hreopens : reopens tree ruleSet path = false := by
        refine Bool.eq_false_iff.mpr fun h => ?_
        obtain ⟨writer, hwriter, hboth⟩ := (Option.any_eq_true _ _).mp h
        rw [not_hides_of_settled_write hplan hwriter (Bool.and_eq_true_iff.mp hboth).1] at hhides
        cases hhides
      have hreading : reopensReading tree ruleSet path = false := by
        obtain ⟨reader, hreader, hblocks⟩ := (Option.any_eq_true _ _).mp hhides
        have hblocks' : reader.rule.allows = false := by simpa using hblocks
        simp [reopensReading, hreader, hblocks']
      simp [mark, hreopens, hreading, hhides]

theorem mark_ne_none_of_guards
    (h : guards tree ruleSet path = true) :
    mark tree ruleSet path ≠ none := by
  unfold mark
  split_ifs <;> simp_all

theorem mark_ne_none_of_reopens
    (h : reopens tree ruleSet path = true) :
    mark tree ruleSet path ≠ none := by
  simp [mark, h]

/-- A writable mark is at a base or where a rule allows writing. -/
theorem of_mark_writable
    (h : mark tree ruleSet path = some .writable) :
    path ∈ ruleSet.writableBases ∨
      ∃ entry, settled tree ruleSet .write path = some entry ∧ entry.rule.allows = true := by
  by_cases hreopens : reopens tree ruleSet path = true
  · obtain ⟨entry, hsettled, hboth⟩ := (Option.any_eq_true _ _).mp hreopens
    exact .inr ⟨entry, hsettled, (Bool.and_eq_true_iff.mp hboth).1⟩
  · have hopens : opens tree ruleSet path = true := by
      unfold mark at h
      split_ifs at h <;> simp_all
    rcases Bool.or_eq_true_iff.mp hopens with hbase | hrule
    · exact .inl (of_decide_eq_true hbase)
    · obtain ⟨entry, hsettled, hboth⟩ := (Option.any_eq_true _ _).mp hrule
      exact .inr ⟨entry, hsettled, (Bool.and_eq_true_iff.mp hboth).1⟩

/-- A rule that blocks writing below a path, but not the path, leads to a mount between. -/
theorem exists_mark_between
    (hplan : Compiled tree ruleSet plan)
    (htree : path ∈ tree.paths)
    (hdecider : decider ruleSet .write path = some entry)
    (hblocks : entry.rule.allows = false)
    {target : PathBuf}
    (habove : target <+: path)
    (hnot : ruleMatches entry.rule target .write = false) :
    ∃ x, target <+: x ∧ x <+: path ∧ x ≠ target ∧ mark tree ruleSet x ≠ none := by
  obtain ⟨named, hnamed, -, hpath, hbetween, first, hfirst, horder⟩ :=
    exists_settled_above hplan htree hdecider
  have hnot' : ¬ named <+: target := fun h => by
    rw [hbetween target h habove] at hnot
    cases hnot
  have hbelow : target <+: named :=
    (List.prefix_or_prefix_of_prefix hpath habove).resolve_left hnot'
  refine ⟨named, hbelow, hpath, fun heq => hnot' (heq ▸ List.prefix_rfl), ?_⟩
  cases hallows : first.rule.allows with
  | false =>
      exact mark_ne_none_of_guards ((Option.any_eq_true _ _).mpr ⟨first, hfirst, by simp [hallows]⟩)
  | true =>
      have hbefore : first.before entry := by
        rcases horder with rfl | hbefore
        · rw [hblocks] at hallows
          cases hallows
        · exact hbefore
      have hlater : protectedByLaterRule (flattened ruleSet) first named .write = true :=
        protectedByLaterRule_iff.mpr ⟨entry, decider_mem hdecider, hbefore, hblocks,
          hbetween named List.prefix_rfl hpath⟩
      exact mark_ne_none_of_reopens
        ((Option.any_eq_true _ _).mpr ⟨first, hfirst, by simp [hallows, hlater]⟩)

end Marks

/-! ## What the mounts grant -/

section Grants

variable {tree : FileTree}
variable {ruleSet : RuleSet}
variable {path : PathBuf}
variable {plan : MountPlan}

theorem lastAt_above
    (hplan : Compiled tree ruleSet plan)
    (htree : path ∈ tree.paths)
    {x : PathBuf}
    (hne : x ≠ [])
    (habove : x <+: path) :
    lastAt plan.mounts x = mark tree ruleSet x :=
  lastAt_mounts hplan (mem_tree_above htree hne habove)

theorem decidingKind_eq_iff
    {mounts : List Mount}
    {kind : MountKind}
    (hkind : kind ≠ .readOnly) :
    decidingKind mounts path = kind ↔ longest (lastAt mounts) path = some kind := by
  unfold decidingKind
  cases longest (lastAt mounts) path with
  | none =>
      simpa using hkind.symm
  | some other =>
      simp

theorem hidden_iff
    (hplan : Compiled tree ruleSet plan)
    (htree : path ∈ tree.paths) :
    hidden plan.mounts path = true ↔
      ∃ x, x ≠ [] ∧ x <+: path ∧ x ≠ path ∧ hides tree ruleSet x = true := by
  rw [hidden, List.any_eq_true]
  refine exists_congr fun x => ?_
  rw [mem_above_dropLast, decide_eq_true_eq, and_assoc, and_assoc]
  refine and_congr_right fun hne => and_congr_right fun habove => and_congr_right fun _ => ?_
  rw [lastAt_above hplan htree hne habove, mark_eq_unreadable hplan]

/-- What is open for reading: a path that nothing hides, at it or above. -/
theorem readable_iff
    (hplan : Compiled tree ruleSet plan)
    (htree : path ∈ tree.paths) :
    readable plan.mounts path = true ↔
      ∀ x, x ≠ [] → x <+: path → hides tree ruleSet x = false := by
  have hkind : decidingKind plan.mounts path = .unreadable →
      ∃ x, x ≠ [] ∧ x <+: path ∧ hides tree ruleSet x = true := by
    intro h
    obtain ⟨x, hne, habove, hmark, -⟩ :=
      longest_eq_some_iff.mp ((decidingKind_eq_iff (by decide)).mp h)
    rw [lastAt_above hplan htree hne habove, mark_eq_unreadable hplan] at hmark
    exact ⟨x, hne, habove, hmark⟩
  rw [readable, Bool.and_eq_true, decide_eq_true_eq, Bool.not_eq_true', Bool.eq_false_iff,
    ne_eq (hidden _ _), hidden_iff hplan htree]
  constructor
  · rintro ⟨hdeciding, hnone⟩ x hne habove
    refine Bool.eq_false_iff.mpr fun hhides => ?_
    by_cases heq : x = path
    · -- An unreadable mount at the path itself decides.
      refine hdeciding ((decidingKind_eq_iff (by decide)).mpr (longest_eq_some_iff.mpr
        ⟨x, hne, habove, ?_, fun y hxy hyp hyx => ?_⟩))
      · rw [lastAt_above hplan htree hne habove]
        exact (mark_eq_unreadable hplan).mpr hhides
      · exact absurd (List.IsPrefix.eq_of_length_le hyp (heq ▸ hxy.length_le)) (heq ▸ hyx)
    · exact hnone ⟨x, hne, habove, heq, hhides⟩
  · intro hall
    constructor
    · intro h
      obtain ⟨x, hne, habove, hhides⟩ := hkind h
      exact absurd hhides (Bool.eq_false_iff.mp (hall x hne habove))
    · rintro ⟨x, hne, habove, -, hhides⟩
      exact absurd hhides (Bool.eq_false_iff.mp (hall x hne habove))

theorem ne_nil_of_mark
    (hplan : Compiled tree ruleSet plan)
    (h : mark tree ruleSet path = some .writable) :
    path ≠ [] := by
  rcases of_mark_writable h with hbase | ⟨entry, hsettled, -⟩
  · exact hplan.bases_ne path hbase
  · exact hplan.named_ne entry (settled_mem hsettled).1 path (settled_mem hsettled).2

/-- What is open for writing: the deepest mark says so, and nothing hides the path. -/
theorem writable_iff
    (hplan : Compiled tree ruleSet plan)
    (htree : path ∈ tree.paths) :
    writable plan.mounts path = true ↔
      (∃ target, target <+: path ∧ mark tree ruleSet target = some .writable ∧
        ∀ x, target <+: x → x <+: path → x ≠ target → mark tree ruleSet x = none) ∧
      ∀ x, x ≠ [] → x <+: path → hides tree ruleSet x = false := by
  have hlongest : longest (lastAt plan.mounts) path = some .writable ↔
      ∃ target, target <+: path ∧ mark tree ruleSet target = some .writable ∧
        ∀ x, target <+: x → x <+: path → x ≠ target → mark tree ruleSet x = none := by
    rw [longest_eq_some_iff]
    refine exists_congr fun target => ?_
    constructor
    · rintro ⟨hne, habove, hmark, hbetween⟩
      rw [lastAt_above hplan htree hne habove] at hmark
      refine ⟨habove, hmark, fun x htx hxp hxt => ?_⟩
      rw [← lastAt_above hplan htree (List.ne_nil_of_length_pos ?_) hxp]
      · exact hbetween x htx hxp hxt
      · exact Nat.lt_of_lt_of_le (List.length_pos_of_ne_nil hne) htx.length_le
    · rintro ⟨habove, hmark, hbetween⟩
      have hne := ne_nil_of_mark hplan hmark
      refine ⟨hne, habove, ?_, fun x htx hxp hxt => ?_⟩
      · rw [lastAt_above hplan htree hne habove, hmark]
      · rw [lastAt_above hplan htree (List.ne_nil_of_length_pos ?_) hxp]
        · exact hbetween x htx hxp hxt
        · exact Nat.lt_of_lt_of_le (List.length_pos_of_ne_nil hne) htx.length_le
  rw [writable, Bool.and_eq_true, decide_eq_true_eq, decidingKind_eq_iff (by decide), hlongest,
    ← readable_iff hplan htree, readable, Bool.and_eq_true, decide_eq_true_eq]
  refine and_congr_right fun hopen => (and_iff_right ?_).symm
  rw [(decidingKind_eq_iff (by decide)).mpr (hlongest.mpr hopen)]
  decide

end Grants

/-! ## Rules that nest well -/

section Nesting

/-- What is mounted for this path is open, though the rules say so about the path alone, or do
not say so at all. -/
def Loose (tree : FileTree) (ruleSet : RuleSet) (path : PathBuf) : Prop :=
  mark tree ruleSet path = some .writable ∧
    ((path ∈ ruleSet.writableBases ∧
        ∃ entry, decider ruleSet .write path = some entry ∧ entry.rule.allows = false) ∨
      ∃ entry, decider ruleSet .write path = some entry ∧ entry.rule.allows = true ∧
        entry.rule.exact = true)

/-- The rules say something about every existing path they block below a path they open. -/
structure WellNested (tree : FileTree) (ruleSet : RuleSet) : Prop where
  /-- Below a path that a rule names to block reading, and an earlier one opens, something
  hides the paths it blocks. -/
  reading : ∀ path ∈ tree.paths, ∀ entry, decider ruleSet .read path = some entry →
    entry.rule.allows = false →
    ∀ named ∈ namedPaths tree entry.rule, named <+: path →
    ∀ opener, decider ruleSet .read named = some opener → opener.rule.allows = true →
      ∃ x, x ≠ [] ∧ x <+: path ∧ hides tree ruleSet x = true
  /-- Below a loose path something is mounted above every path that may not be written. -/
  writing : ∀ path ∈ tree.paths, ruleSet.evaluate path .write ≠ .allow →
    ∀ target, Loose tree ruleSet target → target <+: path →
      (∃ x, target <+: x ∧ x <+: path ∧ x ≠ target ∧ mark tree ruleSet x ≠ none) ∨
        ∃ x, x ≠ [] ∧ x <+: path ∧ hides tree ruleSet x = true

variable {tree : FileTree}
variable {ruleSet : RuleSet}
variable {path : PathBuf}
variable {plan : MountPlan}

theorem allowed_iff
    {op : Op}
    {entry : FlatRule}
    (h : decider ruleSet op path = some entry) :
    ruleSet.evaluate path op = .allow ↔ entry.rule.allows = true := by
  rw [evaluate_of_decider h, allows_iff]

theorem allowed_read
    (hplan : Compiled tree ruleSet plan)
    (hnested : WellNested tree ruleSet)
    (htree : path ∈ tree.paths)
    (hshown : ∀ x, x ≠ [] → x <+: path → hides tree ruleSet x = false) :
    ruleSet.evaluate path .read = .allow := by
  cases hdecider : decider ruleSet .read path with
  | none =>
      exact evaluate_read_of_none hdecider
  | some entry =>
      rw [allowed_iff hdecider]
      by_contra hblocks
      rw [Bool.not_eq_true] at hblocks
      obtain ⟨named, hnamed, hne, habove, -, first, hfirst, -⟩ :=
        exists_settled_above hplan htree hdecider
      cases hallows : first.rule.allows with
      | false =>
          have hhides : hides tree ruleSet named = true := by simp [hides, hfirst, hallows]
          exact absurd hhides (Bool.eq_false_iff.mp (hshown named hne habove))
      | true =>
          obtain ⟨x, hx, hxp, hhides⟩ := hnested.reading path htree entry hdecider hblocks named
            hnamed habove first (settled_eq_some.mp hfirst).1 hallows
          exact absurd hhides (Bool.eq_false_iff.mp (hshown x hx hxp))

/-- What is not loose is open because the rules allow writing below it as well, but for paths
with a mount of their own. -/
theorem allowed_write_of_not_loose
    (hplan : Compiled tree ruleSet plan)
    (htree : path ∈ tree.paths)
    {target : PathBuf}
    (habove : target <+: path)
    (hmark : mark tree ruleSet target = some .writable)
    (hloose : ¬ Loose tree ruleSet target)
    (hbetween : ∀ x, target <+: x → x <+: path → x ≠ target → mark tree ruleSet x = none) :
    ruleSet.evaluate path .write = .allow := by
  by_contra hnot
  have hmatches : ∀ entry, decider ruleSet .write path = some entry →
      ruleMatches entry.rule target .write = true := by
    intro entry hdecider
    by_contra hmiss
    have hblocks : entry.rule.allows = false := by
      rwa [allowed_iff hdecider, Bool.not_eq_true] at hnot
    obtain ⟨x, htx, hxp, hxt, hx⟩ := exists_mark_between hplan htree hdecider hblocks habove
      (Bool.eq_false_iff.mpr hmiss)
    exact hx (hbetween x htx hxp hxt)
  cases htarget : decider ruleSet .write target with
  | none =>
      have hbase : target ∈ ruleSet.writableBases := by
        rcases of_mark_writable hmark with hbase | ⟨entry, hsettled, -⟩
        · exact hbase
        · rw [(settled_eq_some.mp hsettled).1] at htarget
          cases htarget
      cases hdecider : decider ruleSet .write path with
      | none =>
          exact hnot ((evaluate_write_of_none hdecider).mpr ⟨target, hbase, habove⟩)
      | some entry =>
          obtain ⟨first, hfirst⟩ := exists_decider (decider_mem hdecider) (hmatches entry hdecider)
          rw [htarget] at hfirst
          cases hfirst
  | some opener =>
      cases hallows : opener.rule.allows with
      | false =>
          refine hloose ⟨hmark, .inl ⟨?_, opener, htarget, hallows⟩⟩
          rcases of_mark_writable hmark with hbase | ⟨entry, hsettled, hopen⟩
          · exact hbase
          · rw [(settled_eq_some.mp hsettled).1] at htarget
            cases htarget
            rw [hopen] at hallows
            cases hallows
      | true =>
          cases hexact : opener.rule.exact with
          | true =>
              exact hloose ⟨hmark, .inr ⟨opener, htarget, hallows, hexact⟩⟩
          | false =>
              -- The rule that allows the target allows what is below, or an earlier one does not.
              have hbelow := ruleMatches_below hexact (decider_matches htarget) habove
              obtain ⟨entry, hdecider⟩ := exists_decider (decider_mem htarget) hbelow
              have hne : opener ≠ entry := by
                rintro rfl
                exact hnot ((allowed_iff hdecider).mpr hallows)
              have hbefore := (decider_first hdecider (decider_mem htarget) hbelow).resolve_left hne
              rcases decider_first htarget (decider_mem hdecider) (hmatches entry hdecider) with h | h
              · exact hne h.symm
              · exact FlatRule.before_asymm hbefore h

/-- The mounts grant no more than the rules allow exactly when the rules are well nested. -/
theorem grants_iff
    (host : Host)
    (ruleSet : RuleSet)
    (plan : MountPlan)
    (hcompile : compile host ruleSet = .ok plan) :
    (∀ path ∈ host.tree.paths,
      (writable plan.mounts path = true → ruleSet.evaluate path .write = .allow) ∧
        (readable plan.mounts path = true → ruleSet.evaluate path .read = .allow)) ↔
      WellNested host.tree ruleSet := by
  have hplan := compile_eq_ok hcompile
  constructor
  · intro hgrants
    constructor
    · intro path htree entry hdecider hblocks _ _ _ _ _ _
      by_contra hnone
      have hshown : ∀ x, x ≠ [] → x <+: path → hides host.tree ruleSet x = false :=
        fun x hx hxp => Bool.eq_false_iff.mpr fun h => hnone ⟨x, hx, hxp, h⟩
      have hallowed := (hgrants path htree).2 ((readable_iff hplan htree).mpr hshown)
      rw [allowed_iff hdecider, hblocks] at hallowed
      cases hallowed
    · intro path htree hnot target hloose habove
      by_contra hnone
      rw [not_or] at hnone
      refine hnot ((hgrants path htree).1 ((writable_iff hplan htree).mpr
        ⟨⟨target, habove, hloose.1, fun x htx hxp hxt => ?_⟩, fun x hx hxp => ?_⟩))
      · exact not_not.mp fun h => hnone.1 ⟨x, htx, hxp, hxt, h⟩
      · exact Bool.eq_false_iff.mpr fun h => hnone.2 ⟨x, hx, hxp, h⟩
  · intro hnested path htree
    constructor
    · intro hwritable
      obtain ⟨⟨target, habove, hmark, hbetween⟩, hshown⟩ := (writable_iff hplan htree).mp hwritable
      by_cases hloose : Loose host.tree ruleSet target
      · by_contra hnot
        rcases hnested.writing path htree hnot target hloose habove with
          ⟨x, htx, hxp, hxt, hx⟩ | ⟨x, hx, hxp, hhides⟩
        · exact hx (hbetween x htx hxp hxt)
        · exact absurd hhides (Bool.eq_false_iff.mp (hshown x hx hxp))
      · exact allowed_write_of_not_loose hplan htree habove hmark hloose hbetween
    · intro hreadable
      exact allowed_read hplan hnested htree ((readable_iff hplan htree).mp hreadable)

/-- A tree with a workspace in a home directory. -/
def homeTree : FileTree where
  paths := [["/"], ["/", "home"], ["/", "home", "ws"], ["/", "home", "ws", "a.txt"]]
  isDir := fun path => path ≠ ["/", "home", "ws", "a.txt"]
  hasRoot := by decide
  absolute := by decide
  parents := by decide

def homeHost : Host := ⟨homeTree, fun _ => true⟩

/-- A workspace, with the given rules. -/
def homeRules (rules : List Rule) : RuleSet :=
  ⟨["/", "home", "ws"], [["/", "tmp"]], [rules], []⟩

/-- Writing below the home directory is denied. -/
def denyHome : Rule :=
  ⟨.subtree ["/", "home"] ["/", "home"], .write, .deny⟩

/-- Writing the workspace's file is denied. -/
def denyFile : Rule :=
  ⟨.literal ["/", "home", "ws", "a.txt"], .write, .deny⟩

theorem grants_iff_one_file :
    ∃ plan, compile homeHost (homeRules [denyFile]) = .ok plan ∧
      ((∀ path ∈ homeHost.tree.paths,
        (writable plan.mounts path = true →
          (homeRules [denyFile]).evaluate path .write = .allow) ∧
          (readable plan.mounts path = true →
            (homeRules [denyFile]).evaluate path .read = .allow)) ↔
        WellNested homeHost.tree (homeRules [denyFile])) := by
  have hcompile : compile homeHost (homeRules [denyFile]) =
      .ok ⟨[["/", "tmp"], ["/", "home", "ws"]], [["/", "home", "ws", "a.txt"]], [], [], [], []⟩ := by
    rfl
  exact ⟨_, hcompile, grants_iff homeHost (homeRules [denyFile]) _ hcompile⟩

/-- The workspace is mounted writable, whatever is denied above it. -/
theorem denied_workspace_writable :
    ∃ plan, compile homeHost (homeRules [denyHome]) = .ok plan ∧
      ["/", "home", "ws"] ∈ homeHost.tree.paths ∧
      writable plan.mounts ["/", "home", "ws"] = true ∧
      (homeRules [denyHome]).evaluate ["/", "home", "ws"] .write = .deny := by
  have hcompile : compile homeHost (homeRules [denyHome]) =
      .ok ⟨[["/", "tmp"], ["/", "home", "ws"]], [["/", "home"]], [], [], [], []⟩ := by
    rfl
  exact ⟨_, hcompile, by decide, by rfl, by rfl⟩

end Nesting

end Sandbox
end FutureOs
