import FutureOs.Sandbox.MountPlan

/-!
# Where the mount plan mounts

`decider` is the rule that decides about a path, and it is `settled` there when that rule also
names the path: only there a rule leads to a mount.  `mark` reads off the rules which mount an
existing path gets, and `lastAt_mounts` says that a compiled plan, with its mounts in order,
puts just that one on top.
-/

namespace FutureOs
namespace Sandbox

open LongestPrefix

/-! ## The deciding rule -/

section Deciding

/-- The first match comes before every other one. -/
theorem find?_first
    {α : Type}
    {R : α → α → Prop}
    {p : α → Bool}
    {l : List α}
    {first a : α}
    (hl : l.Pairwise R)
    (hfirst : l.find? p = some first)
    (ha : a ∈ l)
    (hp : p a = true) :
    a = first ∨ R first a := by
  obtain ⟨-, before, behind, rfl, hbefore⟩ := List.find?_eq_some_iff_append.mp hfirst
  rcases List.mem_append.mp ha with h | h
  · exact absurd hp (by simpa using hbefore a h)
  · rcases List.mem_cons.mp h with rfl | h
    · exact .inl rfl
    · exact .inr (List.rel_of_pairwise_cons (List.pairwise_append.mp hl).2.1 h)

theorem ruleMatches_eq (rule : Rule) (path : PathBuf) (op : Op) :
    ruleMatches rule path op = rule.applies path op := by
  unfold ruleMatches Rule.applies
  cases rule.matcher <;> simp [Glob.isMatch_eq]

variable {ruleSet : RuleSet}
variable {op : Op}
variable {path : PathBuf}
variable {entry : FlatRule}

/-- The order of the rules. -/
def FlatRule.before (a b : FlatRule) : Prop :=
  a.isBefore b.priority b.ruleIndex = true

theorem FlatRule.before_iff
    {a b : FlatRule} :
    a.before b ↔ a.priority < b.priority ∨ a.priority = b.priority ∧ a.ruleIndex < b.ruleIndex := by
  simp [FlatRule.before, FlatRule.isBefore]

theorem FlatRule.isAfter_iff
    {a b : FlatRule} :
    b.isAfter a.priority a.ruleIndex = true ↔ a.before b := by
  simp only [FlatRule.before_iff, FlatRule.isAfter, Bool.or_eq_true, Bool.and_eq_true,
    decide_eq_true_eq]
  exact or_congr_right (and_congr_left' eq_comm)

theorem FlatRule.before_asymm
    {a b : FlatRule}
    (h : a.before b) :
    ¬ b.before a := by
  rw [FlatRule.before_iff] at h ⊢
  omega

theorem flattened_rules (ruleSet : RuleSet) :
    (flattened ruleSet).map FlatRule.rule = ruleSet.rules := by
  have hlayer : ∀ layer : List Rule × Nat,
      (layer.1.zipIdx.map fun rule : Rule × Nat => (⟨layer.2, rule.2, rule.1⟩ : FlatRule)).map
        FlatRule.rule = layer.1 := by
    intro layer
    rw [List.map_map]
    exact List.zipIdx_map_fst 0 layer.1
  unfold flattened RuleSet.rules
  rw [List.map_flatMap, List.flatMap_congr fun layer _ => hlayer layer, List.flatMap,
    List.zipIdx_map_fst]

theorem flattened_pairwise (ruleSet : RuleSet) :
    (flattened ruleSet).Pairwise FlatRule.before := by
  have hindex : ∀ {α : Type} (l : List α), l.zipIdx.Pairwise fun a b => a.2 < b.2 := by
    intro α l
    have h : (l.zipIdx.map Prod.snd).Pairwise (· < ·) := by
      rw [List.zipIdx_map_snd]
      exact List.pairwise_lt_range'
    exact List.pairwise_map.mp h
  unfold flattened
  rw [List.pairwise_flatMap]
  constructor
  · intro layer _
    rw [List.pairwise_map]
    refine (hindex layer.1).imp fun {a b} h => ?_
    exact FlatRule.before_iff.mpr (.inr ⟨rfl, h⟩)
  · refine (hindex ruleSet.layers).imp fun h a ha b hb => FlatRule.before_iff.mpr (.inl ?_)
    obtain ⟨_, -, rfl⟩ := List.mem_map.mp ha
    obtain ⟨_, -, rfl⟩ := List.mem_map.mp hb
    exact h

/-- The rule that decides about a path. -/
def decider (ruleSet : RuleSet) (op : Op) (path : PathBuf) : Option FlatRule :=
  (flattened ruleSet).find? fun entry => ruleMatches entry.rule path op

theorem decider_mem
    (h : decider ruleSet op path = some entry) :
    entry ∈ flattened ruleSet :=
  List.mem_of_find?_eq_some h

theorem decider_matches
    (h : decider ruleSet op path = some entry) :
    ruleMatches entry.rule path op = true := by
  have hfound := List.find?_some h
  exact hfound

/-- Any other rule that matches comes later. -/
theorem decider_first
    {other : FlatRule}
    (h : decider ruleSet op path = some entry)
    (hmem : other ∈ flattened ruleSet)
    (hmatches : ruleMatches other.rule path op = true) :
    other = entry ∨ entry.before other :=
  find?_first (flattened_pairwise ruleSet) h hmem hmatches

theorem exists_decider
    (hmem : entry ∈ flattened ruleSet)
    (hmatches : ruleMatches entry.rule path op = true) :
    ∃ first, decider ruleSet op path = some first :=
  Option.isSome_iff_exists.mp (List.find?_isSome.mpr ⟨entry, hmem, hmatches⟩)

theorem find?_rules (ruleSet : RuleSet) (op : Op) (path : PathBuf) :
    (ruleSet.rules.find? fun rule => rule.applies path op) =
      (decider ruleSet op path).map FlatRule.rule := by
  rw [← flattened_rules, List.find?_map, decider]
  exact congrArg _ (congrArg (List.find? · _) (funext fun entry =>
    (ruleMatches_eq entry.rule path op).symm))

theorem evaluate_of_decider
    (h : decider ruleSet op path = some entry) :
    ruleSet.evaluate path op = entry.rule.decision := by
  simp [RuleSet.evaluate, find?_rules, h]

theorem evaluate_read_of_none
    (h : decider ruleSet .read path = none) :
    ruleSet.evaluate path .read = .allow := by
  simp [RuleSet.evaluate, find?_rules, h]

theorem evaluate_write_of_none
    (h : decider ruleSet .write path = none) :
    ruleSet.evaluate path .write = .allow ↔
      ∃ root ∈ ruleSet.writableBases, root <+: path := by
  rw [RuleSet.evaluate.eq_def, find?_rules, h]
  simp only [Option.map_none, RuleSet.writableBases, List.mem_cons, exists_eq_or_imp]
  by_cases hw : pathWithin path ruleSet.workspace = true
  · simp [hw, pathWithin_iff.mp hw]
  · have hnot : ¬ ruleSet.workspace <+: path := fun h => hw (pathWithin_iff.mpr h)
    by_cases ht : (ruleSet.tempRoots.any fun root => pathWithin path root) = true
    · obtain ⟨root, hroot, hwithin⟩ := List.any_eq_true.mp ht
      simp only [ht, Bool.or_true, if_true, true_iff]
      exact .inr ⟨root, hroot, pathWithin_iff.mp hwithin⟩
    · simp only [hw, ht, Bool.or_self, Bool.false_eq_true, if_false, reduceCtorEq, false_iff]
      rintro (h | ⟨root, hroot, hpre⟩)
      · exact hnot h
      · exact ht (List.any_eq_true.mpr ⟨root, hroot, pathWithin_iff.mpr hpre⟩)

theorem allows_iff
    {rule : Rule} :
    rule.allows = true ↔ rule.decision = .allow := by
  simp [Rule.allows]

theorem effectiveBlocked_eq (ruleSet : RuleSet) (path : PathBuf) (op : Op) :
    effectiveBlocked (flattened ruleSet) path op =
      (decider ruleSet op path).any fun entry => !entry.rule.allows := rfl

theorem matchedByEarlierRule_eq_false
    (hmem : entry ∈ flattened ruleSet)
    (hmatches : ruleMatches entry.rule path op = true) :
    matchedByEarlierRule (flattened ruleSet) entry path op = false ↔
      decider ruleSet op path = some entry := by
  obtain ⟨first, hfirst⟩ := exists_decider hmem hmatches
  rw [hfirst, Option.some.injEq]
  constructor
  · intro hnone
    rcases decider_first hfirst hmem hmatches with h | h
    · exact h.symm
    · have hearlier : matchedByEarlierRule (flattened ruleSet) entry path op = true :=
        List.any_eq_true.mpr ⟨first, decider_mem hfirst,
          Bool.and_eq_true_iff.mpr ⟨h, decider_matches hfirst⟩⟩
      exact absurd hearlier (Bool.eq_false_iff.mp hnone)
  · rintro rfl
    refine Bool.eq_false_iff.mpr fun h => ?_
    obtain ⟨other, hother, hboth⟩ := List.any_eq_true.mp h
    obtain ⟨hbefore, happlies⟩ := Bool.and_eq_true_iff.mp hboth
    rcases decider_first hfirst hother happlies with rfl | hafter
    · exact FlatRule.before_asymm hbefore hbefore
    · exact FlatRule.before_asymm hbefore hafter

theorem protectedByLaterRule_iff :
    protectedByLaterRule (flattened ruleSet) entry path op = true ↔
      ∃ other ∈ flattened ruleSet, entry.before other ∧ other.rule.allows = false ∧
        ruleMatches other.rule path op = true := by
  simp [protectedByLaterRule, ruleBlocks, FlatRule.isAfter_iff]

end Deciding

/-! ## What the rules ask for at a path -/

section Marks

/-- The deciding rule where it names the path. -/
def settled (tree : FileTree) (ruleSet : RuleSet) (op : Op) (path : PathBuf) : Option FlatRule :=
  (decider ruleSet op path).filter fun entry => path ∈ namedPaths tree entry.rule

/-- Writing is allowed, against a later rule. -/
def reopens (tree : FileTree) (ruleSet : RuleSet) (path : PathBuf) : Bool :=
  (settled tree ruleSet .write path).any fun entry =>
    entry.rule.allows && protectedByLaterRule (flattened ruleSet) entry path .write

/-- A root: writing is allowed here, and nothing later is against it. -/
def opens (tree : FileTree) (ruleSet : RuleSet) (path : PathBuf) : Bool :=
  path ∈ ruleSet.writableBases ||
    (settled tree ruleSet .write path).any fun entry =>
      entry.rule.allows && !protectedByLaterRule (flattened ruleSet) entry path .write

/-- Reading alone is allowed, against a later rule. -/
def reopensReading (tree : FileTree) (ruleSet : RuleSet) (path : PathBuf) : Bool :=
  (settled tree ruleSet .read path).any fun entry =>
    entry.rule.allows && protectedByLaterRule (flattened ruleSet) entry path .read &&
      settled tree ruleSet .write path ≠ some entry

/-- Reading is blocked. -/
def hides (tree : FileTree) (ruleSet : RuleSet) (path : PathBuf) : Bool :=
  (settled tree ruleSet .read path).any fun entry => !entry.rule.allows

/-- Writing is blocked. -/
def guards (tree : FileTree) (ruleSet : RuleSet) (path : PathBuf) : Bool :=
  (settled tree ruleSet .write path).any fun entry => !entry.rule.allows

/-- The mount that counts at an existing path. -/
def mark (tree : FileTree) (ruleSet : RuleSet) (path : PathBuf) : Option MountKind :=
  if reopens tree ruleSet path then
    some .writable
  else if reopensReading tree ruleSet path then
    some .readOnly
  else if hides tree ruleSet path then
    some .unreadable
  else if guards tree ruleSet path then
    some .readOnly
  else if opens tree ruleSet path &&
      (ancestors path).all fun root => !opens tree ruleSet root || root = path then
    some .writable
  else
    none

variable {tree : FileTree}
variable {ruleSet : RuleSet}
variable {op : Op}
variable {path : PathBuf}
variable {entry : FlatRule}

theorem mem_normalizeExact
    {paths : List PathBuf} :
    path ∈ normalizeExact paths ↔ path ∈ paths := by
  rw [normalizeExact, List.mem_dedup, (List.perm_insertionSort _ paths).mem_iff]

theorem mem_normalizeRoots
    {paths : List PathBuf} :
    path ∈ normalizeRoots paths ↔ path ∈ paths ∧ ∀ root ∈ paths, root <+: path → root = path := by
  have hmem : ∀ {x : PathBuf}, x ∈ paths.insertionSort (fun a b => a.length ≤ b.length) ↔
      x ∈ paths := (List.perm_insertionSort _ paths).mem_iff
  have htotal : Std.Total fun a b : PathBuf => a.length ≤ b.length :=
    ⟨fun a b => Nat.le_total a.length b.length⟩
  have htrans : IsTrans PathBuf fun a b => a.length ≤ b.length :=
    ⟨fun _ _ _ => Nat.le_trans⟩
  rw [normalizeRoots, mem_tops (List.pairwise_insertionSort _ paths), hmem]
  exact and_congr_right fun _ => forall_congr' fun root => imp_congr_left hmem

/-- A rule matches what it names. -/
theorem ruleMatches_of_named
    (hnamed : path ∈ namedPaths tree entry.rule)
    (hcovers : entry.rule.access.covers op = true) :
    ruleMatches entry.rule path op = true := by
  rw [ruleMatches_eq, Rule.applies, hcovers, Bool.true_and]
  unfold namedPaths at hnamed
  cases hmatcher : entry.rule.matcher with
  | literal target =>
      simpa [hmatcher] using hnamed
  | subtree lexical canonical =>
      simp only [hmatcher, mem_normalizeExact, List.mem_cons, List.not_mem_nil, or_false] at hnamed
      rcases hnamed with rfl | rfl <;> simp [pathWithin_iff]
  | glob pattern =>
      simp only [hmatcher, expandGlob, mem_normalizeExact] at hnamed
      simpa using (List.mem_filter.mp hnamed).2

theorem ruleMatches_covers
    (h : ruleMatches entry.rule path op = true) :
    entry.rule.access.covers op = true :=
  (Bool.and_eq_true_iff.mp h).1

theorem settled_eq_some :
    settled tree ruleSet op path = some entry ↔
      decider ruleSet op path = some entry ∧ path ∈ namedPaths tree entry.rule := by
  simp [settled, Option.filter_eq_some_iff]

/-- The test the plan makes before it uses a rule for a path. -/
theorem unmatched_eq
    (op : Op)
    (hmem : entry ∈ flattened ruleSet)
    (hnamed : path ∈ namedPaths tree entry.rule) :
    (entry.rule.access.covers op && !matchedByEarlierRule (flattened ruleSet) entry path op) =
      decide (settled tree ruleSet op path = some entry) := by
  by_cases hcovers : entry.rule.access.covers op = true
  · have hfirst := matchedByEarlierRule_eq_false hmem (ruleMatches_of_named hnamed hcovers)
    have hsettled : settled tree ruleSet op path = some entry ↔
        decider ruleSet op path = some entry := by
      rw [settled_eq_some, and_iff_left hnamed]
    rw [hcovers, Bool.true_and, Bool.eq_iff_iff, decide_eq_true_eq, hsettled, ← hfirst,
      Bool.not_eq_true']
  · have hnot : settled tree ruleSet op path ≠ some entry := fun h =>
      hcovers (ruleMatches_covers (decider_matches (settled_eq_some.mp h).1))
    simp [hcovers, hnot]

end Marks

/-! ## The placements of a plan -/

section Placements

variable (tree : FileTree)
variable (ruleSet : RuleSet)

/-- The list a path of a rule is put on. -/
def placedOn (entry : FlatRule) (path : PathBuf) : Option MountList :=
  if entry.rule.allows then
    if settled tree ruleSet .write path = some entry then
      if protectedByLaterRule (flattened ruleSet) entry path .write then
        some .reopened
      else
        some .writableRoots
    else if settled tree ruleSet .read path = some entry ∧
        protectedByLaterRule (flattened ruleSet) entry path .read = true then
      some .reopenedReadOnly
    else
      none
  else if settled tree ruleSet .read path = some entry ∨
      settled tree ruleSet .write path = some entry then
    if path ∉ tree.paths then
      some .missingProtected
    else if settled tree ruleSet .read path = some entry then
      some .unreadable
    else
      some .readOnly
  else
    none

def placed (entry : FlatRule) (path : PathBuf) : Placements :=
  (placedOn tree ruleSet entry path).toList.map fun list => (list, path)

def bases : Placements :=
  ruleSet.writableBases.map fun root => (.writableRoots, root)

/-- All placements of a plan. -/
def placements : Placements :=
  bases ruleSet ++ (flattened ruleSet).flatMap fun entry =>
    (namedPaths tree entry.rule).flatMap (placed tree ruleSet entry)

variable {tree : FileTree}
variable {ruleSet : RuleSet}
variable {path : PathBuf}
variable {entry : FlatRule}

theorem mountPathExists_eq_ok
    {found : Bool}
    (h : mountPathExists tree path = .ok found) :
    found = decide (path ∈ tree.paths) := by
  unfold mountPathExists at h
  by_cases hmem : path ∈ tree.paths
  · simp only [hmem, if_true, Except.ok.injEq] at h
    simp [hmem, ← h]
  · simp only [hmem, if_false] at h
    split at h
    · cases h
    · cases h
      simp [hmem]

/-- A path a write rule opens can be read. -/
theorem applyRule_eq_ok
    {before after : Placements}
    (hmem : entry ∈ flattened ruleSet)
    (hnamed : path ∈ namedPaths tree entry.rule)
    (h : applyRule tree (flattened ruleSet) entry path before = .ok after) :
    after = before ++ placed tree ruleSet entry path ∧
      (entry.rule.allows = true → settled tree ruleSet .write path = some entry →
        effectiveBlocked (flattened ruleSet) path .read = false) := by
  have hread : (entry.rule.access.coversRead &&
      !matchedByEarlierRule (flattened ruleSet) entry path .read) =
        decide (settled tree ruleSet .read path = some entry) :=
    unmatched_eq .read hmem hnamed
  have hwrite : (entry.rule.access.coversWrite &&
      !matchedByEarlierRule (flattened ruleSet) entry path .write) =
        decide (settled tree ruleSet .write path = some entry) :=
    unmatched_eq .write hmem hnamed
  unfold applyRule at h
  simp only [hread, hwrite] at h
  by_cases hallows : entry.rule.allows = true
  · simp only [hallows, if_true] at h
    by_cases hw : settled tree ruleSet .write path = some entry
    · simp only [hw, decide_true, if_true] at h
      split at h
      · cases h
      · rename_i hblocked
        refine ⟨?_, fun _ _ => Bool.eq_false_iff.mpr hblocked⟩
        split at h
        · rename_i hlater
          obtain ⟨found, -, hrest⟩ := bind_eq_ok.mp h
          obtain ⟨_, -, hafter⟩ := bind_eq_ok.mp hrest
          cases hafter
          simp [placed, placedOn, hallows, hw, hlater]
        · rename_i hlater
          cases h
          simp [placed, placedOn, hallows, hw, hlater]
    · refine ⟨?_, fun _ hsettled => absurd hsettled hw⟩
      simp only [hw, decide_false, Bool.false_eq_true, if_false] at h
      split at h
      · rename_i hlater
        obtain ⟨found, -, hrest⟩ := bind_eq_ok.mp h
        obtain ⟨_, -, hafter⟩ := bind_eq_ok.mp hrest
        cases hafter
        simp_all [placed, placedOn]
      · cases h
        simp_all [placed, placedOn]
  · refine ⟨?_, fun hyes => absurd hyes hallows⟩
    simp only [hallows, Bool.false_eq_true, if_false] at h
    by_cases hr : settled tree ruleSet .read path = some entry
    · simp only [hr, decide_true, Bool.not_true, Bool.false_and, Bool.false_eq_true, if_false,
        if_true] at h
      obtain ⟨found, hfound, hrest⟩ := bind_eq_ok.mp h
      obtain rfl := mountPathExists_eq_ok hfound
      by_cases htree : path ∈ tree.paths
      · simp only [htree, decide_true, Bool.not_true, Bool.false_eq_true, if_false] at hrest
        cases hrest
        simp [placed, placedOn, hallows, hr, htree]
      · simp only [htree, decide_false, Bool.not_false, if_true] at hrest
        cases hrest
        simp [placed, placedOn, hallows, hr, htree]
    · by_cases hw : settled tree ruleSet .write path = some entry
      · simp only [hr, hw, decide_true, decide_false, Bool.not_true, Bool.and_false,
          Bool.false_eq_true, if_false] at h
        obtain ⟨found, hfound, hrest⟩ := bind_eq_ok.mp h
        obtain rfl := mountPathExists_eq_ok hfound
        by_cases htree : path ∈ tree.paths
        · simp only [htree, decide_true, Bool.not_true, Bool.false_eq_true, if_false] at hrest
          cases hrest
          simp [placed, placedOn, hallows, hr, hw, htree]
        · simp only [htree, decide_false, Bool.not_false, if_true] at hrest
          cases hrest
          simp [placed, placedOn, hallows, hw, htree]
      · simp only [hr, hw, decide_false, Bool.not_false, Bool.and_self, if_true] at h
        cases h
        simp [placed, placedOn, hallows, hr, hw]

theorem applyPaths_eq_ok
    {before after : Placements}
    (hmem : entry ∈ flattened ruleSet)
    (h : applyPaths tree (flattened ruleSet) before entry = .ok after) :
    after = before ++ (namedPaths tree entry.rule).flatMap (placed tree ruleSet entry) ∧
      validateMatcher entry.rule = .ok () ∧
        ∀ path ∈ namedPaths tree entry.rule, entry.rule.allows = true →
          settled tree ruleSet .write path = some entry →
            effectiveBlocked (flattened ruleSet) path .read = false := by
  obtain ⟨⟨⟩, hvalid, hloop⟩ := bind_eq_ok.mp h
  obtain ⟨hafter, hreads⟩ := foldlM_append_of_mem (fun acc path acc' hpath hstep =>
    applyRule_eq_ok hmem hpath hstep) hloop
  exact ⟨hafter, hvalid, hreads⟩

/-- What a compiled plan is made of, and what the compiler has checked. -/
structure Compiled (tree : FileTree) (ruleSet : RuleSet) (plan : MountPlan) : Prop where
  plan_eq : plan = finishPlan (placements tree ruleSet)
  bases_ne : ∀ root ∈ ruleSet.writableBases, root ≠ []
  named_ne : ∀ entry ∈ flattened ruleSet, ∀ path ∈ namedPaths tree entry.rule, path ≠ []
  /-- Where a rule opens a path for writing, reading it is not blocked. -/
  reads : ∀ path entry, settled tree ruleSet .write path = some entry →
    entry.rule.allows = true → effectiveBlocked (flattened ruleSet) path .read = false

theorem ne_nil_of_validateAbsolute
    (h : validateAbsolute path = .ok ()) :
    path ≠ [] := by
  rintro rfl
  exact absurd (ensure_eq_ok.mp h).1 (by decide)

theorem named_ne_nil
    (hvalid : validateMatcher entry.rule = .ok ())
    (hnamed : path ∈ namedPaths tree entry.rule) :
    path ≠ [] := by
  unfold namedPaths at hnamed
  unfold validateMatcher at hvalid
  cases hmatcher : entry.rule.matcher with
  | literal target =>
      simp only [hmatcher, List.mem_singleton] at hnamed hvalid
      exact hnamed ▸ ne_nil_of_validateAbsolute hvalid
  | subtree lexical canonical =>
      simp only [hmatcher, mem_normalizeExact, List.mem_cons, List.not_mem_nil, or_false]
        at hnamed hvalid
      obtain ⟨⟨⟩, hlexical, hcanonical⟩ := bind_eq_ok.mp hvalid
      rcases hnamed with rfl | rfl
      · exact ne_nil_of_validateAbsolute hlexical
      · exact ne_nil_of_validateAbsolute hcanonical
  | glob pattern =>
      simp only [hmatcher, expandGlob, mem_normalizeExact] at hnamed
      rintro rfl
      exact absurd (tree.absolute [] (List.mem_filter.mp hnamed).1) (by simp)

theorem compile_eq_ok
    {host : Host}
    {plan : MountPlan}
    (h : compile host ruleSet = .ok plan) :
    Compiled host.tree ruleSet plan := by
  unfold compile at h
  cases herror : ruleSet.resolutionErrors.head? with
  | some detail =>
      simp only [herror] at h
      cases h
  | none =>
      simp only [herror] at h
      obtain ⟨⟨⟩, hworkspace, h⟩ := bind_eq_ok.mp h
      obtain ⟨⟨⟩, htemp, h⟩ := bind_eq_ok.mp h
      obtain ⟨⟨⟩, -, h⟩ := bind_eq_ok.mp h
      obtain ⟨made, hmade, h⟩ := bind_eq_ok.mp h
      obtain ⟨⟨⟩, -, hplan⟩ := bind_eq_ok.mp h
      cases hplan
      obtain ⟨rfl, hchecked⟩ := foldlM_append_of_mem (fun acc entry acc' hentry hstep =>
        applyPaths_eq_ok hentry hstep) hmade
      exact {
        plan_eq := rfl
        bases_ne := by
          intro root hroot
          rcases List.mem_cons.mp hroot with rfl | hroot
          · exact ne_nil_of_validateAbsolute hworkspace
          · exact ne_nil_of_validateAbsolute (forM_eq_ok htemp root hroot)
        named_ne := fun entry hentry path hnamed =>
          named_ne_nil (hchecked entry hentry).1 hnamed
        reads := by
          intro path entry hsettled hallows
          obtain ⟨hdecider, hnamed⟩ := settled_eq_some.mp hsettled
          exact (hchecked entry (decider_mem hdecider)).2 path hnamed hallows hsettled }

end Placements

/-! ## The lists of a plan -/

section Lists

variable {tree : FileTree}
variable {ruleSet : RuleSet}
variable {path : PathBuf}
variable {entry : FlatRule}
variable {list : MountList}

theorem mem_on
    {made : Placements} :
    path ∈ made.on list ↔ (list, path) ∈ made := by
  simp only [Placements.on, List.mem_filterMap]
  constructor
  · rintro ⟨⟨list', x⟩, hmem, hx⟩
    split at hx
    · rename_i heq
      cases hx
      exact heq ▸ hmem
    · cases hx
  · intro hmem
    exact ⟨(list, path), hmem, by simp⟩

theorem mem_placed
    {x : PathBuf} :
    (list, path) ∈ placed tree ruleSet entry x ↔
      path = x ∧ placedOn tree ruleSet entry path = some list := by
  simp only [placed, List.mem_map, Option.mem_toList, Prod.mk.injEq]
  constructor
  · rintro ⟨_, hlist, rfl, rfl⟩
    exact ⟨rfl, hlist⟩
  · rintro ⟨rfl, hlist⟩
    exact ⟨list, hlist, rfl, rfl⟩

/-- On a list is what a rule that names it was put there, and on that of the roots the bases. -/
theorem mem_placements_on :
    path ∈ (placements tree ruleSet).on list ↔
      (list = .writableRoots ∧ path ∈ ruleSet.writableBases) ∨
        ∃ entry ∈ flattened ruleSet, path ∈ namedPaths tree entry.rule ∧
          placedOn tree ruleSet entry path = some list := by
  rw [mem_on, placements, List.mem_append, List.mem_flatMap]
  refine or_congr ?_ (exists_congr fun entry => and_congr_right fun _ => ?_)
  · simp [bases, eq_comm, and_comm]
  · rw [List.mem_flatMap]
    constructor
    · rintro ⟨x, hx, hplaced⟩
      obtain ⟨rfl, hlist⟩ := mem_placed.mp hplaced
      exact ⟨hx, hlist⟩
    · rintro ⟨hx, hlist⟩
      exact ⟨path, hx, mem_placed.mpr ⟨rfl, hlist⟩⟩

theorem settled_mem
    {op : Op}
    (h : settled tree ruleSet op path = some entry) :
    entry ∈ flattened ruleSet ∧ path ∈ namedPaths tree entry.rule :=
  ⟨decider_mem (settled_eq_some.mp h).1, (settled_eq_some.mp h).2⟩

/-- A list whose members are told by the rule settled at them. -/
theorem exists_placed
    {op : Op}
    {p : FlatRule → Bool}
    (hplaced : ∀ entry, placedOn tree ruleSet entry path = some list ↔
      settled tree ruleSet op path = some entry ∧ p entry = true) :
    (∃ entry ∈ flattened ruleSet, path ∈ namedPaths tree entry.rule ∧
      placedOn tree ruleSet entry path = some list) ↔
        (settled tree ruleSet op path).any p = true := by
  rw [Option.any_eq_true]
  constructor
  · rintro ⟨entry, -, -, hlist⟩
    exact ⟨entry, (hplaced entry).mp hlist⟩
  · rintro ⟨entry, hsettled, hp⟩
    obtain ⟨hmem, hnamed⟩ := settled_mem hsettled
    exact ⟨entry, hmem, hnamed, (hplaced entry).mpr ⟨hsettled, hp⟩⟩

theorem mem_reopened :
    path ∈ (placements tree ruleSet).on .reopened ↔ reopens tree ruleSet path = true := by
  have hplaced : ∀ entry, placedOn tree ruleSet entry path = some .reopened ↔
      settled tree ruleSet .write path = some entry ∧
        (entry.rule.allows && protectedByLaterRule (flattened ruleSet) entry path .write) =
          true := by
    intro entry
    unfold placedOn
    split_ifs <;> simp_all
  rw [mem_placements_on, exists_placed hplaced]
  simp [reopens]

theorem mem_writableRoots :
    path ∈ (placements tree ruleSet).on .writableRoots ↔ opens tree ruleSet path = true := by
  have hplaced : ∀ entry, placedOn tree ruleSet entry path = some .writableRoots ↔
      settled tree ruleSet .write path = some entry ∧
        (entry.rule.allows && !protectedByLaterRule (flattened ruleSet) entry path .write) =
          true := by
    intro entry
    unfold placedOn
    split_ifs <;> simp_all
  rw [mem_placements_on, exists_placed hplaced]
  simp [opens]

theorem mem_reopenedReadOnly :
    path ∈ (placements tree ruleSet).on .reopenedReadOnly ↔
      reopensReading tree ruleSet path = true := by
  have hplaced : ∀ entry, placedOn tree ruleSet entry path = some .reopenedReadOnly ↔
      settled tree ruleSet .read path = some entry ∧
        (entry.rule.allows && protectedByLaterRule (flattened ruleSet) entry path .read &&
          settled tree ruleSet .write path ≠ some entry) = true := by
    intro entry
    unfold placedOn
    split_ifs <;> simp_all
  rw [mem_placements_on, exists_placed hplaced]
  simp [reopensReading]

theorem mem_unreadable
    (htree : path ∈ tree.paths) :
    path ∈ (placements tree ruleSet).on .unreadable ↔ hides tree ruleSet path = true := by
  have hplaced : ∀ entry, placedOn tree ruleSet entry path = some .unreadable ↔
      settled tree ruleSet .read path = some entry ∧ (!entry.rule.allows) = true := by
    intro entry
    unfold placedOn
    split_ifs <;> simp_all
  rw [mem_placements_on, exists_placed hplaced]
  simp [hides]

/-- Where a rule blocks both, the unreadable path is not read-only as well. -/
theorem mem_readOnly
    (htree : path ∈ tree.paths)
    (hhides : hides tree ruleSet path = false) :
    path ∈ (placements tree ruleSet).on .readOnly ↔ guards tree ruleSet path = true := by
  have hplaced : ∀ entry, placedOn tree ruleSet entry path = some .readOnly ↔
      settled tree ruleSet .write path = some entry ∧ (!entry.rule.allows) = true := by
    intro entry
    have hread : settled tree ruleSet .read path = some entry → entry.rule.allows = true := by
      intro hsettled
      simpa [hides, hsettled] using hhides
    unfold placedOn
    split_ifs <;> simp_all
  rw [mem_placements_on, exists_placed hplaced]
  simp [guards]

theorem not_mem_missing
    (htree : path ∈ tree.paths) :
    path ∉ (placements tree ruleSet).on .missingProtected := by
  rw [mem_placements_on]
  rintro (⟨h, -⟩ | ⟨entry, -, -, h⟩)
  · cases h
  · unfold placedOn at h
    split_ifs at h <;> simp_all

/-! ### The mount on top -/

theorem lastAt_append (a b : List Mount) (path : PathBuf) :
    lastAt (a ++ b) path = (lastAt b path).or (lastAt a path) := by
  rw [lastAt, List.filter_append, List.getLast?_append, lastAt, lastAt]
  cases (b.filter fun mount => mount.target = path).getLast? <;> rfl

theorem lastAt_mountsOf (paths : List PathBuf) (kind : MountKind) (path : PathBuf) :
    lastAt (mountsOf paths kind) path = if path ∈ paths then some kind else none := by
  have hkind : ∀ mount ∈ (mountsOf paths kind).filter (·.target = path), mount.kind = kind := by
    intro mount hmount
    obtain ⟨x, -, rfl⟩ := List.mem_map.mp (List.mem_filter.mp hmount).1
    rfl
  unfold lastAt
  split
  · rename_i hmem
    have hin : (⟨path, kind⟩ : Mount) ∈ (mountsOf paths kind).filter (·.target = path) :=
      List.mem_filter.mpr ⟨List.mem_map.mpr ⟨path, hmem, rfl⟩, by simp⟩
    rw [List.getLast?_eq_some_getLast (List.ne_nil_of_mem hin), Option.map_some,
      hkind _ (List.getLast_mem _)]
  · rename_i hmem
    have hnil : (mountsOf paths kind).filter (·.target = path) = [] := by
      refine List.filter_eq_nil_iff.mpr fun mount hmount => ?_
      obtain ⟨x, hx, rfl⟩ := List.mem_map.mp hmount
      simpa using fun heq : x = path => hmem (heq ▸ hx)
    rw [hnil]
    rfl

/-- The sort is stable: at one target the mounts stay in the order they were listed. -/
theorem lastAt_sorted (plan : MountPlan) (path : PathBuf) :
    lastAt plan.mounts path = lastAt plan.listed path := by
  unfold lastAt MountPlan.mounts
  rw [filter_insertionSort]
  intro a b ha hb
  rw [of_decide_eq_true ha, of_decide_eq_true hb]

theorem ne_nil_of_opens
    {plan : MountPlan}
    (hplan : Compiled tree ruleSet plan)
    (h : opens tree ruleSet path = true) :
    path ≠ [] := by
  rcases Bool.or_eq_true_iff.mp h with hbase | hrule
  · exact hplan.bases_ne path (of_decide_eq_true hbase)
  · obtain ⟨entry, hsettled, -⟩ := (Option.any_eq_true _ _).mp hrule
    obtain ⟨hmem, hnamed⟩ := settled_mem hsettled
    exact hplan.named_ne entry hmem path hnamed

/-- A root with no other root above it. -/
theorem mem_topRoots
    {plan : MountPlan}
    (hplan : Compiled tree ruleSet plan) :
    path ∈ normalizeRoots ((placements tree ruleSet).on .writableRoots) ↔
      (opens tree ruleSet path &&
        (ancestors path).all fun root => !opens tree ruleSet root || root = path) = true := by
  rw [mem_normalizeRoots, mem_writableRoots, Bool.and_eq_true, List.all_eq_true]
  refine and_congr_right fun _ => forall_congr' fun root => ?_
  rw [mem_writableRoots, mem_above]
  cases hopens : opens tree ruleSet root with
  | false =>
      simp
  | true =>
      simp [ne_nil_of_opens hplan hopens]

/-- On top of an existing path is the mount its mark says. -/
theorem lastAt_mounts
    {plan : MountPlan}
    (hplan : Compiled tree ruleSet plan)
    (htree : path ∈ tree.paths) :
    lastAt plan.mounts path = mark tree ruleSet path := by
  rw [lastAt_sorted, MountPlan.listed, hplan.plan_eq]
  simp only [finishPlan, lastAt_append, lastAt_mountsOf, mem_normalizeExact, mem_topRoots hplan,
    List.mem_filter, mem_reopened, mem_reopenedReadOnly, mem_unreadable htree,
    not_mem_missing htree]
  unfold mark
  by_cases hreopens : reopens tree ruleSet path = true
  · simp [hreopens]
  · by_cases hreading : reopensReading tree ruleSet path = true
    · simp [hreopens, hreading]
    · by_cases hhides : hides tree ruleSet path = true
      · simp [hreopens, hreading, hhides]
      · simp only [mem_readOnly htree (Bool.eq_false_iff.mpr hhides), hreopens, hreading, hhides]
        by_cases hguards : guards tree ruleSet path = true
        · simp [hguards]
        · simp [hguards]

end Lists

end Sandbox
end FutureOs
