import FutureOs.Sandbox.GlobAlign
import FutureOs.Sandbox.GlobScanRuns

/-!
# A scan finds every match

Where a pattern lies along a path (`Aligned`), its root is above the path, every directory
between the two passes the prefixes of the pattern, and the depth is one it looks at.  So
the walk of its group reaches the path, whichever other patterns share the walk.

* `Aligned.scanRoot_eq`: the root is made of the first names of the path;
* `Aligned.canDescend`: no directory above the path is pruned;
* `scan_exact_iff`: the scan is exact unless `/*` is asked for, which matches the root and
  looks one level below it.
-/

namespace FutureOs
namespace Sandbox
namespace GlobScan

open DirTree (Node Lookup)
open PathBuf (parse_absolute text_relative)

/-! ## Parts of a pattern, and names -/

theorem takeWhile_append_of_stop
    {α : Type}
    {p : α → Bool}
    {back : List α}
    (h : back.takeWhile p = [])
    (front : List α) :
    (front ++ back).takeWhile p = front.takeWhile p := by
  induction front with
  | nil =>
      exact h
  | cons a front ih =>
      rw [List.cons_append, List.takeWhile_cons, List.takeWhile_cons, ih]

theorem hasGlob_of_hasDouble
    {part : String}
    (h : Glob.hasDouble part.toList = true) :
    hasGlob part = true :=
  List.any_eq_true.2 ⟨'*', Glob.star_mem_of_hasDouble h, rfl⟩

theorem eq_of_isMatch_of_not_hasGlob
    {part name : String}
    (hpart : hasGlob part = false)
    (h : Glob.isMatch part.toList name.toList = true) :
    part = name := by
  refine String.toList_injective (Glob.eq_of_isMatch (fun c hc => ?_) h)
  have hnot := List.any_eq_false.1 hpart c hc
  simpa [not_or] using hnot

/-- Parts that match names, joined, match the names joined. -/
theorem isMatch_text
    {parts names : List String}
    (hparts : ∀ part ∈ parts, '/' ∉ part.toList ∧ Glob.hasDouble part.toList = false)
    (hnames : ∀ name ∈ names, ValidName name)
    (h : List.Forall₂ (fun part name => Glob.isMatch part.toList name.toList = true)
      parts names) :
    Glob.isMatch (PathBuf.text parts) (PathBuf.text names) = true := by
  rw [text_relative fun part hpart => (hparts part hpart).1,
    text_relative fun name hname => (hnames name hname).2.2.2]
  refine Glob.isMatch_of_forall₂ (List.forall_mem_map.2 hparts)
    (List.forall_mem_map.2 fun name hname => (hnames name hname).2.2.2) ?_
  rw [List.forall₂_map_left_iff, List.forall₂_map_right_iff]
  exact h

/-! ## The root of an aligned pattern -/

section Aligned

variable {text : String}
variable {names front others : List String}

/-- Behind the front a part has `**`, or there is none. -/
theorem Aligned.takeWhile_others
    (h : Aligned text names front others)
    {p : String → Bool}
    (hp : ∀ part, Glob.hasDouble part.toList = true → p part = false) :
    others.takeWhile p = [] := by
  rcases h.rest with ⟨rfl, -⟩ | ⟨first, more, rfl, hfirst⟩
  · rfl
  · rw [List.takeWhile_cons, hp first hfirst]
    rfl

/-- The root is made of names of the path, and the parts are what is behind. -/
theorem Aligned.scanRoot_eq (h : Aligned text names front others) :
    ∃ k, k ≤ front.length ∧ scanRoot text = rootComponent :: names.take k ∧
      partsOf text (scanRoot text) = front.drop k ++ others := by
  have hstop := h.takeWhile_others fun part hpart =>
    (congrArg not (hasGlob_of_hasDouble hpart) : (!hasGlob part) = false)
  have hscan : scanRoot text = rootComponent :: front.takeWhile fun part => !hasGlob part := by
    rw [scanRoot, h.parse, List.takeWhile_cons, takeWhile_append_of_stop hstop]
    rfl
  generalize hliteral : front.takeWhile (fun part => !hasGlob part) = literal at hscan
  have hfront : literal = front.take literal.length := by
    rw [← hliteral]
    exact List.prefix_iff_eq_take.1 (List.takeWhile_prefix _)
  have hle : literal.length ≤ front.length := by
    rw [← hliteral]
    exact (List.takeWhile_prefix _).length_le
  have hnames : literal = names.take literal.length := by
    have hmatched := List.forall₂_take literal.length h.matched
    rw [← hfront, List.take_take, Nat.min_eq_left hle] at hmatched
    have hplain : ∀ part ∈ literal, hasGlob part = false := by
      intro part hpart
      rw [← hliteral] at hpart
      simpa using List.mem_takeWhile_imp hpart
    have hequal := ((List.forall₂_and_left _ _).2 ⟨hplain, hmatched⟩).imp
      fun part name hpart => eq_of_isMatch_of_not_hasGlob hpart.1 hpart.2
    rwa [List.forall₂_eq_eq_eq] at hequal
  refine ⟨literal.length, hle, by rw [hscan, ← hnames], ?_⟩
  rw [partsOf, hscan, h.parse, List.length_cons, List.drop_succ_cons,
    List.drop_append_of_le_length hle]

/-! ## The walk goes down to the path -/

theorem canDescend_of
    {p : Pattern}
    {relative : PathBuf}
    {depth : Nat}
    (hdepth : p.recursive = false → depth < p.depth)
    (hprefixes : ∀ i matcher, i < depth → p.prefixes[i]? = some matcher →
      matcher (PathBuf.text (relative.take (i + 1))) = true) :
    p.canDescend relative depth = true := by
  have hnot : ¬ (p.recursive = false ∧ p.depth ≤ depth) := fun h =>
    absurd h.2 (Nat.not_le.2 (hdepth h.1))
  rw [Pattern.canDescend, if_neg hnot]
  by_cases hzero : depth = 0
  · rw [if_pos hzero]
  rw [if_neg hzero]
  dsimp only
  by_cases hnone : min depth p.prefixes.length = 0
  · rw [if_pos hnone]
  rw [if_neg hnone]
  obtain ⟨matcher, hmatcher⟩ : ∃ matcher,
      p.prefixes[min depth p.prefixes.length - 1]? = some matcher :=
    ⟨_, List.getElem?_eq_getElem (by omega)⟩
  have hmatch := hprefixes _ matcher (by omega) hmatcher
  rw [Nat.sub_add_cancel (Nat.pos_of_ne_zero hnone)] at hmatch
  simp only [hmatcher, hmatch]

/-- A pattern of which the parts behind the root are known. -/
theorem finiteParts_eq
    (h : Aligned text names front others)
    (k : Nat) :
    finiteParts (front.drop k ++ others) = front.drop k := by
  have hstop := h.takeWhile_others fun part hpart =>
    (congrArg not hpart : (!Glob.hasDouble part.toList) = false)
  rw [finiteParts, takeWhile_append_of_stop hstop, List.takeWhile_eq_self_iff]
  intro part hpart
  rw [(h.finite part (List.mem_of_mem_drop hpart)).2]
  rfl

theorem recursive_iff
    (h : Aligned text names front others)
    {k : Nat}
    (hparts : partsOf text (scanRoot text) = front.drop k ++ others) :
    (patternOf text).recursive = true ↔ others ≠ [] := by
  have hrecursive : (patternOf text).recursive =
      (front.drop k ++ others).any fun part => Glob.hasDouble part.toList := by
    rw [← hparts]
    rfl
  rw [hrecursive, List.any_append, Bool.or_eq_true]
  constructor
  · rintro (hfront | hothers) rfl
    · obtain ⟨part, hpart, hdouble⟩ := List.any_eq_true.1 hfront
      rw [(h.finite part (List.mem_of_mem_drop hpart)).2] at hdouble
      cases hdouble
    · cases hothers
  · intro hothers
    obtain ⟨first, more, rfl, hfirst⟩ := h.rest.resolve_left fun hnil => hothers hnil.1
    exact .inr (List.any_eq_true.2 ⟨first, List.mem_cons_self, hfirst⟩)

/-- Without `**` a pattern is as deep as the path. -/
theorem depth_of_not_recursive
    (h : Aligned text names front others)
    {k : Nat}
    (hparts : partsOf text (scanRoot text) = front.drop k ++ others)
    (hrecursive : (patternOf text).recursive = false) :
    (patternOf text).depth = names.length - k := by
  have hdepth : (patternOf text).depth = (front.drop k ++ others).length := by
    rw [← hparts]
    rfl
  have hnil : others = [] := by
    by_contra hothers
    rw [(recursive_iff h hparts).2 hothers] at hrecursive
    cases hrecursive
  obtain ⟨-, hlength⟩ := h.rest.resolve_right fun ⟨_, _, hcons, _⟩ =>
    List.cons_ne_nil _ _ (hcons.symm.trans hnil)
  rw [hdepth, hnil, List.append_nil, List.length_drop, hlength]

/-- No directory between the root and the path is pruned. -/
theorem Aligned.canDescend
    (h : Aligned text names front others)
    (hnames : ∀ name ∈ names, ValidName name)
    {k m : Nat}
    (hparts : partsOf text (scanRoot text) = front.drop k ++ others)
    (hkm : k ≤ m)
    (hm : m < names.length) :
    (patternOf text).canDescend ((names.take m).drop k) (m - k) = true := by
  refine canDescend_of (fun hrecursive => ?_) fun i matcher hi hmatcher => ?_
  · rw [depth_of_not_recursive h hparts hrecursive]
    omega
  · have hprefixes : (patternOf text).prefixes =
        (List.range (front.drop k).length).map fun i =>
          Glob.isMatch (PathBuf.text ((front.drop k).take (i + 1))) := by
      rw [← finiteParts_eq h k, ← hparts]
      rfl
    rw [hprefixes, List.getElem?_map, Option.map_eq_some_iff] at hmatcher
    obtain ⟨j, hj, rfl⟩ := hmatcher
    obtain ⟨hlt, rfl⟩ := List.getElem?_eq_some_iff.1 hj
    rw [List.getElem_range]
    rw [List.length_range, List.length_drop] at hlt
    have hlength := h.length
    have hrelative : ((names.take m).drop k).take (i + 1) =
        (((names.take front.length).drop k).take (i + 1)) := by
      rw [List.drop_take, List.drop_take, List.take_take, List.take_take,
        Nat.min_eq_left (by omega), Nat.min_eq_left (by omega)]
    rw [hrelative]
    refine isMatch_text (fun part hpart => ?_) (fun name hname => ?_)
      (List.forall₂_take _ (List.forall₂_drop _ h.matched))
    · exact h.finite part (List.mem_of_mem_drop (List.mem_of_mem_take hpart))
    · exact hnames name (List.mem_of_mem_take (List.mem_of_mem_drop
        (List.mem_of_mem_take hname)))

end Aligned

/-! ## One walk -/

section Group

variable {text : String}
variable {names front others : List String}
variable {group : Group}

/-- The pattern looks at the path. -/
theorem Aligned.takes
    (h : Aligned text names front others)
    (hroot : group.root = scanRoot text)
    (hmatch : Glob.isMatch text.toList (PathBuf.text (rootComponent :: names)) = true) :
    group.takes (patternOf text) (rootComponent :: names) = true := by
  obtain ⟨k, hk, hscan, hparts⟩ := h.scanRoot_eq
  have hlength := h.length
  have hdepth : group.depth (rootComponent :: names) = names.length - k := by
    rw [Group.depth, hroot, hscan, List.length_cons, List.length_cons, List.length_take]
    omega
  rw [Group.takes, Bool.and_eq_true]
  refine ⟨?_, hmatch⟩
  cases hrecursive : (patternOf text).recursive with
  | true => rfl
  | false =>
      rw [hdepth, depth_of_not_recursive h hparts hrecursive, Bool.false_or]
      exact decide_eq_true rfl

/-- The walk goes into everything above the path. -/
theorem Aligned.open
    (h : Aligned text names front others)
    (hnames : ∀ name ∈ names, ValidName name)
    (hroot : group.root = scanRoot text)
    (hpattern : patternOf text ∈ group.patterns) :
    group.root <+: rootComponent :: names ∧
      DirTree.Open group.descends group.root (rootComponent :: names) := by
  obtain ⟨k, hk, hscan, hparts⟩ := h.scanRoot_eq
  have hlength := h.length
  rw [← hroot] at hscan
  rw [hscan]
  refine ⟨(List.cons_prefix_cons).2 ⟨rfl, List.take_prefix k names⟩, ?_⟩
  intro above habove hle hne
  obtain ⟨rest, rfl⟩ : ∃ rest, above = rootComponent :: rest := by
    obtain ⟨rest, rfl⟩ := habove
    exact ⟨_, rfl⟩
  obtain ⟨-, hrest⟩ := List.cons_prefix_cons.1 hle
  obtain ⟨-, hbelow⟩ := List.cons_prefix_cons.1 habove
  have htake := List.prefix_iff_eq_take.1 hrest
  have hkm : k ≤ rest.length := by
    have hcount := hbelow.length_le
    rw [List.length_take] at hcount
    omega
  have hm : rest.length < names.length := by
    refine Nat.lt_of_le_of_ne hrest.length_le fun heq => hne ?_
    rw [hrest.eq_of_length heq]
  refine List.any_eq_true.2 ⟨patternOf text, hpattern, ?_⟩
  have hdescend := h.canDescend hnames hparts hkm hm
  have hdepth : group.depth (rootComponent :: rest) = rest.length - k := by
    rw [Group.depth, hscan, List.length_cons, List.length_cons, List.length_take]
    omega
  have hrelative : (rootComponent :: rest).drop group.root.length = rest.drop k := by
    rw [hscan, List.length_cons, List.drop_succ_cons, List.length_take,
      Nat.min_eq_left (by omega)]
  rw [hdepth, hrelative]
  rwa [← htake] at hdescend

end Group

/-! ## The scan -/

/-- A finite tree without links, as a directory lists it. -/
structure Tree where
  root : Node String
  distinct : root.Distinct
  names : ∀ path ∈ root.paths [rootComponent], ∀ name ∈ path.tail, ValidName name

/-- The paths of all entries. -/
def Tree.entries (tree : Tree) : List PathBuf :=
  tree.root.paths [rootComponent]

/-- What a walk reaches, from a root that is an absolute path. -/
theorem mem_scanned
    {tree : Tree}
    {group : Group}
    {rest : List String}
    (hroot : group.root = rootComponent :: rest)
    (path : PathBuf) :
    path ∈ group.scanned tree.root ↔
      path ∈ tree.entries ∧ group.root <+: path ∧
        DirTree.Open group.descends group.root path := by
  have hlookup : group.root <+: path → (path ∈ tree.entries ↔
      ∃ node, tree.root.lookup rest = .found node ∧ path ∈ node.paths group.root) := by
    rw [hroot]
    exact tree.root.mem_paths_lookup rest [rootComponent] path tree.distinct
  unfold Group.scanned
  rw [hroot, List.tail_cons, ← hroot]
  constructor
  · intro h
    cases hnode : tree.root.lookup rest with
    | missing =>
        rw [hnode] at h
        cases h
    | blocked reason =>
        rw [hnode] at h
        cases h
    | found node =>
        rw [hnode] at h
        obtain ⟨hmem, hopen⟩ := (node.mem_reached group.root path).1 h
        have hprefixed := node.prefix_of_reached group.root path h
        exact ⟨(hlookup hprefixed).2 ⟨node, hnode, hmem⟩, hprefixed, hopen⟩
  · rintro ⟨hentry, hprefixed, hopen⟩
    obtain ⟨node, hnode, hmem⟩ := (hlookup hprefixed).1 hentry
    rw [hnode]
    exact (node.mem_reached group.root path).2 ⟨hmem, hopen⟩

theorem absolute_of_validateAbsolute
    {text : String}
    (h : validateAbsolute (PathBuf.parse text) = .ok ()) :
    ∃ rest, text.toList = '/' :: rest := by
  have habsolute := (ensure_eq_ok.1 h).1
  by_cases hstart : Text.startsWith "/" text = true
  · obtain ⟨rest, hrest⟩ := List.isPrefixOf_iff_prefix.1 hstart
    exact ⟨rest, hrest.symm⟩
  · rw [PathBuf.isAbsolute, PathBuf.parse, if_neg hstart, decide_eq_true_iff] at habsolute
    obtain ⟨hmem, -⟩ := List.mem_filter.1 (List.mem_of_mem_head? habsolute)
    obtain ⟨segment, hsegment, hroot⟩ := List.mem_map.1 hmem
    refine absurd ?_ (Glob.notMem_of_mem_splitOn hsegment)
    rw [← String.toList_ofList (l := segment), hroot]
    exact List.mem_cons_self

section Exact

variable {scan : Scan}
variable {tree : Tree}
variable {patterns : List String}
variable {found : String → List PathBuf}

/-- A pattern other than `/*` is given exactly the entries it matches. -/
theorem mem_found_iff
    (hcrate : scan.crate.Documented)
    (hrun : run scan tree.root patterns = .ok found)
    {text : String}
    (htext : text ∈ patterns)
    (hvalid : validateAbsolute (PathBuf.parse text) = .ok ())
    (hshallow : text ≠ "/*")
    (path : PathBuf) :
    path ∈ found text ↔
      path ∈ tree.entries ∧ Glob.isMatch text.toList path.text = true := by
  obtain ⟨registered, hentries, hfound⟩ := run_spec hcrate hrun
  obtain ⟨rest, habsolute⟩ := absolute_of_validateAbsolute hvalid
  obtain ⟨below, hbelow⟩ : ∃ below, scanRoot text = rootComponent :: below := by
    rw [scanRoot, parse_absolute habsolute]
    exact ⟨_, rfl⟩
  rw [hfound, mem_scanned hbelow]
  constructor
  · rintro ⟨-, ⟨hentry, -⟩, htakes⟩
    exact ⟨hentry, (Bool.and_eq_true_iff.1 htakes).2⟩
  · rintro ⟨hentry, hmatch⟩
    obtain ⟨names, rfl⟩ := tree.root.prefix_of_reached _ _ hentry
    have hnames : ∀ name ∈ names, ValidName name := tree.names _ hentry
    obtain ⟨front, others, haligned⟩ := aligned_of_isMatch habsolute hnames hmatch
      fun heq => absurd heq hshallow
    have hpattern : patternOf text ∈ (groupOf registered (scanRoot text)).patterns :=
      mem_groupOf.2 ((hentries _).2 ⟨text, htext, rfl⟩)
    exact ⟨htext, ⟨hentry, haligned.open hnames rfl hpattern⟩, haligned.takes rfl hmatch⟩

/-- `/*` matches the root and never finds it. -/
theorem root_notMem_found
    (hcrate : scan.crate.Documented)
    (hrun : run scan tree.root patterns = .ok found) :
    [rootComponent] ∉ found "/*" := by
  obtain ⟨registered, -, hfound⟩ := run_spec hcrate hrun
  intro h
  obtain ⟨-, -, htakes⟩ := (hfound _ _).1 h
  have hnot : (groupOf registered (scanRoot "/*")).takes (patternOf "/*") [rootComponent] =
      false := rfl
  rw [hnot] at htakes
  cases htakes

/-- The three matchers accept the same texts. -/
def MatchersAgree (crate : RegexCrate) : Prop :=
  ∀ pattern rule scanned, buildGlobRegex crate false pattern = .ok rule →
    compileMatcher crate pattern = .ok scanned →
      ∀ value, rule value = globMatches pattern value ∧
        scanned value = globMatches pattern value

/-- Each pattern is given exactly the entries it matches. -/
def Exact (tree : Tree) (patterns : List String) (found : String → List PathBuf) : Prop :=
  ∀ text ∈ patterns, ∀ path, path ∈ found text ↔
    path ∈ tree.entries ∧ globMatches text.toList path.text = true

theorem root_mem_entries (tree : Tree) : [rootComponent] ∈ tree.entries := by
  unfold Tree.entries DirTree.Node.paths
  cases tree.root <;> exact List.mem_cons_self

/--
The matchers agree and the scan misses nothing, if and only if the patterns do not include
`/*`.
-/
theorem scan_exact_iff
    (hcrate : scan.crate.Documented)
    (hpatterns : ∀ text ∈ patterns, validateAbsolute (PathBuf.parse text) = .ok ())
    (hrun : run scan tree.root patterns = .ok found) :
    MatchersAgree scan.crate ∧ Exact tree patterns found ↔ "/*" ∉ patterns := by
  constructor
  · rintro ⟨-, hexact⟩ hroot
    exact root_notMem_found hcrate hrun
      ((hexact "/*" hroot _).2 ⟨root_mem_entries tree, by rw [globMatches_eq]; rfl⟩)
  · intro hroot
    constructor
    · intro pattern rule scanned hrule hscanned value
      obtain ⟨h, h', h''⟩ := matchers_agree hcrate hrule hscanned value
      exact ⟨h.trans h''.symm, h'.trans h''.symm⟩
    · intro text htext path
      rw [globMatches_eq, ← Glob.isMatch_eq]
      refine mem_found_iff hcrate hrun htext (hpatterns text htext) ?_ path
      rintro rfl
      exact hroot htext

end Exact

/-! ## A small tree -/

def smallScan : Scan where
  crate := RegexCrate.ascii
  phase := "planning"
  clock _ := none
  durationMs := 1500

/-- `/etc/a.pem` and `/key`. -/
def smallTree : Tree where
  root := .dir (.cons "etc" (.dir (.cons "a.pem" .file .nil)) (.cons "key" .file .nil))
  distinct := ⟨by decide, ⟨by decide, trivial, trivial⟩, trivial, trivial⟩
  names := by decide +kernel

/-- A recursive pattern and a shallow one below another root. -/
theorem scan_exact_small :
    MatchersAgree RegexCrate.ascii ∧
      Exact smallTree ["/**/*.pem", "/etc/?.pem"]
        (matchesOf [("/**/*.pem", ["/", "etc", "a.pem"]),
          ("/etc/?.pem", ["/", "etc", "a.pem"])]) :=
  (@scan_exact_iff smallScan smallTree ["/**/*.pem", "/etc/?.pem"] _
    RegexCrate.ascii_documented (by decide +kernel)
    (run_of_foundBy (by decide +kernel))).2 (by decide)

/-- The root matches `/*`, and the scan leaves it out. -/
theorem root_missed :
    RegexCrate.ascii.Documented ∧
      run smallScan smallTree.root ["/*"] =
        .ok (matchesOf [("/*", ["/", "etc"]), ("/*", ["/", "key"])]) ∧
      ¬ Exact smallTree ["/*"] (matchesOf [("/*", ["/", "etc"]), ("/*", ["/", "key"])]) := by
  refine ⟨RegexCrate.ascii_documented, run_of_foundBy (by decide +kernel), fun h => ?_⟩
  have hroot := (h "/*" List.mem_cons_self [rootComponent]).2 (by decide +kernel)
  exact absurd hroot (by decide)

end GlobScan
end Sandbox
end FutureOs
