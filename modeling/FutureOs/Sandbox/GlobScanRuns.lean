import FutureOs.Sandbox.GlobScan

/-!
# What a scan finds

A scan that succeeds has found, for each of its patterns, the entries its walk reached that
are at a depth the pattern looks at and that the pattern matches (`run_spec`).  A walk only
adds to what is found (`Adds`), and each of its visits adds the same kind of thing.
-/

namespace FutureOs
namespace Sandbox
namespace GlobScan

open DirTree (Node Lookup Visitor)

/-- What is found, and nothing is lost. -/
def Adds (s s' : ScanState) (P : String × PathBuf → Prop) : Prop :=
  ∀ e, e ∈ s'.found ↔ e ∈ s.found ∨ P e

section Adds

variable {s s' s'' : ScanState}
variable {P Q : String × PathBuf → Prop}

theorem Adds.congr
    (h : Adds s s' P)
    (hPQ : ∀ e, P e ↔ Q e) :
    Adds s s' Q :=
  fun e => (h e).trans (or_congr_right (hPQ e))

theorem adds_nothing (h : s'.found = s.found) : Adds s s' fun _ => False := by
  intro e
  rw [h, or_false]

theorem Adds.trans
    (h : Adds s s' P)
    (h' : Adds s' s'' Q) :
    Adds s s'' fun e => P e ∨ Q e :=
  fun e => (h' e).trans ((or_congr_left (h e)).trans or_assoc)

/-- A loop whose steps add adds what its steps do. -/
theorem adds_foldlM
    {α : Type}
    {step : ScanState → α → Except ScanError ScanState}
    {l : List α}
    (h : l.foldlM step s = .ok s')
    {added : α → String × PathBuf → Prop}
    (hstep : ∀ s a s', step s a = .ok s' → Adds s s' (added a)) :
    Adds s s' fun e => ∃ a ∈ l, added a e := by
  have hinvariant := @foldlM_invariant _ _ _ step
    (fun done t => Adds s t fun e => ∃ a ∈ done, added a e) ?_ l [] s s' ?_ h
  · exact hinvariant
  · intro done t a t' ht hrun
    refine (ht.trans (hstep t a t' hrun)).congr fun e => ?_
    simp only [List.mem_append, List.mem_singleton, or_and_right, exists_or,
      exists_eq_left]
  · exact (adds_nothing rfl).congr fun e => by simp

end Adds

/-! ## One visit -/

section Visit

variable {scan : Scan}
variable {group : Group}
variable {path root : PathBuf}
variable {s s' : ScanState}

theorem check_found
    {pattern : String}
    (h : check scan root pattern s = .ok s') :
    s'.found = s.found := by
  unfold check at h
  split at h
  case h_1 =>
    cases h
    rfl
  all_goals cases h

theorem record_adds
    {p : Pattern}
    (h : group.record scan p path s = .ok s') :
    Adds s s' fun e => e = (p.text, path) := by
  rw [Group.record] at h
  split at h
  case isTrue hmem =>
    cases h
    intro e
    refine ⟨.inl, ?_⟩
    rintro (he | rfl)
    · exact he
    · exact hmem
  case isFalse =>
    dsimp only at h
    split at h
    · cases h
    · split at h
      · cases h
      · cases h
        intro e
        simp

theorem visitPattern_adds
    {p : Pattern}
    (h : group.visitPattern scan path s p = .ok s') :
    Adds s s' fun e => group.takes p path = true ∧ e = (p.text, path) := by
  rw [Group.visitPattern] at h
  cases hcheck : check scan group.root p.text s with
  | error e =>
      simp [hcheck] at h
  | ok t =>
      rw [hcheck] at h
      have hkept := adds_nothing (check_found hcheck)
      dsimp only at h
      split at h
      case isTrue htakes =>
        refine (hkept.trans (record_adds h)).congr fun e => ?_
        rw [false_or, htakes]
        exact (and_iff_right rfl).symm
      case isFalse htakes =>
        cases h
        refine hkept.congr fun e => ?_
        simp [htakes]

/-- What is found for a visited entry. -/
def Group.Takes (group : Group) (path : PathBuf) (e : String × PathBuf) : Prop :=
  ∃ p ∈ group.patterns, group.takes p path = true ∧ e = (p.text, path)

theorem visit_spec
    {isDir descend : Bool}
    (h : group.visit scan path isDir s = .ok (s', descend)) :
    Adds s s' (group.Takes path) ∧ (isDir = true → descend = group.descends path) := by
  rw [Group.visit, bind_eq_ok] at h
  obtain ⟨t, hfirst, h⟩ := h
  obtain ⟨u, hsecond, h⟩ := bind_eq_ok.1 h
  obtain ⟨v, hloop, h⟩ := bind_eq_ok.1 h
  have hfound : t.found = s.found := check_found hfirst
  have hkept : Adds s u fun _ => False := adds_nothing ((check_found hsecond).trans hfound)
  have hadds : Adds s v (group.Takes path) :=
    (hkept.trans (adds_foldlM hloop fun _ _ _ => visitPattern_adds)).congr fun e => by
      rw [false_or]
      rfl
  split at h
  case isTrue hdescends =>
    split at h
    · cases h
    · cases h
      exact ⟨hadds, fun _ => (Bool.and_eq_true_iff.1 hdescends).2.symm⟩
  case isFalse hdescends =>
    cases h
    refine ⟨hadds, ?_⟩
    rintro rfl
    simpa using hdescends

end Visit

/-! ## One walk -/

section Walk

variable {scan : Scan}
variable {group : Group}
variable {s s' : ScanState}

/-- What is found in a walk that sees these entries. -/
def Group.Finds (group : Group) (seen : List PathBuf) (e : String × PathBuf) : Prop :=
  ∃ path ∈ seen, group.Takes path e

theorem visitor_keeps (s : ScanState) :
    (group.visitor scan).Keeps group.descends fun t seen => Adds s t (group.Finds seen) := by
  intro path isDir t t' descend seen ht hvisit
  obtain ⟨hadds, hdescend⟩ := visit_spec hvisit
  refine ⟨(ht.trans hadds).congr fun e => ?_, hdescend⟩
  simp only [Group.Finds, List.mem_append, List.mem_singleton, or_and_right, exists_or,
    exists_eq_left]

/-- The entries a walk reaches. -/
def Group.scanned (group : Group) (tree : Node String) : List PathBuf :=
  match tree.lookup group.root.tail with
  | .found node => node.reached group.descends group.root
  | .missing => []
  | .blocked _ => []

theorem walk_adds
    {tree : Node String}
    (h : group.walk scan tree s = .ok s') :
    Adds s s' (group.Finds (group.scanned tree)) := by
  rw [Group.walk, bind_eq_ok] at h
  obtain ⟨t, hfirst, h⟩ := h
  have hkept := adds_nothing (check_found hfirst)
  unfold Group.scanned
  cases hlookup : tree.lookup group.root.tail with
  | missing =>
      rw [hlookup] at h
      cases h
      exact hkept.congr fun e => by simp [Group.Finds]
  | blocked reason =>
      rw [hlookup] at h
      cases h
  | found node =>
      rw [hlookup] at h
      obtain ⟨u, hwalk, h⟩ := bind_eq_ok.1 h
      obtain ⟨v, hsecond, hthird⟩ := bind_eq_ok.1 h
      have hreached := node.walk_invariant (visitor_keeps t) group.root t u []
        ((adds_nothing rfl).congr fun e => by simp [Group.Finds]) hwalk
      have hend := adds_nothing ((check_found hthird).trans (check_found hsecond))
      refine ((hkept.trans hreached).trans hend).congr fun e => ?_
      rw [false_or, or_false, List.nil_append]

end Walk

/-! ## The scan, without its last step -/

/-- Pairs of a pattern and a path, in the order they are found. -/
def foundBy (scan : Scan) (tree : Node String) (patterns : List String) :
    Except ScanError (List (String × PathBuf)) := do
  let (registered, s) ← patterns.foldlM (register scan) ([], ScanState.new)
  let s ← (groupsOf registered).foldlM (fun s group => group.walk scan tree s) s
  return s.found

theorem run_eq (scan : Scan) (tree : Node String) (patterns : List String) :
    run scan tree patterns = (foundBy scan tree patterns).map matchesOf := by
  rw [run, foundBy]
  cases patterns.foldlM (register scan) ([], ScanState.new) with
  | error e =>
      rfl
  | ok acc =>
      simp only [except_ok_bind]
      cases (groupsOf acc.1).foldlM (fun s group => group.walk scan tree s) acc.2 with
      | error e => rfl
      | ok s => rfl

theorem run_of_foundBy
    {scan : Scan}
    {tree : Node String}
    {patterns : List String}
    {found : List (String × PathBuf)}
    (h : foundBy scan tree patterns = .ok found) :
    run scan tree patterns = .ok (matchesOf found) := by
  rw [run_eq, h]
  rfl

/-! ## The patterns of a scan -/

/-- What `Pattern.compile` makes of a pattern. -/
def patternOf (text : String) : Pattern where
  text := text
  matcher := Glob.isMatch text.toList
  prefixes :=
    (List.range (finiteParts (partsOf text (scanRoot text))).length).map fun i =>
      Glob.isMatch
        (PathBuf.text ((finiteParts (partsOf text (scanRoot text))).take (i + 1)))
  recursive := (partsOf text (scanRoot text)).any fun part => Glob.hasDouble part.toList
  depth := (partsOf text (scanRoot text)).length

section Registered

variable {scan : Scan}

theorem compile_eq
    (hcrate : scan.crate.Documented)
    {text : String}
    {p : Pattern}
    (h : Pattern.compile scan.crate text (scanRoot text) = .ok p) :
    p = patternOf text := by
  rw [Pattern.compile] at h
  rw [bind_eq_ok] at h
  obtain ⟨prefixes, hprefixes, h⟩ := h
  obtain ⟨matcher, hmatcher, h⟩ := bind_eq_ok.1 h
  cases h
  rw [compileMatcher_spec hcrate hmatcher,
    mapM_eq_map (fun i m hm => compileMatcher_spec hcrate hm) hprefixes]
  rfl

/-- What is registered for the patterns read so far. -/
def RegisteredFor (texts : List String) (acc : Registered × ScanState) : Prop :=
  (∀ entry, entry ∈ acc.1 ↔ ∃ text ∈ texts, entry = (scanRoot text, patternOf text)) ∧
    acc.2.found = []

theorem register_step
    (hcrate : scan.crate.Documented)
    {texts : List String}
    {acc acc' : Registered × ScanState}
    {text : String}
    (hacc : RegisteredFor texts acc)
    (h : register scan acc text = .ok acc') :
    RegisteredFor (texts ++ [text]) acc' := by
  obtain ⟨hentries, hfound⟩ := hacc
  rw [register] at h
  rw [bind_eq_ok] at h
  obtain ⟨s, hcheck, h⟩ := h
  have hs : s.found = [] := (check_found hcheck).trans hfound
  split at h
  case isTrue hknown =>
    -- A pattern that is given twice is registered once.
    cases h
    refine ⟨fun entry => (hentries entry).trans ?_, hs⟩
    obtain ⟨known, hmem, htext⟩ := List.any_eq_true.1 hknown
    obtain ⟨other, hother, rfl⟩ := (hentries known).1 hmem
    obtain rfl : other = text := of_decide_eq_true htext
    simp only [List.mem_append, List.mem_singleton, or_and_right, exists_or,
      exists_eq_left]
    refine ⟨.inl, ?_⟩
    rintro (hentry | hentry)
    · exact hentry
    · exact ⟨other, hother, hentry⟩
  case isFalse =>
    split at h
    · cases h
    · cases hcompile : Pattern.compile scan.crate text (scanRoot text) with
      | error detail =>
          rw [hcompile] at h
          cases h
      | ok p =>
          rw [hcompile] at h
          cases h
          refine ⟨fun entry => ?_, hs⟩
          rw [List.mem_append, List.mem_singleton, hentries, compile_eq hcrate hcompile]
          simp only [List.mem_append, List.mem_singleton, or_and_right, exists_or,
            exists_eq_left]

/-- The group of a root. -/
def groupOf (registered : Registered) (root : PathBuf) : Group :=
  ⟨root, (registered.filter fun entry => entry.1 = root).map Prod.snd⟩

theorem mem_groupsOf
    {registered : Registered}
    {group : Group} :
    group ∈ groupsOf registered ↔
      ∃ entry ∈ registered, group = groupOf registered entry.1 := by
  unfold groupsOf
  rw [List.mem_map]
  constructor
  · rintro ⟨root, hroot, rfl⟩
    rw [List.mem_insertionSort, List.mem_dedup, List.mem_map] at hroot
    obtain ⟨entry, hentry, rfl⟩ := hroot
    exact ⟨entry, hentry, rfl⟩
  · rintro ⟨entry, hentry, rfl⟩
    refine ⟨entry.1, ?_, rfl⟩
    rw [List.mem_insertionSort, List.mem_dedup]
    exact List.mem_map_of_mem hentry

theorem mem_groupOf
    {registered : Registered}
    {root : PathBuf}
    {p : Pattern} :
    p ∈ (groupOf registered root).patterns ↔ (root, p) ∈ registered := by
  simp [groupOf]

/-- A scan finds for a pattern what the walk of its group reaches and the pattern takes. -/
theorem run_spec
    (hcrate : scan.crate.Documented)
    {tree : Node String}
    {patterns : List String}
    {found : String → List PathBuf}
    (h : run scan tree patterns = .ok found) :
    ∃ registered : Registered,
      (∀ entry, entry ∈ registered ↔
        ∃ text ∈ patterns, entry = (scanRoot text, patternOf text)) ∧
      ∀ text path, path ∈ found text ↔
        text ∈ patterns ∧ path ∈ (groupOf registered (scanRoot text)).scanned tree ∧
          (groupOf registered (scanRoot text)).takes (patternOf text) path = true := by
  rw [run, bind_eq_ok] at h
  obtain ⟨⟨registered, s⟩, hregister, h⟩ := h
  obtain ⟨s', hwalks, h⟩ := bind_eq_ok.1 h
  cases h
  obtain ⟨hentries, hs⟩ := @foldlM_invariant _ _ _ (register scan) RegisteredFor
    (fun _ _ _ _ => register_step hcrate) patterns [] _ _
    ⟨fun entry => by simp, rfl⟩ hregister
  rw [List.nil_append] at hentries
  have hadds := adds_foldlM hwalks fun _ _ _ => walk_adds
  refine ⟨registered, hentries, fun text path => ?_⟩
  have hmem : path ∈ matchesOf s'.found text ↔ (text, path) ∈ s'.found := by
    simp [matchesOf]
  rw [hmem, hadds, show s.found = [] from hs]
  constructor
  · rintro (hnil | ⟨group, hgroup, seen, hseen, p, hp, htakes, heq⟩)
    · cases hnil
    · obtain ⟨entry, hentry, rfl⟩ := mem_groupsOf.1 hgroup
      obtain ⟨other, hother, hpattern⟩ := (hentries _).1 (mem_groupOf.1 hp)
      obtain ⟨hroot, rfl⟩ := Prod.mk.inj hpattern
      obtain ⟨rfl, rfl⟩ := Prod.mk.inj heq
      rw [hroot] at hseen htakes
      exact ⟨hother, hseen, htakes⟩
  · rintro ⟨htext, hseen, htakes⟩
    have hentry : (scanRoot text, patternOf text) ∈ registered :=
      (hentries _).2 ⟨text, htext, rfl⟩
    exact .inr ⟨_, mem_groupsOf.2 ⟨_, hentry, rfl⟩, path, hseen, patternOf text,
      mem_groupOf.2 hentry, htakes, rfl⟩

end Registered

end GlobScan
end Sandbox
end FutureOs
