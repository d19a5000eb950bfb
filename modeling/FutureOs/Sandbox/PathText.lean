import FutureOs.Lib.GlobSegments
import FutureOs.Sandbox.Rules

/-!
# Texts of paths

A path that comes from a text is read back from its own text (`parse_text`), so the text says
which path it is.  What splits the text at slashes are its components, with an empty segment
in front of an absolute path.
-/

namespace FutureOs
namespace Sandbox
namespace PathBuf

/-- A component other than the root. -/
def IsName (name : String) : Prop :=
  name ≠ "" ∧ name ≠ "." ∧ '/' ∉ name.toList

/-- The components of some text. -/
def IsPath (path : PathBuf) : Prop :=
  ∃ text, parse text = path

/-! ## Texts and their segments -/

theorem text_absolute (names : List String) :
    PathBuf.text (rootComponent :: names) =
      '/' :: ['/'].intercalate (names.map String.toList) := by
  rw [PathBuf.text, if_pos rfl]

/-- The segments of the text of an absolute path. -/
def segments (names : List String) : List (List Char) :=
  if names = [] then [[], []] else [] :: names.map String.toList

theorem text_eq_segments (names : List String) :
    PathBuf.text (rootComponent :: names) = ['/'].intercalate (segments names) := by
  rw [text_absolute, segments]
  split
  case isTrue h =>
    subst h
    rfl
  case isFalse h =>
    rw [List.intercalate_cons_of_ne_nil (by simpa using h)]
    rfl

theorem segments_ne_nil (names : List String) : segments names ≠ [] := by
  unfold segments
  split <;> exact List.cons_ne_nil _ _

theorem notMem_segments
    {names : List String}
    (hnames : ∀ name ∈ names, '/' ∉ name.toList)
    {segment : List Char}
    (h : segment ∈ segments names) :
    '/' ∉ segment := by
  unfold segments at h
  split at h
  · simp only [List.mem_cons, List.not_mem_nil, or_false, or_self] at h
    simp [h]
  · rcases List.mem_cons.1 h with rfl | h
    · simp
    · obtain ⟨name, hname, rfl⟩ := List.mem_map.1 h
      exact hnames name hname

theorem text_relative
    {parts : List String}
    (h : ∀ part ∈ parts, '/' ∉ part.toList) :
    PathBuf.text parts = ['/'].intercalate (parts.map String.toList) := by
  cases parts with
  | nil =>
      rfl
  | cons part parts =>
      have hne : part ≠ rootComponent := by
        rintro rfl
        exact h _ List.mem_cons_self List.mem_cons_self
      rw [PathBuf.text, if_neg hne]

/-! ## Reading a text -/

/-- The components among segments. -/
def partsOfSegments (segments : List (List Char)) : List String :=
  (segments.map String.ofList).filter fun part => part ≠ "" ∧ part ≠ "."

theorem parse_absolute
    {text : String}
    {rest : List Char}
    (h : text.toList = '/' :: rest) :
    PathBuf.parse text = rootComponent :: partsOfSegments (text.toList.splitOn '/') := by
  have hstart : Text.startsWith "/" text = true := by
    unfold Text.startsWith
    rw [h]
    rfl
  unfold PathBuf.parse
  rw [if_pos hstart]
  rfl

theorem parse_relative
    {text : String}
    (h : ∀ rest, text.toList ≠ '/' :: rest) :
    PathBuf.parse text = partsOfSegments (text.toList.splitOn '/') := by
  have hstart : ¬ Text.startsWith "/" text = true := by
    intro hstart
    obtain ⟨rest, hrest⟩ := List.isPrefixOf_iff_prefix.1 hstart
    exact h rest hrest.symm
  unfold PathBuf.parse
  rw [if_neg hstart]
  rfl

theorem isName_of_mem
    {text : List Char}
    {name : String}
    (h : name ∈ partsOfSegments (text.splitOn '/')) :
    IsName name := by
  obtain ⟨hmem, hname⟩ := List.mem_filter.1 h
  obtain ⟨segment, hsegment, rfl⟩ := List.mem_map.1 hmem
  obtain ⟨hempty, hdot⟩ := of_decide_eq_true hname
  refine ⟨hempty, hdot, ?_⟩
  rw [String.toList_ofList]
  exact Glob.notMem_of_mem_splitOn hsegment

/-- A path has the root in front, or is relative. -/
theorem IsPath.cases
    {path : PathBuf}
    (h : path.IsPath) :
    ∃ names, (∀ name ∈ names, IsName name) ∧
      (path = rootComponent :: names ∨ path = names) := by
  obtain ⟨text, rfl⟩ := h
  refine ⟨partsOfSegments (text.toList.splitOn '/'), fun name => isName_of_mem, ?_⟩
  by_cases habsolute : ∃ rest, text.toList = '/' :: rest
  · obtain ⟨rest, hrest⟩ := habsolute
    exact .inl (parse_absolute hrest)
  · exact .inr (parse_relative fun rest hrest => habsolute ⟨rest, hrest⟩)

theorem partsOfSegments_names
    {names : List String}
    (h : ∀ name ∈ names, IsName name) :
    partsOfSegments (names.map String.toList) = names := by
  have hmap : (names.map String.toList).map String.ofList = names := by
    rw [List.map_map]
    exact List.map_id'' (fun name => String.ofList_toList) names
  rw [partsOfSegments, hmap, List.filter_eq_self]
  intro name hname
  exact decide_eq_true ⟨(h name hname).1, (h name hname).2.1⟩

theorem partsOfSegments_segments
    {names : List String}
    (h : ∀ name ∈ names, IsName name) :
    partsOfSegments (segments names) = names := by
  unfold segments
  split
  case isTrue hnil =>
    subst hnil
    rfl
  case isFalse =>
    exact partsOfSegments_names h

/-- A path is read back from its text. -/
theorem parse_text
    {path : PathBuf}
    (h : path.IsPath) :
    PathBuf.parse (String.ofList path.text) = path := by
  obtain ⟨names, hnames, hpath⟩ := h.cases
  have hslash : ∀ name ∈ names, '/' ∉ name.toList := fun name hname => (hnames name hname).2.2
  rcases hpath with rfl | rfl
  · rw [parse_absolute (String.toList_ofList.trans (text_absolute names)),
      String.toList_ofList, text_eq_segments,
      List.splitOn_intercalate _ (fun _ => notMem_segments hslash) (segments_ne_nil names),
      partsOfSegments_segments hnames]
  · cases path with
    | nil => rfl
    | cons name names =>
        have htext := text_relative hslash
        rw [parse_relative, String.toList_ofList, htext,
          List.splitOn_intercalate _ (List.forall_mem_map.2 hslash) (by simp),
          partsOfSegments_names hnames]
        intro rest hrest
        rw [String.toList_ofList, htext] at hrest
        cases hname : name.toList with
        | nil => exact (hnames name List.mem_cons_self).1 (String.toList_eq_nil_iff.1 hname)
        | cons c more =>
            have hc : '/' ≠ c := by
              rintro rfl
              refine hslash name List.mem_cons_self ?_
              rw [hname]
              exact List.mem_cons_self
            rw [List.map_cons, hname] at hrest
            cases names with
            | nil => exact hc (List.cons.inj hrest).1.symm
            | cons next names =>
                rw [List.map_cons, List.intercalate_cons_of_ne_nil (List.cons_ne_nil _ _)]
                  at hrest
                exact hc (List.cons.inj hrest).1.symm

theorem text_injective
    {path other : PathBuf}
    (hpath : path.IsPath)
    (hother : other.IsPath)
    (h : path.text = other.text) :
    path = other := by
  rw [← parse_text hpath, h, parse_text hother]

end PathBuf
end Sandbox
end FutureOs
