import FutureOs.Sandbox.GlobScan
import FutureOs.Sandbox.PathText

/-!
# How a pattern lies along a path it matches

The parts of a pattern are its segments without the empty ones and the dots.  No component
of a path is empty or a dot, so where a pattern matches, nothing of its finite part was
dropped: part by part it matches the components (`aligned_of_isMatch`).  One pattern is an
exception: `/*` matches the root, which has no component.
-/

namespace FutureOs
namespace Sandbox
namespace GlobScan

open PathBuf (segments segments_ne_nil notMem_segments text_eq_segments partsOfSegments
  parse_absolute)

/-- The name of a directory entry. -/
def ValidName (name : String) : Prop :=
  name ≠ "" ∧ name ≠ "." ∧ name ≠ ".." ∧ '/' ∉ name.toList

instance (name : String) : Decidable (ValidName name) :=
  inferInstanceAs (Decidable (_ ∧ _))

/-- The pattern matches a text part by part as far as it is finite. -/
structure Aligned (text : String) (names front others : List String) : Prop where
  parse : PathBuf.parse text = rootComponent :: (front ++ others)
  finite : ∀ part ∈ front, '/' ∉ part.toList ∧ Glob.hasDouble part.toList = false
  length : front.length ≤ names.length
  matched : List.Forall₂
    (fun part name => Glob.isMatch part.toList name.toList = true) front
    (names.take front.length)
  rest : others = [] ∧ front.length = names.length ∨
    ∃ first more, others = first :: more ∧ Glob.hasDouble first.toList = true

/-! ## Parts of patterns -/

theorem partsOfSegments_append (front back : List (List Char)) :
    partsOfSegments (front ++ back) = partsOfSegments front ++ partsOfSegments back := by
  simp [partsOfSegments]

/-- What matches the name of an entry is not empty and no dot. -/
theorem isPart_of_isMatch
    {segment : List Char}
    {name : String}
    (hname : ValidName name)
    (h : Glob.isMatch segment name.toList = true) :
    String.ofList segment ≠ "" ∧ String.ofList segment ≠ "." := by
  constructor
  · intro hempty
    have hsegment : segment = [] := by simpa using congrArg String.toList hempty
    subst hsegment
    have hnil := List.isEmpty_iff.1 h
    exact hname.1 (String.toList_eq_nil_iff.1 hnil)
  · intro hdot
    have hsegment : segment = ['.'] := by simpa using congrArg String.toList hdot
    subst hsegment
    obtain ⟨c, back, htext, hc, hback⟩ := (Glob.oneThen_iff _ _ _).1 h
    rw [List.isEmpty_iff.1 hback, show c = '.' by simpa using hc] at htext
    exact hname.2.1 (String.toList_injective htext.symm)

theorem partsOfSegments_cons
    {segment : List Char}
    (h : String.ofList segment ≠ "" ∧ String.ofList segment ≠ ".")
    (segments : List (List Char)) :
    partsOfSegments (segment :: segments) =
      String.ofList segment :: partsOfSegments segments :=
  List.filter_cons_of_pos (by simpa using h)

/-- Segments that match the names of entries are all parts. -/
theorem partsOfSegments_of_forall₂
    {segments : List (List Char)}
    {names : List String}
    (hnames : ∀ name ∈ names, ValidName name)
    (h : List.Forall₂ (fun segment (name : String) =>
      Glob.isMatch segment name.toList = true) segments names) :
    partsOfSegments segments = segments.map String.ofList := by
  induction h with
  | nil =>
      rfl
  | cons hmatch hforall ih =>
      obtain ⟨hname, hnames⟩ := List.forall_mem_cons.1 hnames
      rw [partsOfSegments_cons (isPart_of_isMatch hname hmatch), ih hnames]
      rfl

/-- A segment with `**` is a part. -/
theorem isPart_of_hasDouble
    {segment : List Char}
    (h : Glob.hasDouble segment = true) :
    String.ofList segment ≠ "" ∧ String.ofList segment ≠ "." := by
  constructor
  · intro hempty
    have hsegment : segment = [] := by simpa using congrArg String.toList hempty
    subst hsegment
    cases h
  · intro hdot
    have hsegment : segment = ['.'] := by simpa using congrArg String.toList hdot
    subst hsegment
    cases h

/-- Without `**`, only nothing and one star match the empty name. -/
theorem segment_of_isMatch_nil
    {segment : List Char}
    (hdouble : Glob.hasDouble segment = false)
    (h : Glob.isMatch segment [] = true) :
    segment = [] ∨ segment = ['*'] := by
  rw [Glob.isMatch_eq] at h
  have hother : ∀ c rest, c ≠ '*' → Glob.globMatches (c :: rest) [] = false := by
    intro c rest hc
    unfold Glob.globMatches
    split <;> simp_all [Glob.oneThen]
  cases segment with
  | nil => exact .inl rfl
  | cons c rest =>
      by_cases hc : c = '*'
      · subst hc
        cases rest with
        | nil => exact .inr rfl
        | cons d rest =>
            have hd : d ≠ '*' := by
              rintro rfl
              cases hdouble
            rw [Glob.globMatches] at h
            · exact absurd ((hother d rest hd).symm.trans h) Bool.false_ne_true
            · exact fun more heq => hd (List.cons.inj heq).1
            · exact fun more heq => hd (List.cons.inj heq).1
      · exact absurd ((hother c rest hc).symm.trans h) Bool.false_ne_true

section Alignment

variable {text : String}
variable {rest : List Char}
variable {names : List String}

theorem splitOn_absolute (h : text.toList = '/' :: rest) :
    text.toList.splitOn '/' = [] :: rest.splitOn '/' := by
  rw [h]
  exact List.splitOn_append_cons_self_of_not_mem (List.not_mem_nil) rest

/-- Segments that match the names in front are the front of an alignment. -/
theorem aligned_of_segments
    {segments : List (List Char)}
    {others : List String}
    (hparse : PathBuf.parse text =
      rootComponent :: (segments.map String.ofList ++ others))
    (hsegments : ∀ segment ∈ segments, '/' ∉ segment ∧ Glob.hasDouble segment = false)
    (hlength : segments.length ≤ names.length)
    (hforall : List.Forall₂ (fun segment (name : String) =>
      Glob.isMatch segment name.toList = true) segments (names.take segments.length))
    (hothers : others = [] ∧ segments.length = names.length ∨
      ∃ first more, others = first :: more ∧ Glob.hasDouble first.toList = true) :
    Aligned text names (segments.map String.ofList) others where
  parse := hparse
  finite part hpart := by
    obtain ⟨segment, hsegment, rfl⟩ := List.mem_map.1 hpart
    rw [String.toList_ofList]
    exact hsegments segment hsegment
  length := by
    rw [List.length_map]
    exact hlength
  matched := by
    rw [List.length_map, List.forall₂_map_left_iff]
    simpa only [String.toList_ofList] using hforall
  rest := by
    rw [List.length_map]
    exact hothers

/-- A pattern without `**` lies along a path with as many components. -/
theorem aligned_finite
    (habsolute : text.toList = '/' :: rest)
    (hnames : ∀ name ∈ names, ValidName name)
    (hfinite : ∀ segment ∈ rest.splitOn '/', Glob.hasDouble segment = false)
    (hmatch : Glob.isMatch text.toList (PathBuf.text (rootComponent :: names)) = true)
    (hshallow : text = "/*" → names ≠ []) :
    ∃ front others, Aligned text names front others := by
  have hsplit := splitOn_absolute habsolute
  have hparse : PathBuf.parse text =
      rootComponent :: partsOfSegments (rest.splitOn '/') := by
    rw [parse_absolute habsolute, hsplit]
    rfl
  have hsegments : ∀ segment ∈ rest.splitOn '/',
      '/' ∉ segment ∧ Glob.hasDouble segment = false := fun segment hsegment =>
    ⟨Glob.notMem_of_mem_splitOn hsegment, hfinite segment hsegment⟩
  have hforall : List.Forall₂ (fun segment name => Glob.isMatch segment name = true)
      ([] :: rest.splitOn '/') (segments names) := by
    refine Glob.forall₂_of_isMatch ?_ (List.cons_ne_nil _ _)
      (fun _ => notMem_segments fun name hname => (hnames name hname).2.2.2) (segments_ne_nil names) ?_
    · exact List.forall_mem_cons.2 ⟨⟨by simp, rfl⟩, hsegments⟩
    · rw [← hsplit, List.intercalate_splitOn, ← text_eq_segments]
      exact hmatch
  by_cases hroot : names = []
  · subst hroot
    obtain ⟨-, hlast⟩ := List.forall₂_cons.1 hforall
    obtain ⟨segment, hsegment, hnil⟩ : ∃ segment, rest.splitOn '/' = [segment] ∧
        Glob.isMatch segment [] = true := by
      cases hlist : rest.splitOn '/' with
      | nil => exact absurd hlist (List.splitOn_ne_nil _ _)
      | cons segment more =>
          rw [hlist] at hlast
          obtain ⟨hmatched, hmore⟩ := List.forall₂_cons.1 hlast
          exact ⟨segment, by rw [List.forall₂_nil_right_iff.1 hmore], hmatched⟩
    rw [hsegment] at hparse hfinite
    rcases segment_of_isMatch_nil (hfinite segment List.mem_cons_self) hnil with rfl | rfl
    · exact ⟨[], [], @aligned_of_segments _ [] [] [] hparse (by simp) (by simp) .nil
        (.inl ⟨rfl, rfl⟩)⟩
    · have hrest : ['/'].intercalate (rest.splitOn '/') = rest :=
        List.intercalate_splitOn _
      rw [hsegment, List.intercalate_singleton] at hrest
      rw [← hrest] at habsolute
      exact absurd rfl (hshallow (String.toList_injective habsolute))
  · rw [segments, if_neg hroot, List.forall₂_cons, List.forall₂_map_right_iff] at hforall
    have hlength := hforall.2.length_eq
    have hparts := partsOfSegments_of_forall₂ hnames hforall.2
    refine ⟨_, [], aligned_of_segments ?_ hsegments hlength.le ?_ (.inl ⟨rfl, hlength⟩)⟩
    · rw [List.append_nil, hparse, hparts]
    · rw [hlength, List.take_length]
      exact hforall.2

/-- A pattern that matches a path lies along it. -/
theorem aligned_of_isMatch
    (habsolute : text.toList = '/' :: rest)
    (hnames : ∀ name ∈ names, ValidName name)
    (hmatch : Glob.isMatch text.toList (PathBuf.text (rootComponent :: names)) = true)
    (hshallow : text = "/*" → names ≠ []) :
    ∃ front others, Aligned text names front others := by
  by_cases hfinite : ∀ segment ∈ rest.splitOn '/', Glob.hasDouble segment = false
  · exact aligned_finite habsolute hnames hfinite hmatch hshallow
  have hsplit := splitOn_absolute habsolute
  have hdivide : Glob.finitePart (rest.splitOn '/') ++
      (rest.splitOn '/').dropWhile (fun segment => !Glob.hasDouble segment) =
        rest.splitOn '/' :=
    List.takeWhile_append_dropWhile
  have hfront : ∀ segment ∈ Glob.finitePart (rest.splitOn '/'),
      '/' ∉ segment ∧ Glob.hasDouble segment = false := by
    intro segment hsegment
    have hmem : segment ∈ rest.splitOn '/' := (List.takeWhile_prefix _).subset hsegment
    exact ⟨Glob.notMem_of_mem_splitOn hmem, Glob.hasDouble_of_mem_finitePart hsegment⟩
  generalize hdouble : (rest.splitOn '/').dropWhile
    (fun segment => !Glob.hasDouble segment) = back at hdivide
  cases back with
  | nil =>
      rw [List.append_nil] at hdivide
      exact absurd (fun segment hsegment => (hfront segment (by rwa [hdivide])).2) hfinite
  | cons double back =>
      have hhead : Glob.hasDouble double = true := by
        have hnonempty : (rest.splitOn '/').dropWhile
            (fun segment => !Glob.hasDouble segment) ≠ [] := by
          rw [hdouble]
          exact List.cons_ne_nil _ _
        have hnot := List.head_dropWhile_not (fun segment => !Glob.hasDouble segment) hnonempty
        simpa [hdouble] using hnot
      generalize Glob.finitePart (rest.splitOn '/') = front at hdivide hfront
      have hforall := @Glob.forall₂_front_of_isMatch ([] :: front) (double :: back)
        (segments names) (List.forall_mem_cons.2 ⟨⟨by simp, rfl⟩, hfront⟩)
        (List.cons_ne_nil _ _) (fun _ => notMem_segments fun name hname => (hnames name hname).2.2.2)
        (segments_ne_nil names) (by
          rw [List.cons_append, hdivide, ← hsplit, List.intercalate_splitOn,
            ← text_eq_segments]
          exact hmatch)
      have hparse : PathBuf.parse text = rootComponent ::
          (partsOfSegments front ++ String.ofList double :: partsOfSegments back) := by
        rw [parse_absolute habsolute, hsplit, ← hdivide,
          ← partsOfSegments_cons (isPart_of_hasDouble hhead), ← partsOfSegments_append]
        rfl
      have hothers : ∃ first more, String.ofList double :: partsOfSegments back =
          first :: more ∧ Glob.hasDouble first.toList = true :=
        ⟨_, _, rfl, by rwa [String.toList_ofList]⟩
      by_cases hroot : names = []
      · subst hroot
        have hnil : front = [] := by
          have hlength := hforall.1
          simp only [segments, if_true, List.length_cons, List.length_nil] at hlength
          exact List.length_eq_zero_iff.1 (by omega)
        subst hnil
        exact ⟨[], _, @aligned_of_segments _ [] [] _ hparse (by simp) (by simp) .nil
          (.inr hothers)⟩
      · rw [segments, if_neg hroot, List.length_cons, List.length_cons, List.length_map,
          List.take_succ_cons, List.forall₂_cons, ← List.map_take,
          List.forall₂_map_right_iff] at hforall
        obtain ⟨hlength, -, hforall⟩ := hforall
        have hparts := partsOfSegments_of_forall₂
          (fun name hname => hnames name (List.mem_of_mem_take hname)) hforall
        rw [hparts] at hparse
        exact ⟨_, _, aligned_of_segments hparse hfront (by omega) hforall (.inr hothers)⟩

end Alignment

end GlobScan
end Sandbox
end FutureOs
