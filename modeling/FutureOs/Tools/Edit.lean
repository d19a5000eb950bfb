import FutureOs.Lib.LineEnds
import FutureOs.Lib.Find

/-!
# Edits of a file

A model reads a file by `runRead`, which shows CRLF line ends as LF, and edits it by the text
it has read.  `replaceOnce` looks for the old text as it is, and then with CRLF line ends.
-/

namespace FutureOs
namespace Tools

open LineEnds Find

/-! ## The code -/

/-- `run_read`, for a file of text. -/
def runRead (content : Text) (offset limit : Option Nat) : Text :=
  let start := (offset.getD 1) - 1
  let lines := (Lines.lines content).drop start
  List.intercalate ['\n'] (match limit with
    | some limit => lines.take limit
    | none => lines)

/-- What a model reads of a whole file. -/
def readView (content : Text) : Text :=
  runRead content none none

/-- The place of the old text, and what stands there. -/
def oldPlace (current old : Text) : Option (Nat × Text) :=
  match find old current with
  | some place => some (place, old)
  | none =>
      if hasCrlf current then
        (find (toCrlf (toLf old)) current).map fun place => (place, toCrlf (toLf old))
      else
        none

/-- The new text with the line ends of the file. -/
def insertedText (current new : Text) : Text :=
  if hasCrlf current then toCrlf (toLf new) else new

/-- `replace_once`. -/
def replaceOnce (current old new : Text) : Option Text :=
  (oldPlace current old).map fun (place, matched) =>
    current.take place ++ insertedText current new ++ current.drop (place + matched.length)

structure EditOp where
  oldText : Text
  newText : Text
deriving DecidableEq

/-- `truncate_for_error`. -/
def truncateForError (text : Text) : Text :=
  if 80 < text.length then text.take 80 ++ ['…'] else text

def failureText (index : Nat) (edit : EditOp) : String :=
  s!"edit {index + 1}: could not find \"{String.ofList (truncateForError edit.oldText)}\""

/-- One edit of a list: the text so far and the failures so far. -/
def applyEdit (state : Text × List String) (item : EditOp × Nat) : Text × List String :=
  match replaceOnce state.1 item.1.oldText item.1.newText with
  | some replaced => (replaced, state.2)
  | none => (state.1, state.2 ++ [failureText item.2 item.1])

/-- `run_edit`: what is written to the file, or the error. -/
def editedContent (current : Text) (oldText newText : Option Text)
    (edits : Option (List EditOp)) : Except String Text :=
  match edits, oldText, newText with
  | some edits, _, _ =>
      let (result, failures) := edits.zipIdx.foldl applyEdit (current, [])
      if failures = [] then
        .ok result
      else
        .error (s!"Edit failed: {failures.length} of {edits.length} edit(s) could not be applied.\n" ++
          "\n".intercalate failures)
  | none, some old, some new =>
      match replaceOnce current old new with
      | some replaced => .ok replaced
      | none => .error ("Edit failed: could not find the text to replace in the file. " ++
          "The file may have changed since it was last read. Try reading " ++
          "the file again and re-applying the edit.")
  | none, _, _ =>
      .error ("Edit failed: missing required parameters. Provide either " ++
        "oldText + newText for a simple replacement, or an edits " ++
        "array for structured changes.")

/-- The call: its result, and the file behind it. -/
def runEdit (current : Text) (oldText newText : Option Text) (edits : Option (List EditOp)) :
    Except String Unit × Text :=
  match editedContent current oldText newText edits with
  | .ok content => (.ok (), content)
  | .error message => (.error message, current)

/-! ## The text the model read -/

/-- The file in three parts: before the first place where the old text is shown, what stands
there, and behind it. -/
def shownPlace (current old : Text) : Option (Text × Text × Text) :=
  (find old (readView current)).map fun place =>
    let taken := takeShown place current
    let occurrence := takeShown old.length taken.2
    (taken.1, occurrence.1, occurrence.2)

/-- An edit that acts on the text the model read. -/
structure ActsOnView (current old new : Text) (before occurrence after edited : Text) : Prop where
  shown : shownPlace current old = some (before, occurrence, after)
  /-- What is replaced is what is shown as the first occurrence. -/
  place : oldPlace current old = some (before.length, occurrence)
  result : runEdit current (some old) (some new) none = (.ok (), edited)
  untouched : edited = before ++ insertedText current new ++ after
  view : readView edited = replaceFirst old (toLf new) (readView current)
  returns : ReturnsPaired current → ReturnsPaired edited
  lineEnds : '\n' ∈ current → AllCrlf current → AllCrlf edited

/-- There is no earlier place of the pattern. -/
def NoneBefore (pattern text : Text) (place : Nat) : Prop :=
  ∀ earlier < place, ¬ pattern <+: text.drop earlier

/-- When an edit does. -/
structure Fits (current old new : Text) (before occurrence after : Text) : Prop where
  shown : shownPlace current old = some (before, occurrence, after)
  /-- The file spells the old text byte for byte, first there; or nowhere, and there with CRLF
  line ends. -/
  spelled :
    occurrence = old ∧ NoneBefore old current before.length ∨
      ¬ old <:+: current ∧ occurrence = toCrlf (toLf old) ∧
        NoneBefore occurrence current before.length
  /-- No line end comes to be where the new text starts or ends. -/
  seams : ¬ Seam before (insertedText current new) ∧
    ¬ Seam (before ++ insertedText current new) after
  /-- Nor one at the end of the file. -/
  ending : after = [] → (before ++ insertedText current new).getLast? ≠ some '\n'
  returns : ReturnsPaired current → ReturnsPaired new

section Edits

variable {current old new before occurrence after edited : Text}

theorem readView_eq (content : Text) : readView content = dropFinalLf (toLf content) := by
  rw [← intercalate_lines]
  rfl

theorem oldPlace_eq_some
    (hcurrent : current = before ++ occurrence ++ after) :
    oldPlace current old = some (before.length, occurrence) ↔
      (occurrence = old ∧ NoneBefore old current before.length ∨
        ¬ old <:+: current ∧ occurrence = toCrlf (toLf old) ∧
          NoneBefore occurrence current before.length) := by
  have hdrop : current.drop before.length = occurrence ++ after := by
    rw [hcurrent, List.append_assoc, List.drop_left]
  have hlength : before.length ≤ current.length := by
    simp [hcurrent]
  have hfound : ∀ pattern, occurrence = pattern →
      (find pattern current = some before.length ↔
        NoneBefore pattern current before.length) := by
    rintro _ rfl
    rw [find_eq_some, and_iff_right hlength, hdrop, and_iff_right (List.prefix_append _ _)]
    rfl
  rw [oldPlace]
  cases hfind : find old current with
  | some place =>
      have hinfix : old <:+: current := by
        by_contra hnot
        rw [find_eq_none.mpr hnot] at hfind
        cases hfind
      rw [or_iff_left fun h => h.1 hinfix]
      simp only [Option.some.injEq, Prod.mk.injEq]
      constructor
      · rintro ⟨rfl, rfl⟩
        exact ⟨rfl, (hfound _ rfl).mp hfind⟩
      · rintro ⟨hspelled, hnone⟩
        rw [(hfound old hspelled).mpr hnone] at hfind
        exact ⟨(Option.some.inj hfind).symm, hspelled.symm⟩
  | none =>
      have hinfix := find_eq_none.mp hfind
      have hnot : ¬ (occurrence = old ∧ NoneBefore old current before.length) := by
        rintro ⟨rfl, hnone⟩
        rw [(hfound _ rfl).mpr hnone] at hfind
        cases hfind
      rw [or_iff_right hnot, and_iff_right hinfix]
      constructor
      · intro h
        simp only at h
        split at h
        · obtain ⟨place, hplace, heq⟩ := Option.map_eq_some_iff.mp h
          simp only [Prod.mk.injEq] at heq
          obtain ⟨rfl, rfl⟩ := heq
          exact ⟨rfl, (hfound _ rfl).mp hplace⟩
        · cases h
      · rintro ⟨hspelled, hnone⟩
        -- A text that is spelled in another way has line ends, and there they are CRLF.
        have hlf : '\n' ∈ toLf old := by
          by_contra hlf
          have hplain : '\n' ∉ old := fun hmem => hlf (mem_toLf_newline.mpr hmem)
          rw [toCrlf_of_not_mem hlf, toLf_of_not_mem hplain] at hspelled
          exact hinfix ⟨before, after, by rw [hcurrent, hspelled]⟩
        have hcrlf : hasCrlf current = true := by
          rw [hcurrent, hspelled]
          exact hasCrlf_append_left (hasCrlf_append_right (hasCrlf_toCrlf hlf))
        simp only [hcrlf, if_true]
        rw [← hspelled, (hfound _ rfl).mpr hnone]
        rfl

/-- What the three parts show. -/
structure Parts (current old before occurrence after viewAfter ending : Text) : Prop where
  split : current = before ++ occurrence ++ after
  leftSeam : ¬ Seam before (occurrence ++ after)
  rightSeam : ¬ Seam (before ++ occurrence) after
  first : find old (readView current) = some (toLf before).length
  view : readView current = toLf before ++ old ++ viewAfter
  after : toLf after = viewAfter ++ ending
  /-- What is not shown of the line feed at the end. -/
  ending : ending = if current.getLast? = some '\n' then ['\n'] else []

theorem parts_of_shownPlace
    (hold : old ≠ [])
    (hshown : shownPlace current old = some (before, occurrence, after)) :
    ∃ viewAfter ending, Parts current old before occurrence after viewAfter ending := by
  obtain ⟨place, hfind, heq⟩ := Option.map_eq_some_iff.mp hshown
  simp only [Prod.mk.injEq] at heq
  obtain ⟨hbefore, hoccurrence, hafter⟩ := heq
  have hrest : occurrence ++ after = (takeShown place current).2 := by
    rw [← hoccurrence, ← hafter, takeShown_append]
  have hsplit : current = before ++ (occurrence ++ after) := by
    rw [hrest, ← hbefore, takeShown_append]
  have hview := append_dropFinalLf (toLf current)
  rw [← readView_eq, getLast?_toLf] at hview
  have hle := (find_eq_some.mp hfind).1
  have htake : toLf before = (readView current).take place := by
    rw [← hbefore, toLf_takeShown, hview, List.take_append_of_le_length hle]
  have hdrop : toLf (takeShown place current).2 =
      old ++ ((readView current).drop (place + old.length) ++
        if current.getLast? = some '\n' then ['\n'] else []) := by
    rw [toLf_drop_takeShown]
    conv_lhs => rw [hview]
    rw [List.drop_append_of_le_length hle, drop_of_find hfind, List.append_assoc]
  have hoccurrenceLf : toLf occurrence = old := by
    rw [← hoccurrence, toLf_takeShown, hdrop, List.take_left]
  have hne : occurrence ≠ [] := by
    rintro rfl
    exact hold hoccurrenceLf.symm
  refine ⟨(readView current).drop (place + old.length), _, ?_, ?_, ?_, ?_, ?_, ?_, rfl⟩
  · rw [hsplit, List.append_assoc]
  · rw [hrest, ← hbefore]
    exact not_seam_takeShown place current
  · rintro ⟨hlast, hhead⟩
    rw [List.getLast?_append_of_ne_nil _ hne] at hlast
    have hseam := not_seam_takeShown old.length (takeShown place current).2
    rw [hoccurrence, hafter] at hseam
    exact hseam ⟨hlast, hhead⟩
  · rw [hfind, htake, List.length_take_of_le hle]
  · rw [htake, List.append_assoc, ← drop_of_find hfind, List.take_append_drop]
  · rw [← hafter, toLf_drop_takeShown, hdrop, List.drop_left]

variable {viewAfter ending : Text}

theorem replaceFirst_view
    (hparts : Parts current old before occurrence after viewAfter ending) :
    replaceFirst old (toLf new) (readView current) = toLf before ++ (toLf new ++ viewAfter) := by
  rw [replaceFirst, hparts.first]
  have hdrop : (toLf before ++ old ++ viewAfter).drop ((toLf before).length + old.length) =
      viewAfter := by
    rw [← List.length_append, List.drop_left]
  simp only [hparts.view, hdrop]
  rw [List.append_assoc, List.take_left]

theorem toLf_insertedText (current new : Text) : toLf (insertedText current new) = toLf new := by
  rw [insertedText]
  split
  · exact toLf_toCrlf (toLf new)
  · rfl

/-- The edited file shows the replacement unless a line end comes to be at a seam or at the
end of the file. -/
theorem view_iff
    (hparts : Parts current old before occurrence after viewAfter ending) :
    readView (before ++ insertedText current new ++ after) =
        replaceFirst old (toLf new) (readView current) ↔
      (¬ Seam before (insertedText current new) ∧
        ¬ Seam (before ++ insertedText current new) after) ∧
      (after = [] → (before ++ insertedText current new).getLast? ≠ some '\n') := by
  have hnew := toLf_insertedText current new
  have hending := hparts.ending
  rw [replaceFirst_view hparts, readView_eq]
  set inserted := insertedText current new with hinserted
  have hlast : (toLf (before ++ inserted ++ after)).getLast? =
      (before ++ inserted ++ after).getLast? := getLast?_toLf _
  -- The old file and the new one end alike where something is left behind the edit.
  have hsame : after ≠ [] →
      (before ++ inserted ++ after).getLast? = current.getLast? := by
    intro hne
    rw [hparts.split, List.getLast?_append_of_ne_nil _ hne, List.getLast?_append_of_ne_nil _ hne]
  have hnothing : after = [] → viewAfter = [] ∧ ending = [] := by
    rintro rfl
    have := hparts.after
    exact List.append_eq_nil_iff.mp this.symm
  constructor
  · intro hview
    have hfirst := length_toLf_append (a := before) (b := inserted)
    have hsecond := length_toLf_append (a := before ++ inserted) (b := after)
    have hwhole := congrArg List.length (append_dropFinalLf (toLf (before ++ inserted ++ after)))
    have hafter := congrArg List.length hparts.after
    rw [hview, hlast] at hwhole
    rw [hnew] at hfirst
    simp only [List.length_append] at hwhole hafter
    by_cases hne : after = []
    · obtain ⟨hva, he⟩ := hnothing hne
      have hend : (before ++ inserted ++ after).getLast? ≠ some '\n' := by
        intro hend
        rw [if_pos hend] at hwhole
        rw [hva, he] at hafter
        rw [hva] at hwhole
        simp only [List.length_nil, List.length_singleton] at hwhole hafter
        omega
      rw [if_neg hend] at hwhole
      rw [hva, he] at hafter
      rw [hva] at hwhole
      simp only [List.length_nil] at hwhole hafter
      refine ⟨⟨fun hseam => ?_, fun hseam => ?_⟩, fun _ => ?_⟩
      · rw [if_pos hseam] at hfirst
        omega
      · rw [if_pos hseam] at hsecond
        omega
      · rw [hne, List.append_nil] at hend
        exact hend
    · rw [hsame hne, ← hending] at hwhole
      refine ⟨⟨fun hseam => ?_, fun hseam => ?_⟩, fun h => absurd h hne⟩
      · rw [if_pos hseam] at hfirst
        omega
      · rw [if_pos hseam] at hsecond
        omega
  · rintro ⟨⟨hleft, hright⟩, hend⟩
    have htext : toLf (before ++ inserted ++ after) =
        toLf before ++ (toLf new ++ viewAfter) ++ ending := by
      rw [toLf_append hright, toLf_append hleft, hnew, hparts.after]
      simp only [List.append_assoc]
    by_cases hfinal : (before ++ inserted ++ after).getLast? = some '\n'
    · have hne : after ≠ [] := by
        intro hnil
        rw [hnil, List.append_nil] at hfinal
        exact hend hnil hfinal
      rw [hsame hne] at hfinal
      rw [if_pos hfinal] at hending
      rw [htext, hending, dropFinalLf_concat]
    · rw [dropFinalLf_of_ne (by rwa [hlast]), htext]
      by_cases hne : after = []
      · rw [(hnothing hne).2, List.append_nil]
      · rw [hsame hne] at hfinal
        rw [hending, if_neg hfinal, List.append_nil]

theorem returns_iff
    (hparts : Parts current old before occurrence after viewAfter ending)
    (hleft : ¬ Seam before (insertedText current new))
    (hright : ¬ Seam (before ++ insertedText current new) after) :
    (ReturnsPaired current → ReturnsPaired (before ++ insertedText current new ++ after)) ↔
      (ReturnsPaired current → ReturnsPaired new) := by
  have hedited : toLf (before ++ insertedText current new ++ after) =
      toLf before ++ toLf new ++ toLf after := by
    rw [toLf_append hright, toLf_append hleft, toLf_insertedText]
  refine imp_congr_right fun hcurrent => ?_
  rw [returnsPaired_iff, returnsPaired_iff, hedited]
  have hbefore : '\r' ∉ toLf before := by
    have hsplit := toLf_append hparts.leftSeam
    rw [← List.append_assoc, ← hparts.split] at hsplit
    rw [returnsPaired_iff, hsplit, List.mem_append, not_or] at hcurrent
    exact hcurrent.1
  have hafter : '\r' ∉ toLf after := by
    have hsplit := toLf_append hparts.rightSeam
    rw [← hparts.split] at hsplit
    rw [returnsPaired_iff, hsplit, List.mem_append, not_or] at hcurrent
    exact hcurrent.2
  simp only [List.mem_append, hbefore, hafter, false_or, or_false]

theorem lineEnds_edited
    (hparts : Parts current old before occurrence after viewAfter ending)
    (hmem : '\n' ∈ current)
    (hall : AllCrlf current) :
    AllCrlf (before ++ insertedText current new ++ after) := by
  have hcrlf : hasCrlf current = true := by
    by_contra h
    exact allCrlf_of_hasCrlf_eq_false hall (Bool.eq_false_iff.mpr h) hmem
  rw [insertedText, if_pos hcrlf]
  rw [hparts.split] at hall
  exact allCrlf_append (allCrlf_append hall.left.left (allCrlf_toCrlf _))
    (hall.right hparts.rightSeam)

/-- An edit acts on the text the model read if and only if it `Fits`. -/
theorem acts_iff_fits
    (hold : old ≠ []) :
    (∃ before occurrence after edited,
        ActsOnView current old new before occurrence after edited) ↔
      ∃ before occurrence after, Fits current old new before occurrence after := by
  constructor
  · rintro ⟨before, occurrence, after, edited, h⟩
    obtain ⟨viewAfter, ending, hparts⟩ := parts_of_shownPlace hold h.shown
    have hview := h.view
    have hreturns := h.returns
    rw [h.untouched] at hview hreturns
    obtain ⟨hseams, hending⟩ := (view_iff hparts).mp hview
    exact ⟨before, occurrence, after, h.shown, (oldPlace_eq_some hparts.split).mp h.place,
      hseams, hending, (returns_iff hparts hseams.1 hseams.2).mp hreturns⟩
  · rintro ⟨before, occurrence, after, h⟩
    obtain ⟨viewAfter, ending, hparts⟩ := parts_of_shownPlace hold h.shown
    have hplace := (oldPlace_eq_some hparts.split).mpr h.spelled
    refine ⟨before, occurrence, after, before ++ insertedText current new ++ after, h.shown,
      hplace, ?_, rfl, (view_iff hparts).mpr ⟨h.seams, h.ending⟩,
      (returns_iff hparts h.seams.1 h.seams.2).mpr h.returns, lineEnds_edited hparts⟩
    have hreplaced : replaceOnce current old new =
        some (before ++ insertedText current new ++ after) := by
      have htake : current.take before.length = before := by
        rw [hparts.split, List.append_assoc, List.take_left]
      have hdrop : current.drop (before.length + occurrence.length) = after := by
        conv_lhs => rw [hparts.split]
        rw [← List.length_append, List.drop_left]
      simp only [replaceOnce, hplace, Option.map_some, htake, hdrop]
    simp only [runEdit, editedContent, hreplaced]

end Edits

/-! ## Lists of edits -/

/-- The edits one after another, as long as each finds its text. -/
def applyAll (current : Text) (edits : List EditOp) : Option Text :=
  edits.foldlM (fun content edit => replaceOnce content edit.oldText edit.newText) current

theorem failures_grow
    (items : List (EditOp × Nat))
    (content : Text)
    {failures : List String}
    (h : failures ≠ []) :
    (items.foldl applyEdit (content, failures)).2 ≠ [] := by
  induction items generalizing content failures with
  | nil =>
      exact h
  | cons item items ih =>
      rw [List.foldl_cons, applyEdit]
      split
      · exact ih _ h
      · exact ih _ (by simp)

theorem foldl_applyEdit
    (edits : List EditOp)
    (content : Text)
    (start : Nat) :
    match applyAll content edits with
    | some result => (edits.zipIdx start).foldl applyEdit (content, []) = (result, [])
    | none => ((edits.zipIdx start).foldl applyEdit (content, [])).2 ≠ [] := by
  induction edits generalizing content start with
  | nil =>
      rfl
  | cons edit edits ih =>
      rw [applyAll, List.foldlM_cons, List.zipIdx_cons, List.foldl_cons, applyEdit]
      cases hreplaced : replaceOnce content edit.oldText edit.newText with
      | some replaced =>
          exact ih replaced (start + 1)
      | none =>
          exact failures_grow _ _ (by simp)

/-- A single edit acts on the text the model read if and only if it `Fits`; a list of edits is
its edits one after another, or leaves the file as it is. -/
theorem edit_acts_on_view
    (current old new : Text)
    (hold : old ≠ [])
    (hshown : old <:+: readView current) :
    ((∃ before occurrence after edited,
          ActsOnView current old new before occurrence after edited) ↔
        ∃ before occurrence after, Fits current old new before occurrence after) ∧
      (shownPlace current old).isSome = true ∧
      ∀ oldText newText edits,
        match applyAll current edits with
        | some result => runEdit current oldText newText (some edits) = (.ok (), result)
        | none => ∃ message,
            runEdit current oldText newText (some edits) = (.error message, current) := by
  refine ⟨acts_iff_fits hold, ?_, fun oldText newText edits => ?_⟩
  · obtain ⟨place, hplace⟩ := find_isSome hshown
    simp [shownPlace, hplace]
  · have hfold := foldl_applyEdit edits current 0
    cases happly : applyAll current edits with
    | some result =>
        rw [happly] at hfold
        simp only [runEdit, editedContent, hfold, if_true]
    | none =>
        rw [happly] at hfold
        simp only [runEdit, editedContent, if_neg hfold]
        exact ⟨_, rfl⟩

/-- A line is replaced in a file with CRLF line ends. -/
theorem edit_acts_on_view_line :
    ((∃ before occurrence after edited,
          ActsOnView "a\r\nb\r\n".toList "a\nb".toList "c".toList before occurrence after edited) ↔
        ∃ before occurrence after,
          Fits "a\r\nb\r\n".toList "a\nb".toList "c".toList before occurrence after) ∧
      (shownPlace "a\r\nb\r\n".toList "a\nb".toList).isSome = true ∧
      ∀ oldText newText edits,
        match applyAll "a\r\nb\r\n".toList edits with
        | some result =>
            runEdit "a\r\nb\r\n".toList oldText newText (some edits) = (.ok (), result)
        | none => ∃ message,
            runEdit "a\r\nb\r\n".toList oldText newText (some edits) =
              (.error message, "a\r\nb\r\n".toList) :=
  edit_acts_on_view _ _ _ (by decide) (by decide)

/-- Text that starts with a line end is matched behind the carriage return, which is left
alone. -/
theorem leading_line_end_torn :
    "\nb".toList ≠ [] ∧ "\nb".toList <:+: readView "a\r\nb".toList ∧
      runEdit "a\r\nb".toList (some "\nb".toList) (some "x".toList) none =
        (.ok (), "a\rx".toList) ∧
      readView "a\rx".toList ≠
        replaceFirst "\nb".toList "x".toList (readView "a\r\nb".toList) ∧
      ReturnsPaired "a\r\nb".toList ∧ ¬ ReturnsPaired "a\rx".toList ∧
      ¬ ∃ before occurrence after edited,
        ActsOnView "a\r\nb".toList "\nb".toList "x".toList before occurrence after edited := by
  refine ⟨by decide, by decide, by decide, by decide, ?_, ?_, ?_⟩
  · rw [returnsPaired_iff]
    decide
  · rw [returnsPaired_iff]
    decide
  · rintro ⟨before, occurrence, after, edited, h⟩
    have hshown : shownPlace "a\r\nb".toList "\nb".toList =
        some ("a".toList, "\r\nb".toList, []) := by
      decide
    have hplace : oldPlace "a\r\nb".toList "\nb".toList = some (2, "\nb".toList) := by
      decide
    have hparts := h.shown.symm.trans hshown
    simp only [Option.some.injEq, Prod.mk.injEq] at hparts
    obtain ⟨rfl, rfl, rfl⟩ := hparts
    have hfound := h.place.symm.trans hplace
    revert hfound
    decide

end Tools
end FutureOs
