import FutureOs.Lib.Lines

/-!
# Line ends

`toLf` shows a text with LF line ends and `toCrlf` gives a text without CRLF line ends such
ones.  Texts that are put together are shown one behind the other, unless the one ends with a
carriage return and the next starts with a line feed (`Seam`): then the two make a line end.
-/

namespace FutureOs
namespace LineEnds

/-- A carriage return that is part of a line end. -/
def isReturn (c : Char) (rest : Text) : Bool :=
  c = '\r' && rest.head? = some '\n'

/-- `replace("\r\n", "\n")`: the carriage returns of line ends are left out. -/
def toLf : Text → Text
  | [] => []
  | c :: rest => if isReturn c rest then toLf rest else c :: toLf rest

/-- `replace('\n', "\r\n")`. -/
def toCrlf : Text → Text
  | [] => []
  | c :: rest => if c = '\n' then '\r' :: '\n' :: toCrlf rest else c :: toCrlf rest

/-- `contains("\r\n")`. -/
def hasCrlf : Text → Bool
  | [] => false
  | c :: rest => isReturn c rest || hasCrlf rest

/-- The last character of a text and the first of the next make a line end. -/
def Seam (a b : Text) : Prop :=
  a.getLast? = some '\r' ∧ b.head? = some '\n'

instance (a b : Text) : Decidable (Seam a b) :=
  inferInstanceAs (Decidable (a.getLast? = some '\r' ∧ b.head? = some '\n'))

/-- Every carriage return stands directly before a line feed. -/
def ReturnsPaired (t : Text) : Prop :=
  ∀ before after, t = before ++ '\r' :: after → after.head? = some '\n'

/-- Every line feed stands directly behind a carriage return. -/
def AllCrlf (t : Text) : Prop :=
  ∀ before after, t = before ++ '\n' :: after → before.getLast? = some '\r'

/-- The part of a text that is shown as its first characters, and the rest. -/
def takeShown : Nat → Text → Text × Text
  | 0, t => ([], t)
  | _ + 1, [] => ([], [])
  | n + 1, c :: rest =>
      let taken := takeShown (if isReturn c rest then n + 1 else n) rest
      (c :: taken.1, taken.2)

variable {a b t : Text}

/-! ## Texts put together -/

theorem not_seam_nil_left : ¬ Seam [] b := by
  simp [Seam]

theorem not_seam_nil_right : ¬ Seam a [] := by
  simp [Seam]

theorem seam_cons
    {c : Char}
    (hne : a ≠ []) :
    Seam (c :: a) b ↔ Seam a b := by
  rw [Seam, Seam, List.getLast?_cons_of_ne_nil hne]

theorem seam_singleton
    {c : Char} :
    Seam [c] b ↔ isReturn c b = true := by
  simp [Seam, isReturn]

theorem toLf_append
    (h : ¬ Seam a b) :
    toLf (a ++ b) = toLf a ++ toLf b := by
  induction a with
  | nil =>
      rfl
  | cons c a ih =>
      rw [List.cons_append, toLf, toLf]
      cases a with
      | nil =>
          have hreturn : isReturn c b = false := by
            rw [← Bool.not_eq_true, ← seam_singleton]
            exact h
          have hsingle : isReturn c [] = false := by
            simp [isReturn]
          rw [List.nil_append, hreturn, hsingle]
          rfl
      | cons d a =>
          have hrest := ih fun hseam => h ((seam_cons (List.cons_ne_nil d a)).mpr hseam)
          have hreturn : isReturn c ((d :: a) ++ b) = isReturn c (d :: a) := rfl
          rw [hreturn, hrest]
          split
          · rfl
          · rfl

/-- A line end made at the seam is shown as one character less. -/
theorem length_toLf_append :
    (toLf (a ++ b)).length + (if Seam a b then 1 else 0) =
      (toLf a).length + (toLf b).length := by
  induction a with
  | nil =>
      simp [not_seam_nil_left, toLf]
  | cons c a ih =>
      rw [List.cons_append, toLf, toLf]
      cases a with
      | nil =>
          simp only [seam_singleton, List.nil_append]
          cases hreturn : isReturn c b with
          | true =>
              simp [isReturn, toLf, Nat.add_comm]
          | false =>
              simp [isReturn, toLf, Nat.add_comm]
      | cons d a =>
          have hreturn : isReturn c ((d :: a) ++ b) = isReturn c (d :: a) := rfl
          rw [hreturn]
          simp only [seam_cons (List.cons_ne_nil d a)]
          split
          · exact ih
          · simp only [List.length_cons]
            omega

theorem toLf_toCrlf (t : Text) : toLf (toCrlf t) = t := by
  induction t with
  | nil =>
      rfl
  | cons c t ih =>
      by_cases hc : c = '\n'
      · subst hc
        simp [toCrlf, toLf, isReturn, ih]
      · have hhead : (toCrlf t).head? ≠ some '\n' := by
          cases t with
          | nil =>
              simp [toCrlf]
          | cons d t =>
              rw [toCrlf]
              split
              · simp
              · simpa using ‹d ≠ '\n'›
        simp [toCrlf, hc, toLf, isReturn, hhead, ih]

/-- The last character is never left out. -/
theorem getLast?_toLf (t : Text) : (toLf t).getLast? = t.getLast? := by
  induction t with
  | nil =>
      rfl
  | cons c t ih =>
      cases t with
      | nil =>
          simp [toLf, isReturn]
      | cons d t =>
          rw [List.getLast?_cons_of_ne_nil (List.cons_ne_nil d t), ← ih, toLf]
          split
          · rfl
          · refine List.getLast?_cons_of_ne_nil fun hnil => ?_
            rw [hnil] at ih
            exact absurd ih.symm (by simp)

theorem toLf_eq_nil : toLf t = [] ↔ t = [] := by
  rw [← List.getLast?_eq_none_iff, getLast?_toLf, List.getLast?_eq_none_iff]

/-! ## Carriage returns -/

theorem returnsPaired_iff : ReturnsPaired t ↔ '\r' ∉ toLf t := by
  induction t with
  | nil =>
      simp [ReturnsPaired, toLf]
  | cons c t ih =>
      have hcons : ReturnsPaired (c :: t) ↔ (c = '\r' → t.head? = some '\n') ∧ ReturnsPaired t := by
        constructor
        · intro h
          constructor
          · rintro rfl
            exact h [] t rfl
          · intro before after heq
            exact h (c :: before) after (by rw [heq]; rfl)
        · rintro ⟨hfirst, hrest⟩ before after heq
          cases before with
          | nil =>
              obtain ⟨rfl, rfl⟩ := List.cons.inj heq
              exact hfirst rfl
          | cons d before =>
              exact hrest before after (List.cons.inj heq).2
      rw [hcons, ih, toLf]
      by_cases hc : c = '\r'
      · by_cases hhead : t.head? = some '\n'
        · simp [isReturn, hc, hhead]
        · simp [isReturn, hc, hhead]
      · simp [isReturn, hc, Ne.symm hc]

/-! ## CRLF line ends -/

theorem allCrlf_append
    (ha : AllCrlf a)
    (hb : AllCrlf b) :
    AllCrlf (a ++ b) := by
  intro before after heq
  rcases List.append_eq_append_iff.mp heq with ⟨more, rfl, hmore⟩ | ⟨more, rfl, hmore⟩
  · have hlast := hb more after hmore
    rw [List.getLast?_append, hlast]
    rfl
  · cases more with
    | nil =>
        have hlast := hb [] after hmore.symm
        simp at hlast
    | cons d more =>
        obtain ⟨rfl, rfl⟩ := List.cons.inj hmore
        exact ha before more rfl

theorem AllCrlf.left
    (h : AllCrlf (a ++ b)) :
    AllCrlf a := by
  rintro before after rfl
  exact h before (after ++ b) (by simp)

theorem AllCrlf.right
    (h : AllCrlf (a ++ b))
    (hseam : ¬ Seam a b) :
    AllCrlf b := by
  rintro before after rfl
  have hlast := h (a ++ before) after (by simp)
  cases before with
  | nil =>
      rw [List.append_nil] at hlast
      exact absurd ⟨hlast, rfl⟩ hseam
  | cons d before =>
      rwa [List.getLast?_append_of_ne_nil _ (List.cons_ne_nil d before)] at hlast

theorem allCrlf_toCrlf (t : Text) : AllCrlf (toCrlf t) := by
  induction t with
  | nil =>
      intro before after heq
      simp [toCrlf] at heq
  | cons c t ih =>
      rw [toCrlf]
      split
      · exact allCrlf_append (a := ['\r', '\n']) (by
          intro before after heq
          rcases before with _ | ⟨x, _ | ⟨y, before⟩⟩
          · simp at heq
          · obtain ⟨rfl, -⟩ := List.cons.inj heq
            rfl
          · simp at heq) ih
      · rename_i hc
        refine allCrlf_append (a := [c]) ?_ ih
        intro before after heq
        rcases before with _ | ⟨x, before⟩
        · exact absurd (List.cons.inj heq).1 hc
        · simp at heq

/-! ## What is shown -/

theorem takeShown_append (n : Nat) (t : Text) :
    (takeShown n t).1 ++ (takeShown n t).2 = t := by
  induction t generalizing n with
  | nil =>
      cases n with
      | zero => rfl
      | succ n => rfl
  | cons c t ih =>
      cases n with
      | zero => rfl
      | succ n => simp [takeShown, ih]

theorem not_seam_takeShown (n : Nat) (t : Text) :
    ¬ Seam (takeShown n t).1 (takeShown n t).2 := by
  induction t generalizing n with
  | nil =>
      cases n with
      | zero => exact not_seam_nil_left
      | succ n => exact not_seam_nil_left
  | cons c t ih =>
      cases n with
      | zero =>
          exact not_seam_nil_left
      | succ n =>
          simp only [takeShown]
          have hrest := ih (if isReturn c t then n + 1 else n)
          have hsplit := takeShown_append (if isReturn c t then n + 1 else n) t
          cases htaken : (takeShown (if isReturn c t then n + 1 else n) t).1 with
          | cons d more =>
              rwa [seam_cons (List.cons_ne_nil d more), ← htaken]
          | nil =>
              rw [htaken, List.nil_append] at hsplit
              rw [hsplit, seam_singleton]
              intro hreturn
              -- A return that belongs to a line end is taken together with it.
              rw [if_pos hreturn] at htaken
              cases t with
              | nil =>
                  simp [isReturn] at hreturn
              | cons d t =>
                  simp [takeShown] at htaken

theorem toLf_takeShown (n : Nat) (t : Text) :
    toLf (takeShown n t).1 = (toLf t).take n := by
  induction t generalizing n with
  | nil =>
      cases n with
      | zero => rfl
      | succ n => rfl
  | cons c t ih =>
      cases n with
      | zero =>
          simp [takeShown, toLf]
      | succ n =>
          have hrest := ih (if isReturn c t then n + 1 else n)
          have hsplit := takeShown_append (if isReturn c t then n + 1 else n) t
          simp only [takeShown, toLf]
          cases hreturn : isReturn c t with
          | true =>
              rw [hreturn, if_pos rfl] at hrest hsplit
              have hhead : isReturn c (takeShown (n + 1) t).1 = true := by
                cases t with
                | nil => simp [isReturn] at hreturn
                | cons d t => simpa [takeShown, isReturn] using hreturn
              simp only [if_true, hhead]
              exact hrest
          | false =>
              rw [hreturn, if_neg Bool.false_ne_true] at hrest hsplit
              have hhead : isReturn c (takeShown n t).1 = false := by
                cases hfirst : (takeShown n t).1 with
                | nil => simp [isReturn]
                | cons d more =>
                    rw [hfirst] at hsplit
                    rw [← hsplit] at hreturn
                    simpa [isReturn] using hreturn
              simp [hhead, hrest]

theorem toLf_drop_takeShown (n : Nat) (t : Text) :
    toLf (takeShown n t).2 = (toLf t).drop n := by
  have hsplit := toLf_append (not_seam_takeShown n t)
  rw [takeShown_append, toLf_takeShown] at hsplit
  exact (List.append_cancel_left ((List.take_append_drop n (toLf t)).trans hsplit)).symm

/-! ## Texts read by lines -/

/-- A text without the line feed at its end. -/
def dropFinalLf (t : Text) : Text :=
  if t.getLast? = some '\n' then t.dropLast else t

theorem dropFinalLf_concat (t : Text) : dropFinalLf (t ++ ['\n']) = t := by
  simp [dropFinalLf]

theorem dropFinalLf_of_ne
    (h : t.getLast? ≠ some '\n') :
    dropFinalLf t = t :=
  if_neg h

theorem append_dropFinalLf (t : Text) :
    t = dropFinalLf t ++ (if t.getLast? = some '\n' then ['\n'] else []) := by
  by_cases h : t.getLast? = some '\n'
  · obtain ⟨rest, rfl⟩ := List.getLast?_eq_some_iff.mp h
    rw [dropFinalLf_concat, if_pos h]
  · rw [dropFinalLf_of_ne h, if_neg h, List.append_nil]

theorem toLf_eq_cut (t : Text) :
    toLf t =
      ((Lines.cut t).1.map fun line => Lines.stripReturn line ++ ['\n']).flatten ++
        (Lines.cut t).2 := by
  induction t with
  | nil =>
      rfl
  | cons c t ih =>
      rw [toLf, Lines.cut]
      by_cases hc : c = '\n'
      · rw [if_pos hc]
        simp [isReturn, hc, ih, Lines.stripReturn]
      · rw [if_neg hc]
        cases t with
        | nil =>
            simp [isReturn, toLf, Lines.cut]
        | cons d t =>
            by_cases hd : d = '\n'
            · have hcut : (Lines.cut (d :: t)).1 = [] :: (Lines.cut t).1 := by
                rw [Lines.cut, if_pos hd]
              rw [ih, hcut]
              by_cases hreturn : c = '\r'
              · simp [isReturn, hreturn, hd, Lines.stripReturn]
              · simp [isReturn, hreturn, Lines.stripReturn]
            · have hreturn : isReturn c (d :: t) = false := by
                simp [isReturn, hd]
              rw [hreturn, if_neg Bool.false_ne_true, ih]
              cases hlines : (Lines.cut (d :: t)).1 with
              | nil =>
                  simp
              | cons line lines =>
                  -- The line goes on with what is not a line feed, so it is not empty.
                  have hline : line ≠ [] := by
                    rintro rfl
                    rw [Lines.cut, if_neg hd] at hlines
                    split at hlines
                    · cases hlines
                    · cases hlines
                  have hstrip : Lines.stripReturn (c :: line) = c :: Lines.stripReturn line := by
                    rw [Lines.stripReturn, Lines.stripReturn,
                      List.getLast?_cons_of_ne_nil hline]
                    split
                    · exact List.dropLast_cons_of_ne_nil hline
                    · rfl
                  simp [hstrip]

theorem rest_not_mem (t : Text) : '\n' ∉ (Lines.cut t).2 := by
  induction t with
  | nil =>
      simp
  | cons c t ih =>
      rw [Lines.cut]
      by_cases hc : c = '\n'
      · rwa [if_pos hc]
      · rw [if_neg hc]
        split
        · exact List.not_mem_cons_of_ne_of_not_mem (Ne.symm hc) ih
        · exact ih

theorem intercalate_concat (lines : List Text) (line : Text) :
    List.intercalate ['\n'] (lines ++ [line]) =
      (lines.map fun line => line ++ ['\n']).flatten ++ line := by
  induction lines with
  | nil =>
      simp [List.intercalate]
  | cons first lines ih =>
      have hne : lines ++ [line] ≠ [] := by simp
      obtain ⟨second, more, hmore⟩ := List.exists_cons_of_ne_nil hne
      have hstep : List.intercalate ['\n'] (first :: second :: more) =
          first ++ '\n' :: List.intercalate ['\n'] (second :: more) := by
        simp [List.intercalate, List.intersperse]
      rw [List.cons_append, hmore, hstep, ← hmore, ih]
      simp

/-- Lines joined by line feeds show all but the line feed at the end. -/
theorem intercalate_lines (t : Text) :
    List.intercalate ['\n'] (Lines.lines t) = dropFinalLf (toLf t) := by
  rw [Lines.lines, toLf_eq_cut]
  by_cases hrest : (Lines.cut t).2 = []
  · rw [if_pos hrest, hrest, List.append_nil, List.append_nil]
    rcases List.eq_nil_or_concat (Lines.cut t).1 with hnil | ⟨lines, line, hlines⟩
    · simp [hnil, dropFinalLf]
    · rw [hlines, List.concat_eq_append, List.map_append, List.map_singleton,
        intercalate_concat, List.map_append, List.flatten_append, List.map_map]
      simp [dropFinalLf, List.dropLast_append_of_ne_nil, ← List.append_assoc,
        Function.comp_def]
  · rw [if_neg hrest, intercalate_concat, List.map_map, dropFinalLf, if_neg]
    · rfl
    · intro hlast
      rw [List.getLast?_append_of_ne_nil _ hrest] at hlast
      exact rest_not_mem t (List.mem_of_getLast? hlast)

/-! ## Texts with CRLF -/

theorem hasCrlf_append_left
    (h : hasCrlf a = true) :
    hasCrlf (a ++ b) = true := by
  induction a with
  | nil =>
      cases h
  | cons c a ih =>
      rw [hasCrlf, Bool.or_eq_true] at h
      rw [List.cons_append, hasCrlf, Bool.or_eq_true]
      refine h.imp (fun hreturn => ?_) ih
      cases a with
      | nil => simp [isReturn] at hreturn
      | cons d a => exact hreturn

theorem hasCrlf_append_right
    (h : hasCrlf b = true) :
    hasCrlf (a ++ b) = true := by
  induction a with
  | nil =>
      exact h
  | cons c a ih =>
      rw [List.cons_append, hasCrlf, ih, Bool.or_true]

theorem hasCrlf_toCrlf
    (h : '\n' ∈ t) :
    hasCrlf (toCrlf t) = true := by
  induction t with
  | nil =>
      cases h
  | cons c t ih =>
      rw [toCrlf]
      split
      · rfl
      · rename_i hc
        rw [hasCrlf, ih ((List.mem_cons.mp h).resolve_left (Ne.symm hc)), Bool.or_true]

theorem toLf_of_not_mem
    (h : '\n' ∉ t) :
    toLf t = t := by
  induction t with
  | nil =>
      rfl
  | cons c t ih =>
      have hrest := fun hmem => h (List.mem_cons_of_mem c hmem)
      have hreturn : isReturn c t = false := by
        rw [isReturn, Bool.and_eq_false_iff, decide_eq_false_iff_not]
        refine .inr (decide_eq_false fun hhead => hrest ?_)
        exact List.mem_of_head? hhead
      rw [toLf, hreturn, if_neg Bool.false_ne_true, ih hrest]

theorem mem_toLf_newline : '\n' ∈ toLf t ↔ '\n' ∈ t := by
  induction t with
  | nil =>
      rfl
  | cons c t ih =>
      rw [toLf, List.mem_cons]
      split
      · rename_i hreturn
        have hc : c = '\r' := by
          rw [isReturn, Bool.and_eq_true, decide_eq_true_eq] at hreturn
          exact hreturn.1
        simp [hc, ih]
      · rw [List.mem_cons, ih]

theorem toCrlf_of_not_mem
    (h : '\n' ∉ t) :
    toCrlf t = t := by
  induction t with
  | nil =>
      rfl
  | cons c t ih =>
      rw [List.mem_cons, not_or] at h
      rw [toCrlf, if_neg (Ne.symm h.1), ih h.2]

theorem allCrlf_of_hasCrlf_eq_false
    (hall : AllCrlf t)
    (h : hasCrlf t = false) :
    '\n' ∉ t := by
  intro hmem
  obtain ⟨before, after, rfl⟩ := List.append_of_mem hmem
  have hlast := hall before after rfl
  obtain ⟨more, rfl⟩ := List.getLast?_eq_some_iff.mp hlast
  rw [List.append_assoc, hasCrlf_append_right (by rfl)] at h
  cases h

end LineEnds
end FutureOs
