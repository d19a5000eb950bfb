import FutureOs.Llm.ResponseReasoning
import Mathlib.Data.List.GetD

/-!
# The parts of a summary, told and told again

Each part of a summary is told by deltas, by its whole text any number of times, by both, or
not at all; then the item repeats them all.  The decoder keeps one text for each part, so no
part comes twice, but a part the item tells first comes after the parts told before it:
`summary_exact_iff` says for which parts the order and the blank lines come out right.
-/

namespace FutureOs
namespace Llm
namespace OpenAiResponses

/-- A part of a summary, and how the stream tells it. -/
structure SummaryPart where
  text : String
  deltas : List String
  /-- How many events tell the whole part. -/
  dones : Nat
  agree : deltas ≠ [] → String.join deltas = text

namespace SummaryPart

def told (part : SummaryPart) : Bool :=
  !part.deltas.isEmpty || part.dones ≠ 0

def steps (part : SummaryPart) (k : Nat) : List SummaryStep :=
  part.deltas.map (.delta k) ++ List.replicate part.dones (.whole k part.text)

/-- The text of the part before the item repeats it. -/
def toldText (part : SummaryPart) : String :=
  if part.told then part.text else ""

end SummaryPart

def partsSteps (parts : List SummaryPart) : List SummaryStep :=
  parts.zipIdx.flatMap fun part => part.1.steps part.2

/-- The texts of a summary with their places. -/
def numbered (texts : List String) : List (Nat × String) :=
  texts.zipIdx.map Prod.swap

/-- The non-empty parts in order, with a blank line between them. -/
def summaryText (parts : List SummaryPart) : String :=
  String.intercalate "\n\n" ((parts.map (·.text)).filter (· ≠ ""))

/-- Of the non-empty parts none is told before the item; or the first is, and those told
before it, followed by the others, read as all of them in order. -/
def OrderAgrees (parts : List SummaryPart) : Prop :=
  let shown := parts.filter (·.text ≠ "")
  shown.any (·.told) = false ∨
    (shown.head?.any (·.told) = true ∧
      summaryText (shown.filter (·.told) ++ shown.filter (!·.told)) = summaryText shown)

instance (parts : List SummaryPart) : Decidable (OrderAgrees parts) :=
  inferInstanceAs (Decidable (_ ∨ _))

/-! ### One part -/

section OnePart

/-- The texts of the parts, of which those with a text are begun. -/
def Summary.ofList (texts : List String) : Summary where
  texts k := texts.getD k ""
  begun k := texts.getD k "" ≠ ""

/-- A part with its blank line, if it has a text. -/
def spoken (separated : Bool) (text : String) : List Char :=
  if text = "" then [] else (if separated then blankLine else []) ++ text.toList

variable (before after : List String)

theorem getD_here (text : String) :
    (before ++ text :: after).getD before.length "" = text := by
  rw [List.getD_append_right _ _ _ _ le_rfl, Nat.sub_self]
  rfl

theorem getD_elsewhere
    (text text' : String)
    {j : Nat}
    (hne : j ≠ before.length) :
    (before ++ text :: after).getD j "" = (before ++ text' :: after).getD j "" := by
  rcases Nat.lt_or_gt_of_ne hne with hlt | hgt
  · rw [List.getD_append _ _ _ _ hlt, List.getD_append _ _ _ _ hlt]
  · rw [List.getD_append_right _ _ _ _ hgt.le, List.getD_append_right _ _ _ _ hgt.le]
    obtain ⟨m, hm⟩ := Nat.exists_eq_succ_of_ne_zero (Nat.sub_ne_zero_of_lt hgt)
    rw [hm]
    rfl

theorem update_texts (text text' : String) :
    Function.update (Summary.ofList (before ++ text :: after)).texts before.length text' =
      (Summary.ofList (before ++ text' :: after)).texts := by
  funext j
  rw [Function.update_apply]
  split
  · rename_i hj
    rw [hj]
    exact (getD_here before after text').symm
  · rename_i hj
    exact getD_elsewhere before after text text' hj

theorem separates_here :
    (Summary.ofList (before ++ "" :: after)).separates before.length =
      before.any (· ≠ "") := by
  have hfresh : (Summary.ofList (before ++ "" :: after)).begun before.length = false := by
    show decide ((before ++ "" :: after).getD before.length "" ≠ "") = false
    rw [getD_here]
    rfl
  have htext : ∀ j (hlt : j < before.length),
      (Summary.ofList (before ++ "" :: after)).texts j = before[j] := by
    intro j hlt
    show (before ++ "" :: after).getD j "" = before[j]
    rw [List.getD_append _ _ _ _ hlt, List.getD_eq_getElem _ _ hlt]
  rw [Summary.separates, hfresh, Bool.not_false, Bool.true_and, Bool.eq_iff_iff]
  simp only [List.any_eq_true, List.mem_range, decide_eq_true_eq]
  constructor
  · rintro ⟨j, hlt, hne⟩
    exact ⟨_, List.getElem_mem hlt, htext j hlt ▸ hne⟩
  · rintro ⟨text, hmem, hne⟩
    obtain ⟨j, hlt, rfl⟩ := List.mem_iff_getElem.1 hmem
    exact ⟨j, hlt, (htext j hlt).symm ▸ hne⟩

theorem takeDelta_empty
    (summary : Summary)
    (k : Nat) :
    summary.takeDelta k "" = (summary, []) := if_pos rfl

theorem takeDelta_here (text : String) :
    (Summary.ofList (before ++ "" :: after)).takeDelta before.length text =
      (Summary.ofList (before ++ text :: after), spoken (before.any (· ≠ "")) text) := by
  rw [Summary.takeDelta, spoken]
  by_cases hempty : text = ""
  · rw [if_pos hempty, if_pos hempty, hempty]
  · rw [if_neg hempty, if_neg hempty, separates_here]
    refine Prod.ext (Summary.ext ?_ ?_) rfl
    · have hhere : (Summary.ofList (before ++ "" :: after)).texts before.length = "" :=
        getD_here before after ""
      rw [hhere, String.empty_append]
      exact update_texts before after "" text
    · funext j
      show Function.update (Summary.ofList (before ++ "" :: after)).begun before.length true j =
        decide ((before ++ text :: after).getD j "" ≠ "")
      rw [Function.update_apply]
      split
      · rename_i hj
        rw [hj, getD_here]
        exact (decide_eq_true hempty).symm
      · rename_i hj
        rw [getD_elsewhere before after text "" hj]
        rfl

theorem takeWhole_fresh (text : String) :
    (Summary.ofList (before ++ "" :: after)).takeWhole before.length text =
      (Summary.ofList (before ++ text :: after), spoken (before.any (· ≠ "")) text) := by
  have hrest : String.ofList (restOf ((Summary.ofList (before ++ "" :: after)).texts
      before.length) text) = text := by
    have hhere : (Summary.ofList (before ++ "" :: after)).texts before.length = "" :=
      getD_here before after ""
    rw [hhere]
    simp [restOf, Text.stripPrefix]
  rw [Summary.takeWhole, hrest, takeDelta_here]
  refine Prod.ext (Summary.ext ?_ rfl) rfl
  exact update_texts before after text text

/-- A part that is known in full is not told again. -/
theorem takeWhole_known (text : String) :
    (Summary.ofList (before ++ text :: after)).takeWhole before.length text =
      (Summary.ofList (before ++ text :: after), []) := by
  have hrest : String.ofList (restOf ((Summary.ofList (before ++ text :: after)).texts
      before.length) text) = "" := by
    have hhere : (Summary.ofList (before ++ text :: after)).texts before.length = text :=
      getD_here before after text
    rw [hhere]
    simp [restOf, Text.stripPrefix]
  rw [Summary.takeWhole, hrest, takeDelta_empty]
  refine Prod.ext (Summary.ext ?_ rfl) rfl
  exact update_texts before after text text

end OnePart

/-! ### A run of parts -/

section Run

theorem takeDelta_takeDelta
    (summary : Summary)
    (k : Nat)
    (first second : String) :
    (((summary.takeDelta k first).1.takeDelta k second).1,
        (summary.takeDelta k first).2 ++ ((summary.takeDelta k first).1.takeDelta k second).2) =
      summary.takeDelta k (first ++ second) := by
  by_cases hfirst : first = ""
  · rw [hfirst, String.empty_append, takeDelta_empty]
    rfl
  · by_cases hsecond : second = ""
    · rw [hsecond, String.append_empty, takeDelta_empty, List.append_nil]
    · have hjoined : first ++ second ≠ "" := fun hempty =>
        hfirst (String.append_eq_empty_iff.1 hempty).1
      -- The part is begun after its first delta, so no blank line comes before the second.
      have hbegun : (summary.takeDelta k first).1.separates k = false := by
        rw [Summary.takeDelta, if_neg hfirst, Summary.separates]
        simp
      rw [Summary.takeDelta, if_neg hsecond, hbegun, Summary.takeDelta, if_neg hfirst,
        Summary.takeDelta, if_neg hjoined]
      simp [String.append_assoc]

theorem run_partDeltas
    (summary : Summary)
    (k : Nat)
    (deltas : List String) :
    slotView.run summary (deltas.map (.delta k)) = summary.takeDelta k (String.join deltas) := by
  induction deltas generalizing summary with
  | nil =>
      rw [String.join_nil, takeDelta_empty]
      rfl
  | cons delta deltas ih =>
      rw [List.map_cons, Emitting.View.run_cons, String.join_cons, ← takeDelta_takeDelta, ih]
      rfl

theorem run_known
    (before after : List String)
    (text : String)
    (count : Nat) :
    slotView.run (Summary.ofList (before ++ text :: after))
        (List.replicate count (.whole before.length text)) =
      (Summary.ofList (before ++ text :: after), []) := by
  induction count with
  | zero =>
      rfl
  | succ count ih =>
      have htake : slotView.take (Summary.ofList (before ++ text :: after))
          (.whole before.length text) = (Summary.ofList (before ++ text :: after), []) :=
        takeWhole_known before after text
      rw [List.replicate_succ, Emitting.View.run_cons, htake, ih]
      rfl

/-- A part that was not told yet, whichever way the stream tells it. -/
theorem run_summaryPart
    (before after : List String)
    (part : SummaryPart) :
    slotView.run (Summary.ofList (before ++ "" :: after)) (part.steps before.length) =
      (Summary.ofList (before ++ part.toldText :: after),
        spoken (before.any (· ≠ "")) part.toldText) := by
  rw [SummaryPart.steps, Emitting.View.run_append, run_partDeltas]
  cases hdeltas : part.deltas with
  | cons delta deltas =>
      have hjoin : String.join (delta :: deltas) = part.text := by
        rw [← hdeltas]
        exact part.agree (by simp [hdeltas])
      have htold : part.toldText = part.text := by
        simp [SummaryPart.toldText, SummaryPart.told, hdeltas]
      rw [hjoin, takeDelta_here, run_known, htold, List.append_nil]
  | nil =>
      rw [String.join_nil, takeDelta_empty, List.nil_append]
      cases hdones : part.dones with
      | zero =>
          have htold : part.toldText = "" := by
            simp [SummaryPart.toldText, SummaryPart.told, hdeltas, hdones]
          rw [htold]
          rfl
      | succ dones =>
          have htold : part.toldText = part.text := by
            simp [SummaryPart.toldText, SummaryPart.told, hdeltas, hdones]
          have htake : slotView.take (Summary.ofList (before ++ "" :: after))
              (.whole before.length part.text) =
                (Summary.ofList (before ++ part.text :: after),
                  spoken (before.any (· ≠ "")) part.text) :=
            takeWhole_fresh before after part.text
          rw [List.replicate_succ, Emitting.View.run_cons, htake, run_known, htold,
            List.append_nil]

/-- Parts in order, with their blank lines. -/
def spell (separated : Bool) : List String → List Char
  | [] => []
  | text :: texts => spoken separated text ++ spell (separated || text ≠ "") texts

theorem ofList_pad (texts : List String) :
    Summary.ofList (texts ++ [""]) = Summary.ofList texts := by
  have hpad : ∀ j, (texts ++ [""]).getD j "" = texts.getD j "" := by
    intro j
    by_cases hj : j < texts.length
    · rw [List.getD_append _ _ _ _ hj]
    · rw [List.getD_append_right _ _ _ _ (Nat.le_of_not_lt hj),
        List.getD_eq_default _ _ (Nat.le_of_not_lt hj)]
      cases j - texts.length <;> rfl
  refine Summary.ext (funext hpad) (funext fun j => ?_)
  show decide ((texts ++ [""]).getD j "" ≠ "") = decide (texts.getD j "" ≠ "")
  rw [hpad]

theorem any_snoc
    (texts : List String)
    (text : String) :
    (texts ++ [text]).any (· ≠ "") = (texts.any (· ≠ "") || decide (text ≠ "")) := by
  simp

theorem run_partsSteps
    (parts : List SummaryPart)
    (before : List String) :
    slotView.run (Summary.ofList before)
        ((parts.zipIdx before.length).flatMap fun part => part.1.steps part.2) =
      (Summary.ofList (before ++ parts.map (·.toldText)),
        spell (before.any (· ≠ "")) (parts.map (·.toldText))) := by
  induction parts generalizing before with
  | nil =>
      simp [spell]
  | cons part parts ih =>
      have hnext := ih (before ++ [part.toldText])
      rw [List.length_append, List.length_singleton, any_snoc, List.append_assoc] at hnext
      rw [List.zipIdx_cons, List.flatMap_cons, Emitting.View.run_append, ← ofList_pad,
        run_summaryPart, hnext]
      rfl

/-- What the item adds: the parts that were not told, in order. -/
def spellRest (separated : Bool) : List SummaryPart → List Char
  | [] => []
  | part :: parts =>
      (if part.told then [] else spoken separated part.text) ++
        spellRest (separated || part.text ≠ "") parts

theorem take_repeated
    (before after : List String)
    (part : SummaryPart) :
    slotView.take (Summary.ofList (before ++ part.toldText :: after))
        (.whole before.length part.text) =
      (Summary.ofList (before ++ part.text :: after),
        if part.told then [] else spoken (before.any (· ≠ "")) part.text) := by
  rw [SummaryPart.toldText]
  by_cases htold : part.told = true
  · rw [if_pos htold, if_pos htold]
    exact takeWhole_known before after part.text
  · rw [if_neg htold, if_neg htold]
    exact takeWhole_fresh before after part.text

theorem run_item
    (parts : List SummaryPart)
    (before : List String) :
    slotView.run (Summary.ofList (before ++ parts.map (·.toldText)))
        ((((parts.map (·.text)).zipIdx before.length).map Prod.swap).map
          fun part => .whole part.1 part.2) =
      (Summary.ofList (before ++ parts.map (·.text)),
        spellRest (before.any (· ≠ "")) parts) := by
  induction parts generalizing before with
  | nil =>
      rfl
  | cons part parts ih =>
      have hnext := ih (before ++ [part.text])
      rw [List.length_append, List.length_singleton, any_snoc, List.append_assoc,
        List.append_assoc, List.singleton_append, List.singleton_append] at hnext
      rw [List.map_cons, List.map_cons, List.zipIdx_cons, List.map_cons, List.map_cons,
        Emitting.View.run_cons, Prod.swap_prod_mk, take_repeated, hnext]
      rfl

end Run

/-! ### The order of the parts -/

section Order

variable (parts : List SummaryPart)

def shownTexts (parts : List SummaryPart) : List String :=
  (parts.filter (·.text ≠ "")).map (·.text)

def between (texts : List String) : String :=
  String.intercalate "\n\n" texts

theorem between_cons
    (text : String)
    (texts : List String) :
    (between (text :: texts)).toList =
      text.toList ++ ((if texts = [] then [] else blankLine) ++ (between texts).toList) := by
  cases texts with
  | nil =>
      simp [between]
  | cons next texts =>
      rw [between, String.intercalate_cons_cons, if_neg (List.cons_ne_nil _ _)]
      simp [between, blankLine]

theorem between_append
    {first : List String}
    (second : List String)
    (hfirst : first ≠ []) :
    (between (first ++ second)).toList =
      (between first).toList ++
        ((if second = [] then [] else blankLine) ++ (between second).toList) := by
  by_cases hsecond : second = []
  · simp [hsecond, between]
  · rw [between, String.intercalate_append_of_ne_nil hfirst hsecond, if_neg hsecond]
    simp [between, blankLine]

theorem length_between
    {texts : List String}
    (hne : texts ≠ []) :
    (between texts).toList.length + 2 = (texts.map fun text => text.toList.length + 2).sum := by
  induction texts with
  | nil =>
      exact absurd rfl hne
  | cons text texts ih =>
      rw [between_cons, List.map_cons, List.sum_cons]
      by_cases htexts : texts = []
      · simp [htexts, between]
      · have hrest := ih htexts
        rw [if_neg htexts, List.length_append, List.length_append, blankLine]
        simp only [List.length_cons, List.length_nil]
        omega

theorem spell_eq
    (separated : Bool)
    (texts : List String) :
    spell separated texts =
      (if separated = true ∧ texts.filter (· ≠ "") ≠ [] then blankLine else []) ++
        (between (texts.filter (· ≠ ""))).toList := by
  induction texts generalizing separated with
  | nil =>
      simp [spell, between]
  | cons text texts ih =>
      rw [spell, ih, spoken]
      by_cases hempty : text = ""
      · simp [hempty]
      · rw [List.filter_cons_of_pos (by simpa using hempty), between_cons, if_neg hempty]
        generalize texts.filter (· ≠ "") = shown
        by_cases hshown : shown = []
        · cases separated <;> simp [hempty, hshown]
        · cases separated <;> simp [hempty, hshown]

theorem filter_toldText :
    (parts.map (·.toldText)).filter (· ≠ "") =
      ((parts.filter (·.text ≠ "")).filter (·.told)).map (·.text) := by
  induction parts with
  | nil =>
      rfl
  | cons part parts ih =>
      rw [List.map_cons, List.filter_cons, ih, SummaryPart.toldText]
      by_cases hempty : part.text = ""
      · simp [hempty]
      · cases htold : part.told with
        | true =>
            simp [hempty, htold]
        | false =>
            simp [hempty, htold]

theorem filter_texts (p : SummaryPart → Bool) :
    ((parts.filter p).map (·.text)).filter (· ≠ "") =
      ((parts.filter (·.text ≠ "")).filter p).map (·.text) := by
  rw [List.filter_map, List.filter_filter, List.filter_filter]
  exact congrArg (List.map SummaryPart.text) (List.filter_congr fun part _ => Bool.and_comm _ _)

theorem filter_shown (p : SummaryPart → Bool) :
    ((((parts.filter (·.text ≠ "")).filter p)).map (·.text)).filter (· ≠ "") =
      ((parts.filter (·.text ≠ "")).filter p).map (·.text) := by
  rw [filter_texts, List.filter_filter, List.filter_filter, List.filter_filter]
  refine congrArg (List.map SummaryPart.text) (List.filter_congr fun part _ => ?_)
  rw [Bool.and_assoc, Bool.and_self]

theorem spellRest_true :
    spellRest true parts = spell true ((parts.filter (!·.told)).map (·.text)) := by
  induction parts with
  | nil =>
      rfl
  | cons part parts ih =>
      rw [spellRest, Bool.true_or, ih]
      cases htold : part.told with
      | true =>
          rw [List.filter_cons_of_neg (by simp [htold])]
          rfl
      | false =>
          rw [List.filter_cons_of_pos (by simp [htold])]
          rfl

/-- The first part with a text gets its blank line from the item only if it was told. -/
theorem spellRest_false :
    spellRest false parts =
      spell ((parts.filter (·.text ≠ "")).head?.any (·.told))
        (((parts.filter (·.text ≠ "")).filter (!·.told)).map (·.text)) := by
  induction parts with
  | nil =>
      rfl
  | cons part parts ih =>
      rw [spellRest, Bool.false_or]
      by_cases hempty : part.text = ""
      · have hspoken : spoken false part.text = [] := if_pos hempty
        rw [hspoken, ite_self, List.nil_append, List.filter_cons_of_neg (by simp [hempty]),
          decide_eq_false (by simp [hempty]), ih]
      · rw [List.filter_cons_of_pos (by simpa using hempty), decide_eq_true hempty,
          spellRest_true, List.head?_cons, Option.any_some, spell_eq, filter_texts]
        cases htold : part.told with
        | true =>
            rw [if_pos rfl, List.nil_append, List.filter_cons_of_neg (by simp [htold]), spell_eq,
              filter_shown]
        | false =>
            rw [if_neg Bool.false_ne_true, List.filter_cons_of_pos (by simp [htold]),
              List.map_cons, spell, Bool.false_or, decide_eq_true hempty, spell_eq,
              filter_shown]

theorem summaryText_eq :
    summaryText parts = between ((parts.filter (·.text ≠ "")).map (·.text)) := by
  rw [summaryText, List.filter_map]
  rfl

/-- All the deltas of a summary, with its parts told in order and then repeated. -/
def summaryChars (parts : List SummaryPart) : List Char :=
  spell false (parts.map (·.toldText)) ++ spellRest false parts

theorem summaryChars_eq :
    summaryChars parts =
      (between (((parts.filter (·.text ≠ "")).filter (·.told)).map (·.text))).toList ++
        ((if (parts.filter (·.text ≠ "")).head?.any (·.told) = true ∧
            ((parts.filter (·.text ≠ "")).filter (!·.told)).map (·.text) ≠ [] then blankLine
          else []) ++
          (between (((parts.filter (·.text ≠ "")).filter (!·.told)).map (·.text))).toList) := by
  rw [summaryChars, spell_eq, filter_toldText, spellRest_false, spell_eq, filter_shown,
    if_neg (by simp), List.nil_append]

/-- The parts told first and the parts left over are all the parts. -/
theorem length_shown
    (shown : List SummaryPart)
    (p : SummaryPart → Bool) :
    (((shown.filter p).map (·.text)).map fun text => text.toList.length + 2).sum +
        (((shown.filter (!p ·)).map (·.text)).map fun text => text.toList.length + 2).sum =
      ((shown.map (·.text)).map fun text => text.toList.length + 2).sum := by
  rw [← List.sum_append, ← List.map_append, ← List.map_append]
  exact (((List.filter_append_perm p shown).map _).map _).sum_nat

theorem first_left
    {shown : List SummaryPart}
    {part : SummaryPart}
    (hpart : part ∈ shown)
    (hhead : ¬ shown.head?.any (·.told) = true) :
    (shown.filter (!·.told)).map (·.text) ≠ [] := by
  cases shown with
  | nil =>
      cases hpart
  | cons first rest =>
      have hfirst : (!first.told) = true := by simpa using hhead
      exact List.ne_nil_of_mem
        (List.mem_map_of_mem (List.mem_filter.2 ⟨List.mem_cons_self, hfirst⟩))

theorem summaryChars_iff :
    summaryChars parts = (summaryText parts).toList ↔ OrderAgrees parts := by
  rw [summaryChars_eq, summaryText_eq, OrderAgrees]
  generalize hshown : parts.filter (·.text ≠ "") = shown
  have hne : ∀ part ∈ shown, part.text ≠ "" := by
    intro part hpart
    rw [← hshown] at hpart
    simpa using (List.mem_filter.1 hpart).2
  have htexts : ∀ some : List SummaryPart, (∀ part ∈ some, part ∈ shown) →
      summaryText some = between (some.map (·.text)) := by
    intro some hsome
    have hall : some.filter (fun part : SummaryPart => part.text ≠ "") = some :=
      List.filter_eq_self.2 fun part hpart => by simpa using hne part (hsome part hpart)
    rw [summaryText_eq, hall]
  have htold : ∀ part ∈ shown.filter (·.told) ++ shown.filter (!·.told), part ∈ shown := by
    intro part hpart
    rcases List.mem_append.1 hpart with hmem | hmem <;> exact (List.mem_filter.1 hmem).1
  rw [htexts shown fun _ h => h, htexts _ htold, List.map_append]
  by_cases hany : shown.any (·.told) = true
  · obtain ⟨part, hpart, hparttold⟩ := List.any_eq_true.1 hany
    have hnil : (shown.filter (·.told)).map (·.text) ≠ [] :=
      List.ne_nil_of_mem (List.mem_map_of_mem (List.mem_filter.2 ⟨hpart, hparttold⟩))
    by_cases hhead : shown.head?.any (·.told) = true
    · have hjoin := between_append ((shown.filter (!·.told)).map (·.text)) hnil
      simp only [hhead, hany, true_and, Bool.true_eq_false, false_or]
      rw [← String.toList_inj, hjoin, ite_not]
    · rw [if_neg fun h => hhead h.1, List.nil_append]
      -- A blank line is missing, before the first part.
      refine ⟨fun heq => ?_, fun h => h.elim (fun hno => ?_) fun h => absurd h.1 hhead⟩
      · exfalso
        have hleft := first_left hpart hhead
        have hshownne : shown.map (·.text) ≠ [] := List.ne_nil_of_mem (List.mem_map_of_mem hpart)
        have hlength := congrArg List.length heq
        rw [List.length_append] at hlength
        have htoldlength := length_between hnil
        have hleftlength := length_between hleft
        have halllength := length_between hshownne
        have hsum := length_shown shown (·.told)
        omega
      · rw [hany] at hno
        cases hno
  · have hall : ∀ part ∈ shown, ¬ part.told = true := fun part hpart htold =>
      hany (List.any_eq_true.2 ⟨part, hpart, htold⟩)
    have hnone : shown.filter (·.told) = [] := List.filter_eq_nil_iff.2 hall
    have heach : shown.filter (!·.told) = shown :=
      List.filter_eq_self.2 fun part hpart => by simpa using hall part hpart
    have hhead : ¬ shown.head?.any (·.told) = true := by
      intro hhead
      obtain ⟨part, hpart, htold⟩ := (Option.any_eq_true _ _).1 hhead
      exact hall part (List.mem_of_head? hpart) htold
    rw [hnone, heach, if_neg fun h => hhead h.1]
    simp [hany, between]

end Order

/-! ### The item as a whole -/

section Item

variable {i : Nat}

def SummaryInput.isLate : SummaryInput → Bool
  | .response _ => true
  | .clear => true
  | _ => false

theorem runSummary_late
    {later : List SummaryInput}
    (hlate : ∀ input ∈ later, input.isLate = true)
    {seen : SummarySeen}
    (hfinished : seen.finished = true) :
    ((reasoningView i).run seen later).2 = [] := by
  induction later generalizing seen with
  | nil =>
      rfl
  | cons input later ih =>
      have hrest := fun other hother => hlate other (List.mem_cons_of_mem _ hother)
      have hfirst := hlate input List.mem_cons_self
      rw [Emitting.View.run_cons]
      cases input with
      | response parts =>
          have htake : (reasoningView i).take seen (.response parts) = (seen, []) :=
            if_pos hfinished
          rw [htake, List.nil_append]
          exact ih hrest hfinished
      | clear =>
          exact ih hrest hfinished
      | _ =>
          cases hfirst

/-- What the stream says of an item from which all parts of its summary are known. -/
def RepeatsSummary (texts : List String) (inputs : List SummaryInput) : Prop :=
  ∃ whole later, inputs = whole :: later ∧
    (whole = .item (some (numbered texts)) ∨ whole = .response (some (numbered texts))) ∧
    ∀ input ∈ later, input.isLate = true

theorem run_repeatsSummary
    {texts : List String}
    {inputs : List SummaryInput}
    (hrepeats : RepeatsSummary texts inputs)
    {seen : SummarySeen}
    (hfinished : seen.finished = false) :
    ((reasoningView i).run seen inputs).2 =
      (slotView.run seen.summary (summarySteps (numbered texts))).2 := by
  obtain ⟨whole, later, rfl, hwhole, hlate⟩ := hrepeats
  have htake : (reasoningView i).take seen whole =
      ({ summary := (slotView.run seen.summary (summarySteps (numbered texts))).1,
         finished := true },
        (slotView.run seen.summary (summarySteps (numbered texts))).2) := by
    rcases hwhole with rfl | rfl
    · rfl
    · exact if_neg (by rw [hfinished]; exact Bool.false_ne_true)
  rw [Emitting.View.run_cons, htake, runSummary_late hlate rfl, List.append_nil]

/-- The deltas of a summary make up its parts just if the order comes out right. -/
theorem summary_exact_iff
    (parts : List SummaryPart)
    {ending : List SummaryInput}
    (hending : RepeatsSummary (parts.map (·.text)) ending) :
    ((reasoningView i).run { summary := .empty, finished := false }
        ((partsSteps parts).map .step ++ ending)).2 = (summaryText parts).toList ↔
      OrderAgrees parts := by
  have hparts := run_partsSteps parts []
  have hitem := run_item parts []
  rw [Emitting.View.run_append, run_steps, run_repeatsSummary hending rfl, summarySteps,
    Emitting.View.run_append, ← summaryChars_iff]
  rw [List.length_nil, List.nil_append, List.any_nil] at hparts hitem
  have hempty : Summary.empty = Summary.ofList [] := rfl
  rw [hempty, partsSteps, numbered, hparts, hitem]
  have hclose : ∀ summary : Summary, (slotView.run summary [.close]).2 = [] := fun _ => rfl
  rw [hclose, List.append_nil]
  rfl

end Item

end OpenAiResponses
end Llm
end FutureOs
