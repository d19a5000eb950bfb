import FutureOs.Lib.Json
import FutureOs.Lib.JsonCuts
import FutureOs.Lib.Text

/-!
# Repair of cut off tool arguments

A tool call whose arguments break off leaves the text of an object without its end.
`repairStringV1` adds a quote, if a string is open, and closing braces, and keeps the result
if it is valid JSON.

The braces are counted over the whole text, those in strings too, and the text is trimmed
first.  So the object is completed as it was received exactly if the text has no white space
at its ends and its strings hold as many opening as closing braces
(`repair_completes_iff`).
-/

namespace FutureOs
namespace Tools
namespace ArgumentRepair

open JsonSyntax

/-! ## The code -/

/-- `in_string` and `escaped` after one more character. -/
def quoteStep (state : Bool × Bool) (ch : Char) : Bool × Bool :=
  let (inString, escaped) := state
  if escaped then
    (inString, false)
  else if ch = '\\' ∧ inString then
    (inString, true)
  else if ch = '"' then
    (!inString, escaped)
  else
    (inString, escaped)

/-- `has_unclosed_string`. -/
def hasUnclosedString (value : String) : Bool :=
  (value.toList.foldl quoteStep (false, false)).1

/-- `repair_partial_json_object`. -/
def repairPartialJsonObject (raw : String) : Option String :=
  let trimmed := Text.trim raw
  if Text.startsWith "\x7b" trimmed then
    let repaired := if hasUnclosedString trimmed then trimmed.push '"' else trimmed
    let openBraces := repaired.toList.countP (· = '\x7b')
    let closeBraces := repaired.toList.countP (· = '\x7d')
    some (repaired ++ String.ofList (List.replicate (openBraces - closeBraces) '\x7d'))
  else
    none

variable (validJson : String → Bool)

/-- `repair_string_v1` of the text of a string; `valid_json` runs the JSON library. -/
def repairText (raw : String) : String :=
  if raw = "" then
    "\x7b\x7d"
  else if validJson raw then
    raw
  else match repairPartialJsonObject raw with
    | none => raw
    | some repaired => if validJson repaired then repaired else raw

/-- `repair_string_v1`. -/
def repairStringV1 : Json → Json
  | .str raw => .str (repairText validJson raw)
  | args => args

/-! ## The reader -/

/-- What the JSON library takes: 127 levels, and numbers it can hold. -/
structure Accepted (inRange : List Char → Prop) (data : Data) : Prop where
  depth_le : data.depth ≤ 127
  numbers : data.Numbers inRange

/-- The validator accepts the texts of JSON within these limits. -/
def ReadsJson (inRange : List Char → Prop) : Prop :=
  ∀ text, validJson text = true ↔
    ∃ document : Document, document.text = text.toList ∧ Accepted inRange document.value.data

/-- The text is completed, and says what was received. -/
structure Completes (data : Data) (raw result : String) : Prop where
  valid : validJson result = true
  extends_raw : raw.toList <+: result.toList
  reads : ∃ document : Document, document.text = result.toList ∧ document.value.data = data

/-- The text breaks off at the cut. -/
structure CutsOff (document : Document) (cut : Cut) (raw : String) : Prop where
  whole : document.value = cut.whole
  start : raw.toList = blankText document.before ++ cut.start

/-! ## Counting braces -/

section Counting

theorem foldl_quoteStep
    (mark : Mark)
    (text : List Char) :
    text.foldl quoteStep (mark.inString, mark.escaped) =
      ((mark.scan text).inString, (mark.scan text).escaped) := by
  induction text generalizing mark with
  | nil => rfl
  | cons c rest ih =>
      have hstep : quoteStep (mark.inString, mark.escaped) c =
          ((mark.step c).inString, (mark.step c).escaped) := by
        simp only [quoteStep, Mark.step]
        split
        · rfl
        · split
          · rfl
          · split <;> rfl
      rw [List.foldl_cons, hstep, ih]
      rfl

theorem hasUnclosedString_eq (value : String) :
    hasUnclosedString value = (Mark.outside.scan value.toList).inString :=
  congrArg Prod.fst (foldl_quoteStep Mark.outside value.toList)

theorem braces_eq (text : List Char) :
    braces text =
      (text.countP (· = '\x7b') : Int) - (text.countP (· = '\x7d') : Int) := by
  induction text with
  | nil => rfl
  | cons c rest ih =>
      simp only [braces, List.map_cons, List.sum_cons, List.countP_cons] at ih ⊢
      rw [ih, braceValue]
      split
      · subst_vars
        simp
        omega
      · split
        · subst_vars
          simp
          omega
        · simp_all

end Counting

/-! ## Trimming -/

section Trimming

theorem trim_split (raw : String) :
    ∃ a b, raw.toList = a ++ ((Text.trim raw).toList ++ b) ∧
      (∀ c ∈ a, Text.isWhitespace c = true) ∧ ∀ c ∈ b, Text.isWhitespace c = true := by
  have hfront := List.takeWhile_append_dropWhile (p := Text.isWhitespace) (l := raw.toList)
  have hback := List.takeWhile_append_dropWhile (p := Text.isWhitespace)
    (l := (raw.toList.dropWhile Text.isWhitespace).reverse)
  refine ⟨raw.toList.takeWhile Text.isWhitespace,
    ((raw.toList.dropWhile Text.isWhitespace).reverse.takeWhile Text.isWhitespace).reverse,
    ?_, ?_, ?_⟩
  · rw [Text.trim, String.toList_ofList, ← List.reverse_append, hback,
      List.reverse_reverse, hfront]
  · exact fun c hc => List.mem_takeWhile_imp hc
  · exact fun c hc => List.mem_takeWhile_imp (List.mem_reverse.mp hc)

/-- A trimmed text does not begin with white space. -/
theorem head_of_trim
    {raw : String}
    {c : Char}
    {rest : List Char}
    (htrim : Text.trim raw = raw)
    (hraw : raw.toList = c :: rest) :
    Text.isWhitespace c = false := by
  by_contra hc
  have hdrop : raw.toList.dropWhile Text.isWhitespace = rest.dropWhile Text.isWhitespace := by
    rw [hraw, List.dropWhile_cons_of_pos (by simpa using hc)]
  have hlength : (Text.trim raw).toList.length ≤ rest.length := by
    rw [Text.trim, String.toList_ofList, List.length_reverse, hdrop]
    calc ((rest.dropWhile Text.isWhitespace).reverse.dropWhile Text.isWhitespace).length
        ≤ (rest.dropWhile Text.isWhitespace).reverse.length :=
          (List.dropWhile_sublist _).length_le
      _ = (rest.dropWhile Text.isWhitespace).length := List.length_reverse
      _ ≤ rest.length := (List.dropWhile_sublist _).length_le
  rw [htrim, hraw, List.length_cons] at hlength
  omega

end Trimming

/-! ## What the repair writes -/

section Repaired

variable {raw repaired : String}

/-- The characters after the trimmed text. -/
def completion (text : List Char) : List Char :=
  (if (Mark.outside.scan text).inString then ['"'] else []) ++
    List.replicate (braces text).toNat '\x7d'

theorem braces_quote (text : List Char) :
    braces (text ++ ['"']) = braces text := by
  rw [braces_append]
  exact Int.add_zero _

theorem countP_sub (text : List Char) :
    text.countP (· = '\x7b') - text.countP (· = '\x7d') = (braces text).toNat := by
  rw [braces_eq]
  omega

theorem toList_closed
    (trimmed : String)
    (unclosed : Bool) :
    (if unclosed then trimmed.push '"' else trimmed).toList =
        trimmed.toList ++ (if unclosed then ['"'] else []) ∧
      braces (if unclosed then trimmed.push '"' else trimmed).toList =
        braces trimmed.toList := by
  cases unclosed with
  | false => simp
  | true => exact ⟨String.toList_push .., by simp [braces_quote]⟩

theorem repairPartialJsonObject_eq (h : repairPartialJsonObject raw = some repaired) :
    (∃ rest, (Text.trim raw).toList = '\x7b' :: rest) ∧
      repaired.toList = (Text.trim raw).toList ++ completion (Text.trim raw).toList := by
  rw [repairPartialJsonObject] at h
  by_cases hstart : Text.startsWith "\x7b" (Text.trim raw) = true
  · rw [if_pos hstart] at h
    obtain ⟨rest, hrest⟩ := List.isPrefixOf_iff_prefix.mp hstart
    refine ⟨⟨rest, hrest.symm⟩, ?_⟩
    obtain ⟨htext, hbraces⟩ :=
      toList_closed (Text.trim raw) (hasUnclosedString (Text.trim raw))
    rw [← Option.some.inj h, String.toList_append, String.toList_ofList, countP_sub, hbraces,
      htext, completion, hasUnclosedString_eq, List.append_assoc]
  · rw [if_neg hstart] at h
    simp at h

theorem repairPartialJsonObject_isSome
    {rest : List Char}
    (h : (Text.trim raw).toList = '\x7b' :: rest) :
    (repairPartialJsonObject raw).isSome := by
  unfold repairPartialJsonObject
  have hstart : Text.startsWith "\x7b" (Text.trim raw) = true :=
    List.isPrefixOf_iff_prefix.mpr ⟨rest, by rw [h]; rfl⟩
  simp [hstart]

theorem completion_closes {c : Char} {text : List Char} (hc : c ∈ completion text) :
    c = '"' ∨ c = '\x7d' := by
  rcases List.mem_append.mp hc with hc | hc
  · split at hc
    · exact .inl (by simpa using hc)
    · simp at hc
  · exact .inr (List.eq_of_mem_replicate hc)

/-- A text that the repair goes on with was trimmed. -/
theorem trim_of_prefix
    (h : repairPartialJsonObject raw = some repaired)
    (hextends : raw.toList <+: repaired.toList) :
    Text.trim raw = raw := by
  obtain ⟨⟨rest, hrest⟩, hrepaired⟩ := repairPartialJsonObject_eq h
  obtain ⟨a, b, hsplit, ha, hb⟩ := trim_split raw
  rw [hsplit, hrepaired] at hextends
  have hfront : a = [] := by
    cases a with
    | nil => rfl
    | cons c tail =>
        have hc : c = '\x7b' := by
          rw [hrest] at hextends
          exact (List.cons_prefix_cons.mp hextends).1
        have hwhite := ha c (by simp)
        rw [hc] at hwhite
        exact absurd hwhite (by decide)
  have hback : b = [] := by
    rw [hfront, List.nil_append, List.prefix_append_right_inj] at hextends
    cases b with
    | nil => rfl
    | cons c tail =>
        have hwhite := hb c (by simp)
        rcases completion_closes (hextends.subset (by simp : c ∈ c :: tail)) with rfl | rfl
        · exact absurd hwhite (by decide)
        · exact absurd hwhite (by decide)
  rw [hfront, hback, List.nil_append, List.append_nil] at hsplit
  exact (String.toList_inj.mp hsplit).symm

end Repaired

/-! ## When the repair completes an object -/

section Completion

variable {validJson : String → Bool} {inRange : List Char → Prop} {raw : String}
variable {before : Blank} {cut : Cut}

/-- A valid text ends outside strings and closes every brace. -/
theorem outside_of_valid
    (hreads : ReadsJson validJson inRange)
    (h : validJson raw = true) :
    Outside raw.toList 0 := by
  obtain ⟨document, htext, -⟩ := (hreads raw).mp h
  rw [← htext]
  exact document.outside_text

theorem not_valid_of_cut
    (hreads : ReadsJson validJson inRange)
    (hraw : raw.toList = blankText before ++ cut.start) :
    validJson raw = false := by
  by_contra h
  have hbraces := (outside_of_valid hreads (by simpa using h)).2
  rw [hraw, (cut.scan_blank_start before).2] at hbraces
  have hlevel := cut.level_pos
  omega

/-- The completion of a cut closes it if the braces in strings cancel out. -/
theorem completion_cut :
    completion cut.start = (bif cut.inString then ['"'] else []) ++
      List.replicate (cut.level + quotedBraces Mark.outside cut.start).toNat '\x7d' := by
  obtain ⟨hscan, hbraces⟩ := cut.scan_start
  rw [completion, hscan, Cut.mark_inString, ← bareBraces_add_quotedBraces Mark.outside, hbraces]
  cases cut.inString <;> rfl

theorem quotedBraces_of_valid
    (hreads : ReadsJson validJson inRange)
    (hraw : raw.toList = cut.start ++ completion cut.start)
    (h : validJson raw = true) :
    quotedBraces Mark.outside cut.start = 0 := by
  have hbraces := (outside_of_valid hreads h).2
  rw [hraw, bareBraces_append, cut.scan_start.1, cut.scan_start.2, completion_cut,
    Cut.bareBraces_closing] at hbraces
  have hlevel := cut.level_pos
  omega

theorem completion_of_quotedBraces (h : quotedBraces Mark.outside cut.start = 0) :
    cut.start ++ completion cut.start = cut.closed.text := by
  rw [completion_cut, h, Cut.closed_text, Cut.closing, add_zero, Int.toNat_natCast]

/-- The object that ends at the cut, as a whole text. -/
def closedDocument (cut : Cut) : Document :=
  ⟨[], cut.closed, []⟩

theorem closedDocument_text (cut : Cut) : (closedDocument cut).text = cut.closed.text := by
  simp [closedDocument, Document.text, blankText]

theorem closedDocument_data (cut : Cut) : (closedDocument cut).value.data = cut.received :=
  cut.closed_data

/-- A trimmed text has no blanks before the object. -/
theorem before_eq_nil
    (htrim : Text.trim raw = raw)
    (hraw : raw.toList = blankText before ++ cut.start) :
    raw.toList = cut.start := by
  cases before with
  | nil => exact hraw
  | cons c rest =>
      have hwhite := head_of_trim htrim hraw
      rcases c.2 with hc | hc | hc | hc <;> rw [hc] at hwhite <;> exact absurd hwhite (by decide)

theorem repairText_of_completed
    {repaired : String}
    (hne : raw ≠ "")
    (hnot : validJson raw = false)
    (hmade : repairPartialJsonObject raw = some repaired) :
    repairText validJson raw = if validJson repaired then repaired else raw := by
  rw [repairText, if_neg hne, hnot, hmade]
  rfl

theorem ne_empty_of_cut (hraw : raw.toList = blankText before ++ cut.start) : raw ≠ "" := by
  rintro rfl
  obtain ⟨rest, hrest⟩ := cut.start_head
  simp [hrest] at hraw

/-- The repair of a cut off text when it is trimmed. -/
theorem repairText_of_trim
    (hreads : ReadsJson validJson inRange)
    (htrim : Text.trim raw = raw)
    (hraw : raw.toList = cut.start) :
    ∃ repaired : String, repaired.toList = cut.start ++ completion cut.start ∧
      repairText validJson raw = if validJson repaired then repaired else raw := by
  have hcut : raw.toList = blankText [] ++ cut.start := hraw
  obtain ⟨rest, hrest⟩ := cut.start_head
  have hhead : (Text.trim raw).toList = '\x7b' :: rest := by rw [htrim, hraw, hrest]
  obtain ⟨repaired, hmade⟩ :=
    Option.isSome_iff_exists.mp (repairPartialJsonObject_isSome hhead)
  have htext := (repairPartialJsonObject_eq hmade).2
  rw [htrim, hraw] at htext
  exact ⟨repaired, htext, repairText_of_completed (ne_empty_of_cut hcut)
    (not_valid_of_cut hreads hcut) hmade⟩

theorem repairText_cases
    (validJson : String → Bool)
    (raw : String) :
    repairText validJson raw = raw ∨ raw = "" ∨
      ∃ repaired, repairPartialJsonObject raw = some repaired ∧ validJson repaired = true ∧
        repairText validJson raw = repaired := by
  by_cases hempty : raw = ""
  · exact .inr (.inl hempty)
  cases hvalid : validJson raw with
  | true => exact .inl (by rw [repairText, if_neg hempty, hvalid, if_pos rfl])
  | false =>
      cases hmade : repairPartialJsonObject raw with
      | none =>
          refine .inl ?_
          rw [repairText, if_neg hempty, hvalid, hmade]
          rfl
      | some repaired =>
          rw [repairText_of_completed hempty hvalid hmade]
          by_cases hcompleted : validJson repaired = true
          · exact .inr (.inr ⟨repaired, rfl, hcompleted, if_pos hcompleted⟩)
          · exact .inl (if_neg hcompleted)

/-- What the repair completes was trimmed, and its strings close their braces. -/
theorem condition_of_completes
    (hreads : ReadsJson validJson inRange)
    (hraw : raw.toList = blankText before ++ cut.start)
    (h : Completes validJson cut.received raw (repairText validJson raw)) :
    Text.trim raw = raw ∧ quotedBraces Mark.outside raw.toList = 0 ∧
      Accepted inRange cut.received := by
  have hnot := not_valid_of_cut hreads hraw
  obtain hsame | hempty | ⟨repaired, hmade, hvalid, heq⟩ := repairText_cases validJson raw
  · have hvalid := h.valid
    rw [hsame, hnot] at hvalid
    exact absurd hvalid (by simp)
  · exact absurd hempty (ne_empty_of_cut hraw)
  · have htrim : Text.trim raw = raw := trim_of_prefix hmade (heq ▸ h.extends_raw)
    have hstart := before_eq_nil htrim hraw
    have htext := (repairPartialJsonObject_eq hmade).2
    rw [htrim, hstart] at htext
    have hquoted := quotedBraces_of_valid hreads htext hvalid
    refine ⟨htrim, hstart ▸ hquoted, ?_⟩
    -- The completed text is the text of the closed object, and has no other reading.
    obtain ⟨document, hdocument, haccepted⟩ := (hreads repaired).mp hvalid
    have hsame : document.text = (closedDocument cut).text := by
      rw [hdocument, htext, completion_of_quotedBraces hquoted, closedDocument_text]
    rw [← closedDocument_data, ← Document.data_unique hsame]
    exact haccepted

theorem completes_of_condition
    (hreads : ReadsJson validJson inRange)
    (hraw : raw.toList = blankText before ++ cut.start)
    (htrim : Text.trim raw = raw)
    (hquoted : quotedBraces Mark.outside raw.toList = 0)
    (haccepted : Accepted inRange cut.received) :
    Completes validJson cut.received raw (repairText validJson raw) := by
  have hstart := before_eq_nil htrim hraw
  rw [hstart] at hquoted
  obtain ⟨repaired, htext, heq⟩ := repairText_of_trim hreads htrim hstart
  have hdocument : (closedDocument cut).text = repaired.toList := by
    rw [htext, completion_of_quotedBraces hquoted, closedDocument_text]
  have hvalid : validJson repaired = true :=
    (hreads repaired).mpr ⟨closedDocument cut, hdocument, closedDocument_data cut ▸ haccepted⟩
  rw [heq, if_pos hvalid]
  refine ⟨hvalid, ?_, closedDocument cut, hdocument, closedDocument_data cut⟩
  rw [hstart, htext]
  exact List.prefix_append _ _

end Completion

/-! ## The repair of any text -/

section AnyText

variable {validJson : String → Bool} {inRange : List Char → Prop}

theorem not_valid_empty (hreads : ReadsJson validJson inRange) : validJson "" = false := by
  by_contra h
  obtain ⟨document, htext, -⟩ := (hreads "").mp (by simpa using h)
  obtain ⟨c, rest, hvalue, -⟩ := document.value.text_head
  simp [Document.text, hvalue] at htext

theorem valid_emptyObject (hreads : ReadsJson validJson inRange) :
    validJson "\x7b\x7d" = true :=
  (hreads _).mpr ⟨⟨[], .object [] [], []⟩, rfl, by decide, trivial⟩

theorem repairText_of_valid
    {raw : String}
    (hreads : ReadsJson validJson inRange)
    (h : validJson raw = true) :
    repairText validJson raw = raw := by
  have hne : raw ≠ "" := by
    rintro rfl
    simp [not_valid_empty hreads] at h
  rw [repairText, if_neg hne, if_pos h]

theorem repairText_same_or_valid
    (hreads : ReadsJson validJson inRange)
    (raw : String) :
    repairText validJson raw = raw ∨ validJson (repairText validJson raw) = true := by
  obtain hsame | rfl | ⟨repaired, -, hvalid, heq⟩ := repairText_cases validJson raw
  · exact .inl hsame
  · exact .inr (valid_emptyObject hreads)
  · exact .inr (heq ▸ hvalid)

theorem repairText_idempotent
    (hreads : ReadsJson validJson inRange)
    (raw : String) :
    repairText validJson (repairText validJson raw) = repairText validJson raw := by
  rcases repairText_same_or_valid hreads raw with hsame | hvalid
  · rw [hsame, hsame]
  · exact repairText_of_valid hreads hvalid

end AnyText

/-- The repair of an object text that breaks off gives the object as it was received exactly
if the text is trimmed, the braces in its strings cancel out and the object is within the
reader's limits.  Valid texts stay, others stay or become valid, and a second repair changes
nothing. -/
theorem repair_completes_iff
    {validJson : String → Bool}
    {inRange : List Char → Prop}
    (hreads : ReadsJson validJson inRange) :
    (∀ document cut raw, CutsOff document cut raw →
      ((∃ result, repairStringV1 validJson (.str raw) = .str result ∧
          Completes validJson cut.received raw result) ↔
        Text.trim raw = raw ∧ quotedBraces Mark.outside raw.toList = 0 ∧
          Accepted inRange cut.received)) ∧
    (∀ raw, validJson raw = true → repairStringV1 validJson (.str raw) = .str raw) ∧
    (∀ raw, repairStringV1 validJson (.str raw) = .str raw ∨
      ∃ result, repairStringV1 validJson (.str raw) = .str result ∧
        validJson result = true) ∧
    ∀ args, repairStringV1 validJson (repairStringV1 validJson args) =
      repairStringV1 validJson args := by
  refine ⟨fun document cut raw hcut => ⟨?_, ?_⟩, ?_, ?_, ?_⟩
  · rintro ⟨result, heq, hcompletes⟩
    obtain rfl : repairText validJson raw = result := Json.str.inj heq
    exact condition_of_completes hreads hcut.start hcompletes
  · rintro ⟨htrim, hquoted, haccepted⟩
    exact ⟨_, rfl, completes_of_condition hreads hcut.start htrim hquoted haccepted⟩
  · exact fun raw h => congrArg Json.str (repairText_of_valid hreads h)
  · intro raw
    rcases repairText_same_or_valid hreads raw with hsame | hvalid
    · exact .inl (congrArg Json.str hsame)
    · exact .inr ⟨_, rfl, hvalid⟩
  · intro args
    cases args with
    | str raw => exact congrArg Json.str (repairText_idempotent hreads raw)
    | _ => rfl

/-! ## Two texts -/

open scoped Classical in
/-- A reader whose numbers are all in range. -/
noncomputable def unboundedReader (text : String) : Bool :=
  decide (∃ document : Document, document.text = text.toList ∧
    Accepted (fun _ => True) document.value.data)

theorem unboundedReader_reads : ReadsJson unboundedReader fun _ => True := by
  intro text
  simp [unboundedReader]

def plainItem (c : Char) (h : 0x20 ≤ c.toNat ∧ c ≠ '"' ∧ c ≠ '\\') : Item :=
  .plain ⟨c, h⟩

/-- The one member of an object without blanks. -/
def onlyMember (key : List Item) : Frame :=
  ⟨[], [], ⟨[], key, [], [], []⟩, []⟩

/-- In the value of `path`, after one character. -/
def cutPath : Cut :=
  .string
    (onlyMember [plainItem 'p' (by decide), plainItem 'a' (by decide), plainItem 't' (by decide),
      plainItem 'h' (by decide)])
    [plainItem '中' (by decide)] [plainItem '.' (by decide)]

theorem repair_completes_path :
    ∃ result, repairStringV1 unboundedReader (.str "\x7b\"path\":\"中") = .str result ∧
      Completes unboundedReader cutPath.received "\x7b\"path\":\"中" result := by
  refine ((repair_completes_iff unboundedReader_reads).1 ⟨[], cutPath.whole, []⟩ cutPath _
    ⟨rfl, ?_⟩).mpr ⟨?_, ?_, ?_, ?_⟩
  · decide +kernel
  · decide +kernel
  · decide +kernel
  · decide +kernel
  · exact ⟨trivial, trivial⟩

/-- In a value that has an opening brace, and text after it. -/
def cutBrace : Cut :=
  .string (onlyMember [plainItem 'a' (by decide)]) [plainItem '\x7b' (by decide)]
    [plainItem '\x7d' (by decide)]

/-- A brace in a string is counted like one outside, and the object stays cut off. -/
theorem brace_in_string_not_completed :
    CutsOff ⟨[], cutBrace.whole, []⟩ cutBrace "\x7b\"a\":\"\x7b" ∧
      unboundedReader "\x7b\"a\":\"\x7b\x7d\"\x7d" = true ∧
      ¬ ∃ result, repairStringV1 unboundedReader (.str "\x7b\"a\":\"\x7b") = .str result ∧
        Completes unboundedReader cutBrace.received "\x7b\"a\":\"\x7b" result := by
  have hcut : CutsOff ⟨[], cutBrace.whole, []⟩ cutBrace "\x7b\"a\":\"\x7b" :=
    ⟨rfl, by decide +kernel⟩
  refine ⟨hcut, ?_, ?_⟩
  · refine (unboundedReader_reads _).mpr ⟨⟨[], cutBrace.whole, []⟩, ?_, ?_, ?_⟩
    · decide +kernel
    · decide +kernel
    · exact ⟨trivial, trivial⟩
  · rintro ⟨result, heq, hcompletes⟩
    obtain rfl : repairText unboundedReader _ = result := Json.str.inj heq
    have hquoted := (condition_of_completes unboundedReader_reads hcut.start hcompletes).2.1
    revert hquoted
    decide +kernel

end ArgumentRepair
end Tools
end FutureOs
