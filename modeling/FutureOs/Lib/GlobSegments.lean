import FutureOs.Lib.Glob
import Mathlib.Data.List.Forall2
import Mathlib.Data.List.TakeWhile

/-!
# Globs, segment by segment

Without `**` a glob matches a path segment by segment.  So does what is in front of the
first segment with `**`; from there on the rest of the path is matched as one text.

* `isMatch_slashed`: the segments in front match names, and the rest matches the rest;
* `splitOn_slashed`: which names these are is read off the slashes of the text.
-/

namespace FutureOs
namespace Glob

/-- Two stars in a row. -/
def hasDouble : List Char → Bool
  | '*' :: '*' :: _ => true
  | _ :: rest => hasDouble rest
  | [] => false

/-- Tokens that stay inside a segment. -/
def InSegment (tokens : List Token) : Prop :=
  ∀ token ∈ tokens, token ≠ .anything ∧ token ≠ .literal '/'

theorem hasDouble_cons_of_ne
    {c : Char}
    {rest : List Char}
    (h : ∀ more, c :: rest ≠ '*' :: '*' :: more) :
    hasDouble (c :: rest) = hasDouble rest := by
  rw [hasDouble]
  intro more hc hrest
  exact h more (by rw [hc, hrest])

theorem hasDouble_tail
    {c : Char}
    {rest : List Char}
    (h : hasDouble (c :: rest) = false) :
    hasDouble rest = false := by
  rw [hasDouble_cons_of_ne] at h
  · exact h
  · intro more heq
    rw [heq] at h
    cases h

theorem tokens_inSegment
    {segment : List Char}
    (hslash : '/' ∉ segment)
    (hdouble : hasDouble segment = false) :
    InSegment (tokens segment) := by
  induction segment using tokens.induct with
  | case1 =>
      intro token htoken
      cases htoken
  | case2 pattern ih =>
      cases hdouble
  | case3 pattern h ih =>
      cases hdouble
  | case4 pattern hstar hslashed ih =>
      rw [tokens]
      · intro token htoken
        rcases List.mem_cons.1 htoken with rfl | htoken
        · exact ⟨by simp, by simp⟩
        · exact ih (fun h => hslash (List.mem_cons_of_mem _ h)) (hasDouble_tail hdouble)
            token htoken
      all_goals assumption
  | case5 pattern ih =>
      intro token htoken
      rcases List.mem_cons.1 htoken with rfl | htoken
      · exact ⟨by simp, by simp⟩
      · exact ih (fun h => hslash (List.mem_cons_of_mem _ h)) (hasDouble_tail hdouble)
          token htoken
  | case6 c pattern h1 h2 h3 h4 ih =>
      rw [tokens]
      · intro token htoken
        rcases List.mem_cons.1 htoken with rfl | htoken
        · refine ⟨by simp, fun heq => hslash ?_⟩
          cases heq
          exact List.mem_cons_self
        · exact ih (fun h => hslash (List.mem_cons_of_mem _ h)) (hasDouble_tail hdouble)
            token htoken
      all_goals assumption

/-- A slash ends a segment, and the tokens before it. -/
theorem tokens_append_slash
    {segment : List Char}
    (hdouble : hasDouble segment = false)
    (rest : List Char) :
    tokens (segment ++ '/' :: rest) = tokens segment ++ .literal '/' :: tokens rest := by
  induction segment using tokens.induct with
  | case1 =>
      rfl
  | case2 pattern ih =>
      cases hdouble
  | case3 pattern h ih =>
      cases hdouble
  | case4 pattern hstar hslashed ih =>
      have hnext : ∀ more, pattern ++ '/' :: rest ≠ '*' :: more := by
        intro more heq
        cases pattern with
        | nil => cases heq
        | cons c pattern =>
            obtain ⟨rfl, -⟩ := List.cons.inj heq
            cases hdouble
      have hleft : tokens ('*' :: pattern) = .segment :: tokens pattern := by
        rw [tokens]
        all_goals assumption
      have hright : tokens ('*' :: (pattern ++ '/' :: rest)) =
          .segment :: tokens (pattern ++ '/' :: rest) := by
        rw [tokens]
        · exact fun more heq => hnext _ heq
        · exact fun more heq => hnext _ heq
      rw [hleft, List.cons_append, hright, ih (hasDouble_tail hdouble)]
      rfl
  | case5 pattern ih =>
      rw [List.cons_append, tokens, ih (hasDouble_tail hdouble)]
      rfl
  | case6 c pattern h1 h2 h3 h4 ih =>
      have htokens : ∀ text, tokens (c :: text) = .literal c :: tokens text := by
        intro text
        rw [tokens]
        · exact fun more hc => absurd hc h3
        · exact fun more hc => absurd hc h3
        · exact h3
        · exact h4
      rw [List.cons_append, htokens, htokens, ih (hasDouble_tail hdouble)]
      rfl

/-! ## What is inside a segment -/

theorem segmentRest_iff
    (rest : List Char → Bool)
    (text : List Char) :
    segmentRest rest text = true ↔
      ∃ front back, front ++ back = text ∧ '/' ∉ front ∧ rest back = true := by
  induction text with
  | nil =>
      constructor
      · intro h
        exact ⟨[], [], rfl, by simp, h⟩
      · rintro ⟨front, back, heq, -, hback⟩
        obtain ⟨-, rfl⟩ := List.append_eq_nil_iff.1 heq
        exact hback
  | cons c text ih =>
      rw [segmentRest, Bool.or_eq_true, Bool.and_eq_true, ih]
      constructor
      · rintro (h | ⟨hc, front, back, rfl, hfront, hback⟩)
        · exact ⟨[], c :: text, rfl, by simp, h⟩
        · refine ⟨c :: front, back, rfl, ?_, hback⟩
          have hne : c ≠ '/' := by simpa using hc
          simp [hfront, hne.symm]
      · rintro ⟨front, back, heq, hfront, hback⟩
        cases front with
        | nil =>
            left
            rwa [← show back = c :: text from heq]
        | cons d front =>
            obtain ⟨rfl, htail⟩ := List.cons.inj heq
            obtain ⟨hd, hfront⟩ := not_or.1 (mt List.mem_cons.2 hfront)
            exact .inr ⟨by simpa using Ne.symm hd, front, back, htail, hfront, hback⟩

theorem oneThen_iff
    (p : Char → Bool)
    (rest : List Char → Bool)
    (text : List Char) :
    oneThen p rest text = true ↔
      ∃ c back, c :: back = text ∧ p c = true ∧ rest back = true := by
  cases text with
  | nil =>
      simp [oneThen]
  | cons c text =>
      rw [oneThen, Bool.and_eq_true]
      constructor
      · rintro ⟨hc, hrest⟩
        exact ⟨c, text, rfl, hc, hrest⟩
      · rintro ⟨d, back, heq, hd, hback⟩
        obtain ⟨rfl, rfl⟩ := List.cons.inj heq
        exact ⟨hd, hback⟩

/-- One character that is not a slash, in front of what is behind it. -/
theorem oneThen_append
    {p : Char → Bool}
    (hp : p '/' = false)
    {front both back : List Char → Bool}
    (ih : ∀ text, both text = true ↔
      ∃ name rest, name ++ rest = text ∧ '/' ∉ name ∧ front name = true ∧ back rest = true)
    (text : List Char) :
    oneThen p both text = true ↔
      ∃ name rest, name ++ rest = text ∧ '/' ∉ name ∧ oneThen p front name = true ∧
        back rest = true := by
  rw [oneThen_iff]
  constructor
  · rintro ⟨c, more, rfl, hc, hboth⟩
    obtain ⟨name, rest, rfl, hname, hfront, hback⟩ := (ih more).1 hboth
    have hne : '/' ≠ c := by
      rintro rfl
      rw [hp] at hc
      cases hc
    exact ⟨c :: name, rest, rfl, by simp [hne, hname],
      (oneThen_iff p front _).2 ⟨c, name, rfl, hc, hfront⟩, hback⟩
  · rintro ⟨name, rest, rfl, hname, hone, hback⟩
    obtain ⟨c, name, rfl, hc, hfront⟩ := (oneThen_iff p front _).1 hone
    exact ⟨c, name ++ rest, rfl, hc, (ih _).2 ⟨name, rest, rfl,
      fun h => hname (List.mem_cons_of_mem _ h), hfront, hback⟩⟩

/-- Tokens that stay inside a segment take a text without a slash. -/
theorem accepts_append_iff
    {front : List Token}
    (hfront : InSegment front)
    (back : List Token)
    (text : List Char) :
    accepts (front ++ back) text = true ↔
      ∃ name rest, name ++ rest = text ∧ '/' ∉ name ∧ accepts front name = true ∧
        accepts back rest = true := by
  induction front generalizing text with
  | nil =>
      constructor
      · intro h
        exact ⟨[], text, rfl, by simp, rfl, h⟩
      · rintro ⟨name, rest, rfl, -, hname, hrest⟩
        rw [List.isEmpty_iff.1 hname]
        exact hrest
  | cons token front ih =>
      have hrest := ih fun other hother => hfront other (List.mem_cons_of_mem _ hother)
      cases token with
      | anything => exact absurd rfl (hfront _ List.mem_cons_self).1
      | segment =>
          rw [List.cons_append, accepts, segmentRest_iff]
          constructor
          · rintro ⟨before, more, rfl, hbefore, hmore⟩
            obtain ⟨name, rest, rfl, hname, hfront, hback⟩ := (hrest more).1 hmore
            refine ⟨before ++ name, rest, List.append_assoc .., by simp [hbefore, hname],
              ?_, hback⟩
            exact (segmentRest_iff _ _).2 ⟨before, name, rfl, hbefore, hfront⟩
          · rintro ⟨name, rest, rfl, hname, hsegment, hback⟩
            obtain ⟨before, name, rfl, hbefore, hfront⟩ := (segmentRest_iff _ _).1 hsegment
            refine ⟨before, name ++ rest, (List.append_assoc ..).symm, hbefore, ?_⟩
            exact (hrest _).2 ⟨name, rest, rfl, fun h => hname (List.mem_append_right _ h),
              hfront, hback⟩
      | one => exact oneThen_append (by decide) hrest text
      | literal c =>
          have hc : c ≠ '/' := fun heq =>
            (hfront _ List.mem_cons_self).2 (congrArg Token.literal heq)
          exact oneThen_append (by simpa using hc.symm) hrest text

/-- A segment without `**` accepts no slash. -/
theorem notMem_of_isMatch
    {segment name : List Char}
    (hslash : '/' ∉ segment)
    (hdouble : hasDouble segment = false)
    (h : isMatch segment name = true) :
    '/' ∉ name := by
  have happend := (accepts_append_iff (tokens_inSegment hslash hdouble) [] name).1
    (by rwa [List.append_nil])
  obtain ⟨front, rest, rfl, hfront, -, hrest⟩ := happend
  rw [List.isEmpty_iff.1 hrest, List.append_nil]
  exact hfront

/-- Two stars are stars. -/
theorem star_mem_of_hasDouble
    {segment : List Char}
    (h : hasDouble segment = true) :
    '*' ∈ segment := by
  induction segment using hasDouble.induct with
  | case1 rest =>
      exact List.mem_cons_self
  | case2 c rest hstar ih =>
      rw [hasDouble_cons_of_ne fun more heq => hstar more (List.cons.inj heq).1
        (List.cons.inj heq).2] at h
      exact List.mem_cons_of_mem _ (ih h)
  | case3 =>
      cases h

/-- A pattern without `*` and `?` matches itself. -/
theorem eq_of_isMatch
    {pattern text : List Char}
    (hpattern : ∀ c ∈ pattern, c ≠ '*' ∧ c ≠ '?')
    (h : isMatch pattern text = true) :
    pattern = text := by
  induction pattern generalizing text with
  | nil =>
      exact (List.isEmpty_iff.1 h).symm
  | cons c pattern ih =>
      obtain ⟨hc, hrest⟩ := List.forall_mem_cons.1 hpattern
      have htokens : tokens (c :: pattern) = .literal c :: tokens pattern := by
        rw [tokens]
        · exact fun _ heq => absurd heq hc.1
        · exact fun _ heq => absurd heq hc.1
        · exact hc.1
        · exact hc.2
      rw [isMatch, htokens, accepts, oneThen_iff] at h
      obtain ⟨d, back, rfl, hd, hback⟩ := h
      rw [of_decide_eq_true hd, ih hrest hback]

/-! ## Segments in front of a text -/

/-- Segments, each with a slash behind it, in front of a text. -/
def slashed (segments : List (List Char)) (text : List Char) : List Char :=
  segments.foldr (fun segment rest => segment ++ '/' :: rest) text

theorem intercalate_append
    (front : List (List Char))
    {back : List (List Char)}
    (hback : back ≠ []) :
    ['/'].intercalate (front ++ back) = slashed front (['/'].intercalate back) := by
  induction front with
  | nil =>
      rfl
  | cons segment front ih =>
      rw [List.cons_append, List.intercalate_cons_of_ne_nil (by simp [hback]), ih]
      simp [slashed]

theorem splitOn_slashed
    {names : List (List Char)}
    (hnames : ∀ name ∈ names, '/' ∉ name)
    (text : List Char) :
    (slashed names text).splitOn '/' = names ++ text.splitOn '/' := by
  induction names with
  | nil =>
      rfl
  | cons name names ih =>
      have hrest := ih fun other hother => hnames other (List.mem_cons_of_mem _ hother)
      exact (List.splitOn_append_cons_self_of_not_mem (hnames name List.mem_cons_self) _).trans
        (congrArg (name :: ·) hrest)

theorem notMem_of_mem_splitOn
    {text segment : List Char}
    (h : segment ∈ text.splitOn '/') :
    '/' ∉ segment := by
  induction text generalizing segment with
  | nil =>
      rw [List.splitOn_nil, List.mem_singleton] at h
      simp [h]
  | cons c text ih =>
      rw [List.splitOn_cons_eq_if_modifyHead] at h
      split at h
      case isTrue =>
        rcases List.mem_cons.1 h with rfl | h
        · simp
        · exact ih h
      case isFalse hc =>
        cases hsplit : text.splitOn '/' with
        | nil => exact absurd hsplit (List.splitOn_ne_nil _ _)
        | cons first rest =>
            rw [hsplit] at h ih
            rcases List.mem_cons.1 h with rfl | h
            · have hfirst := ih List.mem_cons_self
              have hne : '/' ≠ c := fun heq => hc (beq_iff_eq.2 heq.symm)
              simp [hne, hfirst]
            · exact ih (List.mem_cons_of_mem _ h)

/--
Segments without `**` match names, one each, and what is behind them matches the rest of
the text.
-/
theorem isMatch_slashed
    {front : List (List Char)}
    (hslash : ∀ segment ∈ front, '/' ∉ segment)
    (hdouble : ∀ segment ∈ front, hasDouble segment = false)
    (back text : List Char) :
    isMatch (slashed front back) text = true ↔
      ∃ names rest, slashed names rest = text ∧ (∀ name ∈ names, '/' ∉ name) ∧
        List.Forall₂ (fun segment name => isMatch segment name = true) front names ∧
        isMatch back rest = true := by
  induction front generalizing text with
  | nil =>
      constructor
      · intro h
        exact ⟨[], text, rfl, by simp, .nil, h⟩
      · rintro ⟨names, rest, rfl, -, hforall, hrest⟩
        cases hforall
        exact hrest
  | cons segment front ih =>
      have hfront := ih (fun other hother => hslash other (List.mem_cons_of_mem _ hother))
        fun other hother => hdouble other (List.mem_cons_of_mem _ hother)
      have hsegment := tokens_inSegment (hslash segment List.mem_cons_self)
        (hdouble segment List.mem_cons_self)
      show isMatch (segment ++ '/' :: slashed front back) text = true ↔ _
      rw [isMatch, tokens_append_slash (hdouble segment List.mem_cons_self),
        accepts_append_iff hsegment]
      constructor
      · rintro ⟨name, more, rfl, hname, hmatch, hmore⟩
        obtain ⟨c, more, rfl, hc, hmore⟩ := (oneThen_iff _ _ _).1 hmore
        obtain rfl : c = '/' := by simpa using hc
        obtain ⟨names, rest, rfl, hnames, hforall, hback⟩ := (hfront more).1 hmore
        exact ⟨name :: names, rest, rfl, by simpa [hname] using hnames,
          .cons hmatch hforall, hback⟩
      · rintro ⟨names, rest, rfl, hnames, hforall, hback⟩
        cases hforall with
        | cons hmatch hforall =>
            rename_i name names
            obtain ⟨hname, hnames⟩ := List.forall_mem_cons.1 hnames
            exact ⟨name, '/' :: slashed names rest, rfl, hname, hmatch,
              (oneThen_iff _ _ _).2 ⟨'/', _, rfl, by decide,
                (hfront _).2 ⟨names, rest, rfl, hnames, hforall, hback⟩⟩⟩

/-! ## Patterns and paths as their segments -/

/-- The segments in front of the first one with `**`. -/
def finitePart (segments : List (List Char)) : List (List Char) :=
  segments.takeWhile fun segment => !hasDouble segment

theorem hasDouble_of_mem_finitePart
    {segments : List (List Char)}
    {segment : List Char}
    (h : segment ∈ finitePart segments) :
    hasDouble segment = false := by
  simpa using List.mem_takeWhile_imp h

/-- Without `**`, a glob matches a path segment by segment. -/
theorem forall₂_of_isMatch
    {segments names : List (List Char)}
    (hsegments : ∀ segment ∈ segments, '/' ∉ segment ∧ hasDouble segment = false)
    (hnonempty : segments ≠ [])
    (hnames : ∀ name ∈ names, '/' ∉ name)
    (hsome : names ≠ [])
    (h : isMatch (['/'].intercalate segments) (['/'].intercalate names) = true) :
    List.Forall₂ (fun segment name => isMatch segment name = true) segments names := by
  obtain ⟨front, last, rfl⟩ := (List.eq_nil_or_concat segments).resolve_left hnonempty
  rw [List.concat_eq_append] at hsegments h ⊢
  obtain ⟨hfront, hlast⟩ := List.forall_mem_append.1 hsegments
  rw [intercalate_append front (List.cons_ne_nil last []), List.intercalate_singleton,
    isMatch_slashed (fun s hs => (hfront s hs).1) fun s hs => (hfront s hs).2] at h
  obtain ⟨found, rest, htext, hfound, hforall, hrest⟩ := h
  have hslash := notMem_of_isMatch (hlast last List.mem_cons_self).1
    (hlast last List.mem_cons_self).2 hrest
  have hsplit := congrArg (List.splitOn '/') htext
  rw [splitOn_slashed hfound, List.splitOn_intercalate _ hnames hsome,
    List.splitOn_eq_singleton hslash] at hsplit
  subst hsplit
  exact List.rel_append hforall (.cons hrest .nil)

/-- In front of `**`, a glob matches the names of a path segment by segment. -/
theorem forall₂_front_of_isMatch
    {front back names : List (List Char)}
    (hfront : ∀ segment ∈ front, '/' ∉ segment ∧ hasDouble segment = false)
    (hback : back ≠ [])
    (hnames : ∀ name ∈ names, '/' ∉ name)
    (hsome : names ≠ [])
    (h : isMatch (['/'].intercalate (front ++ back)) (['/'].intercalate names) = true) :
    front.length < names.length ∧
      List.Forall₂ (fun segment name => isMatch segment name = true) front
        (names.take front.length) := by
  rw [intercalate_append front hback, isMatch_slashed (fun s hs => (hfront s hs).1)
    fun s hs => (hfront s hs).2] at h
  obtain ⟨found, rest, htext, hfound, hforall, -⟩ := h
  have hsplit := congrArg (List.splitOn '/') htext
  rw [splitOn_slashed hfound, List.splitOn_intercalate _ hnames hsome] at hsplit
  have hlength := hforall.length_eq
  subst hsplit
  rw [hlength, List.take_left]
  refine ⟨?_, hforall⟩
  rw [List.length_append]
  have hpos := List.length_pos_of_ne_nil (List.splitOn_ne_nil '/' rest)
  omega

/-- Segments that match names, joined by slashes, match the names joined by slashes. -/
theorem isMatch_of_forall₂
    {segments names : List (List Char)}
    (hsegments : ∀ segment ∈ segments, '/' ∉ segment ∧ hasDouble segment = false)
    (hnames : ∀ name ∈ names, '/' ∉ name)
    (h : List.Forall₂ (fun segment name => isMatch segment name = true) segments names) :
    isMatch (['/'].intercalate segments) (['/'].intercalate names) = true := by
  induction h with
  | nil =>
      rfl
  | @cons segment name segments names hmatch hforall ih =>
      obtain ⟨hsegment, hsegments⟩ := List.forall_mem_cons.1 hsegments
      obtain ⟨hname, hnames⟩ := List.forall_mem_cons.1 hnames
      cases hforall with
      | nil =>
          rw [List.intercalate_singleton, List.intercalate_singleton]
          exact hmatch
      | cons hnext hforall =>
          rw [List.intercalate_cons_of_ne_nil (List.cons_ne_nil _ _),
            List.intercalate_cons_of_ne_nil (List.cons_ne_nil _ _)]
          have hrest := ih hsegments hnames
          have hslashed := (@isMatch_slashed [segment]
            (by simpa using hsegment.1) (by simpa using hsegment.2) _ _).2
            ⟨[name], _, rfl, by simpa using hname, .cons hmatch .nil, hrest⟩
          simpa [slashed] using hslashed

end Glob
end FutureOs
