import FutureOs.Lib.AsciiCase
import FutureOs.Lib.Glob
import FutureOs.Lib.Regex

/-!
# The matchers a glob is turned into

Two functions write a glob as a regular expression: `build_glob_regex` of
`sandbox/rules.rs` for the rule engine, `compile_matcher` of
`sandbox/linux/glob_scan.rs` for the scan.  They differ in the anchors, in how they
write any text, and in which characters they escape.  A third one, `glob_matches` of
`sandbox/linux/plan.rs`, recurses over the pattern itself and remembers what it found.

The regular expression engine is not part of the repository.  `RegexCrate` is what the
matchers call, and `RegexCrate.Documented` what they rely on.
-/

namespace FutureOs
namespace Sandbox

open Regex (Atom Item Expr)

/-! ## The engine -/

structure RegexCrate where
  /-- `RegexBuilder::build`, with the flag for case and the text of the expression. -/
  build : Bool → List Char → Except String (List Char → Bool)
  /-- `regex::escape` of one character. -/
  escape : Char → List Char
  /-- Simple case folding. -/
  fold : Char → Char

namespace RegexCrate

/-- Which character of a text a written one stands for. -/
def same (crate : RegexCrate) (caseInsensitive : Bool) (a b : Char) : Bool :=
  if caseInsensitive then crate.fold a = crate.fold b else a = b

/--
Without other flags `^` and `\A` are the start of the text and `$` and `\z` its end.  An
escaped character stands for itself, and no other character folds to a slash.
-/
structure Documented (crate : RegexCrate) : Prop where
  lines : ∀ caseInsensitive, Regex.Documented (crate.build caseInsensitive)
    (crate.same caseInsensitive) ['^'] ['$']
  texts : ∀ caseInsensitive, Regex.Documented (crate.build caseInsensitive)
    (crate.same caseInsensitive) ['\\', 'A'] ['\\', 'z']
  escape : ∀ c, c ∉ Regex.metas ∧ crate.escape c = [c] ∨
    c ∈ Regex.escapable ∧ crate.escape c = ['\\', c]
  slash : ∀ c, crate.fold '/' = crate.fold c ↔ c = '/'

end RegexCrate

/-! ## The expressions -/

/-- `(.|\n)*`, with the newline itself. -/
def anyGroup : List Char := ['(', '.', '|', '\n', ')', '*']

/-- `(?s:.*)`. -/
def anyFlag : List Char := ['(', '?', 's', ':', '.', '*', ')']

/-- `[^/]*`. -/
def inSegment : List Char := ['[', '^', '/', ']', '*']

/-- `[^/]`. -/
def noSlash : List Char := ['[', '^', '/', ']']

/-- The body of the loop of `build_glob_regex`. -/
def globExpression : List Char → List Char
  | [] => []
  | '*' :: '*' :: '/' :: glob => anyGroup ++ globExpression glob
  | '*' :: '*' :: glob => anyGroup ++ globExpression glob
  | '*' :: glob => inSegment ++ globExpression glob
  | '?' :: glob => noSlash ++ globExpression glob
  | c :: glob =>
      if c ∈ ['.', '+', '(', ')', '|', '[', ']', '{', '}', '^', '$', '\\'] then
        '\\' :: c :: globExpression glob
      else
        c :: globExpression glob

/-- `build_glob_regex`; where the engine fails, the source panics. -/
def buildGlobRegex
    (crate : RegexCrate)
    (caseInsensitive : Bool)
    (glob : List Char) : Except String (List Char → Bool) :=
  crate.build caseInsensitive (['^'] ++ globExpression glob ++ ['$'])

/-- The body of the loop of `compile_matcher`. -/
def matcherExpression (escape : Char → List Char) : List Char → List Char
  | [] => []
  | '*' :: '*' :: '/' :: pattern => anyFlag ++ matcherExpression escape pattern
  | '*' :: '*' :: pattern => anyFlag ++ matcherExpression escape pattern
  | '*' :: pattern => inSegment ++ matcherExpression escape pattern
  | '?' :: pattern => noSlash ++ matcherExpression escape pattern
  | c :: pattern => escape c ++ matcherExpression escape pattern

def compileMatcher (crate : RegexCrate) (pattern : List Char) :
    Except String (List Char → Bool) :=
  crate.build false (['\\', 'A'] ++ matcherExpression crate.escape pattern ++ ['\\', 'z'])

/-! ## What the expressions mean -/

/-- The expression of tokens, with a way to write any text and one to write a character. -/
def exprOf (anything : Item) (literal : Char → Atom) : List Glob.Token → Expr
  | [] => []
  | .anything :: rest => anything :: exprOf anything literal rest
  | .segment :: rest => .many (.noneOf ['/']) :: exprOf anything literal rest
  | .one :: rest => .one (.noneOf ['/']) :: exprOf anything literal rest
  | .literal c :: rest => .one (literal c) :: exprOf anything literal rest

/-- The ways to write any text. -/
def AnyText (item : Item) : Prop :=
  item = .anyText ∨ item = .many .anyChar

/-- The ways to write a character. -/
def Literal (c : Char) (atom : Atom) : Prop :=
  atom.WellFormed ∧ (atom = .plain c ∨ atom = .escaped c)

section Meaning

variable {anything : Item}
variable {literal : Char → Atom}
variable {same : Char → Char → Bool}

theorem exprOf_wellFormed
    (hanything : AnyText anything)
    (tokens : List Glob.Token)
    (hliteral : ∀ c, .literal c ∈ tokens → (literal c).WellFormed) :
    Regex.WellFormed (exprOf anything literal tokens) := by
  have hslash : (Atom.noneOf ['/']).WellFormed := by
    intro c hc
    rw [List.mem_singleton.1 hc]
    decide
  induction tokens with
  | nil =>
      intro item hitem
      cases hitem
  | cons token rest ih =>
      have hrest := ih fun c hc => hliteral c (List.mem_cons_of_mem _ hc)
      intro item hitem
      cases token with
      | anything =>
          rcases List.mem_cons.1 hitem with rfl | hitem
          · rcases hanything with rfl | rfl <;> trivial
          · exact hrest item hitem
      | segment =>
          rcases List.mem_cons.1 hitem with rfl | hitem
          · exact hslash
          · exact hrest item hitem
      | one =>
          rcases List.mem_cons.1 hitem with rfl | hitem
          · exact hslash
          · exact hrest item hitem
      | literal c =>
          rcases List.mem_cons.1 hitem with rfl | hitem
          · exact hliteral c List.mem_cons_self
          · exact hrest item hitem

theorem manyRest_true (rest : List Char → Bool) :
    Regex.manyRest (fun _ => true) rest = Glob.anyRest rest := by
  funext t
  induction t with
  | nil =>
      rfl
  | cons c t ih =>
      simp only [Regex.manyRest, Glob.anyRest, ih, Bool.true_and]

theorem manyRest_segment
    {p : Char → Bool}
    (hp : ∀ c, p c = decide (c ≠ '/'))
    (rest : List Char → Bool) :
    Regex.manyRest p rest = Glob.segmentRest rest := by
  funext t
  induction t with
  | nil =>
      rfl
  | cons c t ih =>
      simp only [Regex.manyRest, Glob.segmentRest, ih, hp]

theorem Literal.accepts_eq
    {c : Char}
    {atom : Atom}
    (h : Literal c atom)
    (d : Char) :
    atom.accepts same d = same c d := by
  rcases h.2 with rfl | rfl <;> rfl

/-- The expression accepts what the tokens do, with the literals as they are written. -/
theorem accepts_exprOf
    {given : Char → Char → Bool}
    (hanything : AnyText anything)
    (hliteral : ∀ c d, (literal c).accepts given d = same c d)
    (hslash : ∀ c, given '/' c = decide (c = '/'))
    (tokens : List Glob.Token) :
    Regex.accepts given (exprOf anything literal tokens) = Glob.acceptsBy same tokens := by
  have hnone : ∀ c, (Atom.noneOf ['/']).accepts given c = decide (c ≠ '/') := by
    intro c
    simp [Atom.accepts, hslash]
  induction tokens with
  | nil =>
      rfl
  | cons token rest ih =>
      funext t
      cases token with
      | anything =>
          rcases hanything with rfl | rfl
          · simp only [exprOf, Regex.accepts, Glob.acceptsBy, ih, manyRest_true]
          · have hany : Atom.anyChar.accepts given = fun _ => true := rfl
            simp only [exprOf, Regex.accepts, Glob.acceptsBy, ih, hany, manyRest_true]
      | segment =>
          simp only [exprOf, Regex.accepts, Glob.acceptsBy, ih, manyRest_segment hnone]
      | one =>
          cases t with
          | nil => rfl
          | cons c t =>
              simp only [exprOf, Regex.accepts, Glob.acceptsBy, Glob.oneThen, ih, hnone]
      | literal c =>
          cases t with
          | nil => rfl
          | cons d t =>
              simp only [exprOf, Regex.accepts, Glob.acceptsBy, Glob.oneThen, ih, hliteral]

end Meaning

/-! ## The two writers -/

/-- The characters a pattern writes for itself. -/
def globLiteral (c : Char) : Atom :=
  if c ∈ Regex.metas then .escaped c else .plain c

theorem globLiteral_literal (c : Char) : Literal c (globLiteral c) := by
  unfold globLiteral
  split
  case isTrue h => exact ⟨List.mem_append_left _ h, .inr rfl⟩
  case isFalse h => exact ⟨h, .inl rfl⟩

theorem globExpression_eq (glob : List Char) :
    globExpression glob =
      Regex.text (exprOf (.many .anyChar) globLiteral (Glob.tokens glob)) := by
  induction glob using Glob.tokens.induct with
  | case1 =>
      rfl
  | case2 glob ih =>
      rw [globExpression, ih]
      rfl
  | case3 glob hslash ih =>
      rw [globExpression, ih, Glob.tokens]
      · rfl
      · exact hslash
      · exact hslash
  | case4 glob hstar hslash ih =>
      rw [globExpression, ih, Glob.tokens]
      · rfl
      all_goals assumption
  | case5 glob ih =>
      rw [globExpression, ih]
      rfl
  | case6 c glob h1 h2 hstar hone ih =>
      have hmetas : c ∈ Regex.metas ↔
          c ∈ ['.', '+', '(', ')', '|', '[', ']', '{', '}', '^', '$', '\\'] := by
        have hs : c ≠ '*' := hstar
        have ho : c ≠ '?' := hone
        simp only [Regex.metas, List.mem_cons, List.not_mem_nil, or_false, hs, ho, false_or]
        rw [or_comm]
        simp only [or_assoc]
      have htokens : Glob.tokens (c :: glob) = .literal c :: Glob.tokens glob := by
        rw [Glob.tokens]
        all_goals assumption
      have hliteral : Item.text (.one (globLiteral c)) =
          if c ∈ Regex.metas then ['\\', c] else [c] := by
        unfold globLiteral
        split <;> rfl
      rw [globExpression, htokens, ih]
      · rw [exprOf, Regex.text_cons, hliteral]
        simp only [hmetas]
        split <;> rfl
      all_goals assumption

/-- How the engine's own escape writes a character. -/
def escapeLiteral (escape : Char → List Char) (c : Char) : Atom :=
  if escape c = [c] then .plain c else .escaped c

section Engine

variable {crate : RegexCrate}

theorem escapeLiteral_literal
    (hcrate : crate.Documented)
    (c : Char) :
    Literal c (escapeLiteral crate.escape c) ∧
      (escapeLiteral crate.escape c).text = crate.escape c := by
  unfold escapeLiteral
  rcases hcrate.escape c with ⟨hc, h⟩ | ⟨hc, h⟩
  · rw [if_pos h, h]
    exact ⟨⟨hc, .inl rfl⟩, rfl⟩
  · rw [if_neg (by simp [h]), h]
    exact ⟨⟨hc, .inr rfl⟩, rfl⟩

theorem matcherExpression_eq
    (hcrate : crate.Documented)
    (pattern : List Char) :
    matcherExpression crate.escape pattern =
      Regex.text (exprOf .anyText (escapeLiteral crate.escape) (Glob.tokens pattern)) := by
  induction pattern using Glob.tokens.induct with
  | case1 =>
      rfl
  | case2 pattern ih =>
      rw [matcherExpression, ih]
      rfl
  | case3 pattern hslash ih =>
      rw [matcherExpression, ih, Glob.tokens]
      · rfl
      · exact hslash
      · exact hslash
  | case4 pattern hstar hslash ih =>
      rw [matcherExpression, ih, Glob.tokens]
      · rfl
      all_goals assumption
  | case5 pattern ih =>
      rw [matcherExpression, ih]
      rfl
  | case6 c pattern h1 h2 hstar hone ih =>
      have htokens : Glob.tokens (c :: pattern) = .literal c :: Glob.tokens pattern := by
        rw [Glob.tokens]
        all_goals assumption
      rw [matcherExpression, htokens, ih]
      · rw [exprOf, Regex.text_cons, Item.text, (escapeLiteral_literal hcrate c).2]
      all_goals assumption

theorem same_slash
    (hcrate : crate.Documented)
    (caseInsensitive : Bool)
    (c : Char) :
    crate.same caseInsensitive '/' c = decide (c = '/') := by
  unfold RegexCrate.same
  cases caseInsensitive with
  | true => simp only [if_true, hcrate.slash]
  | false => simp [eq_comm]

/-- A documented engine makes of an expression of tokens what the tokens accept. -/
theorem matcher_eq
    {compile : List Char → Except String (List Char → Bool)}
    {same : Char → Char → Bool}
    {opening closing : List Char}
    (hdocumented : Regex.Documented compile same opening closing)
    (hslash : ∀ c, same '/' c = decide (c = '/'))
    {anything : Item}
    (hanything : AnyText anything)
    {literal : Char → Atom}
    (hliteral : ∀ c, Literal c (literal c))
    {tokens : List Glob.Token}
    {matcher : List Char → Bool}
    (h : compile (opening ++ Regex.text (exprOf anything literal tokens) ++ closing) =
      .ok matcher) :
    matcher = Glob.acceptsBy same tokens := by
  funext t
  have hlanguage := hdocumented _
    (exprOf_wellFormed hanything tokens fun c _ => (hliteral c).1) matcher h t
  rw [← Regex.accepts_iff,
    accepts_exprOf hanything (fun c d => (hliteral c).accepts_eq d) hslash] at hlanguage
  exact Bool.eq_iff_iff.2 hlanguage

theorem buildGlobRegex_spec
    (hcrate : crate.Documented)
    {caseInsensitive : Bool}
    {glob : List Char}
    {matcher : List Char → Bool}
    (h : buildGlobRegex crate caseInsensitive glob = .ok matcher) :
    matcher = Glob.acceptsBy (crate.same caseInsensitive) (Glob.tokens glob) := by
  unfold buildGlobRegex at h
  rw [globExpression_eq] at h
  exact matcher_eq (hcrate.lines caseInsensitive) (same_slash hcrate caseInsensitive)
    (.inr rfl) globLiteral_literal h

theorem compileMatcher_spec
    (hcrate : crate.Documented)
    {pattern : List Char}
    {matcher : List Char → Bool}
    (h : compileMatcher crate pattern = .ok matcher) :
    matcher = Glob.isMatch pattern := by
  unfold compileMatcher at h
  rw [matcherExpression_eq hcrate] at h
  have hmatcher := matcher_eq (hcrate.texts false) (same_slash hcrate false) (.inl rfl)
    (fun c => (escapeLiteral_literal hcrate c).1) h
  rw [hmatcher]
  funext t
  exact congrFun (Glob.acceptsBy_eq (Glob.tokens pattern)) t

end Engine

/-! ## An engine for both writers -/

/-- Reads the expressions of both writers, and folds ASCII letters. -/
def RegexCrate.ascii : RegexCrate where
  build caseInsensitive t :=
    let same (a b : Char) : Bool := if caseInsensitive then a.toLower = b.toLower else a = b
    if t.head? = some '^' then
      Regex.reference same ['^'] ['$'] t
    else
      Regex.reference same ['\\', 'A'] ['\\', 'z'] t
  escape c := if c ∈ Regex.escapable then ['\\', c] else [c]
  fold := Char.toLower

theorem RegexCrate.ascii_documented : RegexCrate.ascii.Documented where
  lines caseInsensitive := Regex.reference_documented _ _ _
  texts caseInsensitive := Regex.reference_documented _ _ _
  escape c := by
    by_cases hc : c ∈ Regex.escapable
    · exact .inr ⟨hc, if_pos hc⟩
    · exact .inl ⟨fun h => hc (List.mem_append_left _ h), if_neg hc⟩
  slash c := ((@AsciiCase.eq_iff '/' (by decide) c).symm.trans eq_comm :)

end Sandbox
end FutureOs
