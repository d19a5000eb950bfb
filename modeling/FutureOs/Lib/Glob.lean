import Mathlib.Data.List.Basic
import Mathlib.Tactic.Common

/-!
# Glob patterns

Two readings of a pattern: the tokens of the regular expression it is turned into, and the
recursion over the pattern itself.  In both `**` stands for any text and takes a slash behind
it along, `*` for a text without a slash, and `?` for one character that is none.  They accept
the same texts (`isMatch_eq`).
-/

namespace FutureOs
namespace Glob

/-- Some rest of the text is accepted. -/
def anyRest (accepts : List Char → Bool) : List Char → Bool
  | [] => accepts []
  | c :: text => accepts (c :: text) || anyRest accepts text

/-- Some rest is, and no slash before it. -/
def segmentRest (accepts : List Char → Bool) : List Char → Bool
  | [] => accepts []
  | c :: text => accepts (c :: text) || (c ≠ '/' && segmentRest accepts text)

/-- One character, and the rest behind it. -/
def oneThen (p : Char → Bool) (accepts : List Char → Bool) : List Char → Bool
  | [] => false
  | c :: text => p c && accepts text

inductive Token
  | anything
  | segment
  | one
  | literal (c : Char)
deriving DecidableEq

/-- The tokens of the regular expression. -/
def tokens : List Char → List Token
  | [] => []
  | '*' :: '*' :: '/' :: pattern => .anything :: tokens pattern
  | '*' :: '*' :: pattern => .anything :: tokens pattern
  | '*' :: pattern => .segment :: tokens pattern
  | '?' :: pattern => .one :: tokens pattern
  | c :: pattern => .literal c :: tokens pattern

/-- The anchored expression. -/
def accepts : List Token → List Char → Bool
  | [], text => text.isEmpty
  | .anything :: rest, text => anyRest (accepts rest) text
  | .segment :: rest, text => segmentRest (accepts rest) text
  | .one :: rest, text => oneThen (· ≠ '/') (accepts rest) text
  | .literal c :: rest, text => oneThen (· = c) (accepts rest) text

def isMatch (pattern text : List Char) : Bool :=
  accepts (tokens pattern) text

/-- The recursion over the pattern. -/
def globMatches : List Char → List Char → Bool
  | [], text => text.isEmpty
  | '*' :: '*' :: '/' :: pattern, text => anyRest (globMatches pattern) text
  | '*' :: '*' :: pattern, text => anyRest (globMatches pattern) text
  | '*' :: pattern, text => segmentRest (globMatches pattern) text
  | '?' :: pattern, text => oneThen (· ≠ '/') (globMatches pattern) text
  | c :: pattern, text => oneThen (· = c) (globMatches pattern) text

theorem isMatch_eq (pattern : List Char) : isMatch pattern = globMatches pattern := by
  induction pattern using tokens.induct with
  | case1 =>
      rfl
  | case2 pattern ih =>
      funext text
      simp only [isMatch, tokens, accepts, globMatches]
      exact congrArg (anyRest · text) ih
  | case3 pattern hslash ih =>
      funext text
      simp only [isMatch, tokens, accepts, globMatches]
      exact congrArg (anyRest · text) ih
  | case4 pattern hstar hslash ih =>
      funext text
      simp only [isMatch, tokens, accepts, globMatches]
      exact congrArg (segmentRest · text) ih
  | case5 pattern ih =>
      funext text
      simp only [isMatch, tokens, accepts, globMatches]
      exact congrArg (oneThen (· ≠ '/') · text) ih
  | case6 c pattern h1 h2 h3 h4 ih =>
      funext text
      simp only [isMatch, tokens, accepts, globMatches]
      exact congrArg (oneThen (· = c) · text) ih

/-- The anchored expression, with another way to compare a literal. -/
def acceptsBy (same : Char → Char → Bool) : List Token → List Char → Bool
  | [], text => text.isEmpty
  | .anything :: rest, text => anyRest (acceptsBy same rest) text
  | .segment :: rest, text => segmentRest (acceptsBy same rest) text
  | .one :: rest, text => oneThen (· ≠ '/') (acceptsBy same rest) text
  | .literal c :: rest, text => oneThen (same c) (acceptsBy same rest) text

theorem acceptsBy_eq (pattern : List Token) :
    acceptsBy (fun a b => a = b) pattern = accepts pattern := by
  induction pattern with
  | nil =>
      rfl
  | cons token rest ih =>
      funext text
      cases token with
      | anything =>
          simp only [acceptsBy, accepts, ih]
      | segment =>
          simp only [acceptsBy, accepts, ih]
      | one =>
          simp only [acceptsBy, accepts, ih]
      | literal c =>
          simp only [acceptsBy, accepts, ih, eq_comm]

/-! ## More ways to compare a literal -/

theorem anyRest_mono
    {f g : List Char → Bool}
    (h : ∀ t, f t = true → g t = true)
    (t : List Char)
    (ht : anyRest f t = true) :
    anyRest g t = true := by
  induction t with
  | nil =>
      exact h [] ht
  | cons c t ih =>
      rw [anyRest, Bool.or_eq_true] at ht ⊢
      exact ht.imp (h _) ih

theorem segmentRest_mono
    {f g : List Char → Bool}
    (h : ∀ t, f t = true → g t = true)
    (t : List Char)
    (ht : segmentRest f t = true) :
    segmentRest g t = true := by
  induction t with
  | nil =>
      exact h [] ht
  | cons c t ih =>
      rw [segmentRest, Bool.or_eq_true, Bool.and_eq_true] at ht ⊢
      exact ht.imp (h _) fun hrest => ⟨hrest.1, ih hrest.2⟩

theorem oneThen_mono
    {p q : Char → Bool}
    {f g : List Char → Bool}
    (hp : ∀ c, p c = true → q c = true)
    (h : ∀ t, f t = true → g t = true)
    (t : List Char)
    (ht : oneThen p f t = true) :
    oneThen q g t = true := by
  cases t with
  | nil =>
      cases ht
  | cons c t =>
      rw [oneThen, Bool.and_eq_true] at ht ⊢
      exact ⟨hp c ht.1, h t ht.2⟩

/-- What is the same more often is accepted more often. -/
theorem acceptsBy_mono
    {same same' : Char → Char → Bool}
    (hsame : ∀ c d, same c d = true → same' c d = true)
    (pattern : List Token)
    (t : List Char)
    (h : acceptsBy same pattern t = true) :
    acceptsBy same' pattern t = true := by
  induction pattern generalizing t with
  | nil =>
      exact h
  | cons token rest ih =>
      cases token with
      | anything => exact anyRest_mono ih t h
      | segment => exact segmentRest_mono ih t h
      | one => exact oneThen_mono (fun _ => id) ih t h
      | literal c => exact oneThen_mono (hsame c) ih t h

end Glob
end FutureOs
