import FutureOs.Sandbox.GlobRegex
import Mathlib.Tactic.Common

/-!
# The recursion that remembers

`glob_matches` of `sandbox/linux/plan.rs` walks the pattern and the text by index and
keeps what it found for each pair of indices.  What it keeps is what the recursion without
a memory gives (`Remembers`), so the two agree, and all three matchers of a glob accept the
same texts (`matchers_agree`).
-/

namespace FutureOs
namespace Sandbox

/-- What was found for a place in the pattern and one in the text. -/
abbrev Memo : Type := List ((Nat × Nat) × Bool)

/-- One result, and then another one if the first is not the answer. -/
def orElse (first : Bool × Memo) (second : Memo → Bool × Memo) : Bool × Memo :=
  if first.1 then first else second first.2

/-- `matches_from`. -/
def matchesFrom (p v : List Char) (pi vi : Nat) (memo : Memo) : Bool × Memo :=
  match memo.lookup (pi, vi) with
  | some result => (result, memo)
  | none =>
      let found : Bool × Memo :=
        if hp : p.length ≤ pi then
          (decide (vi = v.length), memo)
        else if p[pi]? = some '*' then
          if p[pi + 1]? = some '*' then
            let next := if p[pi + 2]? = some '/' then pi + 3 else pi + 2
            orElse (matchesFrom p v next vi memo) fun memo =>
              if hv : vi < v.length then matchesFrom p v pi (vi + 1) memo else (false, memo)
          else
            orElse (matchesFrom p v (pi + 1) vi memo) fun memo =>
              if hv : vi < v.length ∧ v[vi]? ≠ some '/' then
                matchesFrom p v pi (vi + 1) memo
              else
                (false, memo)
        else if p[pi]? = some '?' then
          if hv : vi < v.length ∧ v[vi]? ≠ some '/' then
            matchesFrom p v (pi + 1) (vi + 1) memo
          else
            (false, memo)
        else
          if hv : vi < v.length ∧ p[pi]? = v[vi]? then
            matchesFrom p v (pi + 1) (vi + 1) memo
          else
            (false, memo)
      (found.1, ((pi, vi), found.1) :: found.2)
termination_by (p.length - pi) + (v.length - vi)
decreasing_by
  all_goals first | omega | (split <;> omega)

/-- `glob_matches`. -/
def globMatches (pattern value : List Char) : Bool :=
  (matchesFrom pattern value 0 0 []).1

/-- Everything in the memory is what the recursion gives. -/
def Remembers (p v : List Char) (memo : Memo) : Prop :=
  ∀ pi vi result, ((pi, vi), result) ∈ memo →
    result = Glob.globMatches (p.drop pi) (v.drop vi)

/-- A result and the memory behind it are right. -/
def Right (p v : List Char) (pi vi : Nat) (found : Bool × Memo) : Prop :=
  found.1 = Glob.globMatches (p.drop pi) (v.drop vi) ∧ Remembers p v found.2

section Memo

variable {p v : List Char}
variable {pi vi : Nat}

theorem drop_of_getElem?
    {α : Type}
    {l : List α}
    {i : Nat}
    {a : α}
    (h : l[i]? = some a) :
    l.drop i = a :: l.drop (i + 1) := by
  obtain ⟨hi, rfl⟩ := List.getElem?_eq_some_iff.1 h
  exact List.drop_eq_getElem_cons hi

theorem right_orElse
    {first : Bool × Memo}
    {second : Memo → Bool × Memo}
    {a b : Bool}
    (hfirst : first.1 = a ∧ Remembers p v first.2)
    (hsecond : Remembers p v first.2 →
      (second first.2).1 = b ∧ Remembers p v (second first.2).2) :
    (orElse first second).1 = (a || b) ∧ Remembers p v (orElse first second).2 := by
  obtain ⟨rfl, hmemo⟩ := hfirst
  unfold orElse
  cases hfound : first.1 with
  | true => exact ⟨hfound, hmemo⟩
  | false => exact hsecond hmemo

theorem anyRest_drop (accepts : List Char → Bool) :
    Glob.anyRest accepts (v.drop vi) =
      (accepts (v.drop vi) ||
        (decide (vi < v.length) && Glob.anyRest accepts (v.drop (vi + 1)))) := by
  cases hget : v[vi]? with
  | none =>
      have hend : v.drop vi = [] := List.drop_eq_nil_of_le (List.getElem?_eq_none_iff.1 hget)
      have hlt : ¬ vi < v.length := by simpa using List.getElem?_eq_none_iff.1 hget
      simp [hend, Glob.anyRest, hlt]
  | some c =>
      have hlt := (List.getElem?_eq_some_iff.1 hget).1
      simp [drop_of_getElem? hget, Glob.anyRest, hlt]

theorem segmentRest_drop (accepts : List Char → Bool) :
    Glob.segmentRest accepts (v.drop vi) =
      (accepts (v.drop vi) ||
        (decide (vi < v.length ∧ v[vi]? ≠ some '/') &&
          Glob.segmentRest accepts (v.drop (vi + 1)))) := by
  cases hget : v[vi]? with
  | none =>
      have hend : v.drop vi = [] := List.drop_eq_nil_of_le (List.getElem?_eq_none_iff.1 hget)
      have hlt : ¬ vi < v.length := by simpa using List.getElem?_eq_none_iff.1 hget
      simp [hend, Glob.segmentRest, hlt]
  | some c =>
      have hlt := (List.getElem?_eq_some_iff.1 hget).1
      simp [drop_of_getElem? hget, Glob.segmentRest, hlt]

theorem oneThen_drop (q : Char → Bool) (accepts : List Char → Bool) :
    Glob.oneThen q (accepts) (v.drop vi) =
      ((v[vi]?).any q && accepts (v.drop (vi + 1))) := by
  cases hget : v[vi]? with
  | none =>
      have hend : v.drop vi = [] := List.drop_eq_nil_of_le (List.getElem?_eq_none_iff.1 hget)
      simp [hend, Glob.oneThen]
  | some c =>
      simp [drop_of_getElem? hget, Glob.oneThen]

/-- How the recursion goes on from a place in the pattern. -/
theorem globMatches_end (h : p.length ≤ pi) :
    Glob.globMatches (p.drop pi) = List.isEmpty := by
  rw [List.drop_eq_nil_of_le h]
  rfl

theorem globMatches_any
    (h0 : p[pi]? = some '*')
    (h1 : p[pi + 1]? = some '*') :
    Glob.globMatches (p.drop pi) =
      Glob.anyRest (Glob.globMatches
        (p.drop (if p[pi + 2]? = some '/' then pi + 3 else pi + 2))) := by
  rw [drop_of_getElem? h0, drop_of_getElem? h1]
  split
  case isTrue h2 =>
    rw [drop_of_getElem? h2]
    rfl
  case isFalse h2 =>
    funext text
    rw [Glob.globMatches]
    intro rest heq
    have hhead : (p.drop (pi + 2))[0]? = some '/' := by rw [heq]; rfl
    exact h2 (by simpa using hhead)

theorem globMatches_segment
    (h0 : p[pi]? = some '*')
    (h1 : p[pi + 1]? ≠ some '*') :
    Glob.globMatches (p.drop pi) =
      Glob.segmentRest (Glob.globMatches (p.drop (pi + 1))) := by
  have hstar : ∀ rest, p.drop (pi + 1) ≠ '*' :: rest := by
    intro rest heq
    have hhead : (p.drop (pi + 1))[0]? = some '*' := by rw [heq]; rfl
    exact h1 (by simpa using hhead)
  funext text
  rw [drop_of_getElem? h0, Glob.globMatches]
  · exact fun rest heq => hstar _ heq
  · exact fun rest heq => hstar _ heq

theorem globMatches_one (h0 : p[pi]? = some '?') :
    Glob.globMatches (p.drop pi) =
      Glob.oneThen (· ≠ '/') (Glob.globMatches (p.drop (pi + 1))) := by
  rw [drop_of_getElem? h0]
  rfl

theorem globMatches_char
    {c : Char}
    (h0 : p[pi]? = some c)
    (hstar : c ≠ '*')
    (hone : c ≠ '?') :
    Glob.globMatches (p.drop pi) =
      Glob.oneThen (· = c) (Glob.globMatches (p.drop (pi + 1))) := by
  funext text
  rw [drop_of_getElem? h0, Glob.globMatches]
  · exact fun rest heq => absurd heq hstar
  · exact fun rest heq => absurd heq hstar
  · exact hstar
  · exact hone

theorem right_remember
    {found : Bool × Memo}
    (h : Right p v pi vi found) :
    Right p v pi vi (found.1, ((pi, vi), found.1) :: found.2) := by
  refine ⟨h.1, fun i j result hmem => ?_⟩
  rcases List.mem_cons.1 hmem with heq | hmem
  · cases heq
    exact h.1
  · exact h.2 i j result hmem

/-- A step that is taken only under a condition. -/
theorem right_guarded
    {c : Prop}
    [Decidable c]
    {found : c → Bool × Memo}
    {memo : Memo}
    {b : Bool}
    (hmemo : Remembers p v memo)
    (h : ∀ hc, (found hc).1 = b ∧ Remembers p v (found hc).2) :
    (if hc : c then found hc else (false, memo)).1 = (decide c && b) ∧
      Remembers p v (if hc : c then found hc else (false, memo)).2 := by
  by_cases hc : c
  · simp only [hc, decide_true, Bool.true_and]
    exact h hc
  · simp only [hc, decide_false, Bool.false_and]
    exact ⟨rfl, hmemo⟩

theorem matchesFrom_right
    (pi vi : Nat)
    (memo : Memo)
    (hvi : vi ≤ v.length)
    (hmemo : Remembers p v memo) :
    Right p v pi vi (matchesFrom p v pi vi memo) := by
  induction hn : (p.length - pi) + (v.length - vi) using Nat.strong_induction_on
    generalizing pi vi memo with
  | _ n ih =>
  subst hn
  rw [matchesFrom]
  split
  case h_1 result hlookup =>
    exact ⟨hmemo pi vi result (List.lookup_eq_some_iff.1 hlookup |> fun ⟨l, r, h, _⟩ => by
      rw [h]; simp), hmemo⟩
  case h_2 =>
    refine right_remember ?_
    unfold Right
    by_cases hp : p.length ≤ pi
    · rw [dif_pos hp, globMatches_end hp]
      refine ⟨?_, hmemo⟩
      rw [Bool.eq_iff_iff, decide_eq_true_iff, List.isEmpty_iff, List.drop_eq_nil_iff]
      omega
    · rw [dif_neg hp]
      by_cases h0 : p[pi]? = some '*'
      · rw [if_pos h0]
        by_cases h1 : p[pi + 1]? = some '*'
        · rw [if_pos h1, globMatches_any h0 h1, anyRest_drop]
          refine right_orElse (ih _ ?_ _ vi memo hvi hmemo rfl) fun hmemo' =>
            right_guarded hmemo' fun hv => ?_
          · split <;> omega
          · rw [← globMatches_any h0 h1]
            exact ih _ (by omega) pi (vi + 1) _ hv hmemo' rfl
        · rw [if_neg h1, globMatches_segment h0 h1, segmentRest_drop]
          refine right_orElse (ih _ (by omega) _ vi memo hvi hmemo rfl) fun hmemo' =>
            right_guarded hmemo' fun hv => ?_
          rw [← globMatches_segment h0 h1]
          exact ih _ (by omega) pi (vi + 1) _ hv.1 hmemo' rfl
      · rw [if_neg h0]
        by_cases hone : p[pi]? = some '?'
        · rw [if_pos hone, globMatches_one hone, oneThen_drop,
            show (v[vi]?).any (fun c => decide (c ≠ '/')) =
              decide (vi < v.length ∧ v[vi]? ≠ some '/') from ?_]
          · exact right_guarded hmemo fun hv =>
              ih _ (by omega) _ (vi + 1) memo hv.1 hmemo rfl
          · cases hget : v[vi]? with
            | none => simpa using List.getElem?_eq_none_iff.1 hget
            | some d => simp [(List.getElem?_eq_some_iff.1 hget).1]
        · rw [if_neg hone]
          obtain ⟨c, hc⟩ : ∃ c, p[pi]? = some c :=
            ⟨_, List.getElem?_eq_getElem (Nat.lt_of_not_le hp)⟩
          rw [globMatches_char hc (fun h => h0 (h ▸ hc)) (fun h => hone (h ▸ hc)),
            oneThen_drop, show (v[vi]?).any (fun d => decide (d = c)) =
              decide (vi < v.length ∧ p[pi]? = v[vi]?) from ?_]
          · exact right_guarded hmemo fun hv =>
              ih _ (by omega) _ (vi + 1) memo hv.1 hmemo rfl
          · cases hget : v[vi]? with
            | none => simp [hc]
            | some d => simp [hc, (List.getElem?_eq_some_iff.1 hget).1, eq_comm]

theorem globMatches_eq (pattern value : List Char) :
    globMatches pattern value = Glob.globMatches pattern value :=
  (matchesFrom_right 0 0 [] (Nat.zero_le _) fun _ _ _ h => by cases h).1

end Memo

/-- The three matchers of a glob accept the same texts on Linux. -/
theorem matchers_agree
    {crate : RegexCrate}
    (hcrate : crate.Documented)
    {pattern : List Char}
    {rule scanned : List Char → Bool}
    (hrule : buildGlobRegex crate false pattern = .ok rule)
    (hscanned : compileMatcher crate pattern = .ok scanned)
    (text : List Char) :
    rule text = Glob.isMatch pattern text ∧
      scanned text = Glob.isMatch pattern text ∧
      globMatches pattern text = Glob.isMatch pattern text := by
  have hsame : crate.same false = fun a b => decide (a = b) := rfl
  refine ⟨?_, ?_, ?_⟩
  · rw [buildGlobRegex_spec hcrate hrule, hsame, Glob.acceptsBy_eq]
    rfl
  · rw [compileMatcher_spec hcrate hscanned]
  · rw [globMatches_eq, Glob.isMatch_eq]

end Sandbox
end FutureOs
