import Mathlib.Algebra.Group.Int.Defs
import Mathlib.Algebra.GroupWithZero.Nat
import Mathlib.Data.Int.Notation
import Mathlib.Data.List.Forall2
import Mathlib.Tactic.Common

/-!
# Fallible code

Code that stops at its first failed check is a chain of binds in `Except`.  The
lemmas take such a chain apart from either end: `ensure_bind` evaluates a check,
`bind_eq_ok` reads a success backwards.  `commit` is the transaction around it:
a failure leaves the state as it was.
-/

namespace FutureOs

universe u v w

/-- Stop with `message` unless the condition holds. -/
def ensure {ε : Type u} (condition : Prop) [Decidable condition] (message : ε) :
    Except ε Unit :=
  if condition then .ok () else .error message

/-- A missing value is an error. -/
def context {ε : Type u} {α : Type v} (value : Option α) (message : ε) : Except ε α :=
  match value with
  | some a => .ok a
  | none => .error message

/-- The state after a transaction, and its result. -/
def commit {ε : Type u} {σ : Type v} {α : Type w} (s : σ) :
    Except ε (σ × α) → σ × Except ε α
  | .ok (s', a) => (s', .ok a)
  | .error e => (s, .error e)

/-- `i64::checked_add`. -/
def checkedAdd (a b : Int) : Option Int :=
  if -2 ^ 63 ≤ a + b ∧ a + b < 2 ^ 63 then some (a + b) else none

/-- `i64::saturating_add`. -/
def saturatingAdd (a b : Int) : Int :=
  max (-2 ^ 63) (min (a + b) (2 ^ 63 - 1))

section Except

variable {ε : Type u}
variable {α β : Type v}

@[simp] theorem except_ok_bind (a : α) (f : α → Except ε β) :
    ((Except.ok a : Except ε α) >>= f) = f a := rfl

@[simp] theorem except_error_bind (e : ε) (f : α → Except ε β) :
    ((Except.error e : Except ε α) >>= f) = .error e := rfl

theorem bind_eq_ok
    {x : Except ε α}
    {f : α → Except ε β}
    {b : β} :
    (x >>= f) = .ok b ↔ ∃ a, x = .ok a ∧ f a = .ok b := by
  cases x with
  | error e =>
      simp
  | ok a =>
      simp

/-- A loop that appends, when it succeeds, appends what each step does. -/
theorem foldlM_append_of_mem
    {γ : Type v}
    {step : List γ → α → Except ε (List γ)}
    {out : α → List γ}
    {P : α → Prop}
    {l : List α}
    (hstep : ∀ acc a acc', a ∈ l → step acc a = .ok acc' → acc' = acc ++ out a ∧ P a)
    {acc acc' : List γ}
    (h : l.foldlM step acc = .ok acc') :
    acc' = acc ++ l.flatMap out ∧ ∀ a ∈ l, P a := by
  induction l generalizing acc with
  | nil =>
      cases h
      simp
  | cons a l ih =>
      rw [List.foldlM_cons, bind_eq_ok] at h
      obtain ⟨next, hnext, hrest⟩ := h
      obtain ⟨rfl, ha⟩ := hstep acc a next List.mem_cons_self hnext
      obtain ⟨rfl, hl⟩ := ih (fun acc b acc' hb => hstep acc b acc' (List.mem_cons_of_mem a hb)) hrest
      refine ⟨by simp [List.append_assoc], fun b hb => ?_⟩
      rcases List.mem_cons.mp hb with rfl | hb
      · exact ha
      · exact hl b hb

/-- A loop that collects, when it succeeds, collects what each step gives. -/
theorem mapM_eq_map
    {f : α → Except ε β}
    {g : α → β}
    (hf : ∀ a b, f a = .ok b → b = g a)
    {l : List α}
    {bs : List β}
    (h : l.mapM f = .ok bs) :
    bs = l.map g := by
  induction l generalizing bs with
  | nil =>
      cases h
      rfl
  | cons a l ih =>
      rw [List.mapM_cons, bind_eq_ok] at h
      obtain ⟨b, hb, hrest⟩ := h
      obtain ⟨more, hmore, hbs⟩ := bind_eq_ok.1 hrest
      cases hbs
      rw [hf a b hb, ih hmore]
      rfl

/-- What each step of a loop preserves of the steps so far holds when it succeeds. -/
theorem foldlM_invariant
    {step : β → α → Except ε β}
    {I : List α → β → Prop}
    (hstep : ∀ done s a s', I done s → step s a = .ok s' → I (done ++ [a]) s')
    {l done : List α}
    {s s' : β}
    (hs : I done s)
    (h : l.foldlM step s = .ok s') :
    I (done ++ l) s' := by
  induction l generalizing done s with
  | nil =>
      cases h
      rwa [List.append_nil]
  | cons a l ih =>
      rw [List.foldlM_cons, bind_eq_ok] at h
      obtain ⟨next, hnext, hrest⟩ := h
      rw [List.append_cons]
      exact ih (hstep done s a next hs hnext) hrest

/-- A loop of checks that succeeds has made each of them. -/
theorem forM_eq_ok
    {check : α → Except ε PUnit}
    {l : List α}
    (h : forM l check = .ok ⟨⟩) :
    ∀ a ∈ l, check a = .ok ⟨⟩ := by
  induction l with
  | nil =>
      simp
  | cons a l ih =>
      rw [List.forM_cons, bind_eq_ok] at h
      obtain ⟨⟨⟩, ha, hrest⟩ := h
      intro b hb
      rcases List.mem_cons.mp hb with rfl | hb
      · exact ha
      · exact ih hrest b hb

end Except

section Ensure

variable {ε : Type}
variable {β : Type}
variable {condition : Prop}
variable [Decidable condition]

theorem ensure_of_pos
    (h : condition)
    (message : ε) :
    ensure condition message = .ok () :=
  if_pos h

theorem ensure_of_neg
    (h : ¬ condition)
    (message : ε) :
    ensure condition message = .error message :=
  if_neg h

theorem ensure_eq_ok
    {message : ε}
    {u : Unit} :
    ensure condition message = .ok u ↔ condition := by
  unfold ensure
  split <;> simp [*]

theorem ensure_bind
    (message : ε)
    (f : Unit → Except ε β) :
    (ensure condition message >>= f) =
      if condition then f () else .error message := by
  unfold ensure
  split <;> rfl

end Ensure

@[simp] theorem context_some {ε α : Type} (a : α) (message : ε) :
    context (some a) message = .ok a := rfl

@[simp] theorem context_none {ε α : Type} (message : ε) :
    context (none : Option α) message = .error message := rfl

theorem context_eq_ok
    {ε α : Type}
    {value : Option α}
    {message : ε}
    {a : α} :
    context value message = .ok a ↔ value = some a := by
  cases value with
  | none =>
      simp
  | some b =>
      simp

@[simp] theorem commit_ok {ε σ α : Type} (s s' : σ) (a : α) :
    commit s (.ok (s', a) : Except ε (σ × α)) = (s', .ok a) := rfl

@[simp] theorem commit_error {ε σ α : Type} (s : σ) (e : ε) :
    commit s (.error e : Except ε (σ × α)) = (s, .error e) := rfl

theorem checkedAdd_eq_some
    {a b c : Int} :
    checkedAdd a b = some c ↔
      a + b = c ∧ -2 ^ 63 ≤ a + b ∧ a + b < 2 ^ 63 := by
  unfold checkedAdd
  split
  · rename_i h
    rw [Option.some.injEq]
    exact ⟨fun hc => ⟨hc, h⟩, fun hc => hc.1⟩
  · rename_i h
    simp only [reduceCtorEq, false_iff]
    exact fun hc => h hc.2

end FutureOs
