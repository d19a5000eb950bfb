import Mathlib.Data.List.Basic

/-!
# Steps that emit

A step changes a state and emits a list of outputs; steps are put one after the other.  An
observer sees a part of the state and reads a part of the outputs (`View`).  A step `Follows`
a list of inputs if all the observer sees and reads of it is what a small machine of the
observer's own does on these inputs.  Sequences follow the inputs of their steps in order.
-/

universe u v

namespace FutureOs
namespace Emitting

/-- A step on a state, and what it emits. -/
abbrev Step (σ : Type u) (ω : Type v) := σ → σ × List ω

namespace Step

variable {σ : Type u}
variable {ω : Type v}

def skip : Step σ ω := fun s => (s, [])

def andThen (first second : Step σ ω) : Step σ ω := fun s =>
  let out := first s
  let out' := second out.1
  (out'.1, out.2 ++ out'.2)

def inOrder (steps : List (Step σ ω)) : Step σ ω :=
  steps.foldr andThen skip

end Step

/-- An observer, with its own machine on inputs of its own. -/
structure View (σ ω : Type u) (υ ι τ : Type v) where
  /-- The states the observer can make sense of. -/
  good : σ → Prop
  see : σ → υ
  read : ω → List τ
  take : υ → ι → υ × List τ

namespace View

variable {σ ω : Type u}
variable {υ ι τ : Type v}
variable (view : View σ ω υ ι τ)

/-- The observer's machine on a list of inputs. -/
def run (v : υ) : List ι → υ × List τ
  | [] => (v, [])
  | input :: inputs =>
      ((run (view.take v input).1 inputs).1,
        (view.take v input).2 ++ (run (view.take v input).1 inputs).2)

@[simp] theorem run_nil (v : υ) : view.run v [] = (v, []) := rfl

theorem run_cons (v : υ) (input : ι) (inputs : List ι) :
    view.run v (input :: inputs) =
      ((view.run (view.take v input).1 inputs).1,
        (view.take v input).2 ++ (view.run (view.take v input).1 inputs).2) := rfl

@[simp] theorem run_singleton (v : υ) (input : ι) : view.run v [input] = view.take v input := by
  simp [run_cons]

theorem run_append
    (v : υ)
    (before after : List ι) :
    view.run v (before ++ after) =
      ((view.run (view.run v before).1 after).1,
        (view.run v before).2 ++ (view.run (view.run v before).1 after).2) := by
  induction before generalizing v with
  | nil =>
      simp
  | cons input before ih =>
      rw [List.cons_append, run_cons, ih, run_cons, List.append_assoc]

/-- What the observer sees and reads of a step comes of the inputs. -/
def Follows (step : Step σ ω) (inputs : List ι) : Prop :=
  ∀ s, view.good s →
    view.good (step s).1 ∧ view.see (step s).1 = (view.run (view.see s) inputs).1 ∧
      (step s).2.flatMap view.read = (view.run (view.see s) inputs).2

variable {view}

theorem follows_skip : view.Follows Step.skip [] := fun _ hs => ⟨hs, rfl, rfl⟩

theorem Follows.andThen
    {first second : Step σ ω}
    {before after : List ι}
    (hfirst : view.Follows first before)
    (hsecond : view.Follows second after) :
    view.Follows (first.andThen second) (before ++ after) := by
  intro s hs
  obtain ⟨hgood, hsee, hread⟩ := hfirst s hs
  obtain ⟨hgood', hsee', hread'⟩ := hsecond _ hgood
  rw [run_append, ← hsee]
  refine ⟨hgood', hsee', ?_⟩
  rw [← hread, ← hread', ← List.flatMap_append]
  rfl

/-- A step the observer does not notice, before another one. -/
theorem Follows.silent_andThen
    {first second : Step σ ω}
    {inputs : List ι}
    (hfirst : view.Follows first [])
    (hsecond : view.Follows second inputs) :
    view.Follows (first.andThen second) inputs :=
  hfirst.andThen hsecond

theorem Follows.andThen_silent
    {first second : Step σ ω}
    {inputs : List ι}
    (hfirst : view.Follows first inputs)
    (hsecond : view.Follows second []) :
    view.Follows (first.andThen second) inputs := by
  simpa using hfirst.andThen hsecond

theorem follows_inOrder
    {α : Type u}
    {items : List α}
    {step : α → Step σ ω}
    {inputs : α → List ι}
    (h : ∀ item ∈ items, view.Follows (step item) (inputs item)) :
    view.Follows (Step.inOrder (items.map step)) (items.flatMap inputs) := by
  induction items with
  | nil =>
      exact follows_skip
  | cons item items ih =>
      exact (h item List.mem_cons_self).andThen
        (ih fun other hother => h other (List.mem_cons_of_mem _ hother))

/-- Steps of one input each. -/
theorem follows_inOrder_map
    {α : Type u}
    {items : List α}
    {step : α → Step σ ω}
    {input : α → ι}
    (h : ∀ item ∈ items, view.Follows (step item) [input item]) :
    view.Follows (Step.inOrder (items.map step)) (items.map input) := by
  have hall := follows_inOrder h
  rwa [← List.map_eq_flatMap] at hall

theorem follows_inOrder_silent
    {α : Type u}
    {items : List α}
    {step : α → Step σ ω}
    (h : ∀ item ∈ items, view.Follows (step item) []) :
    view.Follows (Step.inOrder (items.map step)) [] := by
  have hall := follows_inOrder h
  rwa [List.flatMap_eq_nil_iff.2 fun _ _ => rfl] at hall

end View
end Emitting
end FutureOs
