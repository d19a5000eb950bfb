import Mathlib.Data.List.Basic

/-!
# Runs of a deterministic machine

A machine is a total step function on a state; what the environment chooses
(arguments, clock readings, generated names) is part of the operation.  This
module has the three notions every development on top of it needs:

* `run`: the state after a list of operations;
* `Guarded`: every step of a run meets a condition on the state before it;
* `trace`: what the steps of a run emit, in order.

The rules are the usual ones: an invariant of every (guarded) step is an
invariant of every (guarded) run, and runs, guards and traces split along
concatenation.
-/

namespace FutureOs
namespace Machine

universe u v w

section Machine

variable {σ : Type u}
variable {α : Type v}
variable {β : Type w}

/-- The state after a list of operations. -/
def run (step : σ → α → σ) : σ → List α → σ
  | s, [] => s
  | s, op :: ops => run step (step s op) ops

/-- Every step of the run meets `ok` in the state before it. -/
def Guarded (step : σ → α → σ) (ok : σ → α → Prop) : σ → List α → Prop
  | _, [] => True
  | s, op :: ops => ok s op ∧ Guarded step ok (step s op) ops

/-- What the steps of a run emit, in order. -/
def trace (step : σ → α → σ) (emit : σ → α → List β) : σ → List α → List β
  | _, [] => []
  | s, op :: ops => emit s op ++ trace step emit (step s op) ops

instance decidableGuarded (step : σ → α → σ) (ok : σ → α → Prop)
    [hok : ∀ s op, Decidable (ok s op)] :
    ∀ (s : σ) (ops : List α), Decidable (Guarded step ok s ops)
  | _, [] => isTrue trivial
  | s, op :: ops =>
      match hok s op, decidableGuarded step ok (step s op) ops with
      | isTrue h, isTrue h' => isTrue ⟨h, h'⟩
      | isFalse h, _ => isFalse fun g => h g.1
      | _, isFalse h' => isFalse fun g => h' g.2

variable {step : σ → α → σ}

@[simp] theorem run_nil (s : σ) : run step s [] = s := rfl

@[simp] theorem run_cons (s : σ) (op : α) (ops : List α) :
    run step s (op :: ops) = run step (step s op) ops := rfl

theorem run_append (s : σ) (ops ops' : List α) :
    run step s (ops ++ ops') = run step (run step s ops) ops' := by
  induction ops generalizing s with
  | nil =>
      rfl
  | cons op ops ih =>
      exact ih (step s op)

theorem run_concat (s : σ) (ops : List α) (op : α) :
    run step s (ops ++ [op]) = step (run step s ops) op := by
  rw [run_append, run_cons, run_nil]

theorem trace_append
    (emit : σ → α → List β)
    (s : σ)
    (ops ops' : List α) :
    trace step emit s (ops ++ ops') =
      trace step emit s ops ++ trace step emit (run step s ops) ops' := by
  induction ops generalizing s with
  | nil =>
      rfl
  | cons op ops ih =>
      simp [trace, ih, List.append_assoc]

theorem trace_concat
    (emit : σ → α → List β)
    (s : σ)
    (ops : List α)
    (op : α) :
    trace step emit s (ops ++ [op]) =
      trace step emit s ops ++ emit (run step s ops) op := by
  rw [trace_append]
  simp [trace]

section Guarded

variable {ok : σ → α → Prop}

theorem guarded_append
    (s : σ)
    (ops ops' : List α) :
    Guarded step ok s (ops ++ ops') ↔
      Guarded step ok s ops ∧ Guarded step ok (run step s ops) ops' := by
  induction ops generalizing s with
  | nil =>
      simp [Guarded]
  | cons op ops ih =>
      simp [Guarded, ih, and_assoc]

/-- A weaker condition guards every run a stronger one guards. -/
theorem Guarded.mono
    {ok' : σ → α → Prop}
    (himp : ∀ s op, ok s op → ok' s op)
    {s : σ}
    {ops : List α}
    (h : Guarded step ok s ops) :
    Guarded step ok' s ops := by
  induction ops generalizing s with
  | nil =>
      trivial
  | cons op ops ih =>
      exact ⟨himp s op h.1, ih h.2⟩

/-- Two guards of the same run guard it together. -/
theorem Guarded.and
    {ok' : σ → α → Prop}
    {s : σ}
    {ops : List α}
    (h : Guarded step ok s ops)
    (h' : Guarded step ok' s ops) :
    Guarded step (fun s op => ok s op ∧ ok' s op) s ops := by
  induction ops generalizing s with
  | nil =>
      trivial
  | cons op ops ih =>
      exact ⟨⟨h.1, h'.1⟩, ih h.2 h'.2⟩

/-- What every guarded step preserves, every guarded run preserves. -/
theorem Guarded.invariant
    {I : σ → Prop}
    (hstep : ∀ s op, I s → ok s op → I (step s op))
    {s : σ}
    (hs : I s)
    {ops : List α}
    (h : Guarded step ok s ops) :
    I (run step s ops) := by
  induction ops generalizing s with
  | nil =>
      exact hs
  | cons op ops ih =>
      exact ih (hstep s op hs h.1) h.2

/-- Operations of a kind every state of an invariant admits guard themselves. -/
theorem guarded_of_invariant
    {I : σ → Prop}
    {p : α → Prop}
    (hstep : ∀ s op, I s → p op → ok s op ∧ I (step s op))
    {s : σ}
    (hs : I s)
    {ops : List α}
    (hops : ∀ op ∈ ops, p op) :
    Guarded step ok s ops := by
  induction ops generalizing s with
  | nil =>
      trivial
  | cons op ops ih =>
      have hop := hstep s op hs (hops op List.mem_cons_self)
      exact ⟨hop.1, ih hop.2 fun op' hop' =>
        hops op' (List.mem_cons_of_mem _ hop')⟩

/-- An invariant of guarded steps and of what they have emitted so far. -/
theorem Guarded.trace_invariant
    {emit : σ → α → List β}
    {I : σ → List β → Prop}
    (hstep : ∀ s out op, I s out → ok s op →
      I (step s op) (out ++ emit s op))
    {s : σ}
    {out : List β}
    (hs : I s out)
    {ops : List α}
    (h : Guarded step ok s ops) :
    I (run step s ops) (out ++ trace step emit s ops) := by
  induction ops generalizing s out with
  | nil =>
      simpa [trace] using hs
  | cons op ops ih =>
      simpa [trace, List.append_assoc] using
        ih (hstep s out op hs h.1) h.2

/--
Where a step keeps `P` exactly if it meets `ok`, a run has `P` throughout exactly
if all its steps meet `ok`.
-/
theorem forall_run_iff_guarded
    {P : σ → Prop}
    (hstep : ∀ s op, P s → (P (step s op) ↔ ok s op))
    {s : σ}
    (hs : P s)
    (ops : List α) :
    (∀ k, P (run step s (ops.take k))) ↔ Guarded step ok s ops := by
  induction ops generalizing s with
  | nil =>
      simp [Guarded, hs]
  | cons op ops ih =>
      constructor
      · intro h
        have hnext : P (step s op) := h 1
        exact ⟨(hstep s op hs).1 hnext, (ih hnext).1 fun k => h (k + 1)⟩
      · rintro ⟨hop, hops⟩ k
        have hnext := (hstep s op hs).2 hop
        cases k with
        | zero => exact hs
        | succ k => exact (ih hnext).2 hops k

/--
Where `I` gives `P` and guarded steps keep `I`, while an unguarded step out of `I` breaks
`P`, a run has `P` throughout exactly if it is guarded.
-/
theorem forall_run_iff_guarded_of_invariant
    {I P : σ → Prop}
    (hP : ∀ s, I s → P s)
    (hstep : ∀ s op, I s → ok s op → I (step s op))
    (hbreak : ∀ s op, I s → ¬ ok s op → ¬ P (step s op))
    {s : σ}
    (hs : I s)
    (ops : List α) :
    (∀ k, P (run step s (ops.take k))) ↔ Guarded step ok s ops := by
  induction ops generalizing s with
  | nil =>
      simp [Guarded, hP s hs]
  | cons op ops ih =>
      constructor
      · intro h
        have hnext : P (step s op) := h 1
        have hop : ok s op := by
          by_contra hop
          exact hbreak s op hs hop hnext
        exact ⟨hop, (ih (hstep s op hs hop)).1 fun k => h (k + 1)⟩
      · rintro ⟨hop, hops⟩ k
        cases k with
        | zero => exact hP s hs
        | succ k => exact (ih (hstep s op hs hop)).2 hops k

end Guarded

/-- What every step preserves, every run preserves. -/
theorem run_invariant
    {I : σ → Prop}
    (hstep : ∀ s op, I s → I (step s op))
    {s : σ}
    (hs : I s)
    (ops : List α) :
    I (run step s ops) := by
  induction ops generalizing s with
  | nil =>
      exact hs
  | cons op ops ih =>
      exact ih (hstep s op hs)

/-- An invariant of the state together with what has been emitted so far. -/
theorem run_trace_invariant
    {emit : σ → α → List β}
    {I : σ → List β → Prop}
    (hstep : ∀ s out op, I s out → I (step s op) (out ++ emit s op))
    {s : σ}
    {out : List β}
    (hs : I s out)
    (ops : List α) :
    I (run step s ops) (out ++ trace step emit s ops) := by
  induction ops generalizing s out with
  | nil =>
      simpa [trace] using hs
  | cons op ops ih =>
      simpa [trace, List.append_assoc] using ih (hstep s out op hs)

end Machine

end Machine
end FutureOs
