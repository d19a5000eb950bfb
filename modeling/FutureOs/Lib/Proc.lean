import FutureOs.Lib.Fallible

/-!
# Procedures over a store

A procedure makes calls on a state.  Where a call fails the procedure stops, and
what its earlier calls did stays done.  This is what code over a database looks like
when every call is a transaction of its own (`transact`).
-/

namespace FutureOs

/-- A procedure on `σ` that gives an `α`, or fails with an `ε`. -/
def Proc (σ ε α : Type) := σ → σ × Except ε α

namespace Proc

variable {σ ε α β : Type}

def ret (a : α) : Proc σ ε α := fun s => (s, .ok a)

def bind (x : Proc σ ε α) (f : α → Proc σ ε β) : Proc σ ε β := fun s =>
  match x s with
  | (s', .ok a) => f a s'
  | (s', .error e) => (s', .error e)

instance : Monad (Proc σ ε) where
  pure := ret
  bind := bind

/-- A computation that does not look at the state. -/
def lift (x : Except ε α) : Proc σ ε α := fun s => (s, x)

/-- A call: all of it is done, or nothing. -/
def transact (call : σ → Except ε (σ × α)) : Proc σ ε α := fun s => commit s (call s)

/-- A call that only reads. -/
def read (call : σ → Except ε α) : Proc σ ε α := fun s => (s, call s)

@[simp] theorem pure_run (a : α) (s : σ) : (pure a : Proc σ ε α) s = (s, .ok a) := rfl

@[simp] theorem lift_run (x : Except ε α) (s : σ) : (lift x : Proc σ ε α) s = (s, x) := rfl

@[simp] theorem read_run (call : σ → Except ε α) (s : σ) :
    (read call : Proc σ ε α) s = (s, call s) := rfl

theorem bind_run (x : Proc σ ε α) (f : α → Proc σ ε β) (s : σ) :
    (x >>= f) s =
      match x s with
      | (s', .ok a) => f a s'
      | (s', .error e) => (s', .error e) := rfl

theorem bind_of_ok
    {x : Proc σ ε α}
    {s s' : σ}
    {a : α}
    (h : x s = (s', .ok a))
    (f : α → Proc σ ε β) :
    (x >>= f) s = f a s' := by
  rw [bind_run, h]

theorem bind_of_error
    {x : Proc σ ε α}
    {s s' : σ}
    {e : ε}
    (h : x s = (s', .error e))
    (f : α → Proc σ ε β) :
    (x >>= f) s = (s', .error e) := by
  rw [bind_run, h]

/-- A sequence that succeeds is made of parts that do. -/
theorem bind_eq_ok
    {x : Proc σ ε α}
    {f : α → Proc σ ε β}
    {s s' : σ}
    {b : β}
    (h : (x >>= f) s = (s', .ok b)) :
    ∃ s₁ a, x s = (s₁, .ok a) ∧ f a s₁ = (s', .ok b) := by
  rw [bind_run] at h
  split at h
  · rename_i s₁ a hx
    exact ⟨s₁, a, hx, h⟩
  · cases h

end Proc
end FutureOs
