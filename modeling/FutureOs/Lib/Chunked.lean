import FutureOs.Lib.Fallible

/-!
# Reading in chunks

A reader takes symbols one at a time; a step may give outputs, or fail.  In chunks, a failing
push gives nothing, not even what its chunk gave before the failure, and a push may be refused
before it starts.  `runChunks_eq_iff` says when that cannot be told from the symbols.
-/

universe u

namespace FutureOs
namespace Chunked

variable {σ α β ε : Type u}

/-- The outputs up to the end or the first failure, and the state at the end. -/
def feed (step : σ → α → Except ε (σ × List β)) (s : σ) :
    List α → List β × Except ε σ
  | [] => ([], .ok s)
  | a :: rest =>
      match step s a with
      | .error e => ([], .error e)
      | .ok (s', out) => (out ++ (feed step s' rest).1, (feed step s' rest).2)

/-- How a reader is used: its step, which chunks it takes at once, and the end of the input. -/
structure Reader (σ α β ε : Type u) where
  step : σ → α → Except ε (σ × List β)
  fits : σ → List α → Bool
  refusal : ε
  close : σ → Except ε (List β)

variable (r : Reader σ α β ε)

/-- The symbols one at a time, and the end: the outputs, and whether all went well. -/
def run (s : σ) (input : List α) : List β × Bool :=
  match feed r.step s input with
  | (out, .error _) => (out, false)
  | (out, .ok s') =>
      match r.close s' with
      | .error _ => (out, false)
      | .ok last => (out ++ last, true)

/-- A chunk at once. -/
def push (s : σ) (chunk : List α) : Except ε (σ × List β) :=
  if r.fits s chunk then
    match feed r.step s chunk with
    | (_, .error e) => .error e
    | (out, .ok s') => .ok (s', out)
  else
    .error r.refusal

/-- The chunks one after the other, and the end. -/
def runChunks (s : σ) : List (List α) → List β × Bool
  | [] =>
      match r.close s with
      | .error _ => ([], false)
      | .ok last => (last, true)
  | chunk :: rest =>
      match push r s chunk with
      | .error _ => ([], false)
      | .ok (s', out) => (out ++ (runChunks s' rest).1, (runChunks s' rest).2)

/--
The first chunk that does not fit or holds a failing symbol, if there is one, has no output to
lose and comes no earlier than a failure of the input.
-/
def Lossless (s : σ) : List (List α) → Prop
  | [] => True
  | chunk :: rest =>
      match r.fits s chunk, feed r.step s chunk with
      | true, (_, .ok s') => Lossless s' rest
      | _, _ => run r s (chunk :: rest).flatten = ([], false)

theorem feed_append
    (step : σ → α → Except ε (σ × List β))
    (s : σ)
    (xs ys : List α) :
    feed step s (xs ++ ys) =
      match feed step s xs with
      | (out, .error e) => (out, .error e)
      | (out, .ok s') => (out ++ (feed step s' ys).1, (feed step s' ys).2) := by
  induction xs generalizing s with
  | nil =>
      rfl
  | cons x xs ih =>
      rw [List.cons_append, feed, feed]
      cases step s x with
      | error e =>
          rfl
      | ok next =>
          dsimp only
          rw [ih]
          cases feed step next.1 xs with
          | mk out result =>
              cases result with
              | error e =>
                  rfl
              | ok s' =>
                  simp only [List.append_assoc]

theorem run_nil (s : σ) :
    run r s [] =
      match r.close s with
      | .error _ => ([], false)
      | .ok last => (last, true) := by
  unfold run feed
  dsimp only
  cases r.close s <;> rfl

/-- What follows a symbol. -/
theorem run_cons (s : σ) (a : α) (rest : List α) :
    run r s (a :: rest) =
      match r.step s a with
      | .error _ => ([], false)
      | .ok (s', out) => (out ++ (run r s' rest).1, (run r s' rest).2) := by
  unfold run
  rw [feed]
  cases r.step s a with
  | error e =>
      rfl
  | ok next =>
      dsimp only
      cases feed r.step next.1 rest with
      | mk out result =>
          cases result with
          | error e =>
              rfl
          | ok s' =>
              dsimp only
              cases r.close s' with
              | error e =>
                  rfl
              | ok last =>
                  simp only [List.append_assoc]

/-- What follows a chunk that was taken. -/
theorem run_append_of_push
    {s s' : σ}
    {chunk : List α}
    {out : List β}
    (h : push r s chunk = .ok (s', out))
    (rest : List α) :
    run r s (chunk ++ rest) = (out ++ (run r s' rest).1, (run r s' rest).2) := by
  unfold push at h
  split at h
  · unfold run
    rw [feed_append]
    cases hfeed : feed r.step s chunk with
    | mk out' result =>
        rw [hfeed] at h
        cases result with
        | error e =>
            cases h
        | ok s₁ =>
            cases h
            dsimp only
            cases feed r.step s' rest with
            | mk more last =>
                cases last with
                | error e =>
                    rfl
                | ok s₂ =>
                    dsimp only
                    cases r.close s₂ with
                    | error e =>
                        rfl
                    | ok ending =>
                        simp only [List.append_assoc]
  · cases h

theorem lossless_of_push
    {s s' : σ}
    {chunk : List α}
    {out : List β}
    (h : push r s chunk = .ok (s', out))
    (rest : List (List α)) :
    Lossless r s (chunk :: rest) ↔ Lossless r s' rest := by
  unfold push at h
  split at h
  · rename_i hfits
    rw [Lossless, hfits]
    cases hfeed : feed r.step s chunk with
    | mk out' result =>
        rw [hfeed] at h
        cases result with
        | error e =>
            cases h
        | ok s₁ =>
            cases h
            rfl
  · cases h

theorem lossless_of_push_error
    {s : σ}
    {chunk : List α}
    {e : ε}
    (h : push r s chunk = .error e)
    (rest : List (List α)) :
    Lossless r s (chunk :: rest) ↔ run r s (chunk :: rest).flatten = ([], false) := by
  unfold push at h
  rw [Lossless]
  split at h
  · rename_i hfits
    rw [hfits]
    cases hfeed : feed r.step s chunk with
    | mk out' result =>
        rw [hfeed] at h
        cases result with
        | error e' =>
            rfl
        | ok s₁ =>
            cases h
  · rename_i hfits
    have hno : r.fits s chunk = false := by
      simpa using hfits
    rw [hno]

/-- In chunks it goes as with the symbols one at a time exactly if nothing is lost. -/
theorem runChunks_eq_iff (s : σ) (chunks : List (List α)) :
    runChunks r s chunks = run r s chunks.flatten ↔ Lossless r s chunks := by
  induction chunks generalizing s with
  | nil =>
      simp only [runChunks, run, feed, List.flatten_nil, Lossless, List.nil_append]
  | cons chunk rest ih =>
      cases hpush : push r s chunk with
      | error e =>
          rw [lossless_of_push_error r hpush, runChunks, hpush]
          exact eq_comm
      | ok next =>
          rw [lossless_of_push r hpush, runChunks, hpush, List.flatten_cons,
            run_append_of_push r hpush, Prod.mk.injEq, ← ih next.1, Prod.ext_iff,
            List.append_cancel_left_eq]

/-- A symbol at a time nothing is lost, where every single symbol fits that can be taken. -/
theorem lossless_singletons
    (hfits : ∀ s a, r.fits s [a] = false → ∃ e, r.step s a = .error e)
    (s : σ)
    (input : List α) :
    Lossless r s (input.map fun a => [a]) := by
  induction input generalizing s with
  | nil =>
      trivial
  | cons a input ih =>
      rw [List.map_cons]
      cases hpush : push r s [a] with
      | ok next =>
          exact (lossless_of_push r hpush _).2 (ih next.1)
      | error e =>
          rw [lossless_of_push_error r hpush]
          have hfail : ∃ e, r.step s a = .error e := by
            unfold push at hpush
            split at hpush
            · cases hstep : r.step s a with
              | error e =>
                  exact ⟨e, rfl⟩
              | ok next =>
                  rw [feed, hstep] at hpush
                  cases hpush
            · rename_i hno
              exact hfits s a (Bool.not_eq_true _ ▸ hno)
          obtain ⟨e, he⟩ := hfail
          simp only [List.flatten_cons, List.singleton_append, run, feed, he]

theorem flatten_singletons (input : List α) :
    (input.map fun a => [a]).flatten = input := by
  induction input with
  | nil =>
      rfl
  | cons a input ih =>
      rw [List.map_cons, List.flatten_cons, ih, List.singleton_append]

end Chunked
end FutureOs
