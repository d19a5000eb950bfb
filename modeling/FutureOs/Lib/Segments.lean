import Mathlib.Data.List.Basic
import Mathlib.Tactic.Common

/-!
# Segments of a stream

A list of fragments and other items is written in segments: neighbouring fragments of one
stream are joined, everything else stays as it is.  `Segments` says that a list stands
for another in this way, whatever limits the writer set for its segments; `cutFrom` is the
writer with limits as parameters, and `merge` the one without any.

Where a join follows what its first part follows and is followed by what follows its last
part (`StreamLaws`), the segments do not matter: a list and every list of its segments
merge to the same (`Segments.merge_eq`).
-/

namespace FutureOs

universe u v

section Segments

variable {F : Type u}
variable {O : Type v}
variable (same : F → F → Bool)
variable (join : F → F → F)

/-- Fragments joined one after the other. -/
def joinAll (f : F) (fs : List F) : F :=
  fs.foldl join f

/-- Each of the fragments follows the join of those before it. -/
def Chain : F → List F → Prop
  | _, [] => True
  | p, f :: fs => same p f = true ∧ Chain (join p f) fs

/-- The second list is the first one in segments. -/
inductive Segments : List (F ⊕ O) → List (F ⊕ O) → Prop
  | nil : Segments [] []
  | other
      (o : O)
      {xs ys : List (F ⊕ O)}
      (h : Segments xs ys) :
      Segments (.inr o :: xs) (.inr o :: ys)
  | run
      (f : F)
      (fs : List F)
      (hchain : Chain same join f fs)
      {xs ys : List (F ⊕ O)}
      (h : Segments xs ys) :
      Segments (.inl f :: (fs.map Sum.inl ++ xs)) (.inl (joinAll join f fs) :: ys)

/--
Write segments.  A fragment is joined to the open segment while it fits; it opens a
segment if it may be held open, and is a segment of its own if not.
-/
def cutFrom (fits : F → F → Bool) (holds : F → Bool) :
    Option F → List (F ⊕ O) → List (F ⊕ O)
  | p, [] => p.toList.map Sum.inl
  | p, .inr o :: xs => p.toList.map Sum.inl ++ .inr o :: cutFrom fits holds none xs
  | none, .inl f :: xs =>
      if holds f then cutFrom fits holds (some f) xs
      else .inl f :: cutFrom fits holds none xs
  | some p, .inl f :: xs =>
      if fits p f && same p f then cutFrom fits holds (some (join p f)) xs
      else if holds f then .inl p :: cutFrom fits holds (some f) xs
      else .inl p :: .inl f :: cutFrom fits holds none xs

/-- Join all that can be joined. -/
def mergeFrom (p : Option F) (xs : List (F ⊕ O)) : List (F ⊕ O) :=
  cutFrom same join (fun _ _ => true) (fun _ => true) p xs

def merge (xs : List (F ⊕ O)) : List (F ⊕ O) :=
  mergeFrom same join none xs

variable {same join}

@[simp] theorem joinAll_nil (f : F) : joinAll join f [] = f := rfl

@[simp] theorem joinAll_cons (p f : F) (fs : List F) :
    joinAll join p (f :: fs) = joinAll join (join p f) fs := rfl

theorem joinAll_concat (p f : F) (fs : List F) :
    joinAll join p (fs ++ [f]) = join (joinAll join p fs) f := by
  unfold joinAll
  rw [List.foldl_append]
  rfl

theorem chain_concat
    {p f : F}
    {fs : List F} :
    Chain same join p (fs ++ [f]) ↔
      Chain same join p fs ∧ same (joinAll join p fs) f = true := by
  induction fs generalizing p with
  | nil => simp [Chain]
  | cons g gs ih => simp [Chain, ih, and_assoc]

/-! ## Writers -/

section Writer

variable (fits : F → F → Bool)
variable (holds : F → Bool)

theorem cutFrom_inr (p : Option F) (o : O) (xs : List (F ⊕ O)) :
    cutFrom same join fits holds p (.inr o :: xs) =
      p.toList.map Sum.inl ++ .inr o :: cutFrom same join fits holds none xs := by
  cases p <;> rfl

theorem cutFrom_inl_joined
    {p f : F}
    (h : (fits p f && same p f) = true)
    (xs : List (F ⊕ O)) :
    cutFrom same join fits holds (some p) (.inl f :: xs) =
      cutFrom same join fits holds (some (join p f)) xs := by
  rw [cutFrom, if_pos h]

/-- A fragment that does not join the open segment closes it. -/
theorem cutFrom_inl_apart
    {p : Option F}
    {f : F}
    (h : ∀ q ∈ p, (fits q f && same q f) = false)
    (xs : List (F ⊕ O)) :
    cutFrom same join fits holds p (.inl f :: xs) =
      p.toList.map Sum.inl ++
        if holds f then cutFrom same join fits holds (some f) xs
        else .inl f :: cutFrom same join fits holds none xs := by
  cases p with
  | none => rfl
  | some q =>
      rw [cutFrom, h q rfl, if_neg (by decide)]
      split <;> rfl

end Writer

namespace Segments

/-- A single fragment is a segment. -/
theorem one
    (f : F)
    {xs ys : List (F ⊕ O)}
    (h : Segments same join xs ys) :
    Segments same join (.inl f :: xs) (.inl f :: ys) :=
  run f [] trivial h

theorem refl (xs : List (F ⊕ O)) : Segments same join xs xs := by
  induction xs with
  | nil => exact nil
  | cons x xs ih =>
      cases x with
      | inl f => exact one f ih
      | inr o => exact other o ih

/-- What a writer writes is what it reads, in segments. -/
theorem cutFrom
    (fits : F → F → Bool)
    (holds : F → Bool)
    (xs : List (F ⊕ O)) :
    Segments same join xs (cutFrom same join fits holds none xs) ∧
    ∀ f fs, Chain same join f fs →
      Segments same join (.inl f :: (fs.map Sum.inl ++ xs))
        (cutFrom same join fits holds (some (joinAll join f fs)) xs) := by
  induction xs with
  | nil =>
      exact ⟨nil, fun f fs hchain => run f fs hchain nil⟩
  | cons x xs ih =>
      obtain ⟨hclosed, hopen⟩ := ih
      cases x with
      | inr o => exact ⟨other o hclosed, fun f fs hchain => run f fs hchain (other o hclosed)⟩
      | inl g =>
          constructor
          · unfold FutureOs.cutFrom
            split
            · exact hopen g [] trivial
            · exact one g hclosed
          · intro f fs hchain
            unfold FutureOs.cutFrom
            split
            · -- the fragment joins the open segment, which is a longer chain now
              rename_i hjoins
              rw [Bool.and_eq_true] at hjoins
              have hlonger := hopen f (fs ++ [g]) (chain_concat.2 ⟨hchain, hjoins.2⟩)
              rw [joinAll_concat] at hlonger
              simpa using hlonger
            · split
              · exact run f fs hchain (hopen g [] trivial)
              · exact run f fs hchain (one g hclosed)

theorem merge (xs : List (F ⊕ O)) :
    Segments same join xs (merge same join xs) :=
  (cutFrom _ _ xs).1

/-- What is not a fragment stays, in order. -/
theorem others_eq
    {xs ys : List (F ⊕ O)}
    (h : Segments same join xs ys) :
    xs.filterMap Sum.getRight? = ys.filterMap Sum.getRight? := by
  induction h with
  | nil => rfl
  | other o h ih => simp [ih]
  | run f fs hchain h ih =>
      have hnone : (fs.map Sum.inl).filterMap (Sum.getRight? (α := F) (β := O)) = [] := by
        simp [List.filterMap_eq_nil_iff]
      simp only [List.filterMap_cons, Sum.getRight?_inl, List.filterMap_append, hnone, ih,
        List.nil_append]

/-- Every segment is the join of a run of fragments. -/
theorem exists_run
    {xs ys : List (F ⊕ O)}
    (h : Segments same join xs ys)
    {g : F}
    (hg : .inl g ∈ ys) :
    ∃ f fs, Chain same join f fs ∧ (f :: fs).map Sum.inl <:+: xs ∧ g = joinAll join f fs := by
  induction h with
  | nil => cases hg
  | other o h ih =>
      obtain ⟨f, fs, hchain, hrun, rfl⟩ := ih (by simpa using hg)
      exact ⟨f, fs, hchain, List.infix_cons hrun, rfl⟩
  | run f fs hchain h ih =>
      rcases List.mem_cons.1 hg with hhead | htail
      · obtain rfl := Sum.inl.inj hhead
        exact ⟨f, fs, hchain, (List.prefix_append ((f :: fs).map Sum.inl) _).isInfix, rfl⟩
      · obtain ⟨f', fs', hchain', ⟨as, bs, hrun⟩, rfl⟩ := ih htail
        exact ⟨f', fs', hchain', ⟨.inl f :: fs.map Sum.inl ++ as, bs, by simp [← hrun]⟩, rfl⟩

/-- A reader that takes a join as its two parts reads the same from segments. -/
theorem foldl_eq
    {S : Type*}
    {step : S → F ⊕ O → S}
    (hstep : ∀ s p f, same p f = true →
      step (step s (.inl p)) (.inl f) = step s (.inl (join p f)))
    {xs ys : List (F ⊕ O)}
    (h : Segments same join xs ys)
    (s : S) :
    xs.foldl step s = ys.foldl step s := by
  have hrun : ∀ fs f s, Chain same join f fs →
      (fs.map Sum.inl).foldl step (step s (.inl f)) = step s (.inl (joinAll join f fs)) := by
    intro fs
    induction fs with
    | nil => exact fun _ _ _ => rfl
    | cons g gs ih =>
        intro f s hchain
        rw [List.map_cons, List.foldl_cons, hstep s f g hchain.1, ih _ _ hchain.2, joinAll_cons]
  induction h generalizing s with
  | nil => rfl
  | other o h ih => exact ih _
  | run f fs hchain h ih =>
      rw [List.foldl_cons, List.foldl_append, hrun fs f s hchain, List.foldl_cons, ih]

/-- A choice that keeps or drops streams as a whole. -/
theorem filter
    {keep : F ⊕ O → Bool}
    (hsame : ∀ p f, same p f = true → keep (.inl f) = keep (.inl p))
    (hjoin : ∀ p f, same p f = true → keep (.inl (join p f)) = keep (.inl p))
    {xs ys : List (F ⊕ O)}
    (h : Segments same join xs ys) :
    Segments same join (xs.filter keep) (ys.filter keep) := by
  have hrun : ∀ fs f, Chain same join f fs →
      (∀ g ∈ fs, keep (.inl g) = keep (.inl f)) ∧
        keep (.inl (joinAll join f fs)) = keep (.inl f) := by
    intro fs
    induction fs with
    | nil => exact fun _ _ => ⟨nofun, rfl⟩
    | cons g gs ih =>
        intro f hchain
        obtain ⟨hall, hjoined⟩ := ih _ hchain.2
        rw [hjoin f g hchain.1] at hall hjoined
        exact ⟨List.forall_mem_cons.2 ⟨hsame f g hchain.1, hall⟩, hjoined⟩
  induction h with
  | nil => exact nil
  | other o h ih =>
      by_cases hkeep : keep (.inr o) = true
      · simpa [hkeep] using other o ih
      · simpa [hkeep] using ih
  | run f fs hchain h ih =>
      obtain ⟨hall, hjoined⟩ := hrun fs f hchain
      by_cases hkeep : keep (.inl f) = true
      · have hkept : (fs.map Sum.inl).filter keep = fs.map Sum.inl :=
          List.filter_eq_self.2 (by simpa [hkeep] using hall)
        rw [List.filter_cons_of_pos hkeep, List.filter_cons_of_pos (hjoined.trans hkeep),
          List.filter_append, hkept]
        exact run f fs hchain ih
      · have hdropped : (fs.map Sum.inl).filter keep = [] :=
          List.filter_eq_nil_iff.2 (by simpa [hkeep] using hall)
        rw [List.filter_cons_of_neg hkeep, List.filter_cons_of_neg (by rwa [hjoined]),
          List.filter_append, hdropped]
        exact ih

end Segments

/-! ## Merging -/

/--
A join follows what its first part follows, and is followed by what follows its last
part; so it does not matter in which order fragments are joined.
-/
structure StreamLaws (same : F → F → Bool) (join : F → F → F) (Good : F → Prop) : Prop where
  good : ∀ {p f}, Good p → Good f → same p f = true → Good (join p f)
  assoc : ∀ {p q f}, Good p → Good q → Good f → join (join p q) f = join p (join q f)
  after : ∀ {p q f}, Good p → Good q → Good f → same p q = true →
    same (join p q) f = same q f
  before : ∀ {p q f}, Good p → Good q → Good f → same q f = true →
    same p (join q f) = same p q

section Merge

theorem mergeFrom_none_inl (f : F) (xs : List (F ⊕ O)) :
    mergeFrom same join none (.inl f :: xs) = mergeFrom same join (some f) xs := rfl

theorem mergeFrom_inr (p : Option F) (o : O) (xs : List (F ⊕ O)) :
    mergeFrom same join p (.inr o :: xs) =
      p.toList.map Sum.inl ++ .inr o :: mergeFrom same join none xs :=
  cutFrom_inr _ _ p o xs

theorem mergeFrom_some_inl (p f : F) (xs : List (F ⊕ O)) :
    mergeFrom same join (some p) (.inl f :: xs) =
      if same p f then mergeFrom same join (some (join p f)) xs
      else .inl p :: mergeFrom same join (some f) xs := by
  unfold mergeFrom
  rw [cutFrom]
  simp

/-- A chain is merged as a whole. -/
theorem mergeFrom_chain
    {f : F}
    {fs : List F}
    (hchain : Chain same join f fs)
    (xs : List (F ⊕ O)) :
    mergeFrom same join (some f) (fs.map Sum.inl ++ xs) =
      mergeFrom same join (some (joinAll join f fs)) xs := by
  induction fs generalizing f with
  | nil => rfl
  | cons g gs ih =>
      rw [List.map_cons, List.cons_append, mergeFrom_some_inl, if_pos hchain.1, ih hchain.2,
        joinAll_cons]

variable {Good : F → Prop}
variable (laws : StreamLaws same join Good)

include laws

theorem StreamLaws.joinAll_spec
    {f : F}
    {fs : List F}
    (hf : Good f)
    (hfs : ∀ g ∈ fs, Good g)
    (hchain : Chain same join f fs) :
    Good (joinAll join f fs) ∧ ∀ p, Good p → same p (joinAll join f fs) = same p f := by
  induction fs generalizing f with
  | nil => exact ⟨hf, fun _ _ => rfl⟩
  | cons g gs ih =>
      have hg := hfs g List.mem_cons_self
      obtain ⟨hgood, hbefore⟩ := ih (laws.good hf hg hchain.1)
        (fun g' hg' => hfs g' (List.mem_cons_of_mem _ hg')) hchain.2
      exact ⟨hgood, fun p hp => (hbefore p hp).trans (laws.before hp hf hg hchain.1)⟩

/-- A chain that follows a fragment is a chain of their join. -/
theorem StreamLaws.chain_join
    {p f : F}
    {fs : List F}
    (hp : Good p)
    (hf : Good f)
    (hfs : ∀ g ∈ fs, Good g)
    (hsame : same p f = true)
    (hchain : Chain same join f fs) :
    Chain same join (join p f) fs ∧
      joinAll join (join p f) fs = join p (joinAll join f fs) := by
  induction fs generalizing f with
  | nil => exact ⟨trivial, rfl⟩
  | cons g gs ih =>
      have hg := hfs g List.mem_cons_self
      obtain ⟨hchain', hjoin⟩ := ih (laws.good hf hg hchain.1)
        (fun g' hg' => hfs g' (List.mem_cons_of_mem _ hg'))
        ((laws.before hp hf hg hchain.1).trans hsame) hchain.2
      rw [← laws.assoc hp hf hg] at hchain' hjoin
      exact ⟨⟨(laws.after hp hf hg hsame).trans hchain.1, hchain'⟩, hjoin⟩

theorem Segments.mergeFrom_eq
    {xs ys : List (F ⊕ O)}
    (h : Segments same join xs ys)
    (hgood : ∀ f, .inl f ∈ xs → Good f)
    (p : Option F)
    (hp : ∀ f ∈ p, Good f) :
    mergeFrom same join p xs = mergeFrom same join p ys := by
  induction h generalizing p with
  | nil => rfl
  | other o h ih =>
      rw [mergeFrom_inr, mergeFrom_inr, ih (fun f hf => hgood f (List.mem_cons_of_mem _ hf)) none
        nofun]
  | run f fs hchain h ih =>
      have hf : Good f := hgood f List.mem_cons_self
      have hfs : ∀ g ∈ fs, Good g := fun g hg => hgood g (by simp [hg])
      obtain ⟨hall, hbefore⟩ := laws.joinAll_spec hf hfs hchain
      have ih := ih fun g hg => hgood g (by simp [hg])
      cases p with
      | none =>
          rw [mergeFrom_none_inl, mergeFrom_none_inl, mergeFrom_chain hchain,
            ih (some _) (by rintro _ ⟨⟩; exact hall)]
      | some p =>
          have hp : Good p := hp p rfl
          rw [mergeFrom_some_inl, mergeFrom_some_inl, hbefore p hp]
          split
          · rename_i hsame
            obtain ⟨hchain', hjoin⟩ := laws.chain_join hp hf hfs hsame hchain
            rw [mergeFrom_chain hchain', hjoin]
            exact ih (some _) (by
              rintro _ ⟨⟩
              exact laws.good hp hall ((hbefore p hp).trans hsame))
          · rw [mergeFrom_chain hchain, ih (some _) (by rintro _ ⟨⟩; exact hall)]

/-- A list and its segments merge to the same. -/
theorem Segments.merge_eq
    {xs ys : List (F ⊕ O)}
    (h : Segments same join xs ys)
    (hgood : ∀ f, .inl f ∈ xs → Good f) :
    FutureOs.merge same join xs = FutureOs.merge same join ys :=
  h.mergeFrom_eq laws hgood none nofun

end Merge

end Segments

end FutureOs
