import Mathlib.Data.List.Basic
import Mathlib.Order.Basic
import Mathlib.Tactic.Common

/-!
# Tilings

A list of spans tiles `[lo, hi)` when each span starts where the one before it
stopped.  Tilings concatenate and split (`tiles_append`), two neighbours may be
joined (`Tiles.join`), and when no span is empty the starts strictly increase
(`Tiles.pairwise`).  Conversely spans in order that cover an interval tile it
(`tiles_of_covers`).
-/

namespace FutureOs

universe u v w

section Tiling

variable {α : Type u}
variable {ι : Type v}
variable (start stop : α → ι)

/-- The spans follow one another from `lo` to `hi`, without a hole or an overlap. -/
def Tiles : ι → List α → ι → Prop
  | lo, [], hi => lo = hi
  | lo, a :: l, hi => start a = lo ∧ Tiles (stop a) l hi

variable {start stop}

@[simp] theorem tiles_nil {lo hi : ι} :
    Tiles start stop lo [] hi ↔ lo = hi := Iff.rfl

theorem tiles_cons {lo hi : ι} {a : α} {l : List α} :
    Tiles start stop lo (a :: l) hi ↔
      start a = lo ∧ Tiles start stop (stop a) l hi := Iff.rfl

theorem tiles_append
    {lo hi : ι}
    {l l' : List α} :
    Tiles start stop lo (l ++ l') hi ↔
      ∃ mid, Tiles start stop lo l mid ∧ Tiles start stop mid l' hi := by
  induction l generalizing lo with
  | nil =>
      simp
  | cons a l ih =>
      simp only [List.cons_append, tiles_cons, ih]
      constructor
      · rintro ⟨ha, mid, hl, hl'⟩
        exact ⟨mid, ⟨ha, hl⟩, hl'⟩
      · rintro ⟨mid, ⟨ha, hl⟩, hl'⟩
        exact ⟨ha, mid, hl, hl'⟩

theorem tiles_concat
    {lo hi : ι}
    {l : List α}
    {a : α} :
    Tiles start stop lo (l ++ [a]) hi ↔
      Tiles start stop lo l (start a) ∧ stop a = hi := by
  simp only [tiles_append, tiles_cons, tiles_nil]
  constructor
  · rintro ⟨mid, hl, rfl, hhi⟩
    exact ⟨hl, hhi⟩
  · rintro ⟨hl, hhi⟩
    exact ⟨start a, hl, rfl, hhi⟩

/-- A span that covers two neighbours may stand for them. -/
theorem Tiles.join
    {lo hi : ι}
    {l l' : List α}
    {a b c : α}
    (h : Tiles start stop lo (l ++ a :: b :: l') hi)
    (hstart : start c = start a)
    (hstop : stop c = stop b) :
    Tiles start stop lo (l ++ c :: l') hi := by
  obtain ⟨mid, hl, ha, -, hl'⟩ := tiles_append.1 h
  refine tiles_append.2 ⟨mid, hl, hstart.trans ha, ?_⟩
  rw [hstop]
  exact hl'

theorem tiles_map
    {β : Type w}
    {start' stop' : β → ι}
    {f : α → β}
    (hstart : ∀ a, start' (f a) = start a)
    (hstop : ∀ a, stop' (f a) = stop a)
    {lo hi : ι}
    {l : List α} :
    Tiles start' stop' lo (l.map f) hi ↔ Tiles start stop lo l hi := by
  induction l generalizing lo with
  | nil =>
      simp
  | cons a l ih =>
      simp only [List.map_cons, tiles_cons, hstart, hstop, ih]

section Order

variable [Preorder ι]

/-- A tiling by nonempty spans runs forward. -/
theorem Tiles.le
    {lo hi : ι}
    {l : List α}
    (hpos : ∀ a ∈ l, start a < stop a)
    (h : Tiles start stop lo l hi) :
    lo ≤ hi := by
  induction l generalizing lo with
  | nil =>
      exact le_of_eq h
  | cons a l ih =>
      obtain ⟨rfl, hl⟩ := h
      have htail := ih (fun b hb => hpos b (List.mem_cons_of_mem a hb)) hl
      exact le_trans (le_of_lt (hpos a List.mem_cons_self)) htail

theorem Tiles.bounds
    {lo hi : ι}
    {l : List α}
    (hpos : ∀ a ∈ l, start a < stop a)
    (h : Tiles start stop lo l hi)
    {a : α}
    (ha : a ∈ l) :
    lo ≤ start a ∧ stop a ≤ hi := by
  induction l generalizing lo with
  | nil =>
      simp at ha
  | cons b l ih =>
      obtain ⟨rfl, hl⟩ := h
      have hrest : ∀ c ∈ l, start c < stop c :=
        fun c hc => hpos c (List.mem_cons_of_mem b hc)
      rcases List.mem_cons.1 ha with rfl | ha
      · exact ⟨le_refl _, hl.le hrest⟩
      · obtain ⟨hlo, hhi⟩ := ih hrest hl ha
        have hb := hpos b List.mem_cons_self
        exact ⟨le_trans (le_of_lt hb) hlo, hhi⟩

/-- The starts of nonempty spans strictly increase. -/
theorem Tiles.pairwise
    {lo hi : ι}
    {l : List α}
    (hpos : ∀ a ∈ l, start a < stop a)
    (h : Tiles start stop lo l hi) :
    l.Pairwise fun a b => start a < start b := by
  induction l generalizing lo with
  | nil =>
      exact List.Pairwise.nil
  | cons a l ih =>
      obtain ⟨-, hl⟩ := h
      have hrest : ∀ c ∈ l, start c < stop c :=
        fun c hc => hpos c (List.mem_cons_of_mem a hc)
      refine List.Pairwise.cons (fun b hb => ?_) (ih hrest hl)
      exact lt_of_lt_of_le (hpos a List.mem_cons_self) (hl.bounds hrest hb).1

end Order

end Tiling

/-! ### Tilings of an interval of integers -/

section Cover

variable {α : Type u}
variable {start stop : α → Int}

/-- Every point of the interval is in one of the spans. -/
theorem Tiles.covers
    {lo hi : Int}
    {l : List α}
    (h : Tiles start stop lo l hi)
    {c : Int}
    (hlo : lo ≤ c)
    (hhi : c < hi) :
    ∃ a ∈ l, start a ≤ c ∧ c < stop a := by
  induction l generalizing lo with
  | nil =>
      obtain rfl := tiles_nil.1 h
      omega
  | cons a l ih =>
      obtain ⟨rfl, hl⟩ := h
      by_cases hc : c < stop a
      · exact ⟨a, List.mem_cons_self, hlo, hc⟩
      · obtain ⟨b, hb, hspan⟩ := ih hl (by omega)
        exact ⟨b, List.mem_cons_of_mem a hb, hspan⟩

/-- Spans in order that cover an interval, and stay inside it, tile it. -/
theorem tiles_of_covers
    {lo hi : Int}
    {l : List α}
    (hle : lo ≤ hi)
    (hspans : ∀ a ∈ l, lo ≤ start a ∧ start a < stop a ∧ stop a ≤ hi)
    (horder : l.Pairwise fun a b => stop a ≤ start b)
    (hcovers : ∀ c, lo ≤ c → c < hi → ∃ a ∈ l, start a ≤ c ∧ c < stop a) :
    Tiles start stop lo l hi := by
  induction l generalizing lo with
  | nil =>
      rw [tiles_nil]
      by_contra hne
      obtain ⟨a, ha, -⟩ := hcovers lo (Int.le_refl lo) (by omega)
      cases ha
  | cons a l ih =>
      obtain ⟨hfirst, hrest⟩ := List.pairwise_cons.1 horder
      obtain ⟨hlo, hpos, hhi⟩ := hspans a List.mem_cons_self
      refine ⟨?_, ih hhi (fun b hb => ?_) hrest fun c hc hchi => ?_⟩
      · -- the span over `lo` is the first one
        obtain ⟨b, hb, hblo, -⟩ := hcovers lo (Int.le_refl lo) (by omega)
        rcases List.mem_cons.1 hb with rfl | hb
        · omega
        · have hafter := hfirst b hb
          omega
      · obtain ⟨-, hbpos, hbhi⟩ := hspans b (List.mem_cons_of_mem a hb)
        exact ⟨hfirst b hb, hbpos, hbhi⟩
      · obtain ⟨b, hb, hspan⟩ := hcovers c (by omega) hchi
        rcases List.mem_cons.1 hb with rfl | hb
        · omega
        · exact ⟨b, hb, hspan⟩

end Cover

end FutureOs
