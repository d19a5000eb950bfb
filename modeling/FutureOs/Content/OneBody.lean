import FutureOs.Content.Body

/-!
# Reads see one immutable byte string

Over any run of the store there is one growing body behind each object, and every
read of the object is a slice of it, however its bytes are cut into segments,
packed into one row or compressed (`reads_see_one_body`).
-/

namespace FutureOs
namespace Content

open Utf8

/-- What one call does to the body of object `id`. -/
def Grows (codec : Codec) (s : Store) (id : Nat) (op : ContentOp)
    (before after : Body) : Prop :=
  match op with
  | .append id' offset text =>
      if id' = id then
        match s.append codec id offset text with
        | .ok (s', range) =>
            range = { id := id, offset := offset, length := size text } ∧
              before.Accepts offset text ∧
              -- at the end, or a range that is there already
              (offset = size before.text ∧ before.isSealed = false ∧
                  after = { before with text := before.text ++ text } ∨
                before.StoredAt offset text ∧ s' = s ∧ after = before)
        | .error _ => ¬ before.Accepts offset text ∧ after = before
      else
        after = before
  | .sealBody id' _ => after.text = before.text ∧ (id' ≠ id → after = before)
  | _ => after = before

/--
A read of object `id` from a character boundary is the longest prefix of the rest
of the body that fits the budget and ends on a character boundary.
-/
def ReadsAs (codec : Codec) (s : Store) (id : Nat) (b : Body) : Prop :=
  ∀ offset maxBytes,
    isBoundary b.text offset = true → maxBytes ≤ readBytes →
    ∃ page, s.read codec id offset maxBytes = .ok page ∧
      LongestPrefix page.text (dropBytes offset b.text) maxBytes ∧
      page.nextOffset = offset + size page.text ∧
      page.totalBytes = size b.text ∧
      page.isSealed = b.isSealed

variable {codec : Codec}

theorem Stores.readsAs
    (hcodec : codec.Lossless)
    {s : Store}
    {id : Nat}
    {b : Body}
    (h : Stores codec s id b) :
    ReadsAs codec s id b := by
  intro offset maxBytes hb hmax
  obtain ⟨o, hlook, hholds⟩ := h
  have hread := read_holds hcodec hlook hholds offset maxBytes (isBoundary_le hb) hmax
  rw [if_pos hb] at hread
  exact ⟨_, hread, longestPrefix_takeBytes _ _, Int.natCast_add _ _, rfl, rfl⟩

theorem Stores.grows
    (hcodec : codec.Lossless)
    {s : Store}
    {id : Nat}
    {b : Body}
    (h : Stores codec s id b)
    (op : ContentOp) :
    Grows codec s id op b (b.step codec id op) := by
  cases op with
  | append id' offset text =>
      simp only [Grows, Body.step]
      by_cases hid : id' = id
      · rw [if_pos hid, if_pos hid]
        obtain ⟨o, hlook, hholds⟩ := h
        rcases append_holds hcodec hlook hholds offset text with
          ⟨e, hrun, hrefused⟩ | ⟨hrun, haccepts, hstored, hno⟩ | ⟨o', hrun, hext, -⟩
        · rw [hrun]
          exact ⟨hrefused, if_neg fun hext => hrefused (Or.inl hext)⟩
        · rw [hrun]
          exact ⟨rfl, haccepts, Or.inr ⟨hstored, rfl, if_neg hno⟩⟩
        · rw [hrun]
          have hext' := hext
          obtain ⟨-, -, hopen, hend⟩ := hext'
          exact ⟨rfl, Or.inl hext, Or.inl ⟨hend, hopen, if_pos hext⟩⟩
      · rw [if_neg hid, if_neg hid]
  | sealBody id' digest =>
      simp only [Grows, Body.step]
      refine ⟨?_, fun hid => if_neg hid⟩
      split
      · unfold Body.sealBody
        split <;> rfl
      · rfl
  | create id' =>
      rfl
  | rechunk order limit =>
      rfl
  | compress order limit =>
      rfl

/--
From the creation of an object on, whatever is called in whatever order: there is
a body after each call such that every call grows it as `append` promises, and
every read in between is a slice of it.
-/
theorem reads_see_one_body
    (codec : Codec)
    (hcodec : codec.Lossless)
    (s : Store)
    (id : Nat)
    (hnew : Fields.lookup id s = some {})
    (ops : List ContentOp) :
    ∃ body : Nat → Body,
      body 0 = {} ∧
      (∀ k op, ops[k]? = some op →
        Grows codec (Machine.run (step codec) s (ops.take k)) id op
          (body k) (body (k + 1))) ∧
      (∀ k, ReadsAs codec (Machine.run (step codec) s (ops.take k)) id (body k)) := by
  have hstores : ∀ k, Stores codec (Machine.run (step codec) s (ops.take k)) id
      (Machine.run (Body.step codec id) {} (ops.take k)) :=
    fun k => run_stores hcodec ⟨{}, hnew, holds_new⟩ (ops.take k)
  refine ⟨fun k => Machine.run (Body.step codec id) {} (ops.take k), rfl, ?_, ?_⟩
  · intro k op hop
    have hnext : ops.take (k + 1) = ops.take k ++ [op] := by
      rw [List.take_add_one, hop]
      rfl
    simp only [hnext, Machine.run_concat]
    exact (hstores k).grows hcodec op
  · intro k
    exact (hstores k).readsAs hcodec

/-- A body long enough to be compressed, and gzip and SHA-256 at that body. -/
def letterBody : Text := List.replicate 512 'a'

def letterMember : Bytes :=
  [31, 139, 8, 0, 0, 0, 0, 0, 0, 255, 75, 76, 28, 5, 35, 25, 0, 0, 81, 112, 81,
    249, 0, 2, 0, 0]

def letterCodec : Codec where
  sha256 _ := "471be6558b665e4f6dd49f1184814d1491b0315d466beea768c153cc5500c836"
  encode raw := if raw = encode letterBody then letterMember else 0 :: raw
  decode raw :=
    if raw = letterMember then
      some (encode letterBody)
    else
      match raw with
      | 0 :: plain => some plain
      | _ => none

theorem letterCodec_lossless : letterCodec.Lossless := by
  intro raw
  by_cases hraw : raw = encode letterBody
  · simp [letterCodec, hraw]
  · have hne : ¬ (0 :: raw : Bytes) = letterMember := by
      intro h
      rw [letterMember, List.cons.injEq] at h
      exact absurd h.1 (by decide)
    simp only [letterCodec, if_neg hraw, if_neg hne]

/-- The body is appended in two parts, retried, sealed, packed and compressed. -/
def letterCalls : List ContentOp :=
  [.append 1 0 (letterBody.take 300), .append 1 300 (letterBody.drop 300),
    .append 1 0 (letterBody.take 300),
    .sealBody 1 { hash := encode letterBody, bytes := 512 },
    .rechunk [1] 8, .compress [1] 8]

theorem reads_see_one_body_compressed :
    ∃ body : Nat → Body,
      body 0 = {} ∧
      (∀ k op, letterCalls[k]? = some op →
        Grows letterCodec
          (Machine.run (step letterCodec) (Store.create [] 1) (letterCalls.take k))
          1 op (body k) (body (k + 1))) ∧
      (∀ k, ReadsAs letterCodec
        (Machine.run (step letterCodec) (Store.create [] 1) (letterCalls.take k))
        1 (body k)) :=
  reads_see_one_body letterCodec letterCodec_lossless (Store.create [] 1) 1 rfl
    letterCalls

end Content
end FutureOs
