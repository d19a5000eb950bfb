import FutureOs.Content.Segments
import FutureOs.Lib.Machine

/-!
# One immutable body

A content object stands for one byte string that only grows.  `Body` is that
string with its seal, `Holds` says which objects store it, and every operation
of the store is matched by one of the body (`step_holds`):

* an append extends the body at its end, or finds its range stored, or fails;
* sealing, repacking and compressing leave the text alone;
* a read from a character boundary is the longest prefix that fits.
-/

namespace FutureOs
namespace Content

open Utf8

/-- The byte string an object stands for, and its digest once it is sealed. -/
structure Body where
  text : Text := []
  sha256 : Option String := none
deriving DecidableEq

namespace Body

def isSealed (b : Body) : Bool := b.sha256.isSome

/-- The body has `text` at `offset`. -/
def StoredAt (b : Body) (offset : Int) (text : Text) : Prop :=
  ∃ front back, b.text = front ++ text ++ back ∧ offset = size front

/-- `text` may go to the end of the body. -/
def Extends (b : Body) (offset : Int) (text : Text) : Prop :=
  size text ≤ writeBytes ∧ offset + size text < 2 ^ 63 ∧
    b.isSealed = false ∧ offset = size b.text

instance (b : Body) (offset : Int) (text : Text) :
    Decidable (b.Extends offset text) :=
  inferInstanceAs (Decidable (_ ∧ _ ∧ _ ∧ _))

/-- What `append` accepts: an extension, or a range the body already has. -/
def Accepts (b : Body) (offset : Int) (text : Text) : Prop :=
  b.Extends offset text ∨
    size text ≤ writeBytes ∧ offset + size text < 2 ^ 63 ∧ b.StoredAt offset text

def append (b : Body) (offset : Int) (text : Text) : Body :=
  if b.Extends offset text then { b with text := b.text ++ text } else b

def sealBody (codec : Codec) (b : Body) (digest : ContentDigest) : Body :=
  if (size b.text : Int) = digest.bytes ∧ b.isSealed = false then
    { b with sha256 := some (digest.finish codec) }
  else
    b

/-- The body behind object `id`. -/
def step (codec : Codec) (id : Nat) (b : Body) : ContentOp → Body
  | .append id' offset text => if id' = id then b.append offset text else b
  | .sealBody id' digest => if id' = id then b.sealBody codec digest else b
  | _ => b

end Body

/-- The object stores the body: its rows lie end to end and spell the text. -/
structure Holds (codec : Codec) (o : Object) (b : Body) : Prop where
  byteLength : o.byteLength = size b.text
  sha256 : o.sha256 = b.sha256
  marked : o.encoding ≠ none → o.isSealed = true
  inRange : size b.text < 2 ^ 63
  laid : ∃ pieces, Laid 0 pieces b.text ∧
    o.segments = rowsOf (storedBytes codec (decide (o.encoding = some .gzip))) pieces

/-- Object `id` of the store holds the body. -/
def Stores (codec : Codec) (s : Store) (id : Nat) (b : Body) : Prop :=
  ∃ o, Fields.lookup id s = some o ∧ Holds codec o b

variable {codec : Codec}

theorem holds_new : Holds codec {} {} where
  byteLength := rfl
  sha256 := rfl
  marked := fun h => absurd rfl h
  inRange := by decide
  laid := ⟨[], laid_nil, rfl⟩

theorem Holds.isSealed
    {o : Object}
    {b : Body}
    (h : Holds codec o b) :
    o.isSealed = b.isSealed := by
  rw [Object.isSealed, h.sha256]
  rfl

/-- The rows of an unmarked body are its bytes. -/
theorem Holds.plain
    {o : Object}
    {b : Body}
    (h : Holds codec o b)
    (hplain : o.encoding ≠ some .gzip) :
    ∃ pieces, Laid 0 pieces b.text ∧ o.segments = rowsOf encode pieces := by
  obtain ⟨pieces, hlaid, hrows⟩ := h.laid
  refine ⟨pieces, hlaid, ?_⟩
  rw [hrows, decide_eq_false hplain]
  rfl

theorem objectRow_of_lookup
    {s : Store}
    {id : Nat}
    {o : Object}
    (h : Fields.lookup id s = some o) :
    s.objectRow id = .ok o := by
  rw [Store.objectRow, h, context_some]

/-! ### Read -/

/-- `read` inside the body: the longest prefix that fits, from a boundary only. -/
theorem read_holds
    (hcodec : codec.Lossless)
    {s : Store}
    {id : Nat}
    {o : Object}
    {b : Body}
    (hlook : Fields.lookup id s = some o)
    (h : Holds codec o b)
    (offset maxBytes : Nat)
    (hoffset : offset ≤ size b.text)
    (hmax : maxBytes ≤ readBytes) :
    s.read codec id offset maxBytes =
      if isBoundary b.text offset = true then
        let taken := takeBytes maxBytes (dropBytes offset b.text)
        .ok {
          text := taken
          nextOffset := (offset + size taken : Nat)
          totalBytes := size b.text
          isSealed := b.isSealed }
      else
        .error "content offset is not a UTF-8 boundary" := by
  obtain ⟨pieces, hlaid, hrows⟩ := h.laid
  have hinRange := h.inRange
  unfold Store.read
  rw [ensure_bind, if_pos ⟨Int.natCast_nonneg offset, hmax⟩,
    objectRow_of_lookup hlook, except_ok_bind, ensure_bind,
    if_pos (by rw [h.byteLength]; exact_mod_cast hoffset)]
  have hfinish :
      (min (saturatingAdd (offset : Int) maxBytes) (o.byteLength : Int)).toNat =
        min (offset + maxBytes) (size b.text) := by
    rw [h.byteLength, saturatingAdd]
    omega
  have hlookback : (max ((offset : Int) - segmentBytes) 0).toNat =
      offset - segmentBytes := by
    omega
  simp only [hfinish, hlookback, Int.toNat_natCast, hrows]
  have hread := readRows_laid hcodec (decide (o.encoding = some .gzip)) hlaid
    (Nat.zero_le offset)
    (by omega : offset ≤ min (offset + maxBytes) (size b.text))
    (by omega) (Nat.le_refl (offset - segmentBytes)) []
  rw [hread, Nat.sub_zero]
  by_cases hb : isBoundary b.text offset = true
  · rw [if_pos hb, if_pos hb, except_ok_bind]
    -- the budget may reach past the end, where nothing more is to be taken
    have htaken : takeBytes (min (offset + maxBytes) (size b.text) - offset)
        (dropBytes offset b.text) = takeBytes maxBytes (dropBytes offset b.text) := by
      have hdrop := size_dropBytes hb
      rcases Nat.le_total (offset + maxBytes) (size b.text) with hle | hle
      · rw [Nat.min_eq_left hle, Nat.add_sub_cancel_left]
      · rw [Nat.min_eq_right hle, takeBytes_of_size_le (by omega),
          takeBytes_of_size_le (by omega)]
    rw [htaken]
    simp only [List.nil_append]
    rw [ensure_bind, if_pos]
    · simp [h.byteLength, h.isSealed]
      rfl
    · rintro ⟨hshort, hcut⟩
      exact absurd hshort (of_decide_eq_false hcut)
  · rw [if_neg hb, if_neg hb]
    rfl

/-! ### Append -/

/-- The body has a boundary text at an offset exactly if the slice there is it. -/
theorem storedAt_iff
    {b : Body}
    {offset : Nat}
    {text : Text} :
    b.StoredAt offset text ↔
      isBoundary b.text offset = true ∧
        takeBytes (size text) (dropBytes offset b.text) = text := by
  constructor
  · rintro ⟨front, back, hbody, hoffset⟩
    obtain rfl : offset = size front := by exact_mod_cast hoffset
    rw [hbody, List.append_assoc]
    refine ⟨isBoundary_append_size _ _, ?_⟩
    rw [dropBytes_append_size, takeBytes_append_size]
  · rintro ⟨hb, htake⟩
    obtain ⟨front, back, hbody, rfl⟩ := isBoundary_iff.1 hb
    rw [hbody, dropBytes_append_size] at htake
    refine ⟨front, dropBytes (size text) back, ?_, rfl⟩
    have hback := takeBytes_append_dropBytes (size text) back
    rw [htake] at hback
    rw [List.append_assoc, hback, hbody]

theorem Body.StoredAt.bounds
    {b : Body}
    {offset : Int}
    {text : Text}
    (h : b.StoredAt offset text) :
    0 ≤ offset ∧ offset + size text ≤ size b.text := by
  obtain ⟨front, back, hbody, rfl⟩ := h
  rw [hbody, size_append, size_append]
  omega

/-- The extension of an object by the rows of one append. -/
theorem writeSegments_holds
    {o : Object}
    {b : Body}
    (h : Holds codec o b)
    (hopen : b.isSealed = false)
    (text : Text)
    (hinRange : size b.text + size text < 2 ^ 63) :
    ∃ o', Store.writeSegments (size b.text) text (size text) 0 o = .ok o' ∧
      Holds codec { o' with byteLength := size b.text + size text }
        { b with text := b.text ++ text } := by
  have hplain : o.encoding = none := by
    by_contra hne
    have hsealed := h.marked hne
    rw [h.isSealed, hopen] at hsealed
    cases hsealed
  obtain ⟨pieces, hlaid, hrows⟩ := h.plain (by rw [hplain]; exact nofun)
  have hlast : ∀ row ∈ o.segments, row.1 < size b.text + size ([] : Text) := by
    intro row hrow
    rw [hrows] at hrow
    have hbound := (hlaid.bounds encode hrow).2
    simp only [size_nil]
    omega
  obtain ⟨more, hmore, hwrite⟩ :=
    writeSegments_laid text (Nat.le_refl (size text)) hlast
  rw [size_nil, Nat.add_zero] at hmore
  refine ⟨_, hwrite, ?_⟩
  constructor
  · exact (size_append b.text text).symm
  · exact h.sha256
  · exact fun hne => absurd hplain hne
  · rw [size_append]
    exact hinRange
  · refine ⟨pieces ++ more, laid_append hlaid ?_, ?_⟩
    · rwa [Nat.zero_add]
    · rw [hplain, rowsOf_append, hrows]
      rfl

/--
The outcomes of `append`.  It refuses exactly what the body does not accept; a
stored range changes nothing; anything else goes to the end of the body.
-/
theorem append_holds
    (hcodec : codec.Lossless)
    {s : Store}
    {id : Nat}
    {o : Object}
    {b : Body}
    (hlook : Fields.lookup id s = some o)
    (h : Holds codec o b)
    (offset : Int)
    (text : Text) :
    let range : ContentRange := { id := id, offset := offset, length := size text }
    (∃ e, s.append codec id offset text = .error e ∧ ¬ b.Accepts offset text) ∨
    (s.append codec id offset text = .ok (s, range) ∧
      b.Accepts offset text ∧ b.StoredAt offset text ∧
      ¬ b.Extends offset text) ∨
    (∃ o', s.append codec id offset text = .ok (Fields.insert id o' s, range) ∧
      b.Extends offset text ∧
      Holds codec o' { b with text := b.text ++ text }) := by
  intro range
  have hsealed := h.isSealed
  have hlength := h.byteLength
  have hbodyRange := h.inRange
  unfold Store.append
  rw [ensure_bind]
  by_cases hbudget : 0 ≤ offset ∧ size text ≤ writeBytes
  · rw [if_pos hbudget, objectRow_of_lookup hlook, except_ok_bind]
    obtain ⟨n, rfl⟩ := Int.eq_ofNat_of_zero_le hbudget.1
    by_cases hover : (n : Int) + size text < 2 ^ 63
    · have hadd : checkedAdd (n : Int) (size text) = some ((n : Int) + size text) :=
        checkedAdd_eq_some.2 ⟨rfl, by omega, hover⟩
      rw [hadd, context_some, except_ok_bind]
      dsimp only
      by_cases hretry : (n : Int) < o.byteLength ∨
          (o.isSealed = true ∧ (n : Int) + size text ≤ o.byteLength)
      · -- a range that starts before the end
        have hnoExtend : ¬ b.Extends n text := by
          rintro ⟨-, -, hopen, hend⟩
          rcases hretry with hlt | ⟨hs, -⟩
          · omega
          · rw [hsealed, hopen] at hs
            cases hs
        rw [if_pos hretry, ensure_bind]
        by_cases hinside : (n : Int) + size text ≤ o.byteLength
        · have hread := read_holds hcodec hlook h n (size text) (by omega)
            (Nat.le_trans hbudget.2 (by decide))
          rw [if_pos hinside, hread]
          by_cases hstored : b.StoredAt n text
          · obtain ⟨hb, htake⟩ := storedAt_iff.1 hstored
            right; left
            rw [if_pos hb, except_ok_bind, ensure_bind, if_pos htake]
            exact ⟨rfl, Or.inr ⟨hbudget.2, hover, hstored⟩, hstored, hnoExtend⟩
          · left
            have hrefused : ¬ b.Accepts n text := by
              rintro (hext | ⟨-, -, hst⟩)
              · exact hnoExtend hext
              · exact hstored hst
            by_cases hb : isBoundary b.text n = true
            · have htake : ¬ takeBytes (size text) (dropBytes n b.text) = text :=
                fun heq => hstored (storedAt_iff.2 ⟨hb, heq⟩)
              rw [if_pos hb, except_ok_bind, ensure_bind, if_neg htake]
              exact ⟨_, rfl, hrefused⟩
            · rw [if_neg hb, except_error_bind]
              exact ⟨_, rfl, hrefused⟩
        · left
          rw [if_neg hinside]
          refine ⟨_, rfl, ?_⟩
          rintro (hext | ⟨-, -, hst⟩)
          · exact hnoExtend hext
          · have hbounds := hst.bounds
            omega
      · rw [if_neg hretry, ensure_bind]
        rw [not_or] at hretry
        by_cases hend : o.isSealed = false ∧ (n : Int) = o.byteLength
        · -- the next bytes of an open body
          right; right
          have hopen : b.isSealed = false := hsealed ▸ hend.1
          have hn : n = size b.text := by omega
          subst hn
          obtain ⟨o', hwrite, hholds⟩ := writeSegments_holds h hopen text
            (by omega)
          rw [if_pos hend, Int.toNat_natCast, hwrite, except_ok_bind]
          refine ⟨_, rfl, ⟨hbudget.2, hover, hopen, rfl⟩, ?_⟩
          have hnext : ((size b.text : Int) + size text).toNat =
              size b.text + size text := by
            omega
          rw [hnext]
          exact hholds
        · left
          rw [if_neg hend]
          refine ⟨_, rfl, ?_⟩
          rintro (⟨-, -, hopen, hn⟩ | ⟨-, -, hst⟩)
          · exact hend ⟨hsealed.trans hopen, by omega⟩
          · -- stored ranges start before the end, or are empty on a sealed body
            have hbounds := hst.bounds
            refine hend ⟨?_, by omega⟩
            by_contra hs
            exact hretry.2 ⟨by simpa using hs, by omega⟩
    · left
      have hadd : checkedAdd (n : Int) (size text) = none := by
        rw [checkedAdd, if_neg]
        exact fun hc => hover hc.2
      rw [hadd]
      refine ⟨_, rfl, ?_⟩
      rintro (⟨-, hlt, -⟩ | ⟨-, hlt, -⟩)
      · exact hover hlt
      · exact hover hlt
  · left
    rw [if_neg hbudget]
    refine ⟨_, rfl, ?_⟩
    rintro (⟨hle, -, -, hn⟩ | ⟨hle, -, hst⟩)
    · exact hbudget ⟨by omega, hle⟩
    · exact hbudget ⟨hst.bounds.1, hle⟩

/-! ### Maintenance -/

theorem insertMarker_eq_ok
    {o o' : Object}
    {encoding : BodyEncoding}
    (h : o.insertMarker encoding = .ok o') :
    o.encoding = none ∧ o' = { o with encoding := some encoding } := by
  unfold Object.insertMarker at h
  rw [ensure_bind] at h
  split at h
  · rename_i hnone
    exact ⟨hnone, (Except.ok.inj h).symm⟩
  · cases h

theorem insertSegments_encoding
    {rows : List (Nat × Bytes)}
    {o o' : Object}
    (h : Object.insertSegments rows o = .ok o') :
    o'.encoding = o.encoding := by
  induction rows generalizing o with
  | nil =>
      obtain rfl := Except.ok.inj h
      rfl
  | cons row rows ih =>
      obtain ⟨o₁, h₁, h⟩ := bind_eq_ok.1 h
      rw [ih h]
      unfold Object.insertSegment at h₁
      obtain ⟨_, -, h₁⟩ := bind_eq_ok.1 h₁
      obtain ⟨_, -, h₁⟩ := bind_eq_ok.1 h₁
      obtain rfl := Except.ok.inj h₁
      rfl

/-- Repacking an unmarked body keeps it. -/
theorem Holds.rechunk
    {o o' : Object}
    {b : Body}
    {counts : Option (Nat × Nat)}
    (h : Holds codec o b)
    (hplain : o.encoding ≠ some .gzip)
    (hrun : o.rechunk = .ok (o', counts)) :
    Holds codec o' b ∧ o'.encoding ≠ some .gzip := by
  unfold Object.rechunk at hrun
  split at hrun
  · obtain ⟨rfl, -⟩ := Prod.mk.inj (Except.ok.inj hrun)
    exact ⟨h, hplain⟩
  · obtain ⟨packed, hinsert, hpure⟩ := bind_eq_ok.1 hrun
    obtain ⟨rfl, -⟩ := Prod.mk.inj (Except.ok.inj hpure)
    obtain ⟨rfl, hpos, hle⟩ := insertSegment_eq_ok (by simp) hinsert
    refine ⟨⟨h.byteLength, h.sha256, h.marked, h.inRange, ?_⟩, hplain⟩
    obtain ⟨pieces, hlaid, hrows⟩ := h.plain hplain
    have hbody : (o.segments.flatMap fun row => row.2) = encode b.text := by
      rw [hrows, flatMap_rowsOf_encode, hlaid.body]
    rw [hbody, length_encode] at hpos hle
    have hne : b.text ≠ [] := by
      intro hnil
      rw [hnil] at hpos
      exact absurd hpos (by decide)
    refine ⟨[(0, b.text)], laid_singleton hne hle, ?_⟩
    rw [decide_eq_false hplain, hbody]
    rfl

/-- Compressing a sealed body keeps it, whatever the encoder makes of its chunks. -/
theorem Holds.compress
    {o o' : Object}
    {b : Body}
    {counts : Option (Nat × Nat)}
    (h : Holds codec o b)
    (hsealed : o.isSealed = true)
    (hrun : o.compress codec = .ok (o', counts)) :
    Holds codec o' b ∧ o'.isSealed = true := by
  unfold Object.compress at hrun
  split at hrun
  · obtain ⟨rfl, -⟩ := Prod.mk.inj (Except.ok.inj hrun)
    exact ⟨h, hsealed⟩
  · dsimp only at hrun
    split at hrun
    · -- not worth it: only the marker is written
      obtain ⟨marked, hmarker, hpure⟩ := bind_eq_ok.1 hrun
      obtain ⟨rfl, -⟩ := Prod.mk.inj (Except.ok.inj hpure)
      obtain ⟨hnone, rfl⟩ := insertMarker_eq_ok hmarker
      refine ⟨⟨h.byteLength, h.sha256, fun _ => hsealed, h.inRange, ?_⟩, hsealed⟩
      exact h.plain (by rw [hnone]; exact nofun)
    · obtain ⟨packed, hinsert, hrun⟩ := bind_eq_ok.1 hrun
      obtain ⟨marked, hmarker, hpure⟩ := bind_eq_ok.1 hrun
      obtain ⟨rfl, -⟩ := Prod.mk.inj (Except.ok.inj hpure)
      obtain ⟨hnone, rfl⟩ := insertMarker_eq_ok hmarker
      have hplain : o.encoding = none := by
        rw [← hnone, insertSegments_encoding hinsert]
      obtain ⟨pieces, hlaid, hrows⟩ := h.plain (by rw [hplain]; exact nofun)
      -- the chunks lay out the same text; each is then stored as a gzip member
      obtain ⟨chunks, hchunks, hcut⟩ := cutChunks_laid laid_nil hlaid
      have hencoded : (cutChunks (o.segments.map Prod.snd) [] 0).map
            (fun chunk => (chunk.1, codec.encode chunk.2)) =
          rowsOf (storedBytes codec true) chunks := by
        have hsegments : o.segments.map Prod.snd =
            pieces.map fun p => encode p.2 := by
          rw [hrows, rowsOf, List.map_map]
          rfl
        have hcut' : cutChunks (pieces.map fun p => encode p.2) [] 0 =
            rowsOf encode chunks := hcut
        rw [hsegments, hcut', rowsOf, List.map_map]
        rfl
      rw [hencoded] at hinsert
      obtain rfl := insertSegments_eq_ok (hchunks.rows_pairwise _) (by simp) hinsert
      refine ⟨⟨h.byteLength, h.sha256, fun _ => hsealed, h.inRange, ?_⟩, hsealed⟩
      exact ⟨chunks, hchunks, rfl⟩

section Maintain

variable {one : Object → Except String (Object × Option (Nat × Nat))}

/-- A pass changes the objects it visits, and no other. -/
theorem maintain_of_not_mem
    {id : Nat}
    {ids : List Nat}
    (hid : id ∉ ids)
    (s : Store)
    (counts : MaintenanceCounts) :
    Fields.lookup id (maintain one ids s counts).1 = Fields.lookup id s := by
  induction ids generalizing s counts with
  | nil =>
      rfl
  | cons id' ids ih =>
      have hne : id ≠ id' := fun heq => hid (heq ▸ List.mem_cons_self)
      have hrest : id ∉ ids := fun hmem => hid (List.mem_cons_of_mem id' hmem)
      unfold maintain
      split
      · exact ih hrest s counts
      · split
        · rfl
        · rw [ih hrest, Fields.lookup_insert, if_neg hne]
        · rw [ih hrest, Fields.lookup_insert, if_neg hne]

/-- What each transaction of a pass keeps of an object, the pass keeps. -/
theorem maintain_invariant
    {I : Object → Prop}
    (hone : ∀ o o' counts, I o → one o = .ok (o', counts) → I o')
    {id : Nat}
    {s : Store}
    (hs : ∃ o, Fields.lookup id s = some o ∧ I o)
    (ids : List Nat)
    (counts : MaintenanceCounts) :
    ∃ o, Fields.lookup id (maintain one ids s counts).1 = some o ∧ I o := by
  induction ids generalizing s counts with
  | nil =>
      exact hs
  | cons id' ids ih =>
      have hset : ∀ o o' r, Fields.lookup id' s = some o → one o = .ok (o', r) →
          ∃ o, Fields.lookup id (Fields.insert id' o' s) = some o ∧ I o := by
        intro o o' r hlook hrun
        obtain ⟨o₀, hlook₀, hI⟩ := hs
        rw [Fields.lookup_insert]
        by_cases hid : id = id'
        · subst hid
          obtain rfl : o₀ = o := Option.some.inj (hlook₀.symm.trans hlook)
          exact ⟨o', if_pos rfl, hone o₀ o' r hI hrun⟩
        · exact ⟨o₀, by rw [if_neg hid, hlook₀], hI⟩
      unfold maintain
      split
      · exact ih hs counts
      · rename_i o hlook
        split
        · exact hs
        · rename_i o' hrun
          exact ih (hset o o' none hlook hrun) counts
        · rename_i o' before after hrun
          exact ih (hset o o' _ hlook hrun) _

theorem mem_candidates
    {s : Store}
    {eligible : Object → Bool}
    {order : List Nat}
    {limit : Int}
    {id : Nat}
    (h : id ∈ s.candidates eligible order limit)
    {o : Object}
    (hlook : Fields.lookup id s = some o) :
    eligible o = true := by
  have hfilter : id ∈ order.filter
      fun id => (Fields.lookup id s).any eligible := by
    unfold Store.candidates at h
    dsimp only at h
    split at h
    · exact h
    · exact List.mem_of_mem_take h
  have hany := (List.mem_filter.1 hfilter).2
  simpa [hlook] using hany

end Maintain

/-! ### The store follows the body -/

theorem Stores.rechunk
    {s : Store}
    {id : Nat}
    {b : Body}
    (h : Stores codec s id b)
    (order : List Nat)
    (limit : Int) :
    Stores codec (s.rechunk order limit).1 id b := by
  obtain ⟨o, hlook, hholds⟩ := h
  unfold Store.rechunk
  by_cases hid : id ∈ s.candidates Object.canRechunk order limit
  · have hplain : o.encoding ≠ some .gzip := by
      have heligible := mem_candidates hid hlook
      simp only [Object.canRechunk, decide_eq_true_eq] at heligible
      rw [heligible.1]
      exact nofun
    obtain ⟨o', hlook', hholds', -⟩ := maintain_invariant
      (I := fun o => Holds codec o b ∧ o.encoding ≠ some .gzip)
      (fun o o' _ ho hrun => ho.1.rechunk ho.2 hrun)
      ⟨o, hlook, hholds, hplain⟩ (s.candidates Object.canRechunk order limit) {}
    exact ⟨o', hlook', hholds'⟩
  · exact ⟨o, (maintain_of_not_mem hid s {}).trans hlook, hholds⟩

theorem Stores.compress
    {s : Store}
    {id : Nat}
    {b : Body}
    (h : Stores codec s id b)
    (order : List Nat)
    (limit : Int) :
    Stores codec (s.compress codec order limit).1 id b := by
  obtain ⟨o, hlook, hholds⟩ := h
  unfold Store.compress
  by_cases hid : id ∈ s.candidates Object.canCompress order limit
  · have hsealed : o.isSealed = true := by
      have heligible := mem_candidates hid hlook
      simp only [Object.canCompress, decide_eq_true_eq] at heligible
      exact heligible.1
    obtain ⟨o', hlook', hholds', -⟩ := maintain_invariant
      (I := fun o => Holds codec o b ∧ o.isSealed = true)
      (fun o o' _ ho hrun => ho.1.compress ho.2 hrun)
      ⟨o, hlook, hholds, hsealed⟩ (s.candidates Object.canCompress order limit) {}
    exact ⟨o', hlook', hholds'⟩
  · exact ⟨o, (maintain_of_not_mem hid s {}).trans hlook, hholds⟩

/-- Setting another object, or this one to one that holds `b'`. -/
theorem Stores.insert
    {s : Store}
    {id id' : Nat}
    {b b' : Body}
    {o' : Object}
    (h : Stores codec s id b)
    (hset : id' = id → Holds codec o' b')
    (hother : id' ≠ id → b' = b) :
    Stores codec (Fields.insert id' o' s) id b' := by
  obtain ⟨o, hlook, hholds⟩ := h
  by_cases hid : id' = id
  · refine ⟨o', ?_, hset hid⟩
    rw [Fields.lookup_insert, if_pos hid.symm]
  · obtain rfl := hother hid
    refine ⟨o, ?_, hholds⟩
    rw [Fields.lookup_insert, if_neg (Ne.symm hid), hlook]

theorem Stores.append
    (hcodec : codec.Lossless)
    {s : Store}
    {id : Nat}
    {b : Body}
    (h : Stores codec s id b)
    (offset : Int)
    (text : Text) :
    Stores codec (commit s (s.append codec id offset text)).1 id
      (b.append offset text) := by
  obtain ⟨o, hlook, hholds⟩ := h
  rcases append_holds hcodec hlook hholds offset text with
    ⟨e, hrun, hrefused⟩ | ⟨hrun, -, -, hno⟩ | ⟨o', hrun, hext, hholds'⟩
  · rw [hrun, commit_error, Body.append, if_neg fun hext => hrefused (Or.inl hext)]
    exact ⟨o, hlook, hholds⟩
  · rw [hrun, commit_ok, Body.append, if_neg hno]
    exact ⟨o, hlook, hholds⟩
  · rw [hrun, commit_ok, Body.append, if_pos hext]
    exact Stores.insert ⟨o, hlook, hholds⟩ (fun _ => hholds') (fun hne => absurd rfl hne)

/-- An append to another object. -/
theorem Stores.append_other
    {s : Store}
    {id id' : Nat}
    {b : Body}
    (h : Stores codec s id b)
    (hid : id' ≠ id)
    (offset : Int)
    (text : Text) :
    Stores codec (commit s (s.append codec id' offset text)).1 id b := by
  cases hrun : s.append codec id' offset text with
  | error e =>
      exact h
  | ok result =>
      obtain ⟨s', range⟩ := result
      rw [commit_ok]
      unfold Store.append at hrun
      obtain ⟨_, -, hrun⟩ := bind_eq_ok.1 hrun
      obtain ⟨o, -, hrun⟩ := bind_eq_ok.1 hrun
      obtain ⟨finish, -, hrun⟩ := bind_eq_ok.1 hrun
      dsimp only at hrun
      split at hrun
      · obtain ⟨_, -, hrun⟩ := bind_eq_ok.1 hrun
        obtain ⟨_, -, hrun⟩ := bind_eq_ok.1 hrun
        obtain ⟨_, -, hrun⟩ := bind_eq_ok.1 hrun
        obtain ⟨rfl, -⟩ := Prod.mk.inj (Except.ok.inj hrun)
        exact h
      · obtain ⟨_, -, hrun⟩ := bind_eq_ok.1 hrun
        obtain ⟨o', -, hrun⟩ := bind_eq_ok.1 hrun
        obtain ⟨rfl, -⟩ := Prod.mk.inj (Except.ok.inj hrun)
        exact h.insert (fun heq => absurd heq hid) (fun _ => rfl)

theorem Holds.sealBody
    {o : Object}
    {b : Body}
    (h : Holds codec o b)
    (hash : String) :
    Holds codec { o with sha256 := some hash } { b with sha256 := some hash } where
  byteLength := h.byteLength
  sha256 := rfl
  marked := fun _ => rfl
  inRange := h.inRange
  laid := h.laid

theorem Stores.sealBody
    {s : Store}
    {id : Nat}
    {b : Body}
    (h : Stores codec s id b)
    (id' : Nat)
    (digest : ContentDigest) :
    Stores codec (commit s (s.sealBody codec id' digest)).1 id
      (if id' = id then b.sealBody codec digest else b) := by
  unfold Store.sealBody
  cases hlook' : Fields.lookup id' s with
  | none =>
      have hne : id' ≠ id := by
        rintro rfl
        obtain ⟨o, hlook, -⟩ := h
        rw [hlook'] at hlook
        cases hlook
      rw [if_neg hne]
      simp only [Store.objectRow, hlook', context_none]
      exact h
  | some o' =>
      rw [objectRow_of_lookup hlook', except_ok_bind]
      dsimp only
      by_cases hid : id' = id
      · subst hid
        obtain ⟨o, hlook, hholds⟩ := h
        obtain rfl : o' = o := Option.some.inj (hlook'.symm.trans hlook)
        have hsame : ((size b.text : Int) = digest.bytes ∧ b.isSealed = false) ↔
            ((o'.byteLength : Int) = digest.bytes ∧ o'.isSealed = false) := by
          rw [hholds.byteLength, hholds.isSealed]
        rw [if_pos rfl, Body.sealBody]
        by_cases hseal : (o'.byteLength : Int) = digest.bytes ∧ o'.isSealed = false
        · rw [if_pos hseal, if_pos (hsame.2 hseal)]
          exact Stores.insert ⟨o', hlook, hholds⟩
            (fun _ => hholds.sealBody (digest.finish codec))
            (fun hne => absurd rfl hne)
        · rw [if_neg hseal, if_neg fun hb => hseal (hsame.1 hb), ensure_bind]
          split
          · exact ⟨o', hlook, hholds⟩
          · exact ⟨o', hlook, hholds⟩
      · rw [if_neg hid]
        split
        · exact h.insert (fun heq => absurd heq hid) (fun _ => rfl)
        · rw [ensure_bind]
          split
          · exact h
          · exact h

/-- Every call of the store is matched by the same call of the body. -/
theorem step_stores
    (hcodec : codec.Lossless)
    {s : Store}
    {id : Nat}
    {b : Body}
    (h : Stores codec s id b)
    (op : ContentOp) :
    Stores codec (step codec s op) id (b.step codec id op) := by
  cases op with
  | create id' =>
      simp only [step, Body.step, Store.create]
      split
      · exact h
      · rename_i hnone
        refine h.insert (fun heq => ?_) (fun _ => rfl)
        obtain ⟨o, hlook, -⟩ := h
        rw [heq, hlook] at hnone
        cases hnone
  | append id' offset text =>
      simp only [step, Body.step]
      split
      · rename_i hid
        subst hid
        exact h.append hcodec offset text
      · rename_i hid
        exact h.append_other hid offset text
  | sealBody id' digest =>
      simp only [step, Body.step]
      exact h.sealBody _ digest
  | rechunk order limit =>
      exact h.rechunk order limit
  | compress order limit =>
      exact h.compress order limit

theorem run_stores
    (hcodec : codec.Lossless)
    {s : Store}
    {id : Nat}
    {b : Body}
    (h : Stores codec s id b)
    (ops : List ContentOp) :
    Stores codec (Machine.run (step codec) s ops) id
      (Machine.run (Body.step codec id) b ops) := by
  induction ops generalizing s b with
  | nil =>
      exact h
  | cons op ops ih =>
      exact ih (step_stores hcodec h op)

end Content
end FutureOs
