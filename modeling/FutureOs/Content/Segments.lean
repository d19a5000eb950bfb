import FutureOs.Content.Store
import FutureOs.Lib.Tiling

/-!
# Segments of a body

The rows of an object are the pieces of its body, laid end to end.  The module
says what each loop of the store does to such a layout:

* `readRows_laid`: the read loop finds any range, wherever the cuts are;
* `writeSegments_laid`: an append lays its text after the last row;
* `cutChunks_laid`: merging neighbours lays out the same body.
-/

namespace FutureOs
namespace Content

open Utf8

/-- A piece of a body, with the byte offset it starts at. -/
abbrev Piece := Nat × Text

def Piece.stop (p : Piece) : Nat := p.1 + size p.2

/-- The pieces lie end to end from `lo`, spell `text`, and each fits a segment. -/
structure Laid (lo : Nat) (pieces : List Piece) (text : Text) : Prop where
  tiles : Tiles Prod.fst Piece.stop lo pieces (lo + size text)
  body : pieces.flatMap Prod.snd = text
  bounded : ∀ p ∈ pieces, p.2 ≠ [] ∧ size p.2 ≤ segmentBytes

/-- How a piece is stored: its bytes, or one gzip member of them. -/
def storedBytes (codec : Codec) (compressed : Bool) (piece : Text) : Bytes :=
  if compressed then codec.encode (encode piece) else encode piece

def rowsOf (stored : Text → Bytes) (pieces : List Piece) : List (Nat × Bytes) :=
  pieces.map fun p => (p.1, stored p.2)

theorem laid_nil {lo : Nat} : Laid lo [] [] where
  tiles := rfl
  body := rfl
  bounded := by simp

theorem laid_cons_iff
    {lo : Nat}
    {p : Piece}
    {pieces : List Piece}
    {text : Text} :
    Laid lo (p :: pieces) text ↔
      p.1 = lo ∧ p.2 ≠ [] ∧ size p.2 ≤ segmentBytes ∧
        ∃ rest, text = p.2 ++ rest ∧ Laid (lo + size p.2) pieces rest := by
  constructor
  · rintro ⟨⟨hp, htiles⟩, hbody, hbounded⟩
    obtain ⟨hne, hle⟩ := hbounded p List.mem_cons_self
    refine ⟨hp, hne, hle, pieces.flatMap Prod.snd, hbody.symm, ?_, rfl, ?_⟩
    · have hsize : size text = size p.2 + size (pieces.flatMap Prod.snd) := by
        rw [← hbody, List.flatMap_cons, size_append]
      rw [Piece.stop, hp, hsize, ← Nat.add_assoc] at htiles
      exact htiles
    · exact fun q hq => hbounded q (List.mem_cons_of_mem p hq)
  · rintro ⟨hp, hne, hle, rest, rfl, htiles, hbody, hbounded⟩
    refine ⟨⟨hp, ?_⟩, ?_, ?_⟩
    · rw [Piece.stop, hp, size_append, ← Nat.add_assoc]
      exact htiles
    · rw [List.flatMap_cons, hbody]
    · intro q hq
      rcases List.mem_cons.1 hq with rfl | hq
      · exact ⟨hne, hle⟩
      · exact hbounded q hq

theorem laid_append
    {lo : Nat}
    {pieces more : List Piece}
    {text text' : Text}
    (h : Laid lo pieces text)
    (h' : Laid (lo + size text) more text') :
    Laid lo (pieces ++ more) (text ++ text') where
  tiles := by
    rw [size_append, ← Nat.add_assoc]
    exact tiles_append.2 ⟨lo + size text, h.tiles, h'.tiles⟩
  body := by
    rw [List.flatMap_append, h.body, h'.body]
  bounded := by
    intro p hp
    rcases List.mem_append.1 hp with hp | hp
    · exact h.bounded p hp
    · exact h'.bounded p hp

theorem laid_singleton
    {lo : Nat}
    {text : Text}
    (hne : text ≠ [])
    (hle : size text ≤ segmentBytes) :
    Laid lo [(lo, text)] text :=
  laid_cons_iff.2 ⟨rfl, hne, hle, [], (List.append_nil text).symm, laid_nil⟩

/-- The last piece ends the body. -/
theorem laid_concat
    {lo : Nat}
    {pieces : List Piece}
    {p : Piece}
    {text : Text}
    (h : Laid lo (pieces ++ [p]) text) :
    ∃ front, text = front ++ p.2 ∧ Laid lo pieces front ∧ p.1 = lo + size front := by
  obtain ⟨htiles, hbody, hbounded⟩ := h
  obtain ⟨hfront, hstop⟩ := tiles_concat.1 htiles
  rw [List.flatMap_append, List.flatMap_singleton] at hbody
  have hp : p.1 = lo + size (pieces.flatMap Prod.snd) := by
    rw [← hbody, size_append, Piece.stop] at hstop
    omega
  refine ⟨pieces.flatMap Prod.snd, hbody.symm, ⟨hp ▸ hfront, rfl, ?_⟩, hp⟩
  exact fun q hq => hbounded q (List.mem_append_left [p] hq)

theorem Laid.stop_pos
    {lo : Nat}
    {pieces : List Piece}
    {text : Text}
    (h : Laid lo pieces text) :
    ∀ p ∈ pieces, p.1 < p.stop := by
  intro p hp
  have hpos := size_pos (h.bounded p hp).1
  rw [Piece.stop]
  omega

/-- Every row lies inside the body. -/
theorem Laid.bounds
    {lo : Nat}
    {pieces : List Piece}
    {text : Text}
    (h : Laid lo pieces text)
    (stored : Text → Bytes)
    {row : Nat × Bytes}
    (hrow : row ∈ rowsOf stored pieces) :
    lo ≤ row.1 ∧ row.1 < lo + size text := by
  obtain ⟨p, hp, rfl⟩ := List.mem_map.1 hrow
  obtain ⟨hlo, hhi⟩ := h.tiles.bounds h.stop_pos hp
  exact ⟨hlo, lt_of_lt_of_le (h.stop_pos p hp) hhi⟩

theorem rowsOf_append (stored : Text → Bytes) (pieces more : List Piece) :
    rowsOf stored (pieces ++ more) = rowsOf stored pieces ++ rowsOf stored more :=
  List.map_append

/-! ### Reading -/

theorem decodeRow_stored
    {codec : Codec}
    (hcodec : codec.Lossless)
    (compressed : Bool)
    (piece : Text) :
    decodeRow codec compressed (storedBytes codec compressed piece) = .ok piece := by
  cases compressed with
  | false =>
      simp [decodeRow, storedBytes]
  | true =>
      simp [decodeRow, storedBytes, hcodec (encode piece)]

/-- One round over a row that ends at or before `next` skips it. -/
theorem readRows_skip
    {codec : Codec}
    (hcodec : codec.Lossless)
    {compressed : Bool}
    {finish start next : Nat}
    {piece text : Text}
    {rows : List (Nat × Bytes)}
    (h : start + size piece ≤ next) :
    readRows codec compressed finish
        ((start, storedBytes codec compressed piece) :: rows) text next =
      readRows codec compressed finish rows text next := by
  rw [readRows, decodeRow_stored hcodec, except_ok_bind]
  exact if_pos h

/-- One round over the row that holds `next`. -/
theorem readRows_hit
    {codec : Codec}
    (hcodec : codec.Lossless)
    {compressed : Bool}
    {finish start next : Nat}
    {piece text : Text}
    {rows : List (Nat × Bytes)}
    (hstart : start ≤ next)
    (hnext : next < start + size piece) :
    readRows codec compressed finish
        ((start, storedBytes codec compressed piece) :: rows) text next =
      if isBoundary piece (next - start) = true then
        let requested := min (finish - start) (size piece)
        let upTo := floorBoundary piece requested
        let text' := text ++ dropBytes (next - start) (takeBytes upTo piece)
        if upTo < size piece then
          .ok (text', start + upTo, decide (upTo < requested))
        else
          readRows codec compressed finish rows text' (start + upTo)
      else
        .error "content offset is not a UTF-8 boundary" := by
  rw [readRows, decodeRow_stored hcodec, except_ok_bind]
  dsimp only
  rw [if_neg (Nat.not_le_of_lt hnext), ensure_bind, if_pos hstart, ensure_bind]
  simp only [Nat.add_lt_add_iff_left]
  rfl

/--
The read loop over the rows the query selects: from a character boundary it
returns what fits, and it flags a cut exactly when it stopped early.
-/
theorem readRows_laid
    {codec : Codec}
    (hcodec : codec.Lossless)
    (compressed : Bool)
    {lo : Nat}
    {pieces : List Piece}
    {text : Text}
    (h : Laid lo pieces text)
    {lookback next finish : Nat}
    (hlo : lo ≤ next)
    (hnext : next ≤ finish)
    (hfinish : finish ≤ lo + size text)
    (hback : lookback ≤ next - segmentBytes)
    (acc : Text) :
    readRows codec compressed finish
        ((rowsOf (storedBytes codec compressed) pieces).filter
          fun row => lookback ≤ row.1 ∧ row.1 < finish) acc next =
      if isBoundary text (next - lo) = true then
        let taken := takeBytes (finish - next) (dropBytes (next - lo) text)
        .ok (acc ++ taken, next + size taken, decide (next + size taken < finish))
      else
        .error "content offset is not a UTF-8 boundary" := by
  induction pieces generalizing lo text next acc with
  | nil =>
      obtain rfl : text = [] := h.body.symm
      obtain ⟨rfl, rfl⟩ : next = lo ∧ finish = lo := by
        simp only [size_nil] at hfinish
        omega
      simp [rowsOf, readRows]
      rfl
  | cons p pieces ih =>
      obtain ⟨start, piece⟩ := p
      obtain ⟨rfl, hne, hle, rest, rfl, hrest⟩ := laid_cons_iff.1 h
      simp only at hne hle hrest
      simp only [size_append] at hfinish
      -- what the loop does once it is past this piece
      have hpast : start + size piece ≤ next →
          readRows codec compressed finish
              ((rowsOf (storedBytes codec compressed) pieces).filter
                fun row => lookback ≤ row.1 ∧ row.1 < finish) acc next =
            if isBoundary (piece ++ rest) (next - start) = true then
              let taken :=
                takeBytes (finish - next) (dropBytes (next - start) (piece ++ rest))
              .ok (acc ++ taken, next + size taken,
                decide (next + size taken < finish))
            else
              .error "content offset is not a UTF-8 boundary" := by
        intro hstop
        have hoff : next - start = size piece + (next - (start + size piece)) := by
          omega
        rw [ih hrest hstop hnext (by omega) hback, hoff, isBoundary_append,
          dropBytes_append]
      rw [rowsOf, List.map_cons, ← rowsOf]
      by_cases hlook : lookback ≤ start
      · by_cases hend : start < finish
        · rw [List.filter_cons_of_pos (by simp [hlook, hend])]
          by_cases hstop : start + size piece ≤ next
          · rw [readRows_skip hcodec hstop]
            exact hpast hstop
          · have hin : next < start + size piece := Nat.lt_of_not_le hstop
            rw [readRows_hit hcodec hlo hin,
              isBoundary_append_of_le (by omega : next - start ≤ size piece)]
            by_cases hb : isBoundary piece (next - start) = true
            · rw [if_pos hb, if_pos hb, dropBytes_append_of_isBoundary hb]
              have hdrop := size_dropBytes hb
              by_cases hfin : finish < start + size piece
              · -- the range ends inside this piece
                have hreq : min (finish - start) (size piece) = finish - start := by
                  omega
                have hfit : finish - next ≤ size (dropBytes (next - start) piece) := by
                  omega
                have hslice := dropBytes_takeBytes hb
                  (by omega : next - start ≤ finish - start)
                have hsub : finish - start - (next - start) = finish - next := by
                  omega
                rw [hsub] at hslice
                have hupTo := floorBoundary_le piece (finish - start)
                have hsize : floorBoundary piece (finish - start) =
                    next - start +
                      size (takeBytes (finish - next)
                        (dropBytes (next - start) piece)) := by
                  rw [← size_takeBytes, ← hslice]
                  exact (size_dropBytes (isBoundary_takeBytes hb (by omega))).symm
                simp only [hreq]
                rw [if_pos (by omega), takeBytes_floorBoundary, hslice,
                  takeBytes_append_of_le hfit, hsize]
                have hend' : start +
                    (next - start + size (takeBytes (finish - next)
                      (dropBytes (next - start) piece))) =
                    next + size (takeBytes (finish - next)
                      (dropBytes (next - start) piece)) := by
                  omega
                rw [hend']
                congr 3
                apply decide_eq_decide.2
                omega
              · -- the piece is read to its end and the loop goes on
                have hreq : min (finish - start) (size piece) = size piece := by
                  omega
                have hfull : floorBoundary piece (size piece) = size piece :=
                  floorBoundary_of_isBoundary (isBoundary_size piece)
                simp only [hreq, hfull]
                rw [if_neg (Nat.lt_irrefl _),
                  takeBytes_of_size_le (Nat.le_refl (size piece)),
                  ih hrest (Nat.le_refl _) (by omega) (by omega) (by omega)]
                have hsplit : finish - next =
                    size (dropBytes (next - start) piece) +
                      (finish - (start + size piece)) := by
                  omega
                rw [hsplit, takeBytes_append, Nat.sub_self, isBoundary_zero,
                  if_pos rfl, dropBytes_zero]
                have hcount :
                    next + size (dropBytes (next - start) piece ++
                      takeBytes (finish - (start + size piece)) rest) =
                    start + size piece +
                      size (takeBytes (finish - (start + size piece)) rest) := by
                  rw [size_append]
                  omega
                simp only [hcount, List.append_assoc]
            · rw [if_neg hb, if_neg hb]
        · -- the range ended before this piece
          have hn : next = start := by omega
          have hf : finish = start := by omega
          have hnone : ((start, storedBytes codec compressed piece) ::
              rowsOf (storedBytes codec compressed) pieces).filter
                (fun row => lookback ≤ row.1 ∧ row.1 < start) = [] := by
            refine List.filter_eq_nil_iff.2 fun row hrow => ?_
            have hrow' := (h.bounds (storedBytes codec compressed) hrow).1
            simp only [decide_eq_true_eq]
            omega
          rw [hf, hn, hnone]
          simp [readRows]
          rfl
      · -- the query does not look back that far
        rw [List.filter_cons_of_neg (by simp [hlook])]
        exact hpast (by omega)

/-! ### Writing -/

/-- A row past all others, of an admissible size, is stored after them. -/
theorem insertSegment_last
    {o : Object}
    {byteOffset : Nat}
    (body : Bytes)
    (hlast : ∀ row ∈ o.segments, row.1 < byteOffset)
    (hpos : 1 ≤ body.length)
    (hle : body.length ≤ 16384) :
    o.insertSegment byteOffset body =
      .ok { o with segments := o.segments ++ [(byteOffset, body)] } := by
  have hfree : Fields.lookup byteOffset o.segments = none :=
    Fields.lookup_eq_none_of_forall_ne fun row hrow => ne_of_lt (hlast row hrow)
  unfold Object.insertSegment
  rw [ensure_bind, if_pos ⟨hpos, hle⟩, ensure_bind, if_pos hfree,
    Fields.insert_last hlast]
  rfl

theorem insertSegment_eq_ok
    {o o' : Object}
    {byteOffset : Nat}
    {body : Bytes}
    (hlast : ∀ row ∈ o.segments, row.1 < byteOffset)
    (h : o.insertSegment byteOffset body = .ok o') :
    o' = { o with segments := o.segments ++ [(byteOffset, body)] } ∧
      1 ≤ body.length ∧ body.length ≤ 16384 := by
  unfold Object.insertSegment at h
  rw [ensure_bind] at h
  split at h
  · rename_i hsize
    rw [ensure_bind] at h
    split at h
    · rw [Fields.insert_last hlast] at h
      exact ⟨(Except.ok.inj h).symm, hsize⟩
    · cases h
  · cases h

/-- Rows with increasing offsets past all others are stored in order, if at all. -/
theorem insertSegments_eq_ok
    {rows : List (Nat × Bytes)}
    {o o' : Object}
    (hrows : rows.Pairwise fun a b => a.1 < b.1)
    (hlast : ∀ row ∈ o.segments, ∀ row' ∈ rows, row.1 < row'.1)
    (h : Object.insertSegments rows o = .ok o') :
    o' = { o with segments := o.segments ++ rows } := by
  induction rows generalizing o with
  | nil =>
      obtain rfl := Except.ok.inj h
      simp
  | cons row rows ih =>
      obtain ⟨hhead, htail⟩ := List.pairwise_cons.1 hrows
      obtain ⟨o₁, h₁, h⟩ := bind_eq_ok.1 h
      obtain ⟨rfl, -⟩ := insertSegment_eq_ok
        (fun r hr => hlast r hr row List.mem_cons_self) h₁
      have hnext := ih htail (fun r hr r' hr' => ?_) h
      · simpa using hnext
      · rcases List.mem_append.1 hr with hr | hr
        · exact hlast r hr r' (List.mem_cons_of_mem row hr')
        · rw [List.mem_singleton.1 hr]
          exact hhead r' hr'

/--
The write loop on `written ++ rest`, with `written` done: it lays `rest` after the
rows that are there.
-/
theorem writeSegments_laid
    {offset fuel : Nat}
    {written : Text}
    (rest : Text)
    {o : Object}
    (hfuel : size rest ≤ fuel)
    (hlast : ∀ row ∈ o.segments, row.1 < offset + size written) :
    ∃ pieces,
      Laid (offset + size written) pieces rest ∧
      Store.writeSegments offset (written ++ rest) fuel (size written) o =
        .ok { o with segments := o.segments ++ rowsOf encode pieces } := by
  induction fuel generalizing written rest o with
  | zero =>
      obtain rfl := eq_nil_of_size (Nat.le_zero.1 hfuel)
      refine ⟨[], laid_nil, ?_⟩
      simp [Store.writeSegments, rowsOf]
      rfl
  | succ fuel ih =>
      unfold Store.writeSegments
      cases hrest : rest with
      | nil =>
          refine ⟨[], laid_nil, ?_⟩
          simp [rowsOf]
          rfl
      | cons c tail =>
          rw [← hrest]
          have hne : rest ≠ [] := hrest ▸ List.cons_ne_nil c tail
          have hpos := size_pos hne
          -- one round writes the longest prefix of the rest that fits a segment
          obtain ⟨piece, hpiece⟩ : ∃ piece, piece = takeBytes segmentBytes rest :=
            ⟨_, rfl⟩
          obtain ⟨after, hafter⟩ : ∃ after, after = dropBytes segmentBytes rest :=
            ⟨_, rfl⟩
          have hsplit : rest = piece ++ after := by
            rw [hpiece, hafter, takeBytes_append_dropBytes]
          have hfits : size piece ≤ segmentBytes :=
            hpiece ▸ size_takeBytes_le segmentBytes rest
          have hpiecePos : 0 < size piece := by
            have hc : c.utf8Size ≤ 4 := Char.utf8Size_le_four c
            have hfirst : [c] <+: takeBytes segmentBytes rest := by
              refine prefix_takeBytes ⟨tail, ?_⟩ ?_
              · rw [hrest]
                rfl
              · simp only [size_cons, size_nil, segmentBytes]
                omega
            have hle := size_le_of_isPrefixOf hfirst
            have hcpos := c.utf8Size_pos
            rw [hpiece]
            simp only [size_cons, size_nil] at hle
            omega
          have hpieceNe : piece ≠ [] := by
            rintro rfl
            exact Nat.lt_irrefl 0 hpiecePos
          have hcut : takeBytes (min (size written + segmentBytes)
              (size (written ++ rest))) (written ++ rest) = written ++ piece := by
            rcases Nat.le_total (size rest) segmentBytes with hsmall | hlarge
            · have hmin : min (size written + segmentBytes) (size (written ++ rest)) =
                  size (written ++ rest) := by
                rw [size_append]
                omega
              rw [hmin, takeBytes_of_size_le (Nat.le_refl _), hpiece,
                takeBytes_of_size_le hsmall]
            · have hmin : min (size written + segmentBytes) (size (written ++ rest)) =
                  size written + segmentBytes := by
                rw [size_append]
                omega
              rw [hmin, takeBytes_append, hpiece]
          have hfinish : floorBoundary (written ++ rest)
              (min (size written + segmentBytes) (size (written ++ rest))) =
              size (written ++ piece) := by
            rw [← size_takeBytes, hcut]
          have hslice : dropBytes (size written)
              (takeBytes (size (written ++ piece)) (written ++ rest)) = piece := by
            rw [hsplit, ← List.append_assoc, takeBytes_append_size,
              dropBytes_append_size]
          have hmore : size written < size (written ++ rest) := by
            rw [size_append]
            omega
          have hstored := insertSegment_last (encode piece) hlast
            (by rw [length_encode]; omega)
            (by rw [length_encode]; exact hfits)
          have hsizeRest : size rest = size piece + size after := by
            rw [hsplit, size_append]
          obtain ⟨pieces, hlaid, hrun⟩ := @ih (written ++ piece) after
            { o with
              segments := o.segments ++ [(offset + size written, encode piece)] }
            (by omega)
            (by
              intro row hrow
              rw [size_append]
              rcases List.mem_append.1 hrow with hrow | hrow
              · have hold := hlast row hrow
                omega
              · rw [List.mem_singleton.1 hrow]
                simp only
                omega)
          refine ⟨(offset + size written, piece) :: pieces, ?_, ?_⟩
          · refine laid_cons_iff.2 ⟨rfl, hpieceNe, hfits, after, hsplit, ?_⟩
            rw [size_append, ← Nat.add_assoc] at hlaid
            exact hlaid
          · rw [if_pos hmore]
            simp only [hfinish, hslice, hstored, except_ok_bind]
            rw [List.append_assoc, ← hsplit] at hrun
            rw [hrun]
            simp [rowsOf]

/-! ### Chunking -/

/-- One round of the chunking loop keeps the layout. -/
theorem pushSegment_laid
    {done : List Piece}
    {front piece : Text}
    (hdone : Laid 0 done front)
    (hne : piece ≠ [])
    (hle : size piece ≤ segmentBytes) :
    ∃ done',
      Laid 0 done' (front ++ piece) ∧
      pushSegment (rowsOf encode done).reverse (size front) (encode piece) =
        (rowsOf encode done').reverse := by
  have happend : Laid 0 (done ++ [(size front, piece)]) (front ++ piece) := by
    refine laid_append hdone ?_
    rw [Nat.zero_add]
    exact laid_singleton hne hle
  rcases List.eq_nil_or_concat done with rfl | ⟨before, q, rfl⟩
  · exact ⟨_, happend, rfl⟩
  · rw [List.concat_eq_append] at hdone happend ⊢
    have hrows : (rowsOf encode (before ++ [q])).reverse =
        (q.1, encode q.2) :: (rowsOf encode before).reverse := by
      simp [rowsOf]
    rw [hrows, pushSegment]
    split
    · -- the pending chunk takes the segment
      rename_i hfit
      rw [length_encode, length_encode, compressedChunkBytes] at hfit
      obtain ⟨before', rfl, hbefore, hq⟩ := laid_concat hdone
      have hmerged : size (q.2 ++ piece) ≤ segmentBytes := by
        rw [size_append, segmentBytes]
        omega
      have hmergedNe : q.2 ++ piece ≠ [] := by
        intro hnil
        exact hne (List.append_eq_nil_iff.1 hnil).2
      refine ⟨before ++ [(q.1, q.2 ++ piece)], ?_, ?_⟩
      · rw [List.append_assoc, hq]
        exact laid_append hbefore (laid_singleton hmergedNe hmerged)
      · simp [rowsOf]
    · -- it starts a chunk of its own
      refine ⟨_, happend, ?_⟩
      simp [rowsOf]

theorem cutChunks_laid
    {done pieces : List Piece}
    {front rest : Text}
    (hdone : Laid 0 done front)
    (hpieces : Laid (size front) pieces rest) :
    ∃ chunks,
      Laid 0 chunks (front ++ rest) ∧
      cutChunks (pieces.map fun p => encode p.2) (rowsOf encode done).reverse
        (size front) = rowsOf encode chunks := by
  induction pieces generalizing done front rest with
  | nil =>
      obtain rfl : rest = [] := hpieces.body.symm
      refine ⟨done, ?_, ?_⟩
      · rwa [List.append_nil]
      · simp [cutChunks]
  | cons p pieces ih =>
      obtain ⟨-, hne, hle, tail, rfl, htail⟩ := laid_cons_iff.1 hpieces
      obtain ⟨done', hdone', hpush⟩ := pushSegment_laid hdone hne hle
      have hsize : size front + size p.2 = size (front ++ p.2) :=
        (size_append front p.2).symm
      rw [hsize] at htail
      obtain ⟨chunks, hchunks, hcut⟩ := ih hdone' htail
      refine ⟨chunks, ?_, ?_⟩
      · rwa [← List.append_assoc]
      · rw [List.map_cons, cutChunks, hpush, length_encode, hsize, hcut]

/-- The rows of a layout, whatever their encoding, come in increasing order. -/
theorem Laid.rows_pairwise
    {lo : Nat}
    {pieces : List Piece}
    {text : Text}
    (h : Laid lo pieces text)
    (stored : Text → Bytes) :
    (rowsOf stored pieces).Pairwise fun a b => a.1 < b.1 :=
  List.pairwise_map.2 (h.tiles.pairwise h.stop_pos)

theorem flatMap_rowsOf_encode (pieces : List Piece) :
    ((rowsOf encode pieces).flatMap fun row => row.2) =
      encode (pieces.flatMap Prod.snd) := by
  induction pieces with
  | nil =>
      rfl
  | cons p pieces ih =>
      rw [rowsOf, List.map_cons, ← rowsOf, List.flatMap_cons, ih,
        List.flatMap_cons, encode_append]

end Content
end FutureOs
