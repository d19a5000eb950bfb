import FutureOs.History.Paging

/-!
# What a history page holds

Rows are read in one of two directions.  From a cursor there is a queue of rows
(`DisplayIndex.queue`); a page takes rows from its front and says where the rest starts
(`readHistoryPage_spec`), or holds a part of the first row, if that fills a page alone.
-/

namespace FutureOs
namespace History

inductive Direction
  | backward
  | forward
deriving DecidableEq

namespace Direction

/-- The cursor of the newest row backwards, of the first row forwards. -/
def start : Direction → Nat
  | .backward => i64Max
  | .forward => 0

def request (dir : Direction) (cursor : Nat) (limit fragmentOffset : Option Int) : PageRequest :=
  match dir with
  | .backward => { before := some cursor, offset := none, limit := limit
                   fragmentOffset := fragmentOffset }
  | .forward => { before := none, offset := some cursor, limit := limit
                  fragmentOffset := fragmentOffset }

/-- The cursor from which a row comes first. -/
def toRow (dir : Direction) (row : DisplayPageRow) : Nat :=
  match dir with
  | .backward => row.ordinal + 1
  | .forward => row.ordinal

/-- The cursor behind a row. -/
def after (dir : Direction) (row : DisplayPageRow) : Nat :=
  match dir with
  | .backward => row.ordinal
  | .forward => row.ordinal + 1

/-- Rows in the order of the conversation. -/
def ordered {α : Type} (dir : Direction) (rows : List α) : List α :=
  match dir with
  | .backward => rows.reverse
  | .forward => rows

end Direction

/-- The rows from a cursor on, in the order they are read. -/
def DisplayIndex.queue (index : DisplayIndex) (dir : Direction) (cursor : Nat) :
    List DisplayPageRow :=
  match dir with
  | .backward => (index.numbered.take cursor).reverse
  | .forward => index.numbered.drop cursor

section Queue

variable {index : DisplayIndex}

theorem length_numbered : index.numbered.length = index.total := by
  simp [DisplayIndex.numbered, DisplayIndex.total]

theorem ordinal_of_split
    {before after : List DisplayPageRow}
    {row : DisplayPageRow}
    (h : index.numbered = before ++ row :: after) :
    row.ordinal = before.length := by
  have hrow : index.numbered[before.length]? = some row := by
    rw [h, List.getElem?_append_right (Nat.le_refl _), Nat.sub_self]
    rfl
  rw [DisplayIndex.numbered, List.getElem?_map, List.getElem?_zipIdx] at hrow
  cases hget : index.rows[before.length]? with
  | none =>
      rw [hget] at hrow
      cases hrow
  | some display =>
      rw [hget] at hrow
      simp only [Option.map_some, Option.some.injEq] at hrow
      rw [← hrow]
      simp [DisplayIndex.selected]

theorem ordinal_lt
    {row : DisplayPageRow}
    (h : row ∈ index.numbered) :
    row.ordinal < index.total := by
  obtain ⟨before, after, hsplit⟩ := List.append_of_mem h
  rw [ordinal_of_split hsplit, ← length_numbered, hsplit, List.length_append]
  simp

/-- The queue behind a row, and from the row on. -/
theorem queue_split
    {dir : Direction}
    {cursor : Nat}
    {taken left : List DisplayPageRow}
    {row : DisplayPageRow}
    (h : index.queue dir cursor = taken ++ row :: left) :
    index.queue dir (dir.after row) = left ∧ index.queue dir (dir.toRow row) = row :: left := by
  cases dir with
  | backward =>
      have htake : index.numbered.take cursor = left.reverse ++ row :: taken.reverse := by
        have hrev := congrArg List.reverse h
        simpa [DisplayIndex.queue] using hrev
      have hsplit : index.numbered =
          left.reverse ++ row :: (taken.reverse ++ index.numbered.drop cursor) := by
        rw [← List.cons_append, ← List.append_assoc, ← htake, List.take_append_drop]
      have hordinal := ordinal_of_split hsplit
      simp only [DisplayIndex.queue, Direction.after, Direction.toRow]
      constructor
      · rw [hordinal, hsplit, List.take_left, List.reverse_reverse]
      · rw [hordinal, hsplit, List.take_length_add_append]
        simp
  | forward =>
      obtain ⟨before, hsplit⟩ : ∃ before, index.numbered = before ++ row :: left := by
        refine ⟨index.numbered.take cursor ++ taken, ?_⟩
        have hdrop : index.numbered.drop cursor = taken ++ row :: left := h
        rw [List.append_assoc, ← hdrop, List.take_append_drop]
      have hordinal := ordinal_of_split hsplit
      simp only [DisplayIndex.queue, Direction.after, Direction.toRow]
      constructor
      · rw [hordinal, hsplit, List.drop_length_add_append]
        rfl
      · rw [hordinal, hsplit, List.drop_left]

theorem mem_numbered
    {dir : Direction}
    {cursor : Nat}
    {row : DisplayPageRow}
    (h : row ∈ index.queue dir cursor) :
    row ∈ index.numbered := by
  cases dir with
  | backward =>
      exact List.mem_of_mem_take (List.mem_reverse.1 h)
  | forward =>
      exact List.mem_of_mem_drop h

/-- Where a queue ends, in each direction. -/
theorem queue_ne_nil_iff
    {dir : Direction}
    {cursor : Nat}
    (hcursor : cursor ≤ index.total) :
    index.queue dir cursor ≠ [] ↔
      match dir with
      | .backward => 0 < cursor
      | .forward => cursor < index.total := by
  cases dir with
  | backward =>
      rw [DisplayIndex.queue, Ne, List.reverse_eq_nil_iff, ← List.length_eq_zero_iff,
        List.length_take, length_numbered]
      dsimp only
      omega
  | forward =>
      rw [DisplayIndex.queue, Ne, ← List.length_eq_zero_iff, List.length_drop, length_numbered]
      dsimp only
      omega

end Queue

section TakeRows

variable {canonical : Bool}
variable {rowsCap : Option Nat}
variable {after : DisplayPageRow → Nat}

/-- Rows are taken from the front, at least one, and the next page starts after the last. -/
theorem takeRows_spec
    {rows : List DisplayPageRow}
    (hheaders : canonical = true → ∀ row ∈ rows, row.size ≤ readBytes)
    (count bodyBytes next : Nat) :
    ∃ taken left next', takeRows canonical rowsCap after count bodyBytes next rows =
        .ok (taken, next') ∧ rows = taken ++ left ∧
      next' = (taken.getLast?.map after).getD next ∧
      (count = 0 → rows ≠ [] → taken ≠ []) := by
  induction rows generalizing count bodyBytes next with
  | nil =>
      exact ⟨[], [], next, rfl, rfl, rfl, fun _ h => h⟩
  | cons row rest ih =>
      rw [takeRows]
      split
      · rename_i hfull
        exact ⟨[], row :: rest, next, rfl, rfl, rfl, fun hcount => by omega⟩
      rw [if_neg fun hbig => absurd (hheaders hbig.1 row List.mem_cons_self) (by omega)]
      split
      · exact ⟨[row], rest, after row, rfl, rfl, rfl, fun _ _ => List.cons_ne_nil _ _⟩
      · obtain ⟨taken, left, next', htake, hsplit, hnext, -⟩ :=
          ih (fun h other hother => hheaders h other (List.mem_cons_of_mem _ hother))
            (count + 1) (bodyBytes + row.size) (after row)
        refine ⟨row :: taken, left, next', ?_, ?_, ?_, fun _ _ => List.cons_ne_nil _ _⟩
        · rw [htake]
          rfl
        · rw [hsplit, List.cons_append]
        · rw [hnext, List.getLast?_cons]
          cases taken.getLast? <;> rfl

end TakeRows

section ReadDisplayPage

variable {index : DisplayIndex}

/-- Headers that one read can hold. -/
def SmallHeaders (index : DisplayIndex) : Prop :=
  index.canonical = true → ∀ row ∈ index.numbered, row.size ≤ readBytes

theorem clamp_eq
    {lo hi : Nat}
    {x : Int}
    (h : lo ≤ hi) :
    lo ≤ clamp lo hi x ∧ clamp lo hi x ≤ hi := by
  rw [clamp]
  omega

theorem exchangeStart_lt
    {stop count : Nat}
    (hstop : 0 < stop) :
    index.exchangeStart stop count < stop := by
  rw [DisplayIndex.exchangeStart]
  cases hget : (((index.rows.zipIdx.take stop).filter (·.1.isUser)).reverse.map
      (·.2))[count - 1]? with
  | none =>
      exact hstop
  | some ordinal =>
      have hmem := List.mem_of_getElem? hget
      obtain ⟨row, hrow, rfl⟩ := List.mem_map.1 hmem
      have htake := (List.mem_filter.1 (List.mem_reverse.1 hrow)).1
      rw [List.mem_iff_getElem?] at htake
      obtain ⟨i, hi⟩ := htake
      rw [List.getElem?_take] at hi
      split at hi
      · rw [List.getElem?_zipIdx] at hi
        cases hrow : index.rows[i]? with
        | none =>
            rw [hrow] at hi
            cases hi
        | some display =>
            rw [hrow] at hi
            simp only [Option.map_some, Option.some.injEq] at hi
            rw [← hi]
            simpa using ‹i < stop›
      · cases hi

theorem window_backward
    {stop : Nat}
    (hstop : stop ≤ index.total)
    (count : Nat) :
    ∃ left, index.queue .backward stop =
        (index.rowsBetween (index.exchangeStart stop count) stop).reverse ++ left ∧
      (index.queue .backward stop ≠ [] →
        (index.rowsBetween (index.exchangeStart stop count) stop).reverse ≠ []) := by
  refine ⟨((index.numbered.take stop).take (index.exchangeStart stop count)).reverse, ?_, ?_⟩
  · rw [DisplayIndex.queue, DisplayIndex.rowsBetween, ← List.reverse_append,
      List.take_append_drop]
  · intro hne
    have hlt : index.exchangeStart stop count < stop :=
      exchangeStart_lt ((queue_ne_nil_iff hstop).1 hne)
    rw [DisplayIndex.rowsBetween, Ne, List.reverse_eq_nil_iff, ← List.length_eq_zero_iff,
      List.length_drop, List.length_take, length_numbered]
    omega

theorem window_forward
    {start stop : Nat}
    (hlt : start < index.total → start < stop) :
    ∃ left, index.queue .forward start = index.rowsBetween start stop ++ left ∧
      (index.queue .forward start ≠ [] → index.rowsBetween start stop ≠ []) := by
  refine ⟨(index.numbered.drop start).drop (stop - start), ?_, ?_⟩
  · rw [DisplayIndex.queue, DisplayIndex.rowsBetween, List.drop_take, List.take_append_drop]
  · intro hne
    have hstart : start < index.total := by
      rw [DisplayIndex.queue, Ne, ← List.length_eq_zero_iff, List.length_drop,
        length_numbered] at hne
      omega
    have hstop := hlt hstart
    rw [DisplayIndex.rowsBetween, Ne, ← List.length_eq_zero_iff, List.length_drop,
      List.length_take, length_numbered]
    omega

/-- The window of a forward page, which the canonical format cuts at 64 rows. -/
theorem window_limited
    {start : Nat}
    (limit : Option Int) :
    let rows := index.rowsBetween start
      (min (start + clamp 1 1000 (limit.getD 250)) index.total)
    ∃ left, index.queue .forward start =
        (if index.canonical then rows.take 64 else rows) ++ left ∧
      (index.queue .forward start ≠ [] →
        (if index.canonical then rows.take 64 else rows) ≠ []) := by
  intro rows
  have hlimit : 1 ≤ clamp 1 1000 (limit.getD 250) := (clamp_eq (by decide)).1
  have hlt : start < index.total →
      start < min (start + clamp 1 1000 (limit.getD 250)) index.total := by
    omega
  obtain ⟨left, hqueue, hne⟩ := window_forward hlt
  cases index.canonical with
  | false =>
      exact ⟨left, hqueue, hne⟩
  | true =>
      refine ⟨rows.drop 64 ++ left, ?_, fun h => ?_⟩
      · rw [if_pos rfl, ← List.append_assoc, List.take_append_drop]
        exact hqueue
      · rw [if_pos rfl, Ne, List.take_eq_nil_iff]
        exact fun hnil => hnil.elim (by decide) (hne h)

/-- What a page reads: rows from the front of the queue, and where the rest of it starts. -/
structure ReadsFrom (index : DisplayIndex) (dir : Direction) (cursor : Nat)
    (page : DisplayHistoryPage) : Prop where
  total : page.total = index.total
  front : ∃ left, index.queue dir cursor = page.rows ++ left ∧
    index.queue dir page.nextOffset = left ∧ page.hasMore = !left.isEmpty
  progress : index.queue dir cursor ≠ [] → page.rows ≠ []
  nextLe : page.nextOffset ≤ index.total

/-- The first row of the queue is the first of the page. -/
theorem readsFrom_cons
    {dir : Direction}
    {cursor : Nat}
    {page : DisplayHistoryPage}
    (hreads : ReadsFrom index dir cursor page)
    {row : DisplayPageRow}
    {left : List DisplayPageRow}
    (hqueue : index.queue dir cursor = row :: left) :
    ∃ rows behind, page.rows = row :: rows ∧ left = rows ++ behind ∧
      page.hasMore = !behind.isEmpty := by
  obtain ⟨behind, hfront, -, hmore⟩ := hreads.front
  have hne := hreads.progress (by rw [hqueue]; exact List.cons_ne_nil _ _)
  cases hrows : page.rows with
  | nil =>
      exact absurd hrows hne
  | cons first rows =>
      rw [hqueue, hrows, List.cons_append] at hfront
      obtain ⟨rfl, hleft⟩ := List.cons.inj hfront
      exact ⟨rows, behind, rfl, hleft, hmore⟩

/-- The rows that were taken decide where the next page starts. -/
theorem queue_next
    {dir : Direction}
    {stop next : Nat}
    {taken left : List DisplayPageRow}
    (hstop : stop ≤ index.total)
    (hqueue : index.queue dir stop = taken ++ left)
    (hnext : next = (taken.getLast?.map dir.after).getD stop)
    (hprogress : index.queue dir stop ≠ [] → taken ≠ []) :
    index.queue dir next = left ∧ next ≤ index.total := by
  rcases List.eq_nil_or_concat taken with rfl | ⟨front, last, rfl⟩
  · obtain rfl : next = stop := hnext
    exact ⟨hqueue, hstop⟩
  · have hlast : next = dir.after last := by
      simpa using hnext
    have hsplit : index.queue dir stop = front ++ last :: left := by
      simpa using hqueue
    have hleft := (queue_split hsplit).1
    refine ⟨hlast ▸ hleft, ?_⟩
    have hqueue' : last ∈ index.queue dir stop := by
      rw [hsplit]
      simp
    have hordinal := ordinal_lt (mem_numbered hqueue')
    rw [hlast]
    cases dir with
    | backward =>
        exact Nat.le_of_lt hordinal
    | forward =>
        exact hordinal

/-- Rows taken from a window at the front of the queue. -/
theorem readsFrom_window
    (hheaders : SmallHeaders index)
    {dir : Direction}
    {cursor stop : Nat}
    (hstop : stop ≤ index.total)
    (hsame : index.queue dir cursor = index.queue dir stop)
    {window rest : List DisplayPageRow}
    (hwindow : index.queue dir stop = window ++ rest)
    (hne : index.queue dir stop ≠ [] → window ≠ [])
    (rowsCap : Option Nat) :
    ∃ taken next, takeRows index.canonical rowsCap dir.after 0 0 stop window =
        .ok (taken, next) ∧ next ≤ index.total ∧
      ∀ more : Bool, (more = true ↔ index.queue dir next ≠ []) →
        ReadsFrom index dir cursor
          { rows := taken, hasMore := more, nextOffset := next, total := index.total } := by
  have hmem : ∀ row ∈ window, row ∈ index.numbered := by
    intro row hrow
    have hqueue : row ∈ index.queue dir stop := by
      rw [hwindow]
      exact List.mem_append_left _ hrow
    exact mem_numbered hqueue
  obtain ⟨taken, left, next, htake, hsplit, hnext, hprogress⟩ :=
    takeRows_spec (fun hcanonical row hrow => hheaders hcanonical row (hmem row hrow)) 0 0 stop
  have hqueue : index.queue dir stop = taken ++ (left ++ rest) := by
    rw [hwindow, hsplit, List.append_assoc]
  obtain ⟨hleft, hle⟩ := queue_next hstop hqueue hnext fun h => hprogress rfl (hne h)
  refine ⟨taken, next, htake, hle, fun more hmore => ⟨rfl, ?_, ?_, hle⟩⟩
  · refine ⟨left ++ rest, hsame.trans hqueue, hleft, ?_⟩
    rw [Bool.eq_iff_iff, hmore, hleft]
    simp
  · exact fun h => hprogress rfl (hne (hsame ▸ h))

theorem readDisplayPage_spec
    (hheaders : SmallHeaders index)
    (dir : Direction)
    (cursor : Nat)
    (limit fragmentOffset : Option Int) :
    ∃ page, readDisplayPage index (dir.request cursor limit fragmentOffset) = .ok page ∧
      ReadsFrom index dir cursor page := by
  have hclamp : clamp 0 index.total (cursor : Int) = min cursor index.total := by
    rw [clamp]
    omega
  have hstop : min cursor index.total ≤ index.total := Nat.min_le_right _ _
  cases dir with
  | backward =>
      have hsame : index.queue .backward cursor =
          index.queue .backward (min cursor index.total) := by
        rw [DisplayIndex.queue, DisplayIndex.queue, ← length_numbered, ← List.take_eq_take_min]
      obtain ⟨rest, hwindow, hne⟩ := window_backward hstop (clamp 1 100 (limit.getD 10))
      obtain ⟨taken, next, htake, hle, hreads⟩ :=
        readsFrom_window hheaders hstop hsame hwindow hne
          (some (if (cursor : Int) = i64Max then tailRows else pageRows))
      refine ⟨_, ?_, hreads (decide (0 < next)) ?_⟩
      · show readBackward index cursor limit = _
        rw [readBackward, hclamp]
        exact congrArg (Except.map _) htake
      · rw [decide_eq_true_iff, queue_ne_nil_iff hle]
  | forward =>
      have hsame : index.queue .forward cursor =
          index.queue .forward (min cursor index.total) := by
        rw [DisplayIndex.queue, DisplayIndex.queue]
        by_cases hle : cursor ≤ index.total
        · rw [Nat.min_eq_left hle]
        · rw [Nat.min_eq_right (by omega), List.drop_eq_nil_of_le (by rw [length_numbered]; omega),
            List.drop_eq_nil_of_le (by rw [length_numbered])]
      obtain ⟨rest, hwindow, hne⟩ := window_limited limit
      obtain ⟨taken, next, htake, hle, hreads⟩ :=
        readsFrom_window hheaders hstop hsame hwindow hne none
      refine ⟨_, ?_, hreads (decide (next < index.total)) ?_⟩
      · show readForward index (some (cursor : Int)) limit = _
        rw [readForward, Option.getD_some, hclamp]
        exact congrArg (Except.map _) htake
      · rw [decide_eq_true_iff, queue_ne_nil_iff hle]

end ReadDisplayPage

section Fragments

variable {sha256 : Text → String}

/-- Behind `got`, a fragment is what fits of the rest. -/
theorem fragment_read
    {body : Fragment}
    {got rest : Text}
    (hbody : body.text = got ++ rest)
    (hrest : rest ≠ [])
    {limit : Nat}
    (hlimit : 4 ≤ limit) :
    body.read (Utf8.size got) limit = .ok (Utf8.takeBytes limit rest) ∧
      Utf8.takeBytes limit rest ≠ [] := by
  have hne : Utf8.takeBytes limit rest ≠ [] := Utf8.takeBytes_ne_nil hlimit hrest
  refine ⟨?_, hne⟩
  have hlen : body.len = Utf8.size got + Utf8.size rest := by
    rw [Fragment.len, hbody, Utf8.size_append]
  have hpos := Utf8.size_pos hrest
  have hbytes : ((Utf8.encode body.text).drop (Utf8.size got)).take
      (min limit (body.len - Utf8.size got)) = (Utf8.encode rest).take limit := by
    rw [hbody, Utf8.encode_append, ← Utf8.length_encode got, List.drop_left, Utf8.length_encode,
      hlen, Nat.add_sub_cancel_left, ← Utf8.length_encode rest, ← List.take_eq_take_min]
  rw [Fragment.read, if_neg (by omega), hbytes]
  dsimp only
  rw [Utf8.validUpTo_take, if_neg, if_neg]
  · have htake : ((Utf8.encode rest).take limit).take (Utf8.size (Utf8.takeBytes limit rest)) =
        Utf8.encode (Utf8.takeBytes limit rest) := by
      rcases Utf8.take_encode limit rest with heq | ⟨c, m, -, -, heq⟩
      · rw [heq, ← Utf8.length_encode, List.take_length]
      · rw [heq, ← Utf8.length_encode, List.take_left]
    rw [htake, Utf8.fromUtf8_encode]
  · exact Nat.pos_iff_ne_zero.1 (Utf8.size_pos hne)
  · rintro ⟨hshort, hpending⟩
    rcases Utf8.isPending_take limit rest with hnil | hpart
    · have hlength := congrArg List.length hnil
      rw [List.length_drop, List.length_nil] at hlength
      omega
    · rw [hpart] at hpending
      cases hpending

/-- The derived file an entry may need can be had. -/
def Room (live : Live) (value : Json) : Prop :=
  pageByteBudget - 65 < Utf8.size value.compact →
    live.files < liveFileLimit ∧ live.bytes + Utf8.size value.compact ≤ liveFileBytes

/-- The body of an entry that fills a page. -/
def bodyOf (sha256 : Text → String) (value : Json) : Fragment where
  text := value.compact
  sha256 := sha256 value.compact
  entryId := value.index "id"

theorem encode_inline
    {value : Json}
    (live : Live)
    (hsmall : Utf8.size value.compact ≤ pageByteBudget - 65) :
    encode sha256 live value (pageByteBudget - 65) = .ok (.inline (Utf8.size value.compact)) := by
  rw [encode]
  exact if_pos hsmall

theorem encode_large
    {value : Json}
    {live : Live}
    (hroom : Room live value)
    (hlarge : pageByteBudget - 65 < Utf8.size value.compact) :
    encode sha256 live value (pageByteBudget - 65) = .ok (.large (bodyOf sha256 value)) := by
  obtain ⟨hfiles, hbytes⟩ := hroom hlarge
  rw [encode, if_neg (by omega), if_neg (by omega), if_neg (by omega)]
  rfl

end Fragments

section Materialize

variable {sha256 : Text → String}

theorem fragmentOffset_request
    (dir : Direction)
    (cursor : Nat)
    (limit fragmentOffset : Option Int) :
    (dir.request cursor limit fragmentOffset).fragmentOffset = fragmentOffset := by
  cases dir <;> rfl

/-- The bytes rows count for on a page. -/
def countedBytes (rows : List DisplayPageRow) : Nat :=
  (rows.map fun row => Utf8.size row.payload.compact + 1).sum

/-- A page of whole entries, made from the front of the rows that were read. -/
structure HoldsRows (dir : Direction) (page : DisplayHistoryPage)
    (taken left : List DisplayPageRow) (out : HistoryPage) : Prop where
  rows : page.rows = taken ++ left
  entries : out.entries = dir.ordered (taken.map (·.payload))
  whole : out.fragment = none
  total : out.total = page.total
  bytes : 64 + countedBytes taken ≤ pageByteBudget
  progress : page.rows ≠ [] → taken ≠ []
  next : match left with
    | [] => out.hasMore = page.hasMore ∧ out.nextOffset = page.nextOffset
    | row :: _ => out.hasMore = true ∧ out.nextOffset = dir.toRow row

/-- The rows of a page that is not in the middle of an entry. -/
theorem materializeRows_spec
    (sha256 : Text → String)
    (live : Live)
    (dir : Direction)
    (cursor : Nat)
    (limit : Option Int)
    {page : DisplayHistoryPage}
    (done : List DisplayPageRow)
    {rows : List DisplayPageRow}
    (hrows : page.rows = done ++ rows)
    (hroom : ∀ row ∈ rows, Room live row.payload)
    (hbytes : 64 + countedBytes done ≤ pageByteBudget)
    (hdone : done = [] → ∀ row ∈ rows.head?,
      Utf8.size row.payload.compact ≤ pageByteBudget - 65) :
    ∃ out taken left,
      materializeRows sha256 live page (dir.request cursor limit none)
          (done.map (·.payload)) (64 + countedBytes done) rows = .ok out ∧
        HoldsRows dir page taken left out := by
  have hbudget : 65 ≤ pageByteBudget := by decide
  induction rows generalizing done with
  | nil =>
      refine ⟨_, done, [], rfl, hrows, ?_, rfl, rfl, hbytes, ?_, rfl, rfl⟩
      · cases dir <;> rfl
      · intro hne
        rwa [hrows, List.append_nil] at hne
  | cons row rest ih =>
      by_cases hfits : Utf8.size row.payload.compact + (64 + countedBytes done + 1) ≤
          pageByteBudget
      · -- The row goes on the page.
        have hsmall : Utf8.size row.payload.compact ≤ pageByteBudget - 65 := by omega
        have hcounted : countedBytes (done ++ [row]) =
            countedBytes done + (Utf8.size row.payload.compact + 1) := by
          simp [countedBytes]
        obtain ⟨out, taken, left, hout, hholds⟩ := ih (done ++ [row])
          (by rw [hrows, List.append_assoc, List.singleton_append])
          (fun other hother => hroom other (List.mem_cons_of_mem _ hother))
          (by rw [hcounted]; omega) (fun hnil => by simp at hnil)
        refine ⟨out, taken, left, ?_, hholds⟩
        rw [materializeRows, encode_inline live hsmall]
        show (if pageByteBudget < Utf8.size row.payload.compact + (64 + countedBytes done + 1)
          then _ else _) = _
        rw [if_neg (by omega), fragmentOffset_request, if_neg (by simp), ← hout, hcounted]
        simp [Nat.add_assoc, Encoded.len]
      · -- The row starts the next page.
        have hne : done ≠ [] := by
          intro hnil
          have hsmall := hdone hnil row rfl
          rw [hnil] at hfits
          simp only [countedBytes, List.map_nil, List.sum_nil] at hfits
          omega
        have hencode : ∃ encoded, encode sha256 live row.payload (pageByteBudget - 65) =
            .ok encoded ∧ encoded.len = Utf8.size row.payload.compact := by
          by_cases hsmall : Utf8.size row.payload.compact ≤ pageByteBudget - 65
          · exact ⟨_, encode_inline live hsmall, rfl⟩
          · exact ⟨_, encode_large (hroom row List.mem_cons_self) (by omega), rfl⟩
        obtain ⟨encoded, hencoded, hlen⟩ := hencode
        refine ⟨{ entries := dir.ordered (done.map (·.payload)), hasMore := true
                  nextOffset := dir.toRow row, total := page.total, fragment := none },
          done, row :: rest, ?_, hrows, rfl, rfl, rfl, hbytes, fun _ => hne, rfl, rfl⟩
        rw [materializeRows, hencoded]
        show (if pageByteBudget < encoded.len + (64 + countedBytes done + 1) then _ else _) = _
        rw [if_pos (by omega), if_pos (by simpa using hne)]
        cases dir <;> rfl

/-- The page with a part of an entry, from where `got` stops. -/
def partPage (sha256 : Text → String) (dir : Direction) (page : DisplayHistoryPage)
    (row : DisplayPageRow) (got rest : Text) : HistoryPage where
  entries := []
  hasMore := page.hasMore || 1 < page.rows.length
  nextOffset := dir.after row
  total := page.total
  fragment := some {
    entryId := row.payload.index "id", ordinal := row.ordinal, offset := Utf8.size got
    totalBytes := Utf8.size row.payload.compact
    json := Utf8.takeBytes entryFragmentByteBudget rest
    sha256 := sha256 row.payload.compact }

theorem materialize_large
    (sha256 : Text → String)
    {live : Live}
    (dir : Direction)
    (cursor : Nat)
    (limit : Option Int)
    {fragmentOffset : Option Int}
    {page : DisplayHistoryPage}
    {row : DisplayPageRow}
    {rows : List DisplayPageRow}
    (hrows : page.rows = row :: rows)
    (hroom : Room live row.payload)
    (hlarge : pageByteBudget - 65 < Utf8.size row.payload.compact)
    {got rest : Text}
    (htext : row.payload.compact = got ++ rest)
    (hrest : rest ≠ [])
    (hoffset : fragmentOffset.getD 0 = (Utf8.size got : Int)) :
    materializeDisplayPage sha256 live page (dir.request cursor limit fragmentOffset) =
      .ok (partPage sha256 dir page row got rest) := by
  have hbudget : 65 ≤ pageByteBudget := by decide
  have husize : toUsize (fragmentOffset.getD 0) = .ok (Utf8.size got) := by
    rw [hoffset, toUsize, if_pos (by omega), Int.toNat_natCast]
  have hread : (bodyOf sha256 row.payload).read (Utf8.size got) entryFragmentByteBudget =
      .ok (Utf8.takeBytes entryFragmentByteBudget rest) :=
    (fragment_read htext hrest (by decide)).1
  rw [materializeDisplayPage, hrows, materializeRows, encode_large hroom hlarge]
  show (if pageByteBudget < (bodyOf sha256 row.payload).len + (64 + 1) then _ else _) = _
  have hlen : (bodyOf sha256 row.payload).len = Utf8.size row.payload.compact := rfl
  rw [hlen, if_pos (by omega), if_neg (by simp)]
  show fragmentPage page (dir.request cursor limit fragmentOffset) row
    (bodyOf sha256 row.payload) = _
  rw [fragmentPage, fragmentOffset_request, husize]
  show ((bodyOf sha256 row.payload).read (Utf8.size got) entryFragmentByteBudget >>= _) = _
  rw [hread]
  cases dir <;> rfl

/-- A page of whole entries takes rows from the front of the queue. -/
structure TakesRows (index : DisplayIndex) (dir : Direction) (waiting : List DisplayPageRow)
    (taken left : List DisplayPageRow) (out : HistoryPage) : Prop where
  front : waiting = taken ++ left
  entries : out.entries = dir.ordered (taken.map (·.payload))
  whole : out.fragment = none
  total : out.total = index.total
  bytes : 64 + countedBytes taken ≤ pageByteBudget
  progress : waiting ≠ [] → taken ≠ []
  next : index.queue dir out.nextOffset = left
  more : out.hasMore = !left.isEmpty
  nextLe : out.nextOffset ≤ index.total

theorem takesRows_of_holds
    {index : DisplayIndex}
    {dir : Direction}
    {cursor : Nat}
    {page : DisplayHistoryPage}
    (hreads : ReadsFrom index dir cursor page)
    {taken left : List DisplayPageRow}
    {out : HistoryPage}
    (hholds : HoldsRows dir page taken left out) :
    ∃ rest, TakesRows index dir (index.queue dir cursor) taken rest out := by
  obtain ⟨behind, hqueue, hbehind, hmore⟩ := hreads.front
  have hsplit : index.queue dir cursor = taken ++ (left ++ behind) := by
    rw [hqueue, hholds.rows, List.append_assoc]
  have hprogress : index.queue dir cursor ≠ [] → taken ≠ [] := fun hne =>
    hholds.progress (hreads.progress hne)
  refine ⟨left ++ behind, hsplit, hholds.entries, hholds.whole,
    hholds.total.trans hreads.total, hholds.bytes, hprogress, ?_, ?_, ?_⟩
  · have hnext := hholds.next
    cases left with
    | nil =>
        rw [hnext.2]
        exact hbehind
    | cons row left =>
        rw [hnext.2]
        exact (queue_split hsplit).2
  · have hnext := hholds.next
    cases left with
    | nil =>
        rw [hnext.1]
        exact hmore
    | cons row left =>
        rw [hnext.1]
        rfl
  · have hnext := hholds.next
    cases left with
    | nil =>
        rw [hnext.2]
        exact hreads.nextLe
    | cons row left =>
        rw [hnext.2]
        have hqueue : row ∈ index.queue dir cursor := by
          rw [hsplit]
          simp
        have hlt := ordinal_lt (mem_numbered hqueue)
        cases dir with
        | backward =>
            exact hlt
        | forward =>
            exact Nat.le_of_lt hlt

end Materialize

section ReadHistoryPage

variable (sha256 : Text → String)
variable {index : DisplayIndex}

/-- A page from a cursor whose first row fits a page. -/
theorem readHistoryPage_rows
    (hheaders : SmallHeaders index)
    {live : Live}
    (hroom : ∀ row ∈ index.numbered, Room live row.payload)
    (dir : Direction)
    (cursor : Nat)
    (limit : Option Int)
    (hsmall : ∀ row ∈ (index.queue dir cursor).head?,
      Utf8.size row.payload.compact ≤ pageByteBudget - 65) :
    ∃ out taken left, readHistoryPage sha256 live index (dir.request cursor limit none) = .ok out ∧
      TakesRows index dir (index.queue dir cursor) taken left out := by
  obtain ⟨page, hpage, hreads⟩ := readDisplayPage_spec hheaders dir cursor limit none
  obtain ⟨behind, hqueue, -, -⟩ := hreads.front
  have hmem : ∀ row ∈ page.rows, row ∈ index.queue dir cursor := by
    intro row hrow
    rw [hqueue]
    exact List.mem_append_left _ hrow
  have hfirst : ∀ row ∈ page.rows.head?,
      Utf8.size row.payload.compact ≤ pageByteBudget - 65 := by
    intro row hrow
    refine hsmall row ?_
    rw [hqueue, List.head?_append, Option.mem_def.1 hrow]
    rfl
  obtain ⟨out, taken, left, hout, hholds⟩ := materializeRows_spec sha256 live dir cursor
    limit [] (List.nil_append _).symm (fun row hrow => hroom row (mem_numbered (hmem row hrow)))
    (by decide) fun _ => hfirst
  obtain ⟨rest, htakes⟩ := takesRows_of_holds hreads hholds
  refine ⟨out, taken, rest, ?_, htakes⟩
  rw [readHistoryPage, hpage]
  exact hout

/-- A page from a cursor whose first row fills a page alone. -/
theorem readHistoryPage_part
    (hheaders : SmallHeaders index)
    {live : Live}
    {dir : Direction}
    {cursor : Nat}
    {row : DisplayPageRow}
    {left : List DisplayPageRow}
    (hqueue : index.queue dir cursor = row :: left)
    (hroom : Room live row.payload)
    (hlarge : pageByteBudget - 65 < Utf8.size row.payload.compact)
    (limit : Option Int)
    {fragmentOffset : Option Int}
    {got rest : Text}
    (htext : row.payload.compact = got ++ rest)
    (hrest : rest ≠ [])
    (hoffset : fragmentOffset.getD 0 = (Utf8.size got : Int)) :
    ∃ out fragment,
      readHistoryPage sha256 live index (dir.request cursor limit fragmentOffset) = .ok out ∧
        out.fragment = some fragment ∧ out.entries = [] ∧ out.total = index.total ∧
        index.queue dir out.nextOffset = left ∧ out.hasMore = !left.isEmpty ∧
        fragment.offset = Utf8.size got ∧
        fragment.totalBytes = Utf8.size row.payload.compact ∧
        fragment.json = Utf8.takeBytes entryFragmentByteBudget rest := by
  obtain ⟨page, hpage, hreads⟩ := readDisplayPage_spec hheaders dir cursor limit fragmentOffset
  obtain ⟨rows, behind, hrows, hleft, hmore⟩ := readsFrom_cons hreads hqueue
  have hout := materialize_large sha256 dir cursor limit hrows hroom hlarge htext hrest hoffset
  refine ⟨partPage sha256 dir page row got rest, _, ?_, rfl, rfl, hreads.total, ?_, ?_, rfl, rfl,
    rfl⟩
  · rw [readHistoryPage, hpage]
    exact hout
  · have hsplit : index.queue dir cursor = [] ++ row :: left := hqueue
    exact (queue_split hsplit).1
  · show (page.hasMore || decide (1 < page.rows.length)) = !left.isEmpty
    rw [hmore, hrows, hleft]
    cases rows with
    | nil =>
        simp
    | cons next rows =>
        simp

end ReadHistoryPage

end History
end FutureOs
