import FutureOs.Remote.ContentRange
import Mathlib.Tactic.SplitIfs

/-!
# A body is applied once

Applied in any order and as often as they come, the fragments of a body give each of its
bytes once: what was accepted is the body's prefix up to the cursor, which is the furthest
accepted end (`deliver_prefix`).  The walk over code points trims what the byte slice does
(`trimmedPayload_eq`), so both functions agree (`content_ranges_once`).
-/

namespace FutureOs
namespace ContentRange

open Utf8

section Trim

theorem byteWidth_eq (c : Char) : byteWidth c = c.utf8Size := by
  simp only [byteWidth, Char.utf8Size, Char.toNat, UInt32.le_iff_toNat_le]
  rfl

/-- Units of a text. -/
def unitsOf (t : Text) : Nat :=
  (t.map unitWidth).sum

theorem dropUnits_append (a b : Text) : dropUnits (unitsOf a) (a ++ b) = b := by
  induction a with
  | nil =>
      cases b with
      | nil =>
          rfl
      | cons c b =>
          have hwidth : ¬ unitWidth c ≤ 0 := by
            unfold unitWidth
            split <;> omega
          exact if_neg hwidth
  | cons c a ih =>
      simp only [unitsOf, List.map_cons, List.sum_cons] at ih ⊢
      rw [List.cons_append, dropUnits, if_pos (Nat.le_add_right _ _), Nat.add_sub_cancel_left]
      exact ih

theorem foldl_walk
    (overlap : Nat)
    (t : Text)
    (walk : Walk) :
    t.foldl (Walk.step overlap) walk =
      { bytes := walk.bytes + size t
        units := walk.units + unitsOf t
        trim :=
          if walk.bytes < overlap ∧ isBoundary t (overlap - walk.bytes) = true then
            some (walk.units + unitsOf (takeBytes (overlap - walk.bytes) t))
          else
            walk.trim } := by
  induction t generalizing walk with
  | nil =>
      have hno : ¬ (walk.bytes < overlap ∧ isBoundary [] (overlap - walk.bytes) = true) := by
        rintro ⟨hlt, hboundary⟩
        have := isBoundary_le hboundary
        simp only [size_nil] at this
        omega
      rw [if_neg hno]
      rfl
  | cons c t ih =>
      have hc := c.utf8Size_pos
      rw [List.foldl_cons, ih, Walk.mk.injEq]
      simp only [Walk.step, byteWidth_eq, size_cons, unitsOf, List.map_cons, List.sum_cons]
      refine ⟨by omega, by omega, ?_⟩
      rcases lt_trichotomy (walk.bytes + c.utf8Size) overlap with hlt | heq | hgt
      · -- The cut is behind this character.
        obtain ⟨k, rfl⟩ := Nat.exists_eq_add_of_le (Nat.le_of_lt hlt)
        have hsub : walk.bytes + c.utf8Size + k - walk.bytes = c.utf8Size + k := by omega
        have hhead : isBoundary (c :: t) (c.utf8Size + k) = isBoundary t k := by
          have := isBoundary_append [c] t k
          simpa using this
        have htake : takeBytes (c.utf8Size + k) (c :: t) = c :: takeBytes k t := by
          rw [takeBytes, if_pos (Nat.le_add_right _ _), Nat.add_sub_cancel_left]
        rw [hsub, hhead, htake, Nat.add_sub_cancel_left, if_neg (by omega : ¬ _ = _)]
        have hk : walk.bytes < walk.bytes + c.utf8Size + k := by omega
        simp only [hlt, hk, true_and]
        simp only [List.map_cons, List.sum_cons, Nat.add_assoc]
      · -- The cut is right behind this character.
        subst heq
        have hboundary : isBoundary (c :: t) c.utf8Size = true := by
          have := isBoundary_append_size [c] t
          simpa using this
        have htake : takeBytes c.utf8Size (c :: t) = [c] := by
          rw [takeBytes, if_pos (Nat.le_refl _), Nat.sub_self, takeBytes_zero]
        rw [Nat.add_sub_cancel_left, hboundary, htake, if_neg (fun h => Nat.lt_irrefl _ h.1),
          if_pos rfl, if_pos ⟨Nat.lt_add_of_pos_right hc, rfl⟩]
        simp
      · -- The cut is before its end, so no boundary of what is left.
        have hinside : ¬ (walk.bytes < overlap ∧
            isBoundary (c :: t) (overlap - walk.bytes) = true) := by
          rintro ⟨hlt, hboundary⟩
          obtain ⟨a, b, hab, ha⟩ := isBoundary_iff.1 hboundary
          cases a with
          | nil =>
              simp only [size_nil] at ha
              omega
          | cons c' a =>
              obtain ⟨rfl, -⟩ := List.cons.inj hab
              simp only [size_cons] at ha
              omega
        rw [if_neg hinside, if_neg (fun h => Nat.lt_asymm h.1 hgt), if_neg (Nat.ne_of_gt hgt)]

theorem walkText_eq (overlap : Nat) (text : String) :
    walkText overlap text =
      { bytes := text.utf8ByteSize
        units := unitsOf text.toList
        trim :=
          if isBoundary text.toList overlap then
            some (unitsOf (takeBytes overlap text.toList))
          else
            none } := by
  unfold walkText
  rw [foldl_walk, Walk.mk.injEq, ← size_toList]
  refine ⟨Nat.zero_add _, Nat.zero_add _, ?_⟩
  cases overlap with
  | zero =>
      simp [unitsOf]
  | succ n =>
      simp

theorem sliceFrom_takeBytes
    (overlap : Nat)
    (text : String) :
    sliceFrom text (unitsOf (takeBytes overlap text.toList)) =
      String.ofList (dropBytes overlap text.toList) := by
  have h := dropUnits_append (takeBytes overlap text.toList) (dropBytes overlap text.toList)
  rw [takeBytes_append_dropBytes] at h
  rw [sliceFrom, h]

/-- The walk trims the text where the byte slice does. -/
theorem trimmedPayload_eq
    (data : Json)
    (offset length seen : Nat) :
    (trimmedPayload data offset length seen).toOption =
      (trimmed data offset length seen).toOption := by
  unfold trimmedPayload trimmed getFrom
  simp only [walkText_eq]
  by_cases hboundary : isBoundary (textOf data).toList (min (seen - offset) length) = true
  · simp only [hboundary, if_true]
    by_cases hlength : (textOf data).utf8ByteSize = length
    · rw [if_neg (not_not.2 hlength), if_neg (not_not.2 hlength), sliceFrom_takeBytes]
    · rw [if_pos hlength, if_pos hlength]
      rfl
  · simp only [hboundary]
    by_cases hlength : (textOf data).utf8ByteSize = length
    · rw [if_neg (not_not.2 hlength)]
      rfl
    · rw [if_pos hlength]
      rfl

end Trim

section Fields

theorem get?_withRange
    {data : Json}
    {key : String}
    (hkey : keyOf data = some key)
    (text : String)
    (offset length : Nat)
    (name : String) :
    (withRange data text offset length).get? name =
      if name = "content_bytes" then some (.num (.posInt length))
      else if name = "content_offset" then some (.num (.posInt offset))
      else if name = "text" then some (.str text)
      else data.get? name := by
  cases data with
  | obj fields =>
      simp only [withRange, Json.set, Json.get?, Json.asObject?, Option.bind_some,
        Fields.lookup_insert]
  | _ =>
      simp [keyOf, Json.get?, Json.asObject?] at hkey

theorem keyOf_withRange
    {data : Json}
    {key : String}
    (hkey : keyOf data = some key)
    (text : String)
    (offset length : Nat) :
    keyOf (withRange data text offset length) = some key := by
  rw [keyOf, get?_withRange hkey, if_neg (by decide), if_neg (by decide), if_neg (by decide)]
  exact hkey

theorem isSealed_withRange
    {data : Json}
    {key : String}
    (hkey : keyOf data = some key)
    (text : String)
    (offset length : Nat) :
    isSealed (withRange data text offset length) = isSealed data := by
  rw [isSealed, get?_withRange hkey, if_neg (by decide), if_neg (by decide),
    if_neg (by decide)]
  rfl

theorem exists_of_trimmed
    {data data' : Json}
    {offset length seen : Nat}
    (h : trimmed data offset length seen = .ok data') :
    ∃ tail, data' = withRange data tail (offset + min (seen - offset) length)
      (length - min (seen - offset) length) := by
  unfold trimmed at h
  dsimp only at h
  split at h
  · cases h
  · split at h
    · cases h
    · rename_i tail htail
      exact ⟨tail, (Except.ok.inj h).symm⟩

end Fields

section Step

/-- What both functions do with a fragment, given its range and the way it is trimmed. -/
def step (data : Json) (kind : String) (seen : Nat) (range : Except String (Nat × Nat))
    (trim : Nat → Nat → Nat → Except String Json) : Option (Json × Option Nat) :=
  match range.toOption with
  | none => none
  | some (offset, length) =>
      if offset > seen ∧ isSealed data = false then
        none
      else
        match (if kind ∈ deltaKinds then trim offset length seen else .ok data).toOption with
        | none => none
        | some data' =>
            some (data', if isSealed data then none else some (max (offset + length) seen))

theorem apply_of_no_key
    {data : Json}
    (hkey : keyOf data = none)
    (run : String)
    (epoch : Int)
    (kind : String)
    (cursors : ContentCursors) :
    apply run epoch kind (cursors, data) = ((cursors, data), .ok ()) := by
  simp only [apply, Proc.bind_run, currentData, hkey]
  rfl

/-- A fragment is refused as a whole, or its cursor and its range are the new ones. -/
theorem apply_of_key
    {data : Json}
    {key : String}
    (hkey : keyOf data = some key)
    (run : String)
    (epoch : Int)
    (kind : String)
    (cursors : ContentCursors) :
    match step data kind (cursors.seen (run, epoch, key)) (rangeOf data) (trimmed data) with
    | none => ∃ e, apply run epoch kind (cursors, data) = ((cursors, data), .error e)
    | some (data', seen) =>
        apply run epoch kind (cursors, data) =
          (({ offsets := Function.update cursors.offsets (run, epoch, key) seen }, data'),
            .ok ()) := by
  simp only [apply, Proc.bind_run, currentData, hkey, Proc.lift_run, currentCursors]
  unfold step
  cases hrange : rangeOf data with
  | error e =>
      exact ⟨e, rfl⟩
  | ok range =>
      simp only [Except.toOption]
      by_cases hgap : range.1 > cursors.seen (run, epoch, key) ∧ isSealed data = false
      · rw [if_pos hgap, if_pos hgap]
        exact ⟨_, rfl⟩
      · rw [if_neg hgap, if_neg hgap]
        by_cases hkind : kind ∈ deltaKinds
        · rw [if_pos hkind, if_pos hkind]
          cases htrim : trimmed data range.1 range.2 (cursors.seen (run, epoch, key)) with
          | error e =>
              exact ⟨e, rfl⟩
          | ok data' =>
              obtain ⟨tail, rfl⟩ := exists_of_trimmed htrim
              simp only [Proc.bind_run, Proc.lift_run, setData, currentData,
                isSealed_withRange hkey]
              cases isSealed data <;> rfl
        · rw [if_neg hkind, if_neg hkind]
          simp only [Proc.bind_run, currentData]
          cases isSealed data <;> rfl

theorem applyContentRange_of_no_key
    {data : Json}
    (hkey : keyOf data = none)
    (wholeFloat : String → Option Nat)
    (kind : String)
    (offsets : Offsets) :
    applyContentRange wholeFloat data kind offsets = (offsets, .ok data) := by
  simp only [applyContentRange, hkey]
  rfl

theorem applyContentRange_of_key
    {data : Json}
    {key : String}
    (hkey : keyOf data = some key)
    (wholeFloat : String → Option Nat)
    (kind : String)
    (offsets : Offsets) :
    match step data kind ((offsets key).getD 0) (safeRange wholeFloat data)
        (trimmedPayload data) with
    | none => ∃ e, applyContentRange wholeFloat data kind offsets = (offsets, .error e)
    | some (data', seen) =>
        applyContentRange wholeFloat data kind offsets =
          (Function.update offsets key seen, .ok data') := by
  simp only [applyContentRange, Proc.bind_run, hkey, Proc.lift_run, Proc.read_run]
  unfold step
  cases hrange : safeRange wholeFloat data with
  | error e =>
      exact ⟨e, rfl⟩
  | ok range =>
      simp only [Except.toOption]
      by_cases hgap : range.1 > (offsets key).getD 0 ∧ isSealed data = false
      · rw [if_pos hgap, if_pos hgap]
        exact ⟨_, rfl⟩
      · rw [if_neg hgap, if_neg hgap]
        by_cases hkind : kind ∈ deltaKinds
        · rw [if_pos hkind, if_pos hkind]
          cases trimmedPayload data range.1 range.2 ((offsets key).getD 0) with
          | error e =>
              exact ⟨e, rfl⟩
          | ok data' =>
              simp only [Proc.bind_run, Proc.lift_run, max_comm]
              cases isSealed data <;> rfl
        · rw [if_neg hkind, if_neg hkind]
          simp only [Proc.pure_run, Proc.bind_run, max_comm]
          cases isSealed data <;> rfl

/-- A refused fragment changes nothing. -/
theorem apply_refused
    {run kind e : String}
    {epoch : Int}
    {cursors : ContentCursors}
    {data : Json}
    (h : (apply run epoch kind (cursors, data)).2 = .error e) :
    (apply run epoch kind (cursors, data)).1 = (cursors, data) := by
  cases hkey : keyOf data with
  | none =>
      rw [apply_of_no_key hkey]
  | some key =>
      have hstep := apply_of_key hkey run epoch kind cursors
      split at hstep
      · obtain ⟨e', he'⟩ := hstep
        rw [he']
      · rw [hstep] at h
        cases h

theorem applyContentRange_refused
    {wholeFloat : String → Option Nat}
    {kind e : String}
    {offsets : Offsets}
    {data : Json}
    (h : (applyContentRange wholeFloat data kind offsets).2 = .error e) :
    (applyContentRange wholeFloat data kind offsets).1 = offsets := by
  cases hkey : keyOf data with
  | none =>
      rw [applyContentRange_of_no_key hkey]
  | some key =>
      have hstep := applyContentRange_of_key hkey wholeFloat kind offsets
      split at hstep
      · obtain ⟨e', he'⟩ := hstep
        rw [he']
      · rw [hstep] at h
        cases h

end Step

section Agree

/-- The range of the fragment is two integers whose sum is exact in both languages. -/
structure SafeNumbers (data : Json) : Prop where
  offset : ∀ text, data.get? "content_offset" ≠ some (.num (.float text))
  length : ∀ text, data.get? "content_bytes" ≠ some (.num (.float text))
  sum : ∀ offset length, data.get? "content_offset" = some (.num (.posInt offset)) →
    data.get? "content_bytes" = some (.num (.posInt length)) → offset + length < 2 ^ 53

/-- The cursors of the run are the offsets. -/
def Agree (run : String) (epoch : Int) (cursors : ContentCursors) (offsets : Offsets) : Prop :=
  ∀ key, cursors.offsets (run, epoch, key) = offsets key

theorem safeNat_of_lt
    (wholeFloat : String → Option Nat)
    {n : Nat}
    (h : n < 2 ^ 53) :
    safeNat wholeFloat (.num (.posInt n)) = some n := by
  have hsafe : isSafeInteger n = true := decide_eq_true h
  rw [safeNat, if_pos hsafe]

theorem bind_safeNat_none
    (wholeFloat : String → Option Nat)
    {v : Option Json}
    (hfloat : ∀ text, v ≠ some (.num (.float text)))
    (h : v.bind Json.asU64? = none) :
    v.bind (safeNat wholeFloat) = none := by
  cases v with
  | none =>
      rfl
  | some v =>
      rw [Option.bind_some] at h ⊢
      unfold safeNat
      split
      · simp [Json.asU64?] at h
      · rename_i text
        exact absurd rfl (hfloat text)
      · rfl

theorem eq_posInt_of_bind
    {v : Option Json}
    {n : Nat}
    (h : v.bind Json.asU64? = some n) :
    v = some (.num (.posInt n)) := by
  obtain ⟨v, rfl, hv⟩ := Option.bind_eq_some_iff.1 h
  unfold Json.asU64? at hv
  split at hv
  · rw [Option.some.inj hv]
  · simp at hv

theorem safeRange_eq
    (wholeFloat : String → Option Nat)
    {data : Json}
    (h : SafeNumbers data) :
    (safeRange wholeFloat data).toOption = (rangeOf data).toOption := by
  unfold safeRange rangeOf requireU64
  cases hoffset : (data.get? "content_offset").bind Json.asU64? with
  | none =>
      rw [bind_safeNat_none wholeFloat h.offset hoffset]
      rfl
  | some offset =>
      cases hlength : (data.get? "content_bytes").bind Json.asU64? with
      | none =>
          rw [bind_safeNat_none wholeFloat h.length hlength]
          cases (data.get? "content_offset").bind (safeNat wholeFloat) <;> rfl
      | some length =>
          have hoffset' := eq_posInt_of_bind hoffset
          have hlength' := eq_posInt_of_bind hlength
          have hsum := h.sum offset length hoffset' hlength'
          have hsafe : isSafeInteger (offset + length) = true := decide_eq_true hsum
          rw [hoffset', hlength', Option.bind_some, Option.bind_some,
            safeNat_of_lt wholeFloat (by omega), safeNat_of_lt wholeFloat (by omega)]
          simp only [hsafe, if_true, except_ok_bind, if_pos (by omega : offset + length < 2 ^ 64)]
          rfl

theorem step_congr
    {range range' : Except String (Nat × Nat)}
    {trim trim' : Nat → Nat → Nat → Except String Json}
    (hrange : range.toOption = range'.toOption)
    (htrim : ∀ offset length seen,
      (trim offset length seen).toOption = (trim' offset length seen).toOption)
    (data : Json)
    (kind : String)
    (seen : Nat) :
    step data kind seen range trim = step data kind seen range' trim' := by
  unfold step
  rw [hrange]
  cases range'.toOption with
  | none =>
      rfl
  | some range =>
      by_cases hkind : kind ∈ deltaKinds
      · simp only [hkind, if_true, htrim]
      · simp only [hkind, if_false]

/-- Both functions accept, refuse and give the same, and their cursors stay the same. -/
theorem apply_agree
    {run : String}
    {epoch : Int}
    {cursors : ContentCursors}
    {offsets : Offsets}
    (hagree : Agree run epoch cursors offsets)
    {data : Json}
    (hsafe : SafeNumbers data)
    (wholeFloat : String → Option Nat)
    (kind : String) :
    let rust := apply run epoch kind (cursors, data)
    let ts := applyContentRange wholeFloat data kind offsets
    Agree run epoch rust.1.1 ts.1 ∧ ts.2.toOption = rust.2.toOption.map fun _ => rust.1.2 := by
  intro rust ts
  cases hkey : keyOf data with
  | none =>
      simp only [rust, ts, apply_of_no_key hkey, applyContentRange_of_no_key hkey]
      exact ⟨hagree, rfl⟩
  | some key =>
      have hrust := apply_of_key hkey run epoch kind cursors
      have hts := applyContentRange_of_key hkey wholeFloat kind offsets
      have hseen : (offsets key).getD 0 = cursors.seen (run, epoch, key) := by
        rw [ContentCursors.seen, hagree key]
      rw [step_congr (safeRange_eq wholeFloat hsafe) (trimmedPayload_eq data), hseen] at hts
      cases hstep : step data kind (cursors.seen (run, epoch, key)) (rangeOf data)
          (trimmed data) with
      | none =>
          rw [hstep] at hrust hts
          obtain ⟨e, he⟩ := hrust
          obtain ⟨e', he'⟩ := hts
          simp only [rust, ts, he, he']
          exact ⟨hagree, rfl⟩
      | some out =>
          rw [hstep] at hrust hts
          simp only [rust, ts, hrust, hts]
          refine ⟨fun key' => ?_, rfl⟩
          by_cases heq : key' = key
          · subst heq
            simp
          · have hne : (run, epoch, key') ≠ (run, epoch, key) := fun h => heq (by simpa using h)
            have hleft := Function.update_of_ne hne out.2 cursors.offsets
            have hright := Function.update_of_ne heq out.2 offsets
            exact hleft.trans ((hagree key').trans hright.symm)

end Agree

/-! ## Sequences of fragments -/

/-- An event: its kind and its payload. -/
structure Delta where
  kind : String
  data : Json

section Sequences

/-- The fragments applied one after the other: the cursors, and what came of each. -/
def deliver (run : String) (epoch : Int) :
    List Delta → ContentCursors → ContentCursors × List (Except String Json)
  | [], cursors => (cursors, [])
  | d :: rest, cursors =>
      let out := apply run epoch d.kind (cursors, d.data)
      let more := deliver run epoch rest out.1.1
      (more.1, (out.2.map fun _ => out.1.2) :: more.2)

def deliverTs (wholeFloat : String → Option Nat) :
    List Delta → Offsets → Offsets × List (Except String Json)
  | [], offsets => (offsets, [])
  | d :: rest, offsets =>
      let out := applyContentRange wholeFloat d.data d.kind offsets
      let more := deliverTs wholeFloat rest out.1
      (more.1, out.2 :: more.2)

/-- The text of what was accepted. -/
def acceptedText (outputs : List (Except String Json)) : Text :=
  outputs.flatMap fun output => (output.toOption.elim "" textOf).toList

/-- The end of the range a fragment states. -/
def endOf (data : Json) : Nat :=
  (((data.get? "content_offset").bind Json.asU64?).getD 0) +
    ((data.get? "content_bytes").bind Json.asU64?).getD 0

/-- The furthest end of an accepted fragment, or this one. -/
def furthest (start : Nat) (events : List Delta) (outputs : List (Except String Json)) : Nat :=
  (events.zip outputs).foldl (fun n e => if e.2.toOption.isSome then max n (endOf e.1.data) else n)
    start

theorem deliver_agree
    {run : String}
    {epoch : Int}
    (wholeFloat : String → Option Nat)
    {events : List Delta}
    (hsafe : ∀ d ∈ events, SafeNumbers d.data)
    {cursors : ContentCursors}
    {offsets : Offsets}
    (hagree : Agree run epoch cursors offsets) :
    Agree run epoch (deliver run epoch events cursors).1
        (deliverTs wholeFloat events offsets).1 ∧
      (deliverTs wholeFloat events offsets).2.map Except.toOption =
        (deliver run epoch events cursors).2.map Except.toOption := by
  induction events generalizing cursors offsets with
  | nil =>
      exact ⟨hagree, rfl⟩
  | cons d events ih =>
      obtain ⟨hnext, hsame⟩ := apply_agree hagree (hsafe d List.mem_cons_self) wholeFloat d.kind
      obtain ⟨hlast, hrest⟩ := ih (fun d hd => hsafe d (List.mem_cons_of_mem _ hd)) hnext
      refine ⟨hlast, ?_⟩
      simp only [deliverTs, deliver, List.map_cons, hrest, hsame]
      cases (apply run epoch d.kind (cursors, d.data)).2 <;> rfl

end Sequences

/-! ## The fragments of a body -/

/-- The payload is a fragment of the body before its seal: this text at this byte. -/
structure FragmentAt (body : Text) (key : String) (offset : Nat) (text : Text) (data : Json) :
    Prop where
  keyed : keyOf data = some key
  starts : data.get? "content_offset" = some (.num (.posInt offset))
  covers : data.get? "content_bytes" = some (.num (.posInt (size text)))
  carries : data.get? "text" = some (.str (String.ofList text))
  unsealed : isSealed data = false
  piece : ∃ before after, body = before ++ text ++ after ∧ size before = offset

/-- A delta fragment of the body whose range is exact in both languages. -/
def DeltaOf (body : Text) (key : String) (d : Delta) : Prop :=
  d.kind ∈ deltaKinds ∧
    ∃ offset text, FragmentAt body key offset text d.data ∧ offset + size text < 2 ^ 53

section Body

variable {body : Text}
variable {key : String}

theorem FragmentAt.endOf_eq
    {offset : Nat}
    {text : Text}
    {data : Json}
    (h : FragmentAt body key offset text data) :
    endOf data = offset + size text := by
  simp [endOf, h.starts, h.covers, Json.asU64?]

theorem FragmentAt.rangeOf_eq
    {offset : Nat}
    {text : Text}
    {data : Json}
    (h : FragmentAt body key offset text data)
    (hend : offset + size text < 2 ^ 64) :
    rangeOf data = .ok (offset, size text) := by
  simp only [rangeOf, requireU64, h.starts, h.covers, Option.bind_some, Json.asU64?,
    except_ok_bind, if_pos hend]
  rfl

theorem FragmentAt.safeNumbers
    {offset : Nat}
    {text : Text}
    {data : Json}
    (h : FragmentAt body key offset text data)
    (hend : offset + size text < 2 ^ 53) :
    SafeNumbers data where
  offset := by
    intro text
    rw [h.starts]
    simp
  length := by
    intro text
    rw [h.covers]
    simp
  sum := by
    intro offset' length' hoffset hlength
    rw [h.starts] at hoffset
    rw [h.covers] at hlength
    cases hoffset
    cases hlength
    exact hend

/-- A fragment behind the cursor's bytes is refused; another brings what is new of it. -/
theorem trimmed_fragment
    {offset seen : Nat}
    {text : Text}
    {data : Json}
    (h : FragmentAt body key offset text data)
    (hseen : isBoundary body seen = true)
    (hoffset : offset ≤ seen) :
    ∃ data' fresh, trimmed data offset (size text) seen = .ok data' ∧
      FragmentAt body key (offset + min (seen - offset) (size text)) fresh data' ∧
      isBoundary body (max (offset + size text) seen) = true ∧
      takeBytes (max (offset + size text) seen) body = takeBytes seen body ++ fresh := by
  obtain ⟨before, after, rfl, rfl⟩ := h.piece
  -- What is new of the text starts between two of its characters.
  have hcut : isBoundary text (min (seen - size before) (size text)) = true := by
    rcases Nat.le_total (size text) (seen - size before) with hall | hpart
    · rw [Nat.min_eq_right hall]
      exact isBoundary_size text
    · rw [Nat.min_eq_left hpart]
      obtain ⟨k, rfl⟩ := Nat.exists_eq_add_of_le hoffset
      rw [Nat.add_sub_cancel_left] at hpart ⊢
      rw [List.append_assoc, isBoundary_append, isBoundary_append_of_le hpart] at hseen
      exact hseen
  obtain ⟨old, fresh, rfl, hold⟩ := isBoundary_iff.1 hcut
  have htext : textOf data = String.ofList (old ++ fresh) := by
    simp [textOf, h.carries, Json.asStr?]
  have hbytes : (textOf data).utf8ByteSize = size (old ++ fresh) := by
    rw [htext, ← size_toList, String.toList_ofList]
  have hget : getFrom (textOf data) (size old) = some (String.ofList fresh) := by
    rw [htext, getFrom, String.toList_ofList, if_pos (isBoundary_append_size old fresh),
      dropBytes_append_size]
  refine ⟨withRange data (String.ofList fresh) (size before + size old) (size fresh), fresh,
    ?_, ?_, ?_⟩
  · unfold trimmed
    rw [if_neg (not_not.2 hbytes), ← hold]
    simp only [hget, size_append, Nat.add_sub_cancel_left]
  · rw [← hold]
    constructor
    · exact keyOf_withRange h.keyed _ _ _
    · rw [get?_withRange h.keyed, if_neg (by decide), if_pos rfl]
    · rw [get?_withRange h.keyed, if_pos rfl]
    · rw [get?_withRange h.keyed, if_neg (by decide), if_neg (by decide), if_pos rfl]
    · rw [isSealed_withRange h.keyed]
      exact h.unsealed
    · exact ⟨before ++ old, after, by simp, by simp⟩
  · simp only [size_append] at hold ⊢
    rcases Nat.le_total seen (size before + (size old + size fresh)) with hle | hge
    · have hsize : seen = size (before ++ old) := by
        simp only [size_append]
        omega
      have hend : size before + (size old + size fresh) = size (before ++ (old ++ fresh)) := by
        simp only [size_append]
      rw [Nat.max_eq_left hle, hend, hsize]
      constructor
      · exact isBoundary_append_size _ _
      · have hsplit : before ++ (old ++ fresh) ++ after = (before ++ old) ++ (fresh ++ after) := by
          simp
        rw [takeBytes_append_size, hsplit, takeBytes_append_size]
        simp
    · have hnil : fresh = [] := eq_nil_of_size (by omega)
      subst hnil
      rw [Nat.max_eq_right hge]
      exact ⟨hseen, (List.append_nil _).symm⟩

/-- A fragment before its body's seal is refused behind a gap, and otherwise trimmed. -/
theorem apply_fragment
    {run kind : String}
    {epoch : Int}
    {cursors : ContentCursors}
    {offset : Nat}
    {text : Text}
    {data : Json}
    (hkind : kind ∈ deltaKinds)
    (h : FragmentAt body key offset text data)
    (hend : offset + size text < 2 ^ 64)
    (hseen : isBoundary body (cursors.seen (run, epoch, key)) = true) :
    let seen := cursors.seen (run, epoch, key)
    (seen < offset ∧
        ∃ e, apply run epoch kind (cursors, data) = ((cursors, data), .error e)) ∨
      (offset ≤ seen ∧ ∃ data' fresh,
        apply run epoch kind (cursors, data) =
            ((cursors.insert (run, epoch, key) (max (offset + size text) seen), data'),
              .ok ()) ∧
          FragmentAt body key (offset + min (seen - offset) (size text)) fresh data' ∧
          isBoundary body (max (offset + size text) seen) = true ∧
          takeBytes (max (offset + size text) seen) body = takeBytes seen body ++ fresh) := by
  intro seen
  have hstep := apply_of_key h.keyed run epoch kind cursors
  unfold step at hstep
  simp only [h.rangeOf_eq hend, Except.toOption, h.unsealed, and_true, if_pos hkind] at hstep
  rcases Nat.lt_or_ge seen offset with hgap | hcovered
  · rw [if_pos hgap] at hstep
    exact .inl ⟨hgap, hstep⟩
  · rw [if_neg (Nat.not_lt.2 hcovered)] at hstep
    obtain ⟨data', fresh, htrim, hfragment⟩ := trimmed_fragment h hseen hcovered
    rw [htrim] at hstep
    exact .inr ⟨hcovered, data', fresh, hstep, hfragment⟩

/-- What was accepted is the body up to the cursor, and the cursor is its furthest end. -/
theorem deliver_prefix
    {run : String}
    {epoch : Int}
    {events : List Delta}
    (hevents : ∀ d ∈ events, DeltaOf body key d)
    {cursors : ContentCursors}
    (hseen : isBoundary body (cursors.seen (run, epoch, key)) = true) :
    let out := deliver run epoch events cursors
    let seen := out.1.seen (run, epoch, key)
    isBoundary body seen = true ∧
      takeBytes seen body =
        takeBytes (cursors.seen (run, epoch, key)) body ++ acceptedText out.2 ∧
      seen = furthest (cursors.seen (run, epoch, key)) events out.2 := by
  induction events generalizing cursors with
  | nil =>
      exact ⟨hseen, (List.append_nil _).symm, rfl⟩
  | cons d events ih =>
      have hrest : ∀ d ∈ events, DeltaOf body key d :=
        fun d hd => hevents d (List.mem_cons_of_mem _ hd)
      obtain ⟨hkind, offset, text, hfragment, hend⟩ := hevents d List.mem_cons_self
      rcases apply_fragment hkind hfragment (by omega) hseen with
        ⟨-, e, hrun⟩ | ⟨-, data', fresh, hrun, hfresh, hboundary, htake⟩
      · obtain ⟨hboundary', htake', hfurthest⟩ := ih hrest hseen
        simp only [deliver, hrun]
        exact ⟨hboundary', htake', hfurthest⟩
      · have hcursor : (cursors.insert (run, epoch, key)
            (max (offset + size text) (cursors.seen (run, epoch, key)))).seen
              (run, epoch, key) =
            max (offset + size text) (cursors.seen (run, epoch, key)) := by
          simp [ContentCursors.insert, ContentCursors.seen]
        rw [← hcursor] at hboundary
        obtain ⟨hboundary', htake', hfurthest⟩ := ih hrest hboundary
        rw [hcursor] at htake' hfurthest
        simp only [deliver, hrun]
        refine ⟨hboundary', ?_, ?_⟩
        · rw [htake', htake, List.append_assoc]
          congr 1
          simp [acceptedText, textOf, hfresh.carries, Json.asStr?, Except.map, Except.toOption]
        · rw [hfurthest, max_comm, ← hfragment.endOf_eq]
          rfl

end Body

section Once

/--
A refused fragment changes nothing; both languages accept, refuse and give the same; and
whatever fragments of a body come, the accepted ones give its prefix up to the furthest end,
a fragment being accepted if it starts within it and then stating what it brings.
-/
theorem content_ranges_once
    (wholeFloat : String → Option Nat)
    (run : String)
    (epoch : Int)
    (cursors : ContentCursors)
    (offsets : Offsets) :
    (∀ kind data e, (apply run epoch kind (cursors, data)).2 = .error e →
        (apply run epoch kind (cursors, data)).1 = (cursors, data)) ∧
      (∀ kind data e, (applyContentRange wholeFloat data kind offsets).2 = .error e →
        (applyContentRange wholeFloat data kind offsets).1 = offsets) ∧
      (Agree run epoch cursors offsets →
        ∀ events : List Delta, (∀ d ∈ events, SafeNumbers d.data) →
          (deliverTs wholeFloat events offsets).2.map Except.toOption =
            (deliver run epoch events cursors).2.map Except.toOption) ∧
      ∀ body key, cursors.offsets (run, epoch, key) = none →
        ∀ events : List Delta, (∀ d ∈ events, DeltaOf body key d) →
          let out := deliver run epoch events cursors
          let seen := out.1.seen (run, epoch, key)
          (∀ d ∈ events, SafeNumbers d.data) ∧
            acceptedText out.2 = takeBytes seen body ∧
            size (takeBytes seen body) = seen ∧
            seen = furthest 0 events out.2 ∧
            ∀ kind data offset text, kind ∈ deltaKinds →
              FragmentAt body key offset text data → offset + size text < 2 ^ 53 →
                let next := apply run epoch kind (out.1, data)
                (next.2.toOption.isSome = true ↔ offset ≤ seen) ∧
                  (next.2.toOption.isSome = true → ∃ fresh, FragmentAt body key
                    (offset + min (seen - offset) (size text)) fresh next.1.2) := by
  refine ⟨fun _ _ _ => apply_refused, fun _ _ _ => applyContentRange_refused, ?_, ?_⟩
  · intro hagree events hsafe
    exact (deliver_agree wholeFloat hsafe hagree).2
  · intro body key hfresh events hevents
    have hzero : cursors.seen (run, epoch, key) = 0 := by
      rw [ContentCursors.seen, hfresh]
      rfl
    have hstart : isBoundary body (cursors.seen (run, epoch, key)) = true := by
      rw [hzero]
      exact isBoundary_zero body
    obtain ⟨hboundary, htake, hfurthest⟩ := deliver_prefix hevents hstart
    rw [hzero] at htake hfurthest
    rw [takeBytes_zero, List.nil_append] at htake
    refine ⟨?_, htake.symm, ?_, hfurthest, ?_⟩
    · intro d hd
      obtain ⟨-, offset, text, hfragment, hend⟩ := hevents d hd
      exact hfragment.safeNumbers hend
    · rw [size_takeBytes, floorBoundary_of_isBoundary hboundary]
    · intro kind data offset text hkind hfragment hend
      rcases apply_fragment hkind hfragment (by omega) hboundary with
        ⟨hgap, e, hrun⟩ | ⟨hcovered, data', fresh, hrun, hfresh, -⟩
      · simp only [hrun, Except.toOption]
        exact ⟨by simp [hgap], fun h => absurd h (by simp)⟩
      · simp only [hrun, Except.toOption]
        exact ⟨by simp [hcovered], fun _ => ⟨fresh, hfresh⟩⟩

/-- A fragment as the wire has it. -/
def wireFragment (offset : Nat) (text : Text) : Json :=
  .obj [("content_bytes", .num (.posInt (size text))), ("content_key", .str "b"),
    ("content_offset", .num (.posInt offset)), ("text", .str (String.ofList text))]

theorem fragmentAt_wireFragment (before text after : Text) :
    FragmentAt (before ++ text ++ after) "b" (size before) text
      (wireFragment (size before) text) where
  keyed := rfl
  starts := rfl
  covers := rfl
  carries := rfl
  unsealed := rfl
  piece := ⟨before, after, rfl, rfl⟩

/-- A replayed fragment overlaps a live one by a character of three bytes. -/
theorem content_ranges_once_replay :
    let live : Delta := ⟨"text_chunk", wireFragment 0 ['你']⟩
    let replay : Delta := ⟨"text_chunk", wireFragment 0 ['你', '好']⟩
    let out := deliver "r" 1 [live, replay] ContentCursors.default
    acceptedText out.2 = ['你', '好'] ∧ out.1.seen ("r", 1, "b") = 6 := by
  intro live replay out
  have hlive : DeltaOf ['你', '好'] "b" live :=
    ⟨by decide, 0, ['你'], fragmentAt_wireFragment [] ['你'] ['好'], by decide⟩
  have hreplay : DeltaOf ['你', '好'] "b" replay :=
    ⟨by decide, 0, ['你', '好'], fragmentAt_wireFragment [] ['你', '好'] [], by decide⟩
  have hevents : ∀ d ∈ [live, replay], DeltaOf ['你', '好'] "b" d := by
    intro d hd
    rcases List.mem_cons.1 hd with rfl | hd
    · exact hlive
    · rw [List.mem_singleton.1 hd]
      exact hreplay
  have h := (content_ranges_once (fun _ => none) "r" 1 ContentCursors.default
    (fun _ => none)).2.2.2 ['你', '好'] "b" rfl [live, replay] hevents
  have hseen : out.1.seen ("r", 1, "b") = 6 := by
    decide +kernel
  refine ⟨?_, hseen⟩
  rw [h.2.1, hseen]
  decide

theorem size_replicate (n : Nat) : size (List.replicate n 'a') = n := by
  induction n with
  | zero =>
      rfl
  | succ n ih =>
      rw [List.replicate_succ, size_cons, ih, Nat.add_comm]
      rfl

/-- A range that ends at `2 ^ 53` is refused whatever came before. -/
theorem applyContentRange_unsafe_end
    {n : Nat}
    (hn : n + 1 = 2 ^ 53)
    (wholeFloat : String → Option Nat)
    (kind : String)
    (offsets : Offsets) :
    (applyContentRange wholeFloat (wireFragment n ['a']) kind offsets).2.toOption = none := by
  have hone : size ['a'] = 1 := rfl
  have hrange : (safeRange wholeFloat (wireFragment n ['a'])).toOption = none := by
    have hoffset : (wireFragment n ['a']).get? "content_offset" = some (.num (.posInt n)) := rfl
    have hlength : (wireFragment n ['a']).get? "content_bytes" = some (.num (.posInt 1)) := rfl
    have hbig : isSafeInteger (n + 1) = false := by
      rw [hn]
      decide
    rw [safeRange, hoffset, hlength, Option.bind_some, Option.bind_some,
      safeNat_of_lt wholeFloat (by omega), safeNat_of_lt wholeFloat (by decide)]
    simp only [hbig]
    rfl
  have hkeyed : keyOf (wireFragment n ['a']) = some "b" := rfl
  have hstep := applyContentRange_of_key hkeyed wholeFloat kind offsets
  rw [step, hrange] at hstep
  obtain ⟨e, he⟩ := hstep
  rw [he]
  rfl

theorem unsafe_end
    {n : Nat}
    (hn : n + 1 = 2 ^ 53) :
    let body := List.replicate n 'a' ++ ['a']
    let first : Delta := ⟨"text_chunk", wireFragment 0 (List.replicate n 'a')⟩
    let second : Delta := ⟨"text_chunk", wireFragment n ['a']⟩
    FragmentAt body "b" 0 (List.replicate n 'a') first.data ∧
      FragmentAt body "b" n ['a'] second.data ∧
      (deliver "r" 1 [first, second] ContentCursors.default).2.map
          (·.toOption.isSome) = [true, true] ∧
      (deliverTs (fun _ => none) [first, second] fun _ => none).2.map
          (·.toOption.isSome) = [true, false] := by
  intro body first second
  have hsize := size_replicate n
  have hfirst : FragmentAt body "b" 0 (List.replicate n 'a') first.data :=
    fragmentAt_wireFragment [] (List.replicate n 'a') ['a']
  have hsecond : FragmentAt body "b" n ['a'] second.data := by
    have h := fragmentAt_wireFragment (List.replicate n 'a') ['a'] []
    rw [List.append_nil, hsize] at h
    exact h
  have hkind : "text_chunk" ∈ deltaKinds := by decide
  have hstart : isBoundary body (ContentCursors.default.seen ("r", 1, "b")) = true :=
    isBoundary_zero body
  obtain ⟨data', hrun⟩ : ∃ data',
      apply "r" 1 "text_chunk" (ContentCursors.default, first.data) =
        ((ContentCursors.default.insert ("r", 1, "b")
          (max (0 + size (List.replicate n 'a'))
            (ContentCursors.default.seen ("r", 1, "b"))), data'), .ok ()) := by
    rcases apply_fragment hkind hfirst (by omega) hstart with
      ⟨hgap, -⟩ | ⟨-, data', fresh, hrun, -⟩
    · exact absurd hgap (Nat.not_lt_zero _)
    · exact ⟨data', hrun⟩
  have hcursor : (ContentCursors.default.insert ("r", 1, "b")
      (max (0 + size (List.replicate n 'a'))
        (ContentCursors.default.seen ("r", 1, "b")))).seen ("r", 1, "b") = n := by
    simp [ContentCursors.insert, ContentCursors.seen, ContentCursors.default, hsize]
  refine ⟨hfirst, hsecond, ?_, ?_⟩
  · have hboundary : isBoundary body n = true := by
      have h := isBoundary_append_size (List.replicate n 'a') ['a']
      rwa [hsize] at h
    have hlen : n + size ['a'] < 2 ^ 64 := by
      have hone : size ['a'] = 1 := rfl
      omega
    rw [← hcursor] at hboundary
    rcases apply_fragment hkind hsecond hlen hboundary with ⟨hgap, -⟩ | ⟨-, _, _, hrun', -⟩
    · rw [hcursor] at hgap
      exact absurd hgap (Nat.lt_irrefl n)
    · simp only [deliver, first, second] at hrun hrun' ⊢
      rw [hrun, hrun']
      rfl
  · have hagree : Agree "r" 1 ContentCursors.default fun _ => none := fun _ => rfl
    have hsafe := hfirst.safeNumbers (by omega)
    have hsame := (apply_agree hagree hsafe (fun _ => none) "text_chunk").2
    have hrefused := applyContentRange_unsafe_end hn (fun _ => none) "text_chunk"
      (applyContentRange (fun _ => none) first.data "text_chunk" fun _ => none).1
    rw [hrun] at hsame
    have hopen := congrArg Option.isSome hsame
    have hclosed := congrArg Option.isSome hrefused
    simp only [deliverTs, List.map_cons, List.map_nil]
    exact congrArg₂ (fun b b' => [b, b']) hopen hclosed

/--
A body of `2 ^ 53` bytes in two fragments whose offsets and lengths are safe: the end of the
second is no safe integer, and only one language refuses it.
-/
theorem safe_fragments_with_unsafe_end :
    ∃ n, n + 1 = 2 ^ 53 ∧
      let body := List.replicate n 'a' ++ ['a']
      let first : Delta := ⟨"text_chunk", wireFragment 0 (List.replicate n 'a')⟩
      let second : Delta := ⟨"text_chunk", wireFragment n ['a']⟩
      FragmentAt body "b" 0 (List.replicate n 'a') first.data ∧
        FragmentAt body "b" n ['a'] second.data ∧
        (deliver "r" 1 [first, second] ContentCursors.default).2.map
            (·.toOption.isSome) = [true, true] ∧
        (deliverTs (fun _ => none) [first, second] fun _ => none).2.map
            (·.toOption.isSome) = [true, false] :=
  ⟨9007199254740991, rfl, unsafe_end rfl⟩

end Once

end ContentRange
end FutureOs
