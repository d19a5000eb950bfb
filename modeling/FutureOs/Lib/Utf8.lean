import Mathlib.Algebra.GroupWithZero.Nat
import Mathlib.Data.List.Basic
import Mathlib.Tactic.Common

/-!
# UTF-8 text addressed by bytes

A text is its list of characters; offsets into it count bytes.  This module has
what a program that cuts strings at byte offsets needs:

* `size`, `encode`, `fromUtf8`: the length in bytes, the bytes, and the decoder;
* `isBoundary`, `takeBytes`, `dropBytes`: character boundaries and slices;
* `floorBoundary`: the loop that steps back to the last character boundary;
* `LongestPrefix`: the longest prefix within a budget, which `takeBytes` is.
-/

namespace FutureOs

abbrev Text := List Char
abbrev Bytes := List UInt8

namespace Utf8

/-- Length in bytes. -/
def size : Text → Nat
  | [] => 0
  | c :: t => c.utf8Size + size t

def encode (t : Text) : Bytes :=
  t.flatMap String.utf8EncodeChar

/-- The text whose bytes these are, if they are UTF-8. -/
def fromUtf8 (raw : Bytes) : Option Text :=
  raw.toByteArray.utf8Decode?.map Array.toList

/-- Byte offset `n` lies between two characters or at an end. -/
def isBoundary : Text → Nat → Bool
  | _, 0 => true
  | [], _ + 1 => false
  | c :: t, n => c.utf8Size ≤ n && isBoundary t (n - c.utf8Size)

/-- The whole characters that end at or before byte `n`. -/
def takeBytes : Nat → Text → Text
  | _, [] => []
  | n, c :: t => if c.utf8Size ≤ n then c :: takeBytes (n - c.utf8Size) t else []

/-- What `takeBytes` leaves. -/
def dropBytes : Nat → Text → Text
  | _, [] => []
  | n, c :: t => if c.utf8Size ≤ n then dropBytes (n - c.utf8Size) t else c :: t

/-- `while !is_char_boundary(end) { end -= 1 }`. -/
def floorBoundary (t : Text) : Nat → Nat
  | 0 => 0
  | n + 1 => if isBoundary t (n + 1) then n + 1 else floorBoundary t n

/-- `p` is the longest prefix of `t` of at most `budget` bytes. -/
def LongestPrefix (p t : Text) (budget : Nat) : Prop :=
  p <+: t ∧ size p ≤ budget ∧
    ∀ q, q <+: t → size q ≤ budget → size q ≤ size p

@[simp] theorem size_nil : size [] = 0 := rfl

@[simp] theorem size_cons (c : Char) (t : Text) :
    size (c :: t) = c.utf8Size + size t := rfl

@[simp] theorem size_append (t t' : Text) :
    size (t ++ t') = size t + size t' := by
  induction t with
  | nil =>
      simp
  | cons c t ih =>
      simp [ih, Nat.add_assoc]

theorem size_pos {t : Text} (ht : t ≠ []) : 0 < size t := by
  cases t with
  | nil =>
      exact absurd rfl ht
  | cons c t =>
      have hc := c.utf8Size_pos
      simp only [size_cons]
      omega

theorem eq_nil_of_size {t : Text} (ht : size t = 0) : t = [] := by
  by_contra hne
  have hpos := size_pos hne
  omega

@[simp] theorem encode_append (t t' : Text) :
    encode (t ++ t') = encode t ++ encode t' := by
  simp [encode]

@[simp] theorem length_encode (t : Text) :
    (encode t).length = size t := by
  induction t with
  | nil =>
      rfl
  | cons c t ih =>
      simp only [encode, List.flatMap_cons, List.length_append, size_cons,
        String.length_utf8EncodeChar] at ih ⊢
      rw [ih]

/-- The size of a string is that of its characters. -/
theorem size_toList (s : String) : size s.toList = s.utf8ByteSize := by
  have hbytes : s.toByteArray = s.toList.utf8Encode :=
    String.utf8Encode_toList.symm
  rw [← length_encode, String.utf8ByteSize, hbytes]
  simp [List.utf8Encode, encode]

@[simp] theorem fromUtf8_encode (t : Text) :
    fromUtf8 (encode t) = some t := by
  have hdecode := List.utf8Decode?_utf8Encode (l := t)
  simp only [List.utf8Encode] at hdecode
  simp [fromUtf8, encode, hdecode]

theorem encode_injective {t t' : Text} (h : encode t = encode t') : t = t' := by
  have hdecode := congrArg fromUtf8 h
  simpa using hdecode

/-- Decoding behind a text. -/
theorem fromUtf8_encode_append (t : Text) (raw : Bytes) :
    fromUtf8 (encode t ++ raw) = (fromUtf8 raw).map (t ++ ·) := by
  induction t with
  | nil =>
      simp [encode]
  | cons c t ih =>
      have hsplit : (encode (c :: t) ++ raw).toByteArray =
          [c].utf8Encode ++ (encode t ++ raw).toByteArray := by
        simp [encode, List.utf8Encode]
      have hstep : fromUtf8 (encode (c :: t) ++ raw) =
          (fromUtf8 (encode t ++ raw)).map (c :: ·) := by
        rw [fromUtf8, hsplit, ByteArray.utf8Decode?_utf8Encode_singleton_append, fromUtf8,
          Option.map_map, Option.map_map]
        congr 1
        funext chars
        simp
      rw [hstep, ih, Option.map_map]
      rfl

/-- What decodes is the bytes of its text. -/
theorem encode_of_fromUtf8
    {raw : Bytes}
    {t : Text}
    (h : fromUtf8 raw = some t) :
    encode t = raw := by
  obtain ⟨chars, hchars, rfl⟩ := Option.map_eq_some_iff.1 h
  have hget : raw.toByteArray.utf8Decode?.get (by rw [hchars]; rfl) = chars := by
    simp [hchars]
  have hbytes := ByteArray.utf8Encode_get_utf8Decode? (b := raw.toByteArray)
    (h := by rw [hchars]; rfl)
  rw [hget] at hbytes
  have hlist := congrArg (fun b => b.data.toList) hbytes
  simpa [encode, List.utf8Encode] using hlist

@[simp] theorem isBoundary_zero (t : Text) : isBoundary t 0 = true := by
  cases t <;> rfl

theorem isBoundary_append_size (t t' : Text) :
    isBoundary (t ++ t') (size t) = true := by
  induction t with
  | nil =>
      simp
  | cons c t ih =>
      cases hsize : size (c :: t) with
      | zero =>
          simp
      | succ n =>
          rw [List.cons_append, isBoundary, ← hsize]
          · simp [ih]
          · simp

/-- A boundary is the end of a prefix. -/
theorem isBoundary_iff {t : Text} {n : Nat} :
    isBoundary t n = true ↔ ∃ a b, t = a ++ b ∧ size a = n := by
  constructor
  · intro h
    induction t generalizing n with
    | nil =>
        cases n with
        | zero => exact ⟨[], [], rfl, rfl⟩
        | succ n => simp [isBoundary] at h
    | cons c t ih =>
        cases n with
        | zero => exact ⟨[], c :: t, rfl, rfl⟩
        | succ n =>
            simp only [isBoundary, Bool.and_eq_true, decide_eq_true_eq] at h
            obtain ⟨a, b, rfl, ha⟩ := ih h.2
            refine ⟨c :: a, b, rfl, ?_⟩
            simp only [size_cons]
            omega
  · rintro ⟨a, b, rfl, rfl⟩
    exact isBoundary_append_size a b

theorem isBoundary_le {t : Text} {n : Nat} (h : isBoundary t n = true) :
    n ≤ size t := by
  obtain ⟨a, b, rfl, rfl⟩ := isBoundary_iff.1 h
  simp

/-- Past the first part, boundaries are those of the second. -/
theorem isBoundary_append (t t' : Text) (n : Nat) :
    isBoundary (t ++ t') (size t + n) = isBoundary t' n := by
  induction t generalizing n with
  | nil =>
      simp
  | cons c t ih =>
      have hc := c.utf8Size_pos
      obtain ⟨m, hm⟩ : ∃ m, size (c :: t) + n = m + 1 :=
        ⟨c.utf8Size - 1 + size t + n, by simp only [size_cons]; omega⟩
      rw [List.cons_append, hm, isBoundary, ← hm]
      · have hsub : size (c :: t) + n - c.utf8Size = size t + n := by
          simp only [size_cons]
          omega
        have hle : c.utf8Size ≤ size (c :: t) + n := by
          simp only [size_cons]
          omega
        rw [hsub, ih, decide_eq_true hle, Bool.true_and]
      · simp

/-- Inside the first part, boundaries are those of the first. -/
theorem isBoundary_append_of_le {t t' : Text} {n : Nat} (hn : n ≤ size t) :
    isBoundary (t ++ t') n = isBoundary t n := by
  induction t generalizing n with
  | nil =>
      have hzero : n = 0 := by simpa using hn
      subst hzero
      simp
  | cons c t ih =>
      cases n with
      | zero =>
          simp
      | succ n =>
          rw [List.cons_append, isBoundary, isBoundary, ih]
          · simp only [size_cons] at hn
            omega
          · simp
          · simp

theorem takeBytes_append_dropBytes (n : Nat) (t : Text) :
    takeBytes n t ++ dropBytes n t = t := by
  induction t generalizing n with
  | nil =>
      rfl
  | cons c t ih =>
      unfold takeBytes dropBytes
      split
      · simp [ih]
      · rfl

theorem size_takeBytes_le (n : Nat) (t : Text) : size (takeBytes n t) ≤ n := by
  induction t generalizing n with
  | nil =>
      exact Nat.zero_le n
  | cons c t ih =>
      unfold takeBytes
      split
      · have htail := ih (n - c.utf8Size)
        simp only [size_cons]
        omega
      · exact Nat.zero_le n

theorem takeBytes_ne_nil
    {n : Nat}
    (hn : 4 ≤ n)
    {t : Text}
    (ht : t ≠ []) :
    takeBytes n t ≠ [] := by
  cases t with
  | nil =>
      exact absurd rfl ht
  | cons c t =>
      rw [takeBytes, if_pos (Nat.le_trans c.utf8Size_le_four hn)]
      exact List.cons_ne_nil _ _

theorem takeBytes_append (t t' : Text) (n : Nat) :
    takeBytes (size t + n) (t ++ t') = t ++ takeBytes n t' := by
  induction t generalizing n with
  | nil =>
      simp
  | cons c t ih =>
      have hsub : size (c :: t) + n - c.utf8Size = size t + n := by
        simp only [size_cons]
        omega
      rw [List.cons_append, takeBytes, if_pos, hsub, ih, List.cons_append]
      simp only [size_cons]
      omega

theorem dropBytes_append (t t' : Text) (n : Nat) :
    dropBytes (size t + n) (t ++ t') = dropBytes n t' := by
  induction t generalizing n with
  | nil =>
      simp
  | cons c t ih =>
      have hsub : size (c :: t) + n - c.utf8Size = size t + n := by
        simp only [size_cons]
        omega
      rw [List.cons_append, dropBytes, if_pos, hsub, ih]
      simp only [size_cons]
      omega

@[simp] theorem takeBytes_zero (t : Text) : takeBytes 0 t = [] :=
  eq_nil_of_size (Nat.le_zero.1 (size_takeBytes_le 0 t))

@[simp] theorem dropBytes_zero (t : Text) : dropBytes 0 t = t := by
  have h := takeBytes_append_dropBytes 0 t
  simpa using h

@[simp] theorem takeBytes_nil (n : Nat) : takeBytes n [] = [] := rfl

@[simp] theorem dropBytes_nil (n : Nat) : dropBytes n [] = [] := rfl

@[simp] theorem takeBytes_append_size (t t' : Text) :
    takeBytes (size t) (t ++ t') = t := by
  simpa using takeBytes_append t t' 0

@[simp] theorem dropBytes_append_size (t t' : Text) :
    dropBytes (size t) (t ++ t') = t' := by
  simpa using dropBytes_append t t' 0

theorem takeBytes_of_size_le {t : Text} {n : Nat} (hn : size t ≤ n) :
    takeBytes n t = t := by
  have h := takeBytes_append t [] (n - size t)
  simpa [Nat.add_sub_cancel' hn] using h

/-- A budget that ends inside the first part never reaches the second. -/
theorem takeBytes_append_of_le {t t' : Text} {n : Nat} (hn : n ≤ size t) :
    takeBytes n (t ++ t') = takeBytes n t := by
  induction t generalizing n with
  | nil =>
      have hzero : n = 0 := by simpa using hn
      subst hzero
      simp
  | cons c t ih =>
      rw [List.cons_append, takeBytes, takeBytes]
      split
      · rw [ih]
        simp only [size_cons] at hn
        omega
      · rfl

/-- A slice `[d..n]` that starts on a boundary is a prefix of what follows it. -/
theorem dropBytes_takeBytes
    {t : Text}
    {d n : Nat}
    (hd : isBoundary t d = true)
    (hn : d ≤ n) :
    dropBytes d (takeBytes n t) = takeBytes (n - d) (dropBytes d t) := by
  obtain ⟨a, b, rfl, rfl⟩ := isBoundary_iff.1 hd
  obtain ⟨k, rfl⟩ := Nat.exists_eq_add_of_le hn
  rw [takeBytes_append, dropBytes_append_size, dropBytes_append_size]
  simp

/-- Dropping from the first part leaves the second alone. -/
theorem dropBytes_append_of_isBoundary
    {t t' : Text}
    {d : Nat}
    (hd : isBoundary t d = true) :
    dropBytes d (t ++ t') = dropBytes d t ++ t' := by
  obtain ⟨a, b, rfl, rfl⟩ := isBoundary_iff.1 hd
  rw [List.append_assoc, dropBytes_append_size, dropBytes_append_size]

theorem size_dropBytes
    {t : Text}
    {d : Nat}
    (hd : isBoundary t d = true) :
    d + size (dropBytes d t) = size t := by
  obtain ⟨a, b, rfl, rfl⟩ := isBoundary_iff.1 hd
  simp

theorem isBoundary_size (t : Text) : isBoundary t (size t) = true := by
  have h := isBoundary_append_size t []
  rwa [List.append_nil] at h

theorem isBoundary_size_takeBytes (n : Nat) (t : Text) :
    isBoundary t (size (takeBytes n t)) = true :=
  isBoundary_iff.2
    ⟨takeBytes n t, dropBytes n t, (takeBytes_append_dropBytes n t).symm, rfl⟩

theorem takeBytes_isPrefixOf (n : Nat) (t : Text) : takeBytes n t <+: t :=
  ⟨dropBytes n t, takeBytes_append_dropBytes n t⟩

/-- A prefix that fits is a prefix of what `takeBytes` takes. -/
theorem prefix_takeBytes
    {q t : Text}
    {n : Nat}
    (hq : q <+: t)
    (hn : size q ≤ n) :
    q <+: takeBytes n t := by
  obtain ⟨r, rfl⟩ := hq
  obtain ⟨k, rfl⟩ := Nat.exists_eq_add_of_le hn
  rw [takeBytes_append]
  exact List.prefix_append q _

theorem size_le_of_isPrefixOf {q t : Text} (h : q <+: t) : size q ≤ size t := by
  obtain ⟨r, rfl⟩ := h
  simp

theorem longestPrefix_takeBytes (n : Nat) (t : Text) :
    LongestPrefix (takeBytes n t) t n :=
  ⟨takeBytes_isPrefixOf n t, size_takeBytes_le n t, fun _ hq hn =>
    size_le_of_isPrefixOf (prefix_takeBytes hq hn)⟩

theorem floorBoundary_le (t : Text) (n : Nat) : floorBoundary t n ≤ n := by
  induction n with
  | zero =>
      exact Nat.le_refl 0
  | succ n ih =>
      unfold floorBoundary
      split
      · exact Nat.le_refl _
      · omega

theorem isBoundary_floorBoundary (t : Text) (n : Nat) :
    isBoundary t (floorBoundary t n) = true := by
  induction n with
  | zero =>
      exact isBoundary_zero t
  | succ n ih =>
      unfold floorBoundary
      split
      · assumption
      · exact ih

/-- The loop stops at the last boundary it could reach. -/
theorem le_floorBoundary
    {t : Text}
    {m n : Nat}
    (hm : isBoundary t m = true)
    (hmn : m ≤ n) :
    m ≤ floorBoundary t n := by
  induction n with
  | zero =>
      omega
  | succ n ih =>
      unfold floorBoundary
      split
      · exact hmn
      · rename_i hn
        have hne : m ≠ n + 1 := fun heq => hn (heq ▸ hm)
        exact ih (by omega)

/-- Stepping back to a boundary cuts where `takeBytes` does. -/
theorem size_takeBytes (n : Nat) (t : Text) :
    size (takeBytes n t) = floorBoundary t n := by
  apply Nat.le_antisymm
  · exact le_floorBoundary (isBoundary_size_takeBytes n t) (size_takeBytes_le n t)
  · obtain ⟨a, b, hab, ha⟩ := isBoundary_iff.1 (isBoundary_floorBoundary t n)
    rw [← ha]
    have hfit : size a ≤ n := ha ▸ floorBoundary_le t n
    exact size_le_of_isPrefixOf (prefix_takeBytes ⟨b, hab.symm⟩ hfit)

/-- Cutting at the end keeps the boundaries before the cut. -/
theorem isBoundary_takeBytes
    {t : Text}
    {d n : Nat}
    (hd : isBoundary t d = true)
    (hn : d ≤ n) :
    isBoundary (takeBytes n t) d = true := by
  obtain ⟨a, b, rfl, rfl⟩ := isBoundary_iff.1 hd
  obtain ⟨r, hr⟩ := prefix_takeBytes (List.prefix_append a b) hn
  rw [← hr]
  exact isBoundary_append_size a r

theorem floorBoundary_of_isBoundary
    {t : Text}
    {n : Nat}
    (hn : isBoundary t n = true) :
    floorBoundary t n = n :=
  Nat.le_antisymm (floorBoundary_le t n) (le_floorBoundary hn (Nat.le_refl n))

theorem takeBytes_floorBoundary (n : Nat) (t : Text) :
    takeBytes (floorBoundary t n) t = takeBytes n t := by
  have h := takeBytes_append_size (takeBytes n t) (dropBytes n t)
  rwa [takeBytes_append_dropBytes, size_takeBytes] at h

end Utf8
end FutureOs
