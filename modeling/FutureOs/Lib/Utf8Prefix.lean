import FutureOs.Lib.Utf8

/-!
# UTF-8 cut at any byte

What `str::from_utf8` says of bytes that were cut out of a text: how far they are a text
(`validUpTo`), and whether what follows is the start of a character (`isPending`), which it is
where a text was cut between two boundaries (`validUpTo_take`, `isPending_take`).
-/

namespace FutureOs
namespace Utf8

/-- The longest prefix of at most `n` bytes that is UTF-8. -/
def validUpToFrom (raw : Bytes) : Nat → Nat
  | 0 => 0
  | n + 1 => if (fromUtf8 (raw.take (n + 1))).isSome then n + 1 else validUpToFrom raw n

/-- `Utf8Error::valid_up_to`; all bytes where they are UTF-8. -/
def validUpTo (raw : Bytes) : Nat :=
  validUpToFrom raw raw.length

def isContinuation (b : Nat) : Bool :=
  0x80 ≤ b && b ≤ 0xBF

/-- The second byte of a character, whose range depends on the first. -/
def isSecond (first second : Nat) : Bool :=
  if first = 0xE0 then 0xA0 ≤ second && second ≤ 0xBF
  else if first = 0xED then 0x80 ≤ second && second ≤ 0x9F
  else if first = 0xF0 then 0x90 ≤ second && second ≤ 0xBF
  else if first = 0xF4 then 0x80 ≤ second && second ≤ 0x8F
  else isContinuation second

/-- The bytes end before the character they start: `Utf8Error::error_len` is `None`. -/
def isPending (raw : Bytes) : Bool :=
  match raw.map UInt8.toNat with
  | [first] => 0xC2 ≤ first && first ≤ 0xF4
  | [first, second] => 0xE0 ≤ first && first ≤ 0xF4 && isSecond first second
  | [first, second, third] =>
      0xF0 ≤ first && first ≤ 0xF4 && isSecond first second && isContinuation third
  | _ => false

section Prefixes

theorem encode_cons (c : Char) (t : Text) :
    encode (c :: t) = String.utf8EncodeChar c ++ encode t := rfl

/-- The start of a character is not UTF-8. -/
theorem fromUtf8_part
    {c : Char}
    {n : Nat}
    (hpos : 0 < n)
    (hlt : n < c.utf8Size) :
    fromUtf8 ((String.utf8EncodeChar c).take n) = none := by
  cases htext : fromUtf8 ((String.utf8EncodeChar c).take n) with
  | none =>
      rfl
  | some t =>
      exfalso
      have hbytes := encode_of_fromUtf8 htext
      have hlength : (encode t).length = n := by
        rw [hbytes, List.length_take, String.length_utf8EncodeChar]
        omega
      have hwhole : encode t ++ (String.utf8EncodeChar c).drop n = encode [c] := by
        rw [hbytes, List.take_append_drop]
        simp [encode]
      have hdecode := fromUtf8_encode_append t ((String.utf8EncodeChar c).drop n)
      rw [hwhole, fromUtf8_encode] at hdecode
      obtain ⟨rest, hrest, hcons⟩ := Option.map_eq_some_iff.1 hdecode.symm
      cases t with
      | nil =>
          simp [encode] at hlength
          omega
      | cons d t =>
          obtain ⟨rfl, hnil⟩ := List.cons.inj hcons
          have hsize : n = d.utf8Size + size t := by
            rw [← hlength, length_encode, size_cons]
          omega

theorem validUpToFrom_eq
    {raw : Bytes}
    {k n : Nat}
    (hk : k ≤ n)
    (hvalid : (fromUtf8 (raw.take k)).isSome = true)
    (hmax : ∀ m, k < m → m ≤ n → fromUtf8 (raw.take m) = none) :
    validUpToFrom raw n = k := by
  induction n with
  | zero =>
      obtain rfl := Nat.le_zero.1 hk
      rfl
  | succ n ih =>
      rw [validUpToFrom]
      by_cases heq : k = n + 1
      · rw [if_pos (heq ▸ hvalid), heq]
      · have hnone := hmax (n + 1) (by omega) (Nat.le_refl _)
        rw [hnone, if_neg (by simp)]
        exact ih (by omega) fun m hlt hle => hmax m hlt (by omega)

/-- Bytes cut from a text: whole characters, and then less than one character. -/
theorem take_encode (n : Nat) (t : Text) :
    (encode t).take n = encode (takeBytes n t) ∨
      ∃ c m, 0 < m ∧ m < c.utf8Size ∧
        (encode t).take n = encode (takeBytes n t) ++ (String.utf8EncodeChar c).take m := by
  induction t generalizing n with
  | nil =>
      left
      simp [encode]
  | cons c t ih =>
      rw [takeBytes, encode_cons]
      by_cases hfits : c.utf8Size ≤ n
      · rw [if_pos hfits, List.take_append, String.length_utf8EncodeChar,
          List.take_of_length_le (by rw [String.length_utf8EncodeChar]; exact hfits), encode_cons]
        rcases ih (n - c.utf8Size) with heq | ⟨d, m, hpos, hlt, heq⟩
        · left
          rw [heq]
        · right
          refine ⟨d, m, hpos, hlt, ?_⟩
          rw [heq, List.append_assoc]
      · rw [if_neg hfits]
        have htake : (String.utf8EncodeChar c ++ encode t).take n =
            (String.utf8EncodeChar c).take n :=
          List.take_append_of_le_length (by rw [String.length_utf8EncodeChar]; omega)
        rw [htake]
        by_cases hzero : n = 0
        · left
          simp [hzero, encode]
        · right
          exact ⟨c, n, by omega, by omega, rfl⟩

/-- What was cut from a text is a text up to the last boundary. -/
theorem validUpTo_take (n : Nat) (t : Text) :
    validUpTo ((encode t).take n) = size (takeBytes n t) := by
  rw [validUpTo]
  rcases take_encode n t with heq | ⟨c, m, hpos, hlt, heq⟩
  · rw [heq]
    refine validUpToFrom_eq (Nat.le_of_eq (length_encode _).symm) ?_ fun k hlt hle => ?_
    · rw [← length_encode, List.take_length, fromUtf8_encode]
      rfl
    · rw [length_encode] at hle
      omega
  · rw [heq]
    refine validUpToFrom_eq ?_ ?_ fun k hk hle => ?_
    · rw [List.length_append, length_encode]
      omega
    · rw [← length_encode, List.take_left, fromUtf8_encode]
      rfl
    · rw [List.length_append, length_encode, List.length_take,
        String.length_utf8EncodeChar] at hle
      rw [List.take_append, length_encode,
        List.take_of_length_le (by rw [length_encode]; omega), fromUtf8_encode_append,
        List.take_take, fromUtf8_part (by omega) (by omega)]
      rfl

theorem isContinuation_of
    {b : Nat}
    (hb : 0x80 ≤ b ∧ b ≤ 0xBF) :
    isContinuation b = true := by
  simpa [isContinuation] using hb

theorem isSecond_of
    {first second : Nat}
    (hsecond : 0x80 ≤ second ∧ second ≤ 0xBF)
    (hlong : (first = 0xE0 → 0xA0 ≤ second) ∧ (first = 0xF0 → 0x90 ≤ second))
    (hlarge : (first = 0xED → second ≤ 0x9F) ∧ (first = 0xF4 → second ≤ 0x8F)) :
    isSecond first second = true := by
  rw [isSecond]
  split
  · simpa using ⟨hlong.1 ‹_›, hsecond.2⟩
  split
  · simpa using ⟨hsecond.1, hlarge.1 ‹_›⟩
  split
  · simpa using ⟨hlong.2 ‹_›, hsecond.2⟩
  split
  · simpa using ⟨hsecond.1, hlarge.2 ‹_›⟩
  · exact isContinuation_of hsecond

theorem toNat_ofNat
    {b : Nat}
    (hb : b < 256) :
    (UInt8.ofNat b).toNat = b :=
  UInt8.toNat_ofNat_of_lt' hb

theorem isPending_part
    {c : Char}
    {n : Nat}
    (hpos : 0 < n)
    (hlt : n < c.utf8Size) :
    isPending ((String.utf8EncodeChar c).take n) = true := by
  have hvalid : c.val.toNat < 0xD800 ∨
      (0xDFFF < c.val.toNat ∧ c.val.toNat < 0x110000) := c.valid
  rw [← String.length_utf8EncodeChar] at hlt
  rw [isPending, List.map_take]
  simp only [String.utf8EncodeChar] at hlt ⊢
  generalize c.val.toNat = v at hlt hvalid ⊢
  by_cases hone : v ≤ 0x7f
  · rw [if_pos hone] at hlt
    simp only [List.length_cons, List.length_nil] at hlt
    omega
  rw [if_neg hone] at hlt ⊢
  by_cases htwo : v ≤ 0x7ff
  · rw [if_pos htwo] at hlt ⊢
    simp only [List.length_cons, List.length_nil] at hlt
    obtain rfl : n = 1 := by omega
    rw [List.map_cons, toNat_ofNat (by omega)]
    simp only [List.take_succ_cons, List.take_zero, Bool.and_eq_true, decide_eq_true_eq]
    omega
  rw [if_neg htwo] at hlt ⊢
  by_cases hthree : v ≤ 0xffff
  · rw [if_pos hthree] at hlt ⊢
    simp only [List.length_cons, List.length_nil] at hlt
    have hsecond : isSecond (v / 4096 % 16 + 0xe0) (v / 64 % 64 + 0x80) = true :=
      isSecond_of (by omega) (by omega) (by omega)
    rw [List.map_cons, List.map_cons, toNat_ofNat (by omega), toNat_ofNat (by omega)]
    obtain rfl | rfl : n = 1 ∨ n = 2 := by omega
    · simp only [List.take_succ_cons, List.take_zero, Bool.and_eq_true, decide_eq_true_eq]
      omega
    · simp only [List.take_succ_cons, List.take_zero, Bool.and_eq_true, decide_eq_true_eq, hsecond,
        and_true]
      omega
  · rw [if_neg hthree] at hlt ⊢
    simp only [List.length_cons, List.length_nil] at hlt
    have hsecond : isSecond (v / 262144 % 8 + 0xf0) (v / 4096 % 64 + 0x80) = true :=
      isSecond_of (by omega) (by omega) (by omega)
    have hthird : isContinuation (v / 64 % 64 + 0x80) = true := isContinuation_of (by omega)
    rw [List.map_cons, List.map_cons, List.map_cons, toNat_ofNat (by omega),
      toNat_ofNat (by omega), toNat_ofNat (by omega)]
    obtain rfl | rfl | rfl : n = 1 ∨ n = 2 ∨ n = 3 := by omega
    · simp only [List.take_succ_cons, List.take_zero, Bool.and_eq_true, decide_eq_true_eq]
      omega
    · simp only [List.take_succ_cons, List.take_zero, Bool.and_eq_true, decide_eq_true_eq, hsecond,
        and_true]
      omega
    · simp only [List.take_succ_cons, List.take_zero, Bool.and_eq_true, decide_eq_true_eq, hsecond,
        hthird, and_true]
      omega

/-- What is left after the last boundary is the start of a character. -/
theorem isPending_take (n : Nat) (t : Text) :
    ((encode t).take n).drop (size (takeBytes n t)) = [] ∨
      isPending (((encode t).take n).drop (size (takeBytes n t))) = true := by
  rcases take_encode n t with heq | ⟨c, m, hpos, hlt, heq⟩
  · left
    rw [heq, ← length_encode, List.drop_length]
  · right
    rw [heq, ← length_encode, List.drop_left]
    exact isPending_part hpos hlt

end Prefixes

end Utf8
end FutureOs
