import FutureOs.Lib.Utf8

/-!
# Base64 without padding, in the alphabet for URLs

Three bytes are four digits; one or two bytes at the end are two or three.
Reading is strict: a character outside the alphabet, a lone last digit and bits
left over at the end are errors, so a text has at most one reading and what is
written reads back (`decode_encode`).

A browser reads more leniently (`decodeBase64Url`): white space, padding, the other
alphabet and left over bits do not matter to it.  What is written reads back there
too (`decodeBase64Url_encode`).
-/

namespace FutureOs
namespace Base64

/-- The character of a digit below 64. -/
def digit (n : Nat) : Char :=
  if n < 26 then
    Char.ofNat (65 + n)
  else if n < 52 then
    Char.ofNat (71 + n)
  else if n < 62 then
    Char.ofNat (n - 4)
  else if n = 62 then
    '-'
  else
    '_'

def value (c : Char) : Option Nat :=
  let n := c.toNat
  if 65 ≤ n ∧ n ≤ 90 then
    some (n - 65)
  else if 97 ≤ n ∧ n ≤ 122 then
    some (n - 71)
  else if 48 ≤ n ∧ n ≤ 57 then
    some (n + 4)
  else if c = '-' then
    some 62
  else if c = '_' then
    some 63
  else
    none

def encode : Bytes → Text
  | a :: b :: c :: rest =>
      digit (a.toNat / 4) ::
      digit (a.toNat % 4 * 16 + b.toNat / 16) ::
      digit (b.toNat % 16 * 4 + c.toNat / 64) ::
      digit (c.toNat % 64) :: encode rest
  | [a, b] =>
      [digit (a.toNat / 4), digit (a.toNat % 4 * 16 + b.toNat / 16),
        digit (b.toNat % 16 * 4)]
  | [a] => [digit (a.toNat / 4), digit (a.toNat % 4 * 16)]
  | [] => []

def decode : Text → Option Bytes
  | w :: x :: y :: z :: rest => do
      let p ← value w
      let q ← value x
      let r ← value y
      let s ← value z
      let bytes ← decode rest
      return UInt8.ofNat (p * 4 + q / 16) ::
        UInt8.ofNat (q % 16 * 16 + r / 4) ::
        UInt8.ofNat (r % 4 * 64 + s) :: bytes
  | [w, x, y] => do
      let p ← value w
      let q ← value x
      let r ← value y
      if r % 4 = 0 then
        some [UInt8.ofNat (p * 4 + q / 16), UInt8.ofNat (q % 16 * 16 + r / 4)]
      else
        none
  | [w, x] => do
      let p ← value w
      let q ← value x
      if q % 16 = 0 then some [UInt8.ofNat (p * 4 + q / 16)] else none
  | [_] => none
  | [] => some []

theorem value_digit
    {n : Nat}
    (h : n < 64) :
    value (digit n) = some n := by
  revert n
  decide

theorem ofNat_eq
    {b : UInt8}
    {n : Nat}
    (h : n = b.toNat) :
    UInt8.ofNat n = b := by
  rw [h, UInt8.ofNat_toNat]

/-- What is written reads back. -/
theorem decode_encode (bytes : Bytes) : decode (encode bytes) = some bytes := by
  induction bytes using encode.induct with
  | case1 a b c rest ih =>
      have ha := a.toNat_lt
      have hb := b.toNat_lt
      have hc := c.toNat_lt
      have hfirst : a.toNat / 4 * 4 + (a.toNat % 4 * 16 + b.toNat / 16) / 16 =
          a.toNat := by omega
      have hsecond : (a.toNat % 4 * 16 + b.toNat / 16) % 16 * 16 +
          (b.toNat % 16 * 4 + c.toNat / 64) / 4 = b.toNat := by omega
      have hthird : (b.toNat % 16 * 4 + c.toNat / 64) % 4 * 64 + c.toNat % 64 =
          c.toNat := by omega
      rw [encode, decode, value_digit (by omega), value_digit (by omega),
        value_digit (by omega), value_digit (by omega), ih]
      simp only [Option.bind_eq_bind, Option.bind_some, Option.pure_def]
      rw [ofNat_eq hfirst, ofNat_eq hsecond, ofNat_eq hthird]
  | case2 a b =>
      have ha := a.toNat_lt
      have hb := b.toNat_lt
      have hfirst : a.toNat / 4 * 4 + (a.toNat % 4 * 16 + b.toNat / 16) / 16 =
          a.toNat := by omega
      have hsecond : (a.toNat % 4 * 16 + b.toNat / 16) % 16 * 16 +
          b.toNat % 16 * 4 / 4 = b.toNat := by omega
      have hrest : b.toNat % 16 * 4 % 4 = 0 := by omega
      rw [encode, decode, value_digit (by omega), value_digit (by omega),
        value_digit (by omega)]
      simp only [Option.bind_eq_bind, Option.bind_some]
      rw [if_pos hrest, ofNat_eq hfirst, ofNat_eq hsecond]
  | case3 a =>
      have ha := a.toNat_lt
      have hfirst : a.toNat / 4 * 4 + a.toNat % 4 * 16 / 16 = a.toNat := by omega
      have hrest : a.toNat % 4 * 16 % 16 = 0 := by omega
      rw [encode, decode, value_digit (by omega), value_digit (by omega)]
      simp only [Option.bind_eq_bind, Option.bind_some]
      rw [if_pos hrest, ofNat_eq hfirst]
  | case4 =>
      rfl

theorem utf8Size_digit
    {n : Nat}
    (h : n < 64) :
    (digit n).utf8Size = 1 := by
  revert n
  decide

/-- Four digits for three bytes, each one byte long. -/
theorem size_encode (bytes : Bytes) :
    Utf8.size (encode bytes) = (4 * bytes.length + 2) / 3 := by
  induction bytes using encode.induct with
  | case1 a b c rest ih =>
      have ha := a.toNat_lt
      have hb := b.toNat_lt
      have hc := c.toNat_lt
      simp only [encode, Utf8.size_cons, ih, List.length_cons]
      rw [utf8Size_digit (by omega), utf8Size_digit (by omega),
        utf8Size_digit (by omega), utf8Size_digit (by omega)]
      omega
  | case2 a b =>
      have ha := a.toNat_lt
      have hb := b.toNat_lt
      simp only [encode, Utf8.size_cons, Utf8.size_nil]
      rw [utf8Size_digit (by omega), utf8Size_digit (by omega),
        utf8Size_digit (by omega)]
      simp
  | case3 a =>
      have ha := a.toNat_lt
      simp only [encode, Utf8.size_cons, Utf8.size_nil]
      rw [utf8Size_digit (by omega), utf8Size_digit (by omega)]
      simp
  | case4 =>
      rfl

/-! ## Reading in a browser -/

def toStandard (c : Char) : Char :=
  if c = '-' then '+' else if c = '_' then '/' else c

/-- The value of a digit of the standard alphabet. -/
def standardValue (c : Char) : Option Nat :=
  if c = '+' then
    some 62
  else if c = '/' then
    some 63
  else if c = '-' ∨ c = '_' then
    none
  else
    value c

/-- Bits left over at the end are dropped. -/
def decodeStandard : Text → Option Bytes
  | w :: x :: y :: z :: rest => do
      let p ← standardValue w
      let q ← standardValue x
      let r ← standardValue y
      let s ← standardValue z
      let bytes ← decodeStandard rest
      return UInt8.ofNat (p * 4 + q / 16) ::
        UInt8.ofNat (q % 16 * 16 + r / 4) ::
        UInt8.ofNat (r % 4 * 64 + s) :: bytes
  | [w, x, y] => do
      let p ← standardValue w
      let q ← standardValue x
      let r ← standardValue y
      return [UInt8.ofNat (p * 4 + q / 16), UInt8.ofNat (q % 16 * 16 + r / 4)]
  | [w, x] => do
      let p ← standardValue w
      let q ← standardValue x
      return [UInt8.ofNat (p * 4 + q / 16)]
  | [_] => none
  | [] => some []

/-- One or two `=` at the end. -/
def dropPadding (t : Text) : Text :=
  match t.reverse with
  | '=' :: '=' :: rest => rest.reverse
  | '=' :: rest => rest.reverse
  | _ => t

def isAsciiSpace (c : Char) : Bool :=
  c = '\t' || c = '\n' || c.toNat = 12 || c = '\r' || c = ' '

def atob (data : Text) : Option Bytes :=
  let digits := data.filter fun c => !isAsciiSpace c
  decodeStandard (if digits.length % 4 = 0 then dropPadding digits else digits)

/-- What `String.prototype.trim` takes off. -/
def isScriptSpace (c : Char) : Bool :=
  let n := c.toNat
  (9 ≤ n && n ≤ 13) || n = 32 || n = 0xA0 || n = 0x1680 ||
    (0x2000 ≤ n && n ≤ 0x200A) || n = 0x2028 || n = 0x2029 || n = 0x202F ||
    n = 0x205F || n = 0x3000 || n = 0xFEFF

def scriptTrim (t : Text) : Text :=
  ((t.dropWhile isScriptSpace).reverse.dropWhile isScriptSpace).reverse

/--
The reader of the browser client.  A text of other characters than ASCII fails
whatever its padding, so the padding counts characters.
-/
def decodeBase64Url (value : Text) : Option Bytes :=
  let base64 := (scriptTrim value).map toStandard
  atob (base64 ++ List.replicate ((4 - base64.length % 4) % 4) '=')

theorem standardValue_digit
    {n : Nat}
    (h : n < 64) :
    standardValue (toStandard (digit n)) = some n := by
  revert n
  decide

theorem plain_digit
    {n : Nat}
    (h : n < 64) :
    isScriptSpace (digit n) = false ∧ isAsciiSpace (toStandard (digit n)) = false ∧
      toStandard (digit n) ≠ '=' := by
  revert n
  decide

theorem mem_encode
    {bytes : Bytes}
    {c : Char}
    (hc : c ∈ encode bytes) :
    ∃ n, n < 64 ∧ c = digit n := by
  induction bytes using encode.induct with
  | case1 a b e rest ih =>
      have ha := a.toNat_lt
      have hb := b.toNat_lt
      have he := e.toNat_lt
      simp only [encode, List.mem_cons] at hc
      rcases hc with rfl | rfl | rfl | rfl | hc
      · exact ⟨_, by omega, rfl⟩
      · exact ⟨_, by omega, rfl⟩
      · exact ⟨_, by omega, rfl⟩
      · exact ⟨_, by omega, rfl⟩
      · exact ih hc
  | case2 a b =>
      have ha := a.toNat_lt
      have hb := b.toNat_lt
      simp only [encode, List.mem_cons, List.not_mem_nil, or_false] at hc
      rcases hc with rfl | rfl | rfl
      · exact ⟨_, by omega, rfl⟩
      · exact ⟨_, by omega, rfl⟩
      · exact ⟨_, by omega, rfl⟩
  | case3 a =>
      have ha := a.toNat_lt
      simp only [encode, List.mem_cons, List.not_mem_nil, or_false] at hc
      rcases hc with rfl | rfl
      · exact ⟨_, by omega, rfl⟩
      · exact ⟨_, by omega, rfl⟩
  | case4 =>
      simp [encode] at hc

theorem decodeStandard_encode (bytes : Bytes) :
    decodeStandard ((encode bytes).map toStandard) = some bytes := by
  induction bytes using encode.induct with
  | case1 a b c rest ih =>
      have ha := a.toNat_lt
      have hb := b.toNat_lt
      have hc := c.toNat_lt
      have hfirst : a.toNat / 4 * 4 + (a.toNat % 4 * 16 + b.toNat / 16) / 16 =
          a.toNat := by omega
      have hsecond : (a.toNat % 4 * 16 + b.toNat / 16) % 16 * 16 +
          (b.toNat % 16 * 4 + c.toNat / 64) / 4 = b.toNat := by omega
      have hthird : (b.toNat % 16 * 4 + c.toNat / 64) % 4 * 64 + c.toNat % 64 =
          c.toNat := by omega
      simp only [encode, List.map_cons]
      rw [decodeStandard, standardValue_digit (by omega), standardValue_digit (by omega),
        standardValue_digit (by omega), standardValue_digit (by omega), ih]
      simp only [Option.bind_eq_bind, Option.bind_some, Option.pure_def]
      rw [ofNat_eq hfirst, ofNat_eq hsecond, ofNat_eq hthird]
  | case2 a b =>
      have ha := a.toNat_lt
      have hb := b.toNat_lt
      have hfirst : a.toNat / 4 * 4 + (a.toNat % 4 * 16 + b.toNat / 16) / 16 =
          a.toNat := by omega
      have hsecond : (a.toNat % 4 * 16 + b.toNat / 16) % 16 * 16 +
          b.toNat % 16 * 4 / 4 = b.toNat := by omega
      simp only [encode, List.map_cons, List.map_nil]
      rw [decodeStandard, standardValue_digit (by omega), standardValue_digit (by omega),
        standardValue_digit (by omega)]
      simp only [Option.bind_eq_bind, Option.bind_some, Option.pure_def]
      rw [ofNat_eq hfirst, ofNat_eq hsecond]
  | case3 a =>
      have ha := a.toNat_lt
      have hfirst : a.toNat / 4 * 4 + a.toNat % 4 * 16 / 16 = a.toNat := by omega
      simp only [encode, List.map_cons, List.map_nil]
      rw [decodeStandard, standardValue_digit (by omega), standardValue_digit (by omega)]
      simp only [Option.bind_eq_bind, Option.bind_some, Option.pure_def]
      rw [ofNat_eq hfirst]
  | case4 =>
      rfl

theorem length_encode (bytes : Bytes) :
    (encode bytes).length = (4 * bytes.length + 2) / 3 := by
  induction bytes using encode.induct with
  | case1 a b c rest ih =>
      simp only [encode, List.length_cons, ih]
      omega
  | case2 a b =>
      simp [encode]
  | case3 a =>
      simp [encode]
  | case4 =>
      simp [encode]

theorem ascii_encode (bytes : Bytes) : (encode bytes).all (·.toNat < 128) = true := by
  have hdigit : ∀ {n}, n < 64 → (digit n).toNat < 128 := by decide
  refine List.all_eq_true.2 fun c hc => ?_
  obtain ⟨n, hn, rfl⟩ := mem_encode hc
  exact decide_eq_true (hdigit hn)

theorem scriptTrim_eq
    {t : Text}
    (h : ∀ c ∈ t, isScriptSpace c = false) :
    scriptTrim t = t := by
  have hfront : ∀ l : Text, (∀ c ∈ l, isScriptSpace c = false) →
      l.dropWhile isScriptSpace = l := by
    intro l hl
    cases l with
    | nil => rfl
    | cons c l => rw [List.dropWhile_cons, hl c List.mem_cons_self]; rfl
  rw [scriptTrim, hfront t h, hfront t.reverse (by simpa using h), List.reverse_reverse]

theorem dropPadding_append
    {t : Text}
    {k : Nat}
    (h : '=' ∉ t)
    (hk : k ≤ 2) :
    dropPadding (t ++ List.replicate k '=') = t := by
  have hhead : ∀ rest, t.reverse ≠ '=' :: rest := by
    intro rest heq
    have hmem : '=' ∈ t.reverse := heq ▸ List.mem_cons_self
    exact h (List.mem_reverse.1 hmem)
  have hrev : (t ++ List.replicate k '=').reverse = List.replicate k '=' ++ t.reverse := by
    simp
  unfold dropPadding
  rw [hrev]
  obtain rfl | rfl | rfl : k = 0 ∨ k = 1 ∨ k = 2 := by omega
  · split
    · rename_i heq
      exact absurd heq (hhead _)
    · rename_i heq
      exact absurd heq (hhead _)
    · simp
  · split
    · rename_i heq
      exact absurd (List.cons.inj heq).2 (hhead _)
    · rename_i heq
      rw [← (List.cons.inj heq).2]
      simp
    · rename_i hnone
      exact absurd rfl (hnone t.reverse)
  · exact List.reverse_reverse t

/-- What is written reads back in a browser. -/
theorem decodeBase64Url_encode (bytes : Bytes) :
    decodeBase64Url (encode bytes) = some bytes := by
  have hspace : ∀ c ∈ encode bytes, isScriptSpace c = false := by
    intro c hc
    obtain ⟨n, hn, rfl⟩ := mem_encode hc
    exact (plain_digit hn).1
  have hpad : '=' ∉ (encode bytes).map toStandard := by
    intro hmem
    obtain ⟨c, hc, heq⟩ := List.mem_map.1 hmem
    obtain ⟨n, hn, rfl⟩ := mem_encode hc
    exact (plain_digit hn).2.2 heq
  have hplain : ∀ k, ((encode bytes).map toStandard ++ List.replicate k '=').filter
      (fun c => !isAsciiSpace c) = (encode bytes).map toStandard ++ List.replicate k '=' := by
    intro k
    refine List.filter_eq_self.2 fun c hc => ?_
    rcases List.mem_append.1 hc with hc | hc
    · obtain ⟨d, hd, rfl⟩ := List.mem_map.1 hc
      obtain ⟨n, hn, rfl⟩ := mem_encode hd
      rw [(plain_digit hn).2.1]
      rfl
    · rw [(List.mem_replicate.1 hc).2]
      rfl
  have hlength := length_encode bytes
  simp only [decodeBase64Url, scriptTrim_eq hspace, atob, hplain, List.length_append,
    List.length_map, List.length_replicate]
  rw [if_pos (by omega), dropPadding_append hpad (by omega), decodeStandard_encode]

end Base64
end FutureOs
