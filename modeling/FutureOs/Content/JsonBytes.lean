import FutureOs.Lib.JsonSize
import Mathlib.Data.Nat.Log

/-!
# The length of a JSON text, without the text

`json_bytes` of `session/content/journal.rs` counts what a value takes when it is written
without spaces.  It goes over the bytes of strings and the digits of integers; other numbers
are written out.  The sums saturate, which a text that exists never sees
(`json_bytes_exact`).
-/

namespace FutureOs
namespace Content

/-- `usize::MAX`. -/
def usizeMax : Nat := 2 ^ 64 - 1

def saturatingAdd (m n : Nat) : Nat := min (m + n) usizeMax

section JsonBytes

/-- What a byte of a string takes in a literal. -/
def escapedByte (b : UInt8) : Nat :=
  if b.toNat ∈ [34, 92, 8, 9, 10, 12, 13] then
    2
  else if b.toNat ≤ 31 then
    6
  else
    1

def stringBytes (value : String) : Nat :=
  (Utf8.encode value.toList).foldl (fun n b => saturatingAdd n (escapedByte b)) 2

/-- The decimal digits of a number, by `ilog10`. -/
def digits (n : Nat) : Nat :=
  if n = 0 then 1 else Nat.log 10 n + 1

def numberBytes : Number → Nat
  | .posInt n => digits n
  | .negInt n => digits (n + 1) + 1
  | .float text => text.utf8ByteSize

mutual

def jsonBytes : Json → Nat
  | .null => 4
  | .bool value => if value then 4 else 5
  | .num value => numberBytes value
  | .str value => stringBytes value
  | .arr values => valuesBytes (saturatingAdd 2 (values.length - 1)) values
  | .obj values => fieldsBytes (saturatingAdd 2 (values.length - 1)) values

/-- The loop over an array. -/
def valuesBytes : Nat → List Json → Nat
  | n, [] => n
  | n, v :: values => valuesBytes (saturatingAdd n (jsonBytes v)) values

/-- The loop over an object. -/
def fieldsBytes : Nat → List (String × Json) → Nat
  | n, [] => n
  | n, (k, v) :: values =>
      fieldsBytes (saturatingAdd (saturatingAdd (saturatingAdd n (stringBytes k)) 1) (jsonBytes v))
        values

end

end JsonBytes

/-- A field as it is written. -/
def fieldText (write : Json → Text) (field : String × Json) : Text :=
  Json.literal field.1 ++ ':' :: write field.2

/-- A writer of compact JSON: nothing between the parts of a value but its separators. -/
structure CompactFormat (write : Json → Text) : Prop where
  null : write .null = "null".toList
  bool : ∀ b, write (.bool b) = (if b then "true" else "false").toList
  num : ∀ n, write (.num n) = Json.Number.text n
  str : ∀ s, write (.str s) = Json.literal s
  arr : ∀ values, write (.arr values) =
    '[' :: (List.intercalate [','] (values.map write) ++ [']'])
  obj : ∀ fields, write (.obj fields) =
    '{' :: (List.intercalate [','] (fields.map (fieldText write)) ++ ['}'])

section Exact

theorem saturatingAdd_eq
    {m n : Nat}
    (h : m + n ≤ usizeMax) :
    saturatingAdd m n = m + n :=
  Nat.min_eq_left h

/-- No byte of a longer character is below 128. -/
theorem escapedByte_high
    {v : Nat}
    (hlow : 128 ≤ v)
    (hhigh : v < 256) :
    escapedByte (UInt8.ofNat v) = 1 := by
  have hvalue : (UInt8.ofNat v).toNat = v := UInt8.toNat_ofNat_of_lt' hhigh
  rw [escapedByte, hvalue, if_neg, if_neg (by omega)]
  simp only [List.mem_cons, List.not_mem_nil, or_false]
  omega

/-- The bytes of a character take what the character takes. -/
theorem sum_escapedByte (c : Char) :
    ((String.utf8EncodeChar c).map escapedByte).sum = Json.escapedLen c := by
  by_cases hascii : c.val.toNat ≤ 0x7f
  · have hbyte : (UInt8.ofNat c.val.toNat).toNat = c.val.toNat :=
      UInt8.toNat_ofNat_of_lt' (Nat.lt_of_le_of_lt hascii (by decide))
    have hsize : c.utf8Size = 1 := Json.utf8Size_of_lt (Nat.lt_succ_of_le hascii)
    have hquote : c = '"' ∨ c = '\\' ↔ c.val.toNat = 34 ∨ c.val.toNat = 92 := by
      rw [← Char.toNat_inj, ← Char.toNat_inj]
      rfl
    have hnat : c.toNat = c.val.toNat := rfl
    rw [String.utf8EncodeChar, if_pos hascii, List.map_singleton, List.sum_singleton, escapedByte,
      Json.escapedLen, hbyte, hsize, hnat]
    simp only [List.mem_cons, List.not_mem_nil, or_false, hquote]
    split_ifs
    all_goals omega
  · have hvalid : c.val.toNat < 0x110000 := by
      have hc : c.val.toNat < 0xD800 ∨ (0xDFFF < c.val.toNat ∧ c.val.toNat < 0x110000) := c.valid
      omega
    have hlen : Json.escapedLen c = c.utf8Size := by
      have hnat : c.toNat = c.val.toNat := rfl
      rw [Json.escapedLen, if_neg, if_neg (by omega)]
      rintro (rfl | rfl)
      · exact hascii (by decide)
      · exact hascii (by decide)
    rw [hlen, ← String.length_utf8EncodeChar]
    have hall : ∀ b ∈ String.utf8EncodeChar c, escapedByte b = 1 := by
      simp only [String.utf8EncodeChar]
      generalize c.val.toNat = v at hascii hvalid
      rw [if_neg hascii]
      have hsecond := escapedByte_high (v := v / 64 % 64 + 128) (by omega) (by omega)
      have hlast := escapedByte_high (v := v % 64 + 128) (by omega) (by omega)
      split_ifs
      · have hfirst := escapedByte_high (v := v / 64 % 32 + 192) (by omega) (by omega)
        exact List.forall_mem_cons.2 ⟨hfirst, List.forall_mem_singleton.2 hlast⟩
      · have hfirst := escapedByte_high (v := v / 4096 % 16 + 224) (by omega) (by omega)
        exact List.forall_mem_cons.2 ⟨hfirst, List.forall_mem_cons.2
          ⟨hsecond, List.forall_mem_singleton.2 hlast⟩⟩
      · have hfirst := escapedByte_high (v := v / 262144 % 8 + 240) (by omega) (by omega)
        have hnext := escapedByte_high (v := v / 4096 % 64 + 128) (by omega) (by omega)
        exact List.forall_mem_cons.2 ⟨hfirst, List.forall_mem_cons.2 ⟨hnext,
          List.forall_mem_cons.2 ⟨hsecond, List.forall_mem_singleton.2 hlast⟩⟩⟩
    rw [List.map_congr_left hall, List.map_const', List.sum_replicate_nat, Nat.mul_one]

theorem foldl_escapedByte
    {bytes : Bytes}
    {n : Nat}
    (h : n + (bytes.map escapedByte).sum ≤ usizeMax) :
    bytes.foldl (fun n b => saturatingAdd n (escapedByte b)) n =
      n + (bytes.map escapedByte).sum := by
  induction bytes generalizing n with
  | nil =>
      rfl
  | cons b bytes ih =>
      rw [List.map_cons, List.sum_cons] at h ⊢
      rw [List.foldl_cons, saturatingAdd_eq (by omega), ih (by omega)]
      omega

theorem stringBytes_eq
    {s : String}
    (h : Json.literalLen s ≤ usizeMax) :
    stringBytes s = Json.literalLen s := by
  have hsum : ∀ t : Text, ((Utf8.encode t).map escapedByte).sum = (t.map Json.escapedLen).sum := by
    intro t
    induction t with
    | nil =>
        rfl
    | cons c t ih =>
        rw [Utf8.encode, List.flatMap_cons, List.map_append, List.sum_append, sum_escapedByte,
          List.map_cons, List.sum_cons]
        exact congrArg _ ih
  rw [Json.literalLen, ← hsum] at h ⊢
  exact foldl_escapedByte h

theorem digits_eq (n : Nat) : digits n = (Nat.toDigits 10 n).length := by
  rw [digits]
  split
  · rename_i hzero
    rw [hzero]
    rfl
  · rename_i hpos
    have hupper := (Nat.length_toDigits_le_iff (by decide) (Nat.succ_pos _)).2
      (Nat.lt_pow_succ_log_self (b := 10) (by decide) n)
    have hlower : ¬ (Nat.toDigits 10 n).length ≤ Nat.log 10 n := by
      intro hle
      have hne : (Nat.toDigits 10 n).length ≠ 0 := by
        rw [Ne, List.length_eq_zero_iff]
        exact Nat.toDigits_ne_nil
      have hlt := (Nat.length_toDigits_le_iff (by decide) (by omega)).1 hle
      exact Nat.not_le_of_lt hlt (Nat.pow_log_le_self 10 hpos)
    omega

theorem numberBytes_eq (value : Number) : numberBytes value = Json.Number.textLen value := by
  have hdigits : ∀ n : Nat, digits n = (toString n).utf8ByteSize := fun n => by
    rw [digits_eq, ← Json.textLen_posInt]
    rfl
  cases value with
  | posInt n =>
      exact hdigits n
  | negInt n =>
      rw [numberBytes, hdigits, Json.Number.textLen, Nat.add_comm]
  | float text =>
      rfl

mutual

theorem jsonBytes_eq :
    ∀ v : Json, v.compactLen ≤ usizeMax → jsonBytes v = v.compactLen
  | .null, _ => rfl
  | .bool _, _ => rfl
  | .num value, _ => numberBytes_eq value
  | .str _, h => stringBytes_eq h
  | .arr values, h => by
      rw [Json.compactLen_arr] at h ⊢
      rw [jsonBytes, saturatingAdd_eq (by omega), valuesBytes_eq values _ h]
  | .obj fields, h => by
      rw [Json.compactLen_obj] at h ⊢
      rw [jsonBytes, saturatingAdd_eq (by omega), fieldsBytes_eq fields _ h]

theorem valuesBytes_eq :
    ∀ (values : List Json) (n : Nat), n + (values.map Json.compactLen).sum ≤ usizeMax →
      valuesBytes n values = n + (values.map Json.compactLen).sum
  | [], _, _ => rfl
  | v :: values, n, h => by
      rw [List.map_cons, List.sum_cons] at h ⊢
      rw [valuesBytes, jsonBytes_eq v (by omega), saturatingAdd_eq (by omega),
        valuesBytes_eq values _ (by omega)]
      omega

theorem fieldsBytes_eq :
    ∀ (fields : List (String × Json)) (n : Nat), n + (fields.map Json.fieldLen).sum ≤ usizeMax →
      fieldsBytes n fields = n + (fields.map Json.fieldLen).sum
  | [], _, _ => rfl
  | (k, v) :: fields, n, h => by
      simp only [List.map_cons, List.sum_cons, Json.fieldLen] at h ⊢
      have hkey : saturatingAdd n (stringBytes k) = n + Json.literalLen k := by
        rw [stringBytes_eq (by omega), saturatingAdd_eq (by omega)]
      have hcolon : saturatingAdd (n + Json.literalLen k) 1 = n + Json.literalLen k + 1 :=
        saturatingAdd_eq (by omega)
      rw [fieldsBytes, hkey, hcolon, jsonBytes_eq v (by omega), saturatingAdd_eq (by omega),
        fieldsBytes_eq fields _ (by omega)]
      omega

end

theorem compactValues_eq (values : List Json) :
    Json.compactValues values = List.intercalate [','] (values.map Json.compact) := by
  induction values with
  | nil =>
      rfl
  | cons v values ih =>
      cases values with
      | nil =>
          simp [Json.compactValues]
      | cons next values =>
          show v.compact ++ ',' :: Json.compactValues (next :: values) = _
          have hlist : (v :: next :: values).map Json.compact =
              v.compact :: next.compact :: values.map Json.compact := rfl
          rw [ih, hlist, List.intercalate_cons_cons, List.append_assoc]
          rfl

theorem compactFields_eq (fields : List (String × Json)) :
    Json.compactFields fields = List.intercalate [','] (fields.map (fieldText Json.compact)) := by
  induction fields with
  | nil =>
      rfl
  | cons field fields ih =>
      obtain ⟨k, v⟩ := field
      cases fields with
      | nil =>
          simp [Json.compactFields, fieldText]
      | cons next fields =>
          show Json.literal k ++
            ':' :: (v.compact ++ ',' :: Json.compactFields (next :: fields)) = _
          have hlist : ((k, v) :: next :: fields).map (fieldText Json.compact) =
              (Json.literal k ++ ':' :: v.compact) :: fieldText Json.compact next ::
                fields.map (fieldText Json.compact) := rfl
          rw [ih, hlist, List.intercalate_cons_cons]
          simp

/-- The writer of the model is one. -/
theorem compactFormat_compact : CompactFormat Json.compact where
  null := rfl
  bool := by
    intro b
    cases b <;> rfl
  num := fun _ => rfl
  str := fun _ => rfl
  arr := by
    intro values
    rw [← compactValues_eq]
    rfl
  obj := by
    intro fields
    show '{' :: (Json.compactFields fields ++ ['}']) = _
    rw [compactFields_eq]

mutual

/-- There is one compact text of a value. -/
theorem write_eq_compact
    {write : Json → Text}
    (hwrite : CompactFormat write) :
    ∀ v : Json, write v = v.compact
  | .null => hwrite.null
  | .bool b => by
      rw [hwrite.bool]
      cases b <;> rfl
  | .num n => hwrite.num n
  | .str s => hwrite.str s
  | .arr values => by
      rw [hwrite.arr, compactFormat_compact.arr, map_write_eq hwrite values]
  | .obj fields => by
      rw [hwrite.obj, compactFormat_compact.obj, map_fieldText_eq hwrite fields]

theorem map_write_eq
    {write : Json → Text}
    (hwrite : CompactFormat write) :
    ∀ values : List Json, values.map write = values.map Json.compact
  | [] => rfl
  | v :: values => by
      rw [List.map_cons, List.map_cons, write_eq_compact hwrite v, map_write_eq hwrite values]

theorem map_fieldText_eq
    {write : Json → Text}
    (hwrite : CompactFormat write) :
    ∀ fields : List (String × Json),
      fields.map (fieldText write) = fields.map (fieldText Json.compact)
  | [] => rfl
  | (k, v) :: fields => by
      rw [List.map_cons, List.map_cons, map_fieldText_eq hwrite fields, fieldText, fieldText,
        write_eq_compact hwrite v]

end

end Exact

/-- The count is the length of the text, for every writer of the format. -/
theorem json_bytes_exact
    {write : Json → Text}
    (hwrite : CompactFormat write)
    (value : Json)
    (hsize : Utf8.size (write value) < 2 ^ 64) :
    jsonBytes value = Utf8.size (write value) := by
  rw [write_eq_compact hwrite, Json.size_compact] at hsize ⊢
  exact jsonBytes_eq value (Nat.le_sub_one_of_lt hsize)

theorem json_bytes_exact_line :
    Utf8.size (Json.compact (.obj [("line", .str "a\n\"é"), ("n", .arr [.num (.negInt 9)])])) <
        2 ^ 64 ∧
      jsonBytes (.obj [("line", .str "a\n\"é"), ("n", .arr [.num (.negInt 9)])]) =
        Utf8.size (Json.compact
          (.obj [("line", .str "a\n\"é"), ("n", .arr [.num (.negInt 9)])])) := by
  have hsize : Utf8.size (Json.compact
      (.obj [("line", .str "a\n\"é"), ("n", .arr [.num (.negInt 9)])])) < 2 ^ 64 := by
    rw [Json.size_compact]
    decide
  exact ⟨hsize, json_bytes_exact compactFormat_compact _ hsize⟩

end Content
end FutureOs
