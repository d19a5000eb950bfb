import Mathlib.Algebra.Group.Int.Defs
import Mathlib.Algebra.GroupWithZero.Nat
import Mathlib.Data.List.Basic
import Mathlib.Data.String.Basic

/-!
# Text functions

The string functions the code takes from its standard library: trimming and splitting
with Unicode white space, numbers in decimal, and upper case as far as an ASCII word
can tell.  Texts are cut as lists of characters.
-/

namespace FutureOs
namespace Text

/-- `char::is_whitespace`. -/
def isWhitespace (c : Char) : Bool :=
  let n := c.toNat
  (9 ≤ n && n ≤ 13) || n = 32 || n = 0x85 || n = 0xA0 || n = 0x1680 ||
    (0x2000 ≤ n && n ≤ 0x200A) || n = 0x2028 || n = 0x2029 || n = 0x202F ||
    n = 0x205F || n = 0x3000

/-- `str::trim`. -/
def trim (s : String) : String :=
  String.ofList
    (((s.toList.dropWhile isWhitespace).reverse.dropWhile isWhitespace).reverse)

/-- `str::split` at a character: an empty text has one empty part. -/
def split (separator : Char) (s : String) : List String :=
  (s.toList.splitOn separator).map String.ofList

/-- `str::split_whitespace`. -/
def splitWhitespace (s : String) : List String :=
  ((s.toList.splitOnP isWhitespace).filter fun word => word ≠ []).map String.ofList

/-- `str::split_once`. -/
def splitOnce (separator : Char) (s : String) : Option (String × String) :=
  match s.toList.dropWhile (· ≠ separator) with
  | [] => none
  | _ :: rest => some (String.ofList (s.toList.takeWhile (· ≠ separator)), String.ofList rest)

/-- `str::strip_prefix`. -/
def stripPrefix (start s : String) : Option String :=
  if start.toList.isPrefixOf s.toList then
    some (String.ofList (s.toList.drop start.toList.length))
  else
    none

def startsWith (start s : String) : Bool :=
  start.toList.isPrefixOf s.toList

/-- The value of a non-empty word of decimal digits. -/
def decimal (digits : List Char) : Option Nat :=
  if digits ≠ [] ∧ digits.all Char.isDigit then
    some (digits.foldl (fun n c => 10 * n + (c.toNat - 48)) 0)
  else
    none

/-- `str::parse::<u64>`. -/
def parseU64 (s : String) : Option Nat :=
  let digits := match s.toList with
    | '+' :: rest => rest
    | all => all
  (decimal digits).filter (· < 2 ^ 64)

/-- `str::parse::<i64>`. -/
def parseI64 (s : String) : Option Int :=
  match s.toList with
  | '-' :: rest => ((decimal rest).filter (· ≤ 2 ^ 63)).map fun n => -(n : Int)
  | '+' :: rest => ((decimal rest).filter (· < 2 ^ 63)).map Int.ofNat
  | all => ((decimal all).filter (· < 2 ^ 63)).map Int.ofNat

/-- `str::replace` for a pattern that is not empty; `skip` characters belong to a match. -/
def replaceFrom (pattern new : List Char) : Nat → List Char → List Char
  | _, [] => []
  | skip + 1, _ :: rest => replaceFrom pattern new skip rest
  | 0, c :: rest =>
      if pattern.isPrefixOf (c :: rest) then
        new ++ replaceFrom pattern new (pattern.length - 1) rest
      else
        c :: replaceFrom pattern new 0 rest

def replace (pattern new s : String) : String :=
  String.ofList (replaceFrom pattern.toList new.toList 0 s.toList)

/-- `str::to_uppercase`, where the result is compared with an ASCII word. -/
def upper (s : String) : String :=
  String.ofList (s.toList.map fun c => if c = 'ı' then 'I' else c.toUpper)

/-- `str::to_ascii_lowercase`. -/
def asciiLower (s : String) : String :=
  String.ofList (s.toList.map Char.toLower)

/-! ## Numbers read back -/

theorem decimal_toDigits (n : Nat) : decimal (Nat.toDigits 10 n) = some n := by
  have hne : Nat.toDigits 10 n ≠ [] := Nat.toDigits_ne_nil
  have hdigits : (Nat.toDigits 10 n).all Char.isDigit = true :=
    List.all_eq_true.2 fun c hc =>
      Nat.isDigit_of_mem_toDigits (by decide) (by decide) hc
  have hvalue : (Nat.toDigits 10 n).foldl (fun n c => 10 * n + (c.toNat - 48)) 0 = n :=
    Nat.ofDigitChars_ten_toDigits
  rw [decimal, if_pos ⟨hne, hdigits⟩, hvalue]

/-- A signed number is printed so that it reads back. -/
theorem parseI64_toString
    {n : Int}
    (hlow : -2 ^ 63 ≤ n)
    (hhigh : n < 2 ^ 63) :
    parseI64 (toString n) = some n := by
  cases n with
  | ofNat n =>
      have htext : (toString (Int.ofNat n)).toList = Nat.toDigits 10 n := by
        change (Nat.repr n).toList = _
        rw [Nat.repr_eq_ofList_toDigits, String.toList_ofList]
      have hdigit : ∀ c rest, Nat.toDigits 10 n = c :: rest → c.isDigit = true := by
        intro c rest heq
        exact Nat.isDigit_of_mem_toDigits (by decide) (by decide)
          (heq ▸ List.mem_cons_self)
      have hsmall : n < 2 ^ 63 := by
        have hcast : (n : Int) < 2 ^ 63 := hhigh
        omega
      rw [parseI64, htext]
      split
      · rename_i rest heq
        exact absurd (hdigit _ _ heq) (by decide)
      · rename_i rest heq
        exact absurd (hdigit _ _ heq) (by decide)
      · rw [decimal_toDigits, Option.filter_some, if_pos (decide_eq_true hsmall)]
        rfl
  | negSucc n =>
      have htext : (toString (Int.negSucc n)).toList = '-' :: Nat.toDigits 10 (n + 1) := by
        change ("-" ++ Nat.repr (n + 1)).toList = _
        simp [Nat.repr_eq_ofList_toDigits]
      have hsmall : n + 1 ≤ 2 ^ 63 := by omega
      rw [parseI64, htext]
      simp only [decimal_toDigits]
      rw [Option.filter_some, if_pos (decide_eq_true hsmall)]
      rfl

theorem notMem_toString (n : Int) : ':' ∉ (toString n).toList := by
  have hdigits : ∀ n, ':' ∉ Nat.toDigits 10 n := by
    intro n hmem
    exact absurd (Nat.isDigit_of_mem_toDigits (by decide) (by decide) hmem) (by decide)
  cases n with
  | ofNat n =>
      change ':' ∉ (Nat.repr n).toList
      rw [Nat.repr_eq_ofList_toDigits, String.toList_ofList]
      exact hdigits n
  | negSucc n =>
      change ':' ∉ ("-" ++ Nat.repr (n + 1)).toList
      rw [String.toList_append, Nat.repr_eq_ofList_toDigits, String.toList_ofList]
      simpa using hdigits (n + 1)

theorem splitOnce_append
    {separator : Char}
    {front : String}
    (h : separator ∉ front.toList)
    (back : String) :
    splitOnce separator (front ++ String.singleton separator ++ back) =
      some (front, back) := by
  have hfront : ∀ c ∈ front.toList, decide (c ≠ separator) = true := by
    intro c hc
    exact decide_eq_true fun heq => h (heq ▸ hc)
  have htext : (front ++ String.singleton separator ++ back).toList =
      front.toList ++ separator :: back.toList := by
    simp
  have hdrop : (front.toList ++ separator :: back.toList).dropWhile (· ≠ separator) =
      separator :: back.toList := by
    rw [List.dropWhile_append_of_pos hfront, List.dropWhile_cons_of_neg (by simp)]
  have htake : (front.toList ++ separator :: back.toList).takeWhile (· ≠ separator) =
      front.toList := by
    rw [List.takeWhile_append_of_pos hfront, List.takeWhile_cons_of_neg (by simp),
      List.append_nil]
  rw [splitOnce, htext, hdrop]
  dsimp only
  rw [htake, String.ofList_toList, String.ofList_toList]

end Text
end FutureOs
