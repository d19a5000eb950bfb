import FutureOs.Lib.Fields
import FutureOs.Lib.Utf8
import Mathlib.Algebra.Group.Int.Defs
import Mathlib.Data.String.Basic

/-!
# JSON values

A value as a tree.  Two objects that differ in the order of their fields are the
same value, so an object is the list of its fields in key order: `Json.Canonical`
says that every object in a value is, and the field operations keep it.  Floating
point numbers are opaque, kept by their printed form.

`compact` is the compact text of a value, `compactLen` its length in bytes
(`size_compact`).
-/

namespace FutureOs

inductive Number
  | posInt (n : Nat)
  /-- The negative integer `-(n + 1)`. -/
  | negInt (n : Nat)
  | float (text : String)
deriving DecidableEq

inductive Json
  | null
  | bool (b : Bool)
  | num (n : Number)
  | str (s : String)
  | arr (values : List Json)
  | obj (fields : List (String × Json))

namespace Json

/-! ## Equality -/

mutual

def beq : Json → Json → Bool
  | null, null => true
  | bool b, bool b' => b = b'
  | num n, num n' => n = n'
  | str s, str s' => s = s'
  | arr values, arr values' => beqValues values values'
  | obj fields, obj fields' => beqFields fields fields'
  | _, _ => false

def beqValues : List Json → List Json → Bool
  | [], [] => true
  | v :: rest, v' :: rest' => beq v v' && beqValues rest rest'
  | _, _ => false

def beqFields : List (String × Json) → List (String × Json) → Bool
  | [], [] => true
  | (k, v) :: rest, (k', v') :: rest' =>
      decide (k = k') && beq v v' && beqFields rest rest'
  | _, _ => false

end

mutual

theorem beq_iff : ∀ v v' : Json, beq v v' = true ↔ v = v'
  | null, v' => by cases v' <;> simp [beq]
  | bool b, v' => by cases v' <;> simp [beq]
  | num n, v' => by cases v' <;> simp [beq]
  | str s, v' => by cases v' <;> simp [beq]
  | arr values, v' => by
      cases v' with
      | arr values' => simp [beq, beqValues_iff values values']
      | _ => simp [beq]
  | obj fields, v' => by
      cases v' with
      | obj fields' => simp [beq, beqFields_iff fields fields']
      | _ => simp [beq]

theorem beqValues_iff :
    ∀ values values' : List Json, beqValues values values' = true ↔
      values = values'
  | [], values' => by cases values' <;> simp [beqValues]
  | v :: rest, values' => by
      cases values' with
      | nil => simp [beqValues]
      | cons v' rest' =>
          simp [beqValues, beq_iff v v', beqValues_iff rest rest']

theorem beqFields_iff :
    ∀ fields fields' : List (String × Json), beqFields fields fields' = true ↔
      fields = fields'
  | [], fields' => by cases fields' <;> simp [beqFields]
  | (k, v) :: rest, fields' => by
      cases fields' with
      | nil => simp [beqFields]
      | cons field' rest' =>
          obtain ⟨k', v'⟩ := field'
          simp [beqFields, beq_iff v v', beqFields_iff rest rest', and_assoc]

end

instance : DecidableEq Json := fun v v' => decidable_of_iff _ (beq_iff v v')

/-! ## Canonical values -/

mutual

/-- Every object in the value lists its fields in key order. -/
def Canonical : Json → Prop
  | arr values => CanonicalValues values
  | obj fields => Fields.Sorted fields ∧ CanonicalFields fields
  | _ => True

def CanonicalValues : List Json → Prop
  | [] => True
  | v :: rest => Canonical v ∧ CanonicalValues rest

def CanonicalFields : List (String × Json) → Prop
  | [] => True
  | (_, v) :: rest => Canonical v ∧ CanonicalFields rest

end

theorem canonicalFields_iff (fields : List (String × Json)) :
    CanonicalFields fields ↔ ∀ field ∈ fields, Canonical field.2 := by
  induction fields with
  | nil =>
      simp [CanonicalFields]
  | cons field rest ih =>
      obtain ⟨k, v⟩ := field
      simp [CanonicalFields, ih]

/-! ## Access -/

def asObject? : Json → Option (List (String × Json))
  | obj fields => some fields
  | _ => none

def asArray? : Json → Option (List Json)
  | arr values => some values
  | _ => none

def asStr? : Json → Option String
  | str s => some s
  | _ => none

def asBool? : Json → Option Bool
  | bool b => some b
  | _ => none

/-- `as_i64`: an integer that fits a signed 64-bit word. -/
def asI64? : Json → Option Int
  | num (.posInt n) => if n < 2 ^ 63 then some (n : Int) else none
  | num (.negInt n) => some (Int.negSucc n)
  | _ => none

/-- `as_u64`. -/
def asU64? : Json → Option Nat
  | num (.posInt n) => some n
  | _ => none

/-- `get`: a field of an object. -/
def get? (v : Json) (key : String) : Option Json :=
  v.asObject?.bind (Fields.lookup key)

/-- `v[key]`: null where there is no such field. -/
def index (v : Json) (key : String) : Json :=
  (v.get? key).getD null

/-- `v[key] = value`, for an object or null. -/
def set (v : Json) (key : String) (value : Json) : Json :=
  match v with
  | obj fields => obj (Fields.insert key value fields)
  | null => obj [(key, value)]
  | other => other

/-! JSON pointers: `Value::pointer`. -/

/-- `~1` stands for a slash, `~0` for a tilde. -/
def unescapeToken : List Char → List Char
  | '~' :: '1' :: rest => '/' :: unescapeToken rest
  | '~' :: '0' :: rest => '~' :: unescapeToken rest
  | c :: rest => c :: unescapeToken rest
  | [] => []

/-- The reference tokens of a pointer, which is empty or starts with a slash. -/
def pointerTokens (pointer : List Char) : Option (List (List Char)) :=
  match pointer with
  | [] => some []
  | '/' :: rest => some ((rest.splitOn '/').map unescapeToken)
  | _ => none

/-- An array index: decimal, without a sign or a leading zero. -/
def parseIndex (token : List Char) : Option Nat :=
  if token = [] ∨ token.any (fun c => !c.isDigit) ∨ (token.head? = some '0' ∧ token ≠ ['0']) then
    none
  else
    some (token.foldl (fun n c => 10 * n + (c.toNat - '0'.toNat)) 0)

def followTokens : List (List Char) → Json → Option Json
  | [], v => some v
  | token :: tokens, obj fields =>
      (Fields.lookup (String.ofList token) fields).bind (followTokens tokens)
  | token :: tokens, arr values =>
      ((parseIndex token).bind fun i => values[i]?).bind (followTokens tokens)
  | _, _ => none

def pointer? (v : Json) (pointer : String) : Option Json :=
  (pointerTokens pointer.toList).bind fun tokens => followTokens tokens v

/-- The JSON number of an `i64`. -/
def ofInt : Int → Json
  | .ofNat n => num (.posInt n)
  | .negSucc n => num (.negInt n)

theorem ofInt_injective : Function.Injective ofInt := by
  intro m n h
  cases m <;> cases n <;> simp_all [ofInt]

/-- Only the number of an integer reads as that integer. -/
theorem eq_ofInt_of_asI64?
    {v : Json}
    {n : Int}
    (h : v.asI64? = some n) :
    v = ofInt n := by
  unfold asI64? at h
  split at h
  · split at h
    · obtain rfl := Option.some.inj h
      rfl
    · simp at h
  · obtain rfl := Option.some.inj h
    rfl
  · simp at h

/-- The number of an `i64` reads as it. -/
theorem asI64?_ofInt
    {n : Int}
    (h : n < 2 ^ 63) :
    (ofInt n).asI64? = some n := by
  cases n with
  | ofNat n =>
      have hn : n < 2 ^ 63 := by
        rw [Int.ofNat_eq_natCast] at h
        omega
      rw [ofInt, asI64?, if_pos hn]
      rfl
  | negSucc n => rfl

/-- A value with any field at all has the one that was set last. -/
theorem get?_set_self
    {v value : Json}
    {key key' : String}
    (h : ((v.set key value).get? key').isSome) :
    (v.set key value).get? key = some value := by
  cases v with
  | obj fields => simp [get?, set, asObject?, Fields.lookup_insert]
  | null => simp [get?, set, asObject?, Fields.lookup]
  | bool b => cases h
  | num n => cases h
  | str s => cases h
  | arr values => cases h

theorem get?_set_of_ne
    {key key' : String}
    (h : key' ≠ key)
    (v value : Json) :
    (v.set key value).get? key' = v.get? key' := by
  cases v with
  | obj fields => simp [get?, set, asObject?, Fields.lookup_insert, h]
  | null => simp [get?, set, asObject?, Fields.lookup, h]
  | bool b => rfl
  | num n => rfl
  | str s => rfl
  | arr values => rfl

/-- A field that may have been set besides. -/
theorem get?_ite_set
    {key key' : String}
    (h : key' ≠ key)
    (condition : Prop)
    [Decidable condition]
    (v value : Json) :
    (if condition then v.set key value else v).get? key' = v.get? key' := by
  split
  · exact get?_set_of_ne h v value
  · rfl

/-! ## Length of the compact text -/

/-- Bytes of a character in a JSON string literal. -/
def escapedLen (c : Char) : Nat :=
  if c = '"' ∨ c = '\\' then
    2
  else if c.toNat < 0x20 then
    if c.toNat ∈ [0x08, 0x09, 0x0a, 0x0c, 0x0d] then 2 else 6
  else
    c.utf8Size

/-- Bytes of a string literal, quotes included. -/
def literalLen (s : String) : Nat :=
  2 + (s.toList.map escapedLen).sum

def Number.textLen : Number → Nat
  | .posInt n => (toString n).utf8ByteSize
  | .negInt n => 1 + (toString (n + 1)).utf8ByteSize
  | .float text => text.utf8ByteSize

mutual

/-- Bytes of the compact text of a value. -/
def compactLen : Json → Nat
  | null => 4
  | bool b => if b then 4 else 5
  | num n => Number.textLen n
  | str s => literalLen s
  | arr values => 2 + compactLenValues values
  | obj fields => 2 + compactLenFields fields

def compactLenValues : List Json → Nat
  | [] => 0
  | [v] => compactLen v
  | v :: rest => compactLen v + 1 + compactLenValues rest

def compactLenFields : List (String × Json) → Nat
  | [] => 0
  | [(k, v)] => literalLen k + 1 + compactLen v
  | (k, v) :: rest => literalLen k + 1 + compactLen v + 1 + compactLenFields rest

end

/-! ## The compact text -/

/-- A lowercase hexadecimal digit. -/
def hexDigit (n : Nat) : Char :=
  Char.ofNat (if n < 10 then '0'.toNat + n else 'a'.toNat + (n - 10))

/-- A character in a JSON string literal. -/
def escape (c : Char) : Text :=
  if c = '"' ∨ c = '\\' then
    ['\\', c]
  else if c.toNat < 0x20 then
    if c.toNat = 0x08 then
      ['\\', 'b']
    else if c.toNat = 0x09 then
      ['\\', 't']
    else if c.toNat = 0x0a then
      ['\\', 'n']
    else if c.toNat = 0x0c then
      ['\\', 'f']
    else if c.toNat = 0x0d then
      ['\\', 'r']
    else
      ['\\', 'u', '0', '0', hexDigit (c.toNat / 16), hexDigit (c.toNat % 16)]
  else
    [c]

def literal (s : String) : Text :=
  '"' :: (s.toList.flatMap escape ++ ['"'])

def Number.text : Number → Text
  | .posInt n => (toString n).toList
  | .negInt n => '-' :: (toString (n + 1)).toList
  | .float text => text.toList

mutual

/-- The text `serde_json` writes without spaces. -/
def compact : Json → Text
  | null => "null".toList
  | bool b => if b then "true".toList else "false".toList
  | num n => Number.text n
  | str s => literal s
  | arr values => '[' :: (compactValues values ++ [']'])
  | obj fields => '{' :: (compactFields fields ++ ['}'])

def compactValues : List Json → Text
  | [] => []
  | [v] => compact v
  | v :: rest => compact v ++ ',' :: compactValues rest

def compactFields : List (String × Json) → Text
  | [] => []
  | [(k, v)] => literal k ++ ':' :: compact v
  | (k, v) :: rest =>
      literal k ++ ':' :: (compact v ++ ',' :: compactFields rest)

end

theorem utf8Size_of_lt
    {c : Char}
    (h : c.toNat < 128) :
    c.utf8Size = 1 := by
  have hle : c.val ≤ 127 := UInt32.le_iff_toNat_le.2 (Nat.le_of_lt_succ h)
  simp [Char.utf8Size, hle]

theorem utf8Size_hexDigit
    {n : Nat}
    (h : n < 16) :
    (hexDigit n).utf8Size = 1 := by
  revert n
  decide

theorem size_escape (c : Char) : Utf8.size (escape c) = escapedLen c := by
  unfold escape escapedLen
  by_cases hquote : c = '"' ∨ c = '\\'
  · rw [if_pos hquote, if_pos hquote]
    rcases hquote with rfl | rfl <;> rfl
  · rw [if_neg hquote, if_neg hquote]
    by_cases hcontrol : c.toNat < 0x20
    · rw [if_pos hcontrol, if_pos hcontrol]
      have hhigh := utf8Size_hexDigit (n := c.toNat / 16) (by omega)
      have hlow := utf8Size_hexDigit (n := c.toNat % 16) (by omega)
      simp only [List.mem_cons, List.not_mem_nil, or_false]
      split_ifs
      all_goals
        first
        | rfl
        | omega
        | simp only [Utf8.size, hhigh, hlow]
          rfl
    · rw [if_neg hcontrol, if_neg hcontrol]
      rfl

theorem size_literal (s : String) : Utf8.size (literal s) = literalLen s := by
  have hbody : ∀ t : Text, Utf8.size (t.flatMap escape) =
      (t.map escapedLen).sum := by
    intro t
    induction t with
    | nil =>
        rfl
    | cons c t ih =>
        rw [List.flatMap_cons, Utf8.size_append, size_escape, ih, List.map_cons,
          List.sum_cons]
  rw [literal, Utf8.size_cons, Utf8.size_append, hbody, literalLen]
  rw [show Utf8.size ['"'] = 1 from rfl, show '"'.utf8Size = 1 from rfl]
  omega

theorem size_text (n : Number) : Utf8.size (Number.text n) = Number.textLen n := by
  cases n with
  | posInt n => exact Utf8.size_toList _
  | negInt n =>
      rw [Number.text, Utf8.size_cons, Utf8.size_toList]
      rfl
  | float text => exact Utf8.size_toList _

mutual

theorem size_compact : ∀ v : Json, Utf8.size (compact v) = compactLen v
  | null => rfl
  | bool b => by cases b <;> rfl
  | num n => size_text n
  | str s => size_literal s
  | arr values => by
      rw [compact, compactLen, Utf8.size_cons, Utf8.size_append,
        size_compactValues values]
      rw [show Utf8.size [']'] = 1 from rfl, show '['.utf8Size = 1 from rfl]
      omega
  | obj fields => by
      rw [compact, compactLen, Utf8.size_cons, Utf8.size_append,
        size_compactFields fields]
      rw [show Utf8.size ['}'] = 1 from rfl, show '{'.utf8Size = 1 from rfl]
      omega

theorem size_compactValues :
    ∀ values : List Json, Utf8.size (compactValues values) =
      compactLenValues values
  | [] => rfl
  | [v] => size_compact v
  | v :: w :: rest => by
      rw [compactValues, compactLenValues, Utf8.size_append, Utf8.size_cons,
        size_compact v, size_compactValues (w :: rest)]
      · rw [show ','.utf8Size = 1 from rfl]
        omega
      · simp
      · simp

theorem size_compactFields :
    ∀ fields : List (String × Json), Utf8.size (compactFields fields) =
      compactLenFields fields
  | [] => rfl
  | [(k, v)] => by
      rw [compactFields, compactLenFields, Utf8.size_append, Utf8.size_cons,
        size_literal, size_compact v]
      rw [show ':'.utf8Size = 1 from rfl]
      omega
  | (k, v) :: field :: rest => by
      rw [compactFields, compactLenFields, Utf8.size_append, Utf8.size_cons,
        Utf8.size_append, Utf8.size_cons, size_literal, size_compact v,
        size_compactFields (field :: rest)]
      · rw [show ':'.utf8Size = 1 from rfl, show ','.utf8Size = 1 from rfl]
        omega
      · simp
      · simp

end

/-! ## Digits -/

theorem size_toDigits
    {cs : List Char}
    (h : ∀ c ∈ cs, c.isDigit = true) :
    Utf8.size cs = cs.length := by
  induction cs with
  | nil =>
      rfl
  | cons c cs ih =>
      have hc := h c List.mem_cons_self
      have hlt : c.toNat < 0x80 := by
        rw [Char.isDigit, Bool.and_eq_true, decide_eq_true_eq, decide_eq_true_eq] at hc
        have h57 : c.val.toNat ≤ '9'.val.toNat := UInt32.le_iff_toNat_le.1 hc.2
        have hval : ('9'.val).toNat = 57 := rfl
        rw [hval] at h57
        exact Nat.lt_of_le_of_lt h57 (by decide)
      rw [Utf8.size_cons, utf8Size_of_lt hlt, ih fun d hd => h d (List.mem_cons_of_mem _ hd),
        List.length_cons]
      omega

theorem textLen_posInt (n : Nat) :
    Number.textLen (.posInt n) = (Nat.toDigits 10 n).length := by
  have htext : (toString n).toList = Nat.toDigits 10 n := by
    show (Nat.repr n).toList = _
    rw [Nat.repr_eq_ofList_toDigits, String.toList_ofList]
  rw [Number.textLen, ← Utf8.size_toList, htext]
  exact size_toDigits fun c hc => Nat.isDigit_of_mem_toDigits (by decide) (by decide) hc

/-- The digits of a number below a power of ten. -/
theorem textLen_posInt_le_iff
    {n k : Nat}
    (hk : 0 < k) :
    Number.textLen (.posInt n) ≤ k ↔ n < 10 ^ k := by
  rw [textLen_posInt]
  exact Nat.length_toDigits_le_iff (by decide) hk

end Json
end FutureOs
