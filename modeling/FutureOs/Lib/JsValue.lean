import Mathlib.Data.Rat.Defs
import Mathlib.Algebra.Order.Ring.Cast
import Mathlib.Algebra.Order.Ring.Rat
import Mathlib.Data.String.Basic

/-!
# JavaScript values

The values a decoded reply can hold, with a number as what it stands for: a rational, or an
infinity where the text was too large; no JSON text decodes to `NaN`.  A field that is not
there is `undefined`.
-/

namespace FutureOs

inductive JsNumber
  | negInfinity
  | infinity
  | finite (q : ℚ)
deriving DecidableEq

namespace JsNumber

/-- `a <= b`. -/
def le : JsNumber → JsNumber → Bool
  | negInfinity, _ => true
  | _, infinity => true
  | finite q, finite r => q ≤ r
  | infinity, _ => false
  | finite _, negInfinity => false

def ofInt (n : Int) : JsNumber :=
  finite n

/-- `Number.MAX_SAFE_INTEGER`. -/
def maxSafe : Int :=
  2 ^ 53 - 1

/-- The integer, if `Number.isSafeInteger`. -/
def safeInteger? : JsNumber → Option Int
  | finite q => if q.den = 1 ∧ -maxSafe ≤ q.num ∧ q.num ≤ maxSafe then some q.num else none
  | _ => none

theorem safeInteger?_eq_some
    {a : JsNumber}
    {n : Int}
    (h : a.safeInteger? = some n) :
    a = ofInt n := by
  cases a with
  | finite q =>
      rw [safeInteger?] at h
      split at h
      · rename_i hq
        obtain rfl := Option.some.inj h
        exact congrArg finite (Rat.den_eq_one_iff q |>.1 hq.1).symm
      · simp at h
  | negInfinity => simp [safeInteger?] at h
  | infinity => simp [safeInteger?] at h

theorem le_ofInt (m n : Int) : (ofInt m).le (ofInt n) = decide (m ≤ n) := by
  simp [ofInt, le]

theorem le_of_not_le
    {a b : JsNumber}
    (h : a.le b = false) :
    b.le a = true := by
  cases a <;> cases b <;> simp_all [le]
  exact h.le

theorem le_trans
    {a b c : JsNumber}
    (h : a.le b = true)
    (h' : b.le c = true) :
    a.le c = true := by
  cases a <;> cases b <;> cases c <;> simp_all [le]
  exact h.trans h'

theorem ofInt_injective : Function.Injective ofInt := by
  intro m n h
  simpa [ofInt] using h

end JsNumber

inductive JsValue
  | undefined
  | null
  | bool (b : Bool)
  | number (n : JsNumber)
  | string (s : String)
  | array (values : List JsValue)
  | object (fields : List (String × JsValue))

namespace JsValue

def truthy : JsValue → Bool
  | undefined => false
  | null => false
  | bool b => b
  | number n => n ≠ .finite 0
  | string s => s ≠ ""
  | array _ => true
  | object _ => true

/-- `value[key]`, and `value?.[key]`. -/
def get (value : JsValue) (key : String) : JsValue :=
  match value with
  | object fields => ((fields.find? fun field => field.1 = key).map Prod.snd).getD undefined
  | _ => undefined

/-- The string, if `typeof value === "string"`. -/
def string? : JsValue → Option String
  | string s => some s
  | _ => none

/-- The number, if `typeof value === "number"`. -/
def number? : JsValue → Option JsNumber
  | number n => some n
  | _ => none

/-- The integer, if `Number.isSafeInteger(value)`. -/
def safeInteger? (value : JsValue) : Option Int :=
  value.number?.bind JsNumber.safeInteger?

/-- The elements, if `Array.isArray(value)`. -/
def array? : JsValue → Option (List JsValue)
  | array values => some values
  | _ => none

/-- `typeof value === "object" && value !== null`. -/
def isObject : JsValue → Bool
  | array _ => true
  | object _ => true
  | _ => false

/-- An object that is no array. -/
def isRecord : JsValue → Bool
  | object _ => true
  | _ => false

end JsValue

end FutureOs
