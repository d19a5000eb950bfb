import FutureOs.Lib.Json

/-!
# Objects in the order of insertion

With `preserve_order` an object of `serde_json` keeps its fields as they came: setting a
field replaces it where it stands and adds a new one at the end (`putField`).  Two values
are equal as maps, whatever the order, so equality is that of the normal forms: every
object in key order, and one zero among the floating point numbers.
-/

namespace FutureOs
namespace Json

/-- `map.insert(key, value)`. -/
def putField (key : String) (value : Json) : List (String × Json) → List (String × Json)
  | [] => [(key, value)]
  | (k, v) :: rest =>
      if k = key then (key, value) :: rest else (k, v) :: putField key value rest

/-- `v[key] = value`, for an object. -/
def put (v : Json) (key : String) (value : Json) : Json :=
  match v with
  | obj fields => obj (putField key value fields)
  | other => other

mutual

/-- The representative of a value among its equals. -/
def normal : Json → Json
  | num (.float text) => num (.float (if text = "-0.0" then "0.0" else text))
  | arr values => arr (normalValues values)
  | obj fields => obj (Fields.insertAll (normalFields fields) [])
  | v => v

def normalValues : List Json → List Json
  | [] => []
  | v :: rest => normal v :: normalValues rest

def normalFields : List (String × Json) → List (String × Json)
  | [] => []
  | (k, v) :: rest => (k, normal v) :: normalFields rest

end

/-- `==` on values. -/
def same (v w : Json) : Bool :=
  v.normal = w.normal

/-! ## Setting fields -/

theorem lookup_putField
    (key key' : String)
    (value : Json)
    (fields : List (String × Json)) :
    Fields.lookup key' (putField key value fields) =
      if key' = key then some value else Fields.lookup key' fields := by
  induction fields with
  | nil => rfl
  | cons field rest ih =>
      obtain ⟨k, v⟩ := field
      unfold putField
      split
      · rename_i heq
        subst heq
        simp only [Fields.lookup_cons]
        split <;> rfl
      · rename_i hne
        simp only [Fields.lookup_cons, ih]
        by_cases hk : key' = k
        · subst hk
          rw [if_pos rfl, if_neg hne, if_pos rfl]
        · rw [if_neg hk, if_neg hk]

theorem putField_putField
    (key : String)
    (value value' : Json)
    (fields : List (String × Json)) :
    putField key value (putField key value' fields) = putField key value fields := by
  induction fields with
  | nil => simp [putField]
  | cons field rest ih =>
      obtain ⟨k, v⟩ := field
      by_cases hk : k = key
      · simp [putField, hk]
      · simp [putField, hk, ih]

/-- A field that is there is replaced in place, so another one may be set first. -/
theorem putField_comm
    {key key' : String}
    (hne : key ≠ key')
    (value value' : Json)
    {fields : List (String × Json)}
    (hkey : Fields.lookup key fields ≠ none) :
    putField key value (putField key' value' fields) =
      putField key' value' (putField key value fields) := by
  induction fields with
  | nil => simp at hkey
  | cons field rest ih =>
      obtain ⟨k, v⟩ := field
      rw [Fields.lookup_cons] at hkey
      by_cases hk : k = key
      · subst hk
        simp [putField, hne]
      · rw [if_neg (Ne.symm hk)] at hkey
        by_cases hk' : k = key'
        · subst hk'
          simp [putField, hk]
        · simp [putField, hk, hk', ih hkey]

/-- A field that is left out may be set. -/
theorem filter_putField
    {key : String}
    {keep : String → Bool}
    (hkey : keep key = false)
    (value : Json)
    (fields : List (String × Json)) :
    (putField key value fields).filter (fun field => keep field.1) =
      fields.filter fun field => keep field.1 := by
  induction fields with
  | nil => simp [putField, hkey]
  | cons field rest ih =>
      obtain ⟨k, v⟩ := field
      by_cases hk : k = key
      · subst hk
        simp [putField, hkey]
      · simp only [putField, hk, if_false, List.filter_cons, ih]

theorem get?_put
    (v : Json)
    (key key' : String)
    (value : Json) :
    (v.put key value).get? key' =
      if key' = key ∧ v.asObject?.isSome then some value else v.get? key' := by
  cases v with
  | obj fields => simp [put, get?, asObject?, lookup_putField]
  | _ => simp [put, get?, asObject?]

theorem get?_put_of_ne
    {v : Json}
    {key key' : String}
    (hne : key' ≠ key)
    (value : Json) :
    (v.put key value).get? key' = v.get? key' := by
  rw [get?_put, if_neg fun h => hne h.1]

theorem get?_put_self
    {v : Json}
    {key key' : String}
    (h : v.get? key' ≠ none)
    (value : Json) :
    (v.put key value).get? key = some value := by
  cases v with
  | obj fields => simp [get?_put, asObject?]
  | _ => exact absurd rfl h

end Json
end FutureOs
