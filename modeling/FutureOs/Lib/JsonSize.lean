import FutureOs.Lib.Json

/-!
# Sizes of JSON values

The compact text of an array or an object is as long as its parts and what stands between
them.  For an object, `weight` gives each field its comma or the closing brace, so that a
field that is set changes the sum by itself alone (`weight_insert`).
-/

namespace FutureOs
namespace Json

section Parts

theorem compactLen_arr (values : List Json) :
    compactLen (.arr values) =
      2 + (values.length - 1) + (values.map compactLen).sum := by
  have hvalues : compactLenValues values =
      values.length - 1 + (values.map compactLen).sum := by
    induction values with
    | nil =>
        rfl
    | cons v values ih =>
        cases values with
        | nil =>
            simp [compactLenValues]
        | cons next values =>
            rw [compactLenValues, ih]
            · simp only [List.map_cons, List.sum_cons, List.length_cons]
              omega
            · simp
  rw [compactLen, hvalues, Nat.add_assoc]

/-- What a field takes besides the comma. -/
def fieldLen (field : String × Json) : Nat :=
  literalLen field.1 + 1 + field.2.compactLen

theorem compactLen_obj (fields : List (String × Json)) :
    compactLen (.obj fields) = 2 + (fields.length - 1) + (fields.map fieldLen).sum := by
  have hfields : compactLenFields fields =
      fields.length - 1 + (fields.map fieldLen).sum := by
    induction fields with
    | nil =>
        rfl
    | cons field fields ih =>
        obtain ⟨k, v⟩ := field
        cases fields with
        | nil =>
            simp [compactLenFields, fieldLen]
        | cons next fields =>
            rw [compactLenFields, ih]
            · simp only [List.map_cons, List.sum_cons, List.length_cons, fieldLen]
              omega
            · simp
  rw [compactLen, hfields, Nat.add_assoc]

end Parts

section Weight

/-- The fields of an object, each with what follows it. -/
def weight (fields : List (String × Json)) : Nat :=
  (fields.map fun field => fieldLen field + 1).sum

theorem weight_cons (field : String × Json) (fields : List (String × Json)) :
    weight (field :: fields) = fieldLen field + 1 + weight fields := by
  rw [weight, List.map_cons, List.sum_cons]
  rfl

theorem compactLen_eq_weight
    {fields : List (String × Json)}
    (hne : fields ≠ []) :
    compactLen (.obj fields) = 1 + weight fields := by
  have hweight : weight fields = fields.length + (fields.map fieldLen).sum := by
    rw [weight]
    clear hne
    induction fields with
    | nil =>
        rfl
    | cons field fields ih =>
        simp only [List.map_cons, List.sum_cons, List.length_cons, ih]
        omega
  have hlength := List.length_pos_of_ne_nil hne
  rw [compactLen_obj, hweight]
  omega

theorem weight_perm
    {fields fields' : List (String × Json)}
    (h : fields.Perm fields') :
    weight fields = weight fields' :=
  (h.map _).sum_nat

/-- The fields but one. -/
theorem weight_of_lookup
    {fields : List (String × Json)}
    (hsorted : Fields.Sorted fields)
    {key : String}
    {value : Json}
    (h : Fields.lookup key fields = some value) :
    weight fields = fieldLen (key, value) + 1 + weight (Fields.erase key fields) := by
  have hgone : Fields.lookup key (Fields.erase key fields) = none := by
    rw [Fields.lookup_erase, if_pos rfl]
  have hperm := Fields.insert_perm hgone value
  rw [Fields.insert_erase hsorted h] at hperm
  rw [weight_perm hperm, weight_cons]

/-- A field that is set. -/
theorem weight_insert
    {fields : List (String × Json)}
    (hsorted : Fields.Sorted fields)
    (key : String)
    (value : Json) :
    weight (Fields.insert key value fields) =
      fieldLen (key, value) + 1 + weight (Fields.erase key fields) := by
  have hset : Fields.lookup key (Fields.insert key value fields) = some value := by
    rw [Fields.lookup_insert, if_pos rfl]
  have hrest : Fields.erase key (Fields.insert key value fields) = Fields.erase key fields := by
    refine Fields.ext ((hsorted.insert key value).erase key) (hsorted.erase key) fun other => ?_
    rw [Fields.lookup_erase, Fields.lookup_erase, Fields.lookup_insert]
    split
    · rfl
    · rfl
  rw [weight_of_lookup (hsorted.insert key value) hset, hrest]

end Weight

end Json
end FutureOs
