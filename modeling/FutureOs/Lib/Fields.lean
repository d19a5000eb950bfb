import Mathlib.Data.List.Basic
import Mathlib.Order.Basic
import Mathlib.Order.Defs.LinearOrder
import Mathlib.Order.Lattice
import Mathlib.Tactic.Common

/-!
# Finite maps as key-sorted lists of fields

The canonical representative of a finite map is its list of fields in strictly
increasing key order.  `insert` overwrites, `erase` forgets; both keep the order,
and two sorted lists with the same lookups are the same list (`ext`), so every
law about the operations is a case split on the key that is looked up.
-/

namespace FutureOs
namespace Fields

universe u v

variable {κ : Type u} [LinearOrder κ]
variable {α : Type v}

/-- Strictly increasing keys. -/
def Sorted (fields : List (κ × α)) : Prop :=
  fields.Pairwise fun a b => a.1 < b.1

instance (fields : List (κ × α)) : Decidable (Sorted fields) :=
  inferInstanceAs (Decidable (fields.Pairwise fun a b => a.1 < b.1))

def lookup (key : κ) : List (κ × α) → Option α
  | [] => none
  | (k, value) :: rest => if key = k then some value else lookup key rest

/-- Set one field, overwriting it where it exists. -/
def insert (key : κ) (value : α) : List (κ × α) → List (κ × α)
  | [] => [(key, value)]
  | (k, v) :: rest =>
      if key < k then
        (key, value) :: (k, v) :: rest
      else if key = k then
        (key, value) :: rest
      else
        (k, v) :: insert key value rest

def erase (key : κ) (fields : List (κ × α)) : List (κ × α) :=
  fields.filter fun field => field.1 ≠ key

/-- Set several fields, one after the other. -/
def insertAll (more fields : List (κ × α)) : List (κ × α) :=
  more.foldl (fun acc field => insert field.1 field.2 acc) fields

/-- Take the listed fields out of `src` into `dst`. -/
def moveFields : List κ → List (κ × α) → List (κ × α) →
    List (κ × α) × List (κ × α)
  | [], src, dst => (src, dst)
  | key :: keys, src, dst =>
      match lookup key src with
      | some value => moveFields keys (erase key src) (insert key value dst)
      | none => moveFields keys src dst

@[simp] theorem lookup_nil (key : κ) :
    lookup key ([] : List (κ × α)) = none := rfl

theorem lookup_cons (key k : κ) (value : α) (rest : List (κ × α)) :
    lookup key ((k, value) :: rest) =
      if key = k then some value else lookup key rest := rfl

theorem lookup_insert
    (key key' : κ)
    (value : α)
    (fields : List (κ × α)) :
    lookup key' (insert key value fields) =
      if key' = key then some value else lookup key' fields := by
  induction fields with
  | nil =>
      rfl
  | cons field rest ih =>
      obtain ⟨k, v⟩ := field
      unfold insert
      split
      · rfl
      · split
        · rename_i heq
          subst heq
          simp only [lookup_cons]
          split <;> rfl
        · rename_i hne
          simp only [lookup_cons, ih]
          by_cases hk : key' = k
          · subst hk
            rw [if_pos rfl, if_neg (Ne.symm hne), if_pos rfl]
          · rw [if_neg hk, if_neg hk]

theorem lookup_erase
    (key key' : κ)
    (fields : List (κ × α)) :
    lookup key' (erase key fields) =
      if key' = key then none else lookup key' fields := by
  induction fields with
  | nil =>
      simp [erase]
  | cons field rest ih =>
      obtain ⟨k, v⟩ := field
      unfold erase at ih ⊢
      by_cases hk : k = key
      · subst hk
        rw [List.filter_cons_of_neg (by simp), ih, lookup_cons]
        split <;> rfl
      · rw [List.filter_cons_of_pos (by simpa using hk), lookup_cons, ih,
          lookup_cons]
        by_cases hkey : key' = k
        · subst hkey
          rw [if_pos rfl, if_neg hk, if_pos rfl]
        · rw [if_neg hkey, if_neg hkey]

/-- What is looked up is one of the fields. -/
theorem mem_of_lookup
    {key : κ}
    {value : α}
    {fields : List (κ × α)}
    (h : lookup key fields = some value) :
    (key, value) ∈ fields := by
  induction fields with
  | nil =>
      simp at h
  | cons field rest ih =>
      obtain ⟨k, v⟩ := field
      rw [lookup_cons] at h
      split at h
      · rename_i hkey
        obtain rfl := Option.some.inj h
        subst hkey
        exact List.mem_cons_self
      · exact List.mem_cons_of_mem _ (ih h)

theorem lookup_eq_none_of_forall_ne
    {key : κ}
    {fields : List (κ × α)}
    (h : ∀ field ∈ fields, field.1 ≠ key) :
    lookup key fields = none := by
  cases hlook : lookup key fields with
  | none =>
      rfl
  | some value =>
      exact absurd rfl (h _ (mem_of_lookup hlook))

theorem mem_insert
    {key : κ}
    {value : α}
    {fields : List (κ × α)}
    {field : κ × α}
    (h : field ∈ insert key value fields) :
    field = (key, value) ∨ field ∈ fields := by
  induction fields with
  | nil =>
      simpa [insert] using h
  | cons head rest ih =>
      unfold insert at h
      split at h
      · simpa using h
      · split at h
        · rcases List.mem_cons.1 h with heq | hrest
          · exact Or.inl heq
          · exact Or.inr (List.mem_cons_of_mem _ hrest)
        · rcases List.mem_cons.1 h with heq | hrest
          · exact Or.inr (heq ▸ List.mem_cons_self)
          · exact (ih hrest).imp_right (List.mem_cons_of_mem _)

/-- A list made by a function of its keys. -/
theorem lookup_filterMap
    {β : Type v}
    {keys : List κ}
    {key : κ}
    (hmem : key ∈ keys)
    {f : κ → Option α}
    {value : α}
    (hvalue : f key = some value)
    (g : α → β) :
    lookup key (keys.filterMap fun k => (f k).map fun v => (k, g v)) =
      some (g value) := by
  induction keys with
  | nil =>
      cases hmem
  | cons k keys ih =>
      by_cases hkey : key = k
      · rw [List.filterMap_cons, ← hkey, hvalue]
        show lookup key ((key, g value) :: _) = _
        rw [lookup_cons, if_pos rfl]
      · have hrest := ih ((List.mem_cons.1 hmem).resolve_left hkey)
        rw [List.filterMap_cons]
        cases hk : f k with
        | none =>
            exact hrest
        | some v =>
            show lookup key ((k, g v) :: _) = _
            rw [lookup_cons, if_neg hkey, hrest]

theorem lookup_moveFields
    (keys : List κ)
    (src dst : List (κ × α))
    (key : κ) :
    lookup key (moveFields keys src dst).1 =
      (if key ∈ keys then none else lookup key src) ∧
    lookup key (moveFields keys src dst).2 =
      (if key ∈ keys then (lookup key src).or (lookup key dst)
        else lookup key dst) := by
  induction keys generalizing src dst with
  | nil =>
      simp [moveFields]
  | cons k keys ih =>
      unfold moveFields
      cases hk : lookup k src with
      | none =>
          have hrest := ih src dst
          by_cases hkey : key = k
          · subst hkey
            simp [hrest, hk]
          · simp [hrest, hkey]
      | some value =>
          have hrest := ih (erase k src) (insert k value dst)
          simp only [hrest, lookup_erase, lookup_insert]
          by_cases hkey : key = k
          · subst hkey
            simp [hk]
          · simp [hkey]

theorem insert_insert
    (key : κ)
    (value value' : α)
    (fields : List (κ × α)) :
    insert key value (insert key value' fields) = insert key value fields := by
  induction fields with
  | nil =>
      simp [insert]
  | cons field rest ih =>
      obtain ⟨k, v⟩ := field
      rw [insert, insert]
      by_cases hlt : key < k
      · rw [if_pos hlt, if_pos hlt, insert, if_neg (lt_irrefl key), if_pos rfl]
      · rw [if_neg hlt, if_neg hlt]
        by_cases heq : key = k
        · rw [if_pos heq, if_pos heq, insert, if_neg (lt_irrefl key), if_pos rfl]
        · rw [if_neg heq, if_neg heq, insert, if_neg hlt, if_neg heq, ih]

/-- A new key adds one field. -/
theorem insert_perm
    {key : κ}
    {fields : List (κ × α)}
    (h : lookup key fields = none)
    (value : α) :
    (insert key value fields).Perm ((key, value) :: fields) := by
  induction fields with
  | nil =>
      exact List.Perm.refl _
  | cons field rest ih =>
      obtain ⟨k, v⟩ := field
      rw [lookup_cons] at h
      by_cases heq : key = k
      · rw [if_pos heq] at h
        cases h
      · rw [if_neg heq] at h
        rw [insert, if_neg heq]
        split
        · exact List.Perm.refl _
        · exact ((ih h).cons (k, v)).trans (List.Perm.swap _ _ _)

/-- A key past all others goes to the end. -/
theorem insert_last
    {key : κ}
    {fields : List (κ × α)}
    (h : ∀ field ∈ fields, field.1 < key)
    (value : α) :
    insert key value fields = fields ++ [(key, value)] := by
  induction fields with
  | nil =>
      rfl
  | cons field rest ih =>
      obtain ⟨k, v⟩ := field
      have hlt : k < key := h (k, v) List.mem_cons_self
      have hrest := ih fun field hmem => h field (List.mem_cons_of_mem _ hmem)
      unfold insert
      rw [if_neg (not_lt_of_gt hlt), if_neg (ne_of_gt hlt), hrest]
      rfl

/-- A key before all others goes to the front. -/
theorem insert_first
    {key : κ}
    {fields : List (κ × α)}
    (h : ∀ field ∈ fields, key < field.1)
    (value : α) :
    insert key value fields = (key, value) :: fields := by
  cases fields with
  | nil =>
      rfl
  | cons field rest =>
      obtain ⟨k, v⟩ := field
      have hlt : key < k := h (k, v) List.mem_cons_self
      unfold insert
      rw [if_pos hlt]

section Sorted

theorem sorted_nil : Sorted ([] : List (κ × α)) :=
  List.Pairwise.nil

theorem Sorted.insert
    {fields : List (κ × α)}
    (h : Sorted fields)
    (key : κ)
    (value : α) :
    Sorted (Fields.insert key value fields) := by
  induction fields with
  | nil =>
      exact List.pairwise_singleton _ _
  | cons field rest ih =>
      obtain ⟨k, v⟩ := field
      obtain ⟨hhead, hrest⟩ := List.pairwise_cons.1 h
      unfold Fields.insert
      split
      · rename_i hlt
        refine List.pairwise_cons.2 ⟨?_, h⟩
        intro field hmem
        rcases List.mem_cons.1 hmem with rfl | hmem
        · exact hlt
        · exact lt_trans hlt (hhead field hmem)
      · rename_i hnlt
        split
        · rename_i heq
          subst heq
          exact List.pairwise_cons.2 ⟨hhead, hrest⟩
        · rename_i hne
          refine List.pairwise_cons.2 ⟨?_, ih hrest⟩
          intro field hmem
          rcases mem_insert hmem with rfl | hmem
          · exact lt_of_le_of_ne (not_lt.1 hnlt) (Ne.symm hne)
          · exact hhead field hmem

theorem Sorted.erase
    {fields : List (κ × α)}
    (h : Sorted fields)
    (key : κ) :
    Sorted (Fields.erase key fields) :=
  List.Pairwise.filter _ h

theorem Sorted.insertAll
    {fields : List (κ × α)}
    (h : Sorted fields)
    (more : List (κ × α)) :
    Sorted (Fields.insertAll more fields) := by
  induction more generalizing fields with
  | nil =>
      exact h
  | cons field more ih =>
      exact ih (h.insert field.1 field.2)

theorem Sorted.moveFields
    {src dst : List (κ × α)}
    (hsrc : Sorted src)
    (hdst : Sorted dst)
    (keys : List κ) :
    Sorted (Fields.moveFields keys src dst).1 ∧
      Sorted (Fields.moveFields keys src dst).2 := by
  induction keys generalizing src dst with
  | nil =>
      exact ⟨hsrc, hdst⟩
  | cons key keys ih =>
      unfold Fields.moveFields
      split
      · exact ih (hsrc.erase key) (hdst.insert key _)
      · exact ih hsrc hdst

/-- In a sorted list no field after the head has the head's key. -/
theorem Sorted.lookup_tail
    {key : κ}
    {value : α}
    {rest : List (κ × α)}
    (h : Sorted ((key, value) :: rest)) :
    lookup key rest = none :=
  lookup_eq_none_of_forall_ne fun field hmem =>
    ne_of_gt ((List.pairwise_cons.1 h).1 field hmem)

/-- In a sorted list every field is the one its key looks up. -/
theorem Sorted.lookup_of_mem
    {fields : List (κ × α)}
    (h : Sorted fields)
    {key : κ}
    {value : α}
    (hmem : (key, value) ∈ fields) :
    lookup key fields = some value := by
  induction fields with
  | nil =>
      simp at hmem
  | cons field rest ih =>
      obtain ⟨k, v⟩ := field
      obtain ⟨hhead, hrest⟩ := List.pairwise_cons.1 h
      rw [lookup_cons]
      rcases List.mem_cons.1 hmem with heq | hmem
      · simp only [Prod.mk.injEq] at heq
        rw [if_pos heq.1, heq.2]
      · rw [if_neg (ne_of_gt (hhead _ hmem)), ih hrest hmem]

theorem lookup_insertAll
    {more : List (κ × α)}
    (hmore : Sorted more)
    (fields : List (κ × α))
    (key : κ) :
    lookup key (insertAll more fields) = (lookup key more).or (lookup key fields) := by
  induction more generalizing fields with
  | nil =>
      rfl
  | cons field more ih =>
      obtain ⟨k, v⟩ := field
      have hrest : Sorted more := (List.pairwise_cons.1 hmore).2
      have htail := hmore.lookup_tail
      show lookup key (insertAll more (insert k v fields)) = _
      rw [ih hrest, lookup_insert, lookup_cons]
      by_cases hkey : key = k
      · rw [hkey, if_pos rfl, if_pos rfl, htail]
        rfl
      · rw [if_neg hkey, if_neg hkey]

/-- Two sorted lists with the same lookups are the same list. -/
theorem ext
    {fields fields' : List (κ × α)}
    (h : Sorted fields)
    (h' : Sorted fields')
    (hlookup : ∀ key, lookup key fields = lookup key fields') :
    fields = fields' := by
  induction fields generalizing fields' with
  | nil =>
      cases fields' with
      | nil =>
          rfl
      | cons field rest =>
          obtain ⟨k, v⟩ := field
          have hhead := hlookup k
          simp [lookup_cons] at hhead
  | cons field rest ih =>
      obtain ⟨k, v⟩ := field
      cases fields' with
      | nil =>
          have hhead := hlookup k
          simp [lookup_cons] at hhead
      | cons field' rest' =>
          obtain ⟨k', v'⟩ := field'
          have hk : k = k' := by
            by_contra hne
            have hin : (k, v) ∈ rest' := by
              have hmem := mem_of_lookup
                (show lookup k ((k', v') :: rest') = some v by
                  rw [← hlookup k, lookup_cons, if_pos rfl])
              exact (List.mem_cons.1 hmem).resolve_left fun heq =>
                hne (congrArg Prod.fst heq)
            have hin' : (k', v') ∈ rest := by
              have hmem := mem_of_lookup
                (show lookup k' ((k, v) :: rest) = some v' by
                  rw [hlookup k', lookup_cons, if_pos rfl])
              exact (List.mem_cons.1 hmem).resolve_left fun heq =>
                hne (congrArg Prod.fst heq).symm
            exact lt_asymm ((List.pairwise_cons.1 h).1 _ hin')
              ((List.pairwise_cons.1 h').1 _ hin)
          subst hk
          have hv : v = v' := by
            have hhead := hlookup k
            simpa [lookup_cons] using hhead
          subst hv
          rw [ih (List.pairwise_cons.1 h).2 (List.pairwise_cons.1 h').2]
          intro key
          by_cases hkey : key = k
          · subst hkey
            rw [h.lookup_tail, h'.lookup_tail]
          · have hrest := hlookup key
            rwa [lookup_cons, lookup_cons, if_neg hkey, if_neg hkey] at hrest

/-- Putting back what was erased. -/
theorem insert_erase
    {fields : List (κ × α)}
    (h : Sorted fields)
    {key : κ}
    {value : α}
    (hlookup : lookup key fields = some value) :
    insert key value (erase key fields) = fields := by
  refine ext ((h.erase key).insert key value) h fun key' => ?_
  rw [lookup_insert, lookup_erase]
  split
  · rename_i heq
    rw [heq, hlookup]
  · rfl

/-- Setting a field to the value it has. -/
theorem insert_of_lookup
    {fields : List (κ × α)}
    (h : Sorted fields)
    {key : κ}
    {value : α}
    (hlookup : lookup key fields = some value) :
    insert key value fields = fields := by
  refine ext (h.insert key value) h fun key' => ?_
  rw [lookup_insert]
  split
  · rename_i heq
    rw [heq, hlookup]
  · rfl

theorem erase_of_lookup_eq_none
    {fields : List (κ × α)}
    (h : Sorted fields)
    {key : κ}
    (hlookup : lookup key fields = none) :
    erase key fields = fields := by
  refine ext (h.erase key) h fun key' => ?_
  rw [lookup_erase]
  split
  · rename_i heq
    rw [heq, hlookup]
  · rfl

/-- What was taken out can be put back. -/
theorem insertAll_moveFields
    {fields : List (κ × α)}
    (h : Sorted fields)
    (keys : List κ) :
    insertAll (moveFields keys fields []).2 (moveFields keys fields []).1 = fields := by
  have hsorted := h.moveFields sorted_nil keys
  refine ext (hsorted.1.insertAll _) h fun key => ?_
  obtain ⟨hsrc, hdst⟩ := lookup_moveFields keys fields [] key
  rw [lookup_insertAll hsorted.2, hsrc, hdst]
  by_cases hkey : key ∈ keys
  · simp [hkey]
  · simp [hkey]

end Sorted

end Fields
end FutureOs
