import FutureOs.Content.PendingCounters
import FutureOs.Lib.Machine

/-!
# A batch within its limits

What a push leaves is within the limits of one commit: a merged group is never larger than
the two it was made of, since what its metadata gains is less than what one of them had
(`metadataBytes_merge_le`).  So every transaction is admitted (`transactions_admitted`), and
the counters are the sums they stand for.
-/

namespace FutureOs
namespace Content

section Digits

theorem textLen_mono
    {m n : Nat}
    (h : m ≤ n) :
    Json.Number.textLen (.posInt m) ≤ Json.Number.textLen (.posInt n) := by
  have hpos : 0 < Json.Number.textLen (.posInt n) := by
    rw [Json.textLen_posInt]
    exact List.length_pos_of_ne_nil Nat.toDigits_ne_nil
  rw [Json.textLen_posInt_le_iff hpos]
  exact Nat.lt_of_le_of_lt h ((Json.textLen_posInt_le_iff hpos).1 (Nat.le_refl _))

/-- A sum has no more digits than its parts together. -/
theorem textLen_add_le (m n : Nat) :
    Json.Number.textLen (.posInt (m + n)) ≤
      Json.Number.textLen (.posInt m) + Json.Number.textLen (.posInt n) := by
  have hpos : ∀ k, 0 < Json.Number.textLen (.posInt k) := fun k => by
    rw [Json.textLen_posInt]
    exact List.length_pos_of_ne_nil Nat.toDigits_ne_nil
  have hm := (Json.textLen_posInt_le_iff (hpos m)).1 (Nat.le_refl _)
  have hn := (Json.textLen_posInt_le_iff (hpos n)).1 (Nat.le_refl _)
  rw [Json.textLen_posInt_le_iff (Nat.add_pos_left (hpos m) _), Nat.pow_add]
  generalize 10 ^ Json.Number.textLen (.posInt m) = p at hm ⊢
  generalize 10 ^ Json.Number.textLen (.posInt n) = q at hn ⊢
  have hp : (m + 1) * (n + 1) ≤ p * q := Nat.mul_le_mul hm hn
  have hexpand : (m + 1) * (n + 1) = m * n + m + n + 1 := Nat.succ_mul_succ m n
  omega

/-- The number of an integer from 0 on. -/
theorem compactLen_ofInt
    {n : Int}
    (h : 0 ≤ n) :
    (Json.ofInt n).compactLen = Json.Number.textLen (.posInt n.toNat) := by
  obtain ⟨k, rfl⟩ := Int.eq_ofNat_of_zero_le h
  rfl

end Digits

section Metadata

/-- The data of metadata, with both objects at hand. -/
theorem exists_data
    {metadata : Json}
    {key : String}
    {value : Json}
    (h : dataField metadata key = some value) :
    ∃ fields data, metadata = .obj fields ∧ Fields.lookup "data" fields = some (.obj data) ∧
      Fields.lookup key data = some value := by
  rw [dataField] at h
  obtain ⟨inner, hinner, hvalue⟩ := Option.bind_eq_some_iff.1 h
  cases metadata with
  | obj fields =>
      cases inner with
      | obj data =>
          exact ⟨fields, data, rfl, hinner, hvalue⟩
      | _ =>
          cases hvalue
  | _ =>
      cases hinner

theorem dataField_eq
    {fields data : List (String × Json)}
    (h : Fields.lookup "data" fields = some (.obj data))
    (key : String) :
    dataField (.obj fields) key = Fields.lookup key data := by
  show (Fields.lookup "data" fields).bind _ = _
  rw [h]
  rfl

/-- A field that is not skipped is compared. -/
theorem get?_of_objectEq
    {skip : List String}
    {fieldEq : String → Option Json → Option Json → Bool}
    {left right : Json}
    (h : objectEq skip fieldEq left right = true)
    {key : String}
    (hkey : key ∉ skip) :
    left.get? key = right.get? key ∨ fieldEq key (left.get? key) (right.get? key) = true := by
  by_cases hobj : ∃ l r, left = .obj l ∧ right = .obj r
  · obtain ⟨l, r, rfl, rfl⟩ := hobj
    rw [objectEq, List.all_eq_true] at h
    by_cases hmem : key ∈ l.map Prod.fst ++ r.map Prod.fst
    · exact .inr (h key (List.mem_filter.2 ⟨hmem, by simpa using hkey⟩))
    · left
      rw [List.mem_append, not_or] at hmem
      have hnone : ∀ fields : List (String × Json), key ∉ fields.map Prod.fst →
          (Json.obj fields).get? key = none := fun fields hfields =>
        Fields.lookup_eq_none_of_forall_ne fun field hfield heq =>
          hfields (List.mem_map.2 ⟨field, hfield, heq⟩)
      rw [hnone l hmem.1, hnone r hmem.2]
  · left
    have heq : left = right := by
      rw [objectEq] at h
      · exact of_decide_eq_true h
      · intro l r hl hr
        exact hobj ⟨l, r, hl, hr⟩
    rw [heq]

/-- What is compared is equal: the key of the body among it. -/
theorem dataField_of_sameDeltaMetadata
    {left right : Json}
    (h : sameDeltaMetadata left right = true)
    {key : String}
    (hkey : key ∉ ["content_offset", "content_bytes", "content_first_idx"]) :
    dataField left key = dataField right key := by
  rw [dataField, dataField]
  rcases get?_of_objectEq h (show "data" ∉ ["timestamp"] by decide) with heq | hdata
  · rw [heq]
  · cases hl : left.get? "data" with
    | none =>
        cases hr : right.get? "data" with
        | none =>
            rfl
        | some b =>
            rw [hl, hr] at hdata
            simp at hdata
    | some a =>
        cases hr : right.get? "data" with
        | none =>
            rw [hl, hr] at hdata
            simp at hdata
        | some b =>
            rw [hl, hr] at hdata
            have hinner : objectEq ["content_offset", "content_bytes", "content_first_idx"]
                (fun _ a b => a = b) a b = true := hdata
            rcases get?_of_objectEq hinner hkey with heq | heq
            · exact heq
            · exact of_decide_eq_true heq

/-- An object is at least as long as a field of it, with its comma or brace. -/
theorem compactLen_of_lookup
    {fields : List (String × Json)}
    (hsorted : Fields.Sorted fields)
    {key : String}
    {value : Json}
    (h : Fields.lookup key fields = some value) :
    (Json.obj fields).compactLen =
      2 + Json.fieldLen (key, value) + Json.weight (Fields.erase key fields) := by
  have hne : fields ≠ [] := by
    rintro rfl
    cases h
  rw [Json.compactLen_eq_weight hne, Json.weight_of_lookup hsorted h]
  omega

/-- A field of an object that is set to another value. -/
theorem weight_replace
    {fields : List (String × Json)}
    (hsorted : Fields.Sorted fields)
    {key : String}
    {value : Json}
    (h : Fields.lookup key fields = some value)
    (next : Json) :
    Json.weight (Fields.insert key next fields) + value.compactLen =
      Json.weight fields + next.compactLen := by
  rw [Json.weight_insert hsorted, Json.weight_of_lookup hsorted h, Json.fieldLen, Json.fieldLen]
  dsimp only
  omega

/-- A field that is set, whether it was there or not. -/
theorem weight_insert_le
    {fields : List (String × Json)}
    (hsorted : Fields.Sorted fields)
    (key : String)
    (next : Json) :
    Json.weight (Fields.insert key next fields) ≤
      Json.weight fields + (Json.fieldLen (key, next) + 1) := by
  rw [Json.weight_insert hsorted]
  cases h : Fields.lookup key fields with
  | none =>
      rw [Fields.erase_of_lookup_eq_none hsorted h]
      omega
  | some value =>
      have hwhole := Json.weight_of_lookup hsorted h
      omega

/-- Metadata with other data. -/
theorem compactLen_set_data
    {fields data : List (String × Json)}
    (hsorted : Fields.Sorted fields)
    (h : Fields.lookup "data" fields = some (.obj data))
    (next : List (String × Json)) :
    (Json.obj (Fields.insert "data" (.obj next) fields)).compactLen + (Json.obj data).compactLen =
      (Json.obj fields).compactLen + (Json.obj next).compactLen := by
  have hset : Fields.lookup "data" (Fields.insert "data" (.obj next) fields) =
      some (.obj next) := by
    rw [Fields.lookup_insert, if_pos rfl]
  have hne : fields ≠ [] := by
    rintro rfl
    cases h
  have hne' : Fields.insert "data" (.obj next) fields ≠ [] := by
    intro hnil
    rw [hnil] at hset
    cases hset
  have hreplace := weight_replace hsorted h (.obj next)
  rw [Json.compactLen_eq_weight hne, Json.compactLen_eq_weight hne']
  omega

end Metadata

section Merge

/-- Canonical metadata has sorted fields, and so has its data. -/
theorem sorted_of_canonical
    {fields data : List (String × Json)}
    (hcanonical : (Json.obj fields).Canonical)
    (h : Fields.lookup "data" fields = some (.obj data)) :
    Fields.Sorted fields ∧ Fields.Sorted data ∧ Json.CanonicalFields data := by
  rw [Json.Canonical, Json.canonicalFields_iff] at hcanonical
  have hdata := hcanonical.2 _ (Fields.mem_of_lookup h)
  rw [Json.Canonical] at hdata
  exact ⟨hcanonical.1, hdata⟩

/-- A group whose metadata outweighs what a merge adds to the metadata of the next. -/
structure Group.Weighs (group : Group) : Prop where
  canonical : group.change.metadata.Canonical
  cursor : 0 ≤ group.change.firstCursor
  body : ∀ body, group.change.bodies = [body] → 0 ≤ body.offset ∧ 0 < body.length
  room : group.change.eventType ∈ deltaKinds → ∀ body, group.change.bodies = [body] →
    ∀ key, dataField group.change.metadata "content_key" = some (.str key) →
      21 + (Json.ofInt body.length).compactLen + (Json.ofInt group.change.firstCursor).compactLen ≤
        group.change.metadata.compactLen

/-- What a merge makes of metadata and its data. -/
def spanData (data : List (String × Json)) (offset length firstCursor : Int) :
    List (String × Json) :=
  Fields.insert "content_first_idx" (.ofInt firstCursor)
    (Fields.insert "content_bytes" (.ofInt length)
      (Fields.insert "content_offset" (.ofInt offset) data))

theorem mergedMetadata_eq
    {fields data : List (String × Json)}
    (h : Fields.lookup "data" fields = some (.obj data))
    (offset length firstCursor : Int) :
    Group.mergedMetadata (.obj fields) offset length firstCursor =
      .obj (Fields.insert "data" (.obj (spanData data offset length firstCursor)) fields) := by
  have hindex : (Json.obj fields).index "data" = .obj data := by
    show (Fields.lookup "data" fields).getD .null = _
    rw [h]
    rfl
  rw [Group.mergedMetadata, hindex]
  rfl

theorem sorted_spanData
    {data : List (String × Json)}
    (hsorted : Fields.Sorted data)
    (offset length firstCursor : Int) :
    Fields.Sorted (spanData data offset length firstCursor) :=
  ((hsorted.insert _ _).insert _ _).insert _ _

/-- The data gains the first cursor, and what its range has more digits. -/
theorem weight_spanData_le
    {data : List (String × Json)}
    (hsorted : Fields.Sorted data)
    {offset length : Int}
    (hoffset : Fields.lookup "content_offset" data = some (.ofInt offset))
    (hlength : Fields.lookup "content_bytes" data = some (.ofInt length))
    (offset' length' firstCursor : Int) :
    Json.weight (spanData data offset' length' firstCursor) + (Json.ofInt offset).compactLen +
        (Json.ofInt length).compactLen ≤
      Json.weight data + (Json.ofInt offset').compactLen + (Json.ofInt length').compactLen +
        (21 + (Json.ofInt firstCursor).compactLen) := by
  have hfirst := weight_replace hsorted hoffset (.ofInt offset')
  have hlength' : Fields.lookup "content_bytes"
      (Fields.insert "content_offset" (.ofInt offset') data) = some (.ofInt length) := by
    rw [Fields.lookup_insert, if_neg (by decide), hlength]
  have hsecond := weight_replace (hsorted.insert _ _) hlength' (.ofInt length')
  have hthird := weight_insert_le ((hsorted.insert "content_offset" (.ofInt offset')).insert
    "content_bytes" (.ofInt length')) "content_first_idx" (.ofInt firstCursor)
  have hkey : Json.literalLen "content_first_idx" = 19 := by decide
  rw [Json.fieldLen, hkey] at hthird
  rw [spanData]
  dsimp only at hthird
  omega

/-- Data with a range is long enough to be merged into. -/
theorem room_spanData
    {data : List (String × Json)}
    (hsorted : Fields.Sorted data)
    (offset length firstCursor : Int) :
    21 + (Json.ofInt length).compactLen + (Json.ofInt firstCursor).compactLen ≤
      (Json.obj (spanData data offset length firstCursor)).compactLen := by
  have hsorted' := (hsorted.insert "content_offset" (.ofInt offset)).insert
    "content_bytes" (.ofInt length)
  have hfirst : Fields.lookup "content_first_idx" (spanData data offset length firstCursor) =
      some (.ofInt firstCursor) := by
    rw [spanData, Fields.lookup_insert, if_pos rfl]
  have hbytes : Fields.lookup "content_bytes"
      (Fields.erase "content_first_idx" (spanData data offset length firstCursor)) =
        some (.ofInt length) := by
    rw [Fields.lookup_erase, if_neg (by decide), spanData, Fields.lookup_insert,
      if_neg (by decide), Fields.lookup_insert, if_pos rfl]
  have hkey : Json.literalLen "content_first_idx" = 19 := by decide
  have hkey' : Json.literalLen "content_bytes" = 15 := by decide
  rw [compactLen_of_lookup (sorted_spanData hsorted offset length firstCursor) hfirst,
    Json.weight_of_lookup ((sorted_spanData hsorted offset length firstCursor).erase _) hbytes,
    Json.fieldLen, Json.fieldLen, hkey, hkey']
  dsimp only
  omega

theorem canonicalFields_insert
    {fields : List (String × Json)}
    (h : Json.CanonicalFields fields)
    (key : String)
    {value : Json}
    (hvalue : value.Canonical) :
    Json.CanonicalFields (Fields.insert key value fields) := by
  rw [Json.canonicalFields_iff] at h ⊢
  intro field hfield
  rcases Fields.mem_insert hfield with rfl | hfield
  · exact hvalue
  · exact h field hfield

theorem canonical_ofInt (n : Int) : (Json.ofInt n).Canonical := by
  cases n <;> simp [Json.ofInt, Json.Canonical]

/-- What passes the test of a push. -/
structure Joins (prior group : Group) (body next : BodyLink) : Prop where
  bodies : prior.change.bodies = [body]
  nextBodies : group.change.bodies = [next]
  kind : prior.change.eventType = group.change.eventType
  delta : group.change.eventType ∈ deltaKinds
  metadata : sameDeltaMetadata prior.change.metadata group.change.metadata = true
  place : body.offset + body.length = next.offset

theorem joins_of_combines
    {prior group : Group}
    (h : prior.combines group = true) :
    ∃ body next, Joins prior group body next := by
  rw [Group.combines, decide_eq_true_eq] at h
  obtain ⟨-, hkind, hmetadata, -, hbodies, hdelta, -⟩ := h
  rw [continuesBody.eq_def] at hbodies
  split at hbodies
  · rename_i body next hprior hgroup
    rw [decide_eq_true_eq] at hbodies
    exact ⟨body, next, hprior, hgroup, hkind, hdelta, hmetadata, hbodies.2.2⟩
  · cases hbodies

theorem merge_eq
    {prior group : Group}
    {body next : BodyLink}
    (h : Joins prior group body next) :
    prior.merge group = { prior with
      appends := prior.appends ++ group.appends
      change := { prior.change with
        lastCursor := group.change.lastCursor
        metadata := Group.mergedMetadata group.change.metadata body.offset
          (body.length + next.length) prior.change.firstCursor
        bodies := [{ body with length := body.length + next.length }] } } := by
  rw [Group.merge, h.bodies, h.nextBodies]

/-- What a merge reads of the next fragment: its objects and its range. -/
theorem exists_fragment
    {prior group : Group}
    {body next : BodyLink}
    (hprior : prior.Weighs)
    (hgroup : group.Encoded)
    (h : Joins prior group body next) :
    ∃ fields data key, group.change.metadata = .obj fields ∧
      Fields.lookup "data" fields = some (.obj data) ∧
      Fields.lookup "content_key" data = some (.str key) ∧
      Fields.lookup "content_offset" data = some (.ofInt next.offset) ∧
      Fields.lookup "content_bytes" data = some (.ofInt next.length) := by
  obtain ⟨hoffset, hlength⟩ := hprior.body body h.bodies
  have hplace := h.place
  have hfragment := (hgroup.body next h.nextBodies).2.2.2 h.delta (by omega)
  obtain ⟨key, hkey⟩ := hfragment.key
  obtain ⟨fields, data, hmetadata, hdata, hlookup⟩ := exists_data hkey
  have hstart := hfragment.offset
  have hbytes := hfragment.bytes
  rw [hmetadata, dataField_eq hdata] at hstart hbytes
  exact ⟨fields, data, key, hmetadata, hdata, hlookup, hstart, hbytes⟩

/-- A merged group is no larger than its parts, and can be merged into again. -/
theorem weighs_merge
    {prior group : Group}
    (hprior : prior.Weighs)
    (hgroup : group.Encoded)
    (h : prior.combines group = true) :
    (prior.merge group).Weighs ∧
      (prior.merge group).metadataBytes ≤ prior.metadataBytes + group.metadataBytes := by
  obtain ⟨body, next, hjoins⟩ := joins_of_combines h
  obtain ⟨fields, data, key, hmetadata, hdata, hkey, hoffset, hbytes⟩ :=
    exists_fragment hprior hgroup hjoins
  obtain ⟨hoffset0, hlength0⟩ := hprior.body body hjoins.bodies
  have hnext0 := (hgroup.body next hjoins.nextBodies).2.1
  have hcanonical := hgroup.canonical
  rw [hmetadata] at hcanonical
  obtain ⟨hsorted, hsortedData, hcanonicalData⟩ := sorted_of_canonical hcanonical hdata
  have hmerged := mergedMetadata_eq hdata body.offset (body.length + next.length)
    prior.change.firstCursor
  have hset := compactLen_set_data hsorted hdata
    (spanData data body.offset (body.length + next.length) prior.change.firstCursor)
  rw [merge_eq hjoins, hmetadata, hmerged]
  refine ⟨⟨?_, hprior.cursor, ?_, ?_⟩, ?_⟩
  · rw [Json.Canonical]
    refine ⟨hsorted.insert _ _, canonicalFields_insert hcanonical.2 _ ?_⟩
    rw [Json.Canonical]
    refine ⟨sorted_spanData hsortedData _ _ _, ?_⟩
    exact canonicalFields_insert (canonicalFields_insert (canonicalFields_insert hcanonicalData _
      (canonical_ofInt _)) _ (canonical_ofInt _)) _ (canonical_ofInt _)
  · intro other hother
    obtain rfl := List.singleton_inj.1 hother
    exact ⟨hoffset0, by dsimp only; omega⟩
  · intro _ other hother _ _
    obtain rfl := List.singleton_inj.1 hother
    have hroom := room_spanData hsortedData body.offset (body.length + next.length)
      prior.change.firstCursor
    have hlookup := Fields.lookup_insert "data" "data" (Json.obj (spanData data body.offset
      (body.length + next.length) prior.change.firstCursor)) fields
    rw [if_pos rfl] at hlookup
    have hwhole := compactLen_of_lookup (hsorted.insert _ _) hlookup
    rw [Json.fieldLen] at hwhole
    dsimp only at hwhole ⊢
    omega
  · have hspan := weight_spanData_le hsortedData hoffset hbytes body.offset
      (body.length + next.length) prior.change.firstCursor
    have hstart : (Json.ofInt body.offset).compactLen ≤ (Json.ofInt next.offset).compactLen := by
      have hplace := hjoins.place
      rw [compactLen_ofInt hoffset0, compactLen_ofInt (by omega)]
      exact textLen_mono (by omega)
    have hsum : (Json.ofInt (body.length + next.length)).compactLen ≤
        (Json.ofInt body.length).compactLen + (Json.ofInt next.length).compactLen := by
      rw [compactLen_ofInt (by omega), compactLen_ofInt (by omega), compactLen_ofInt (by omega),
        Int.toNat_add (by omega) (by omega)]
      exact textLen_add_le _ _
    have hsame := dataField_of_sameDeltaMetadata hjoins.metadata
      (show "content_key" ∉ ["content_offset", "content_bytes", "content_first_idx"] by decide)
    rw [hmetadata, dataField_eq hdata, hkey] at hsame
    have hroom := hprior.room (hjoins.kind ▸ hjoins.delta) body hjoins.bodies key hsame
    have hne : data ≠ [] := by
      rintro rfl
      cases hkey
    have hne' : spanData data body.offset (body.length + next.length)
        prior.change.firstCursor ≠ [] := by
      intro hnil
      have hlookup := Fields.lookup_insert "content_first_idx" "content_first_idx"
        (Json.ofInt prior.change.firstCursor) (Fields.insert "content_bytes"
          (.ofInt (body.length + next.length))
          (Fields.insert "content_offset" (.ofInt body.offset) data))
      rw [if_pos rfl] at hlookup
      rw [spanData] at hnil
      rw [hnil] at hlookup
      cases hlookup
    rw [Json.compactLen_eq_weight hne, Json.compactLen_eq_weight hne'] at hset
    rw [Group.metadataBytes, Group.metadataBytes, Group.metadataBytes, hmetadata]
    dsimp only
    omega

/-- A group of one event can be merged into. -/
theorem weighs_of_encoded
    {group : Group}
    (h : group.Encoded) :
    group.Weighs := by
  refine ⟨h.canonical, h.cursor.1, fun body hbody => ?_, fun hdelta body hbody key hkey => ?_⟩
  · obtain ⟨hoffset, hlength, -⟩ := h.body body hbody
    exact ⟨hoffset, hlength⟩
  · obtain ⟨-, hlength, hbound, -⟩ := h.body body hbody
    obtain ⟨hstart, hbytes⟩ := h.ranged hdelta key hkey
    obtain ⟨fields, data, hmetadata, hdata, hlookup⟩ := exists_data hkey
    have hcanonical := h.canonical
    rw [hmetadata] at hcanonical hstart hbytes ⊢
    obtain ⟨hsorted, hsortedData, -⟩ := sorted_of_canonical hcanonical hdata
    rw [dataField_eq hdata] at hstart hbytes
    obtain ⟨start, hstart⟩ := Option.ne_none_iff_exists'.1 hstart
    obtain ⟨bytes, hbytes⟩ := Option.ne_none_iff_exists'.1 hbytes
    -- Three fields of the data, each longer than its name.
    have hstart' : Fields.lookup "content_offset" (Fields.erase "content_key" data) =
        some start := by
      rw [Fields.lookup_erase, if_neg (by decide), hstart]
    have hbytes' : Fields.lookup "content_bytes"
        (Fields.erase "content_offset" (Fields.erase "content_key" data)) = some bytes := by
      rw [Fields.lookup_erase, if_neg (by decide), Fields.lookup_erase, if_neg (by decide), hbytes]
    have hwhole := compactLen_of_lookup hsorted hdata
    have hinner := compactLen_of_lookup hsortedData hlookup
    have hrest := Json.weight_of_lookup (hsortedData.erase _) hstart'
    have hlast := Json.weight_of_lookup ((hsortedData.erase _).erase _) hbytes'
    have hname : Json.literalLen "data" = 6 := by decide
    have hname1 : Json.literalLen "content_key" = 13 := by decide
    have hname2 : Json.literalLen "content_offset" = 16 := by decide
    have hname3 : Json.literalLen "content_bytes" = 15 := by decide
    have hkeyLen : 2 ≤ (Json.str key).compactLen := Nat.le_add_right _ _
    have hdigits : ∀ n : Int, 0 ≤ n → n < 2 ^ 63 → (Json.ofInt n).compactLen ≤ 19 := by
      intro n hn hbound
      rw [compactLen_ofInt hn, Json.textLen_posInt_le_iff (by decide)]
      omega
    have hlen := hdigits body.length (by omega) hbound
    have hcursor := hdigits group.change.firstCursor h.cursor.1 h.cursor.2
    rw [Json.fieldLen] at hwhole hinner hrest hlast
    dsimp only at hwhole hinner hrest hlast
    omega

end Merge

section Pack

/-- Joining pieces loses no text and adds no piece. -/
theorem pack_spec (pieces : List ContentAppend) (piece : ContentAppend) :
    ((Pending.pack pieces piece).map fun p => Utf8.size p.text).sum =
        (pieces.map fun p => Utf8.size p.text).sum + Utf8.size piece.text ∧
      (Pending.pack pieces piece).length ≤ pieces.length + 1 := by
  induction pieces with
  | nil =>
      simp [Pending.pack]
  | cons first rest ih =>
      cases rest with
      | nil =>
          rw [Pending.pack]
          split
          · simp
          · simp
      | cons next rest =>
          obtain ⟨hsum, hlength⟩ := ih
          rw [Pending.pack]
          simp only [List.map_cons, List.sum_cons, List.length_cons] at hsum hlength ⊢
          omega

theorem foldl_pack_spec (more pieces : List ContentAppend) :
    ((more.foldl Pending.pack pieces).map fun p => Utf8.size p.text).sum =
        (pieces.map fun p => Utf8.size p.text).sum + (more.map fun p => Utf8.size p.text).sum ∧
      (more.foldl Pending.pack pieces).length ≤ pieces.length + more.length := by
  induction more generalizing pieces with
  | nil =>
      simp
  | cons piece more ih =>
      obtain ⟨hsum, hlength⟩ := ih (Pending.pack pieces piece)
      obtain ⟨hpack, hone⟩ := pack_spec pieces piece
      rw [List.foldl_cons]
      simp only [List.map_cons, List.sum_cons, List.length_cons]
      omega

theorem packed_spec (groups : Pending) :
    (groups.packed.map fun p => Utf8.size p.text).sum = (groups.map Group.bytes).sum ∧
      groups.packed.length ≤ (groups.map fun group => group.appends.length).sum := by
  obtain ⟨hsum, hlength⟩ := foldl_pack_spec (groups.flatMap Group.appends) []
  have hbytes : ((groups.flatMap Group.appends).map fun p => Utf8.size p.text).sum =
      (groups.map Group.bytes).sum := by
    clear hsum hlength
    induction groups with
    | nil =>
        rfl
    | cons group groups ih =>
        rw [List.flatMap_cons, List.map_append, List.sum_append, ih, List.map_cons,
          List.sum_cons]
        rfl
  rw [List.length_flatMap] at hlength
  rw [Pending.packed, hsum, hbytes]
  simp only [List.map_nil, List.sum_nil, List.length_nil, Nat.zero_add] at hlength ⊢
  exact ⟨trivial, hlength⟩

end Pack

section Invariant

/-- The counters are the sums they stand for. -/
structure CountedPending.Counted (batch : CountedPending) : Prop where
  bytes : batch.bytes = (batch.pending.map Group.bytes).sum
  metadata : batch.metadataBytes = (batch.pending.map Group.metadataBytes).sum
  appends : batch.appends = (batch.pending.map fun group => group.appends.length).sum
  groups : ∀ counted ∈ batch.groups, counted.metadataBytes = counted.group.metadataBytes

/-- One commit takes the batch, and the next group may be merged into it. -/
structure CountedPending.Within (batch : CountedPending) : Prop where
  bytes : batch.bytes ≤ writeBytes
  metadata : batch.metadataBytes ≤ changeMetadataBytes
  appends : batch.appends ≤ changesPerBatch
  groups : batch.groups.length ≤ changesPerBatch
  weighs : ∀ counted ∈ batch.groups, counted.group.Weighs

theorem jsonBytes_of_le
    {metadata : Json}
    (h : metadata.compactLen ≤ 2 * changeMetadataBytes) :
    jsonBytes metadata = metadata.compactLen :=
  jsonBytes_eq metadata (Nat.le_trans h (by decide))

theorem lt_saturatingAdd_iff
    {limit m n : Nat}
    (h : limit < usizeMax) :
    limit < saturatingAdd m n ↔ limit < m + n := by
  rw [saturatingAdd]
  omega

/-- There is room for the group beside what is pending. -/
theorem room_of_not_full
    {batch : CountedPending}
    {group : Group}
    {bytes metadata : Nat}
    (h : batch.isFull group bytes metadata = false)
    (hne : batch.groups ≠ []) :
    batch.groups.length < changesPerBatch ∧ batch.bytes + bytes ≤ writeBytes ∧
      batch.metadataBytes + metadata ≤ changeMetadataBytes ∧
      batch.appends + group.appends.length ≤ changesPerBatch := by
  rw [CountedPending.isFull.eq_def] at h
  split at h
  · contradiction
  · rw [decide_eq_false_iff_not, lt_saturatingAdd_iff (by decide), lt_saturatingAdd_iff (by decide),
      lt_saturatingAdd_iff (by decide)] at h
    omega

theorem counted_default : CountedPending.default.Counted where
  bytes := rfl
  metadata := rfl
  appends := rfl
  groups := by
    intro counted hcounted
    cases hcounted

theorem within_default : CountedPending.default.Within where
  bytes := Nat.zero_le _
  metadata := Nat.zero_le _
  appends := Nat.zero_le _
  groups := Nat.zero_le _
  weighs := by
    intro counted hcounted
    cases hcounted

/-- A batch whose counters are exact, within the limits. -/
def CountedPending.Good (batch : CountedPending) : Prop := batch.Counted ∧ batch.Within

/-- The counters of the groups, in numbers. -/
theorem counted_iff (batch : CountedPending) :
    batch.Counted ↔
      batch.bytes = (batch.groups.map fun counted => counted.group.bytes).sum ∧
        batch.metadataBytes =
          (batch.groups.map fun counted => counted.group.metadataBytes).sum ∧
        batch.appends = (batch.groups.map fun counted => counted.group.appends.length).sum ∧
        ∀ counted ∈ batch.groups, counted.metadataBytes = counted.group.metadataBytes := by
  constructor
  · rintro ⟨hbytes, hmetadata, happends, hgroups⟩
    rw [CountedPending.pending, List.map_map] at hbytes hmetadata happends
    exact ⟨hbytes, hmetadata, happends, hgroups⟩
  · rintro ⟨hbytes, hmetadata, happends, hgroups⟩
    refine ⟨?_, ?_, ?_, hgroups⟩
    all_goals rwa [CountedPending.pending, List.map_map]

/-- A group that is put behind the others. -/
theorem good_push
    {batch : CountedPending}
    {group : Group}
    (h : batch.Good)
    (hweighs : group.Weighs)
    (hlength : batch.groups.length < changesPerBatch)
    (hbytes : batch.bytes + group.bytes ≤ writeBytes)
    (hmetadata : batch.metadataBytes + group.metadataBytes ≤ changeMetadataBytes)
    (happends : batch.appends + group.appends.length ≤ changesPerBatch) :
    CountedPending.Good {
      groups := batch.groups ++ [{ group := group, metadataBytes := group.metadataBytes }]
      bytes := batch.bytes + group.bytes
      metadataBytes := batch.metadataBytes + group.metadataBytes
      appends := batch.appends + group.appends.length } := by
  obtain ⟨hcounted, hwithin⟩ := h
  rw [counted_iff] at hcounted
  obtain ⟨hsum, hsum', hsum'', hgroups⟩ := hcounted
  refine ⟨(counted_iff _).2 ⟨?_, ?_, ?_, ?_⟩, hbytes, hmetadata, happends, ?_, ?_⟩
  · simp [hsum]
  · simp [hsum']
  · simp [hsum'']
  · exact List.forall_mem_append.2 ⟨hgroups, List.forall_mem_singleton.2 rfl⟩
  · rw [List.length_append]
    exact hlength
  · exact List.forall_mem_append.2 ⟨hwithin.weighs, List.forall_mem_singleton.2 hweighs⟩

/-- A group that goes into the last one. -/
theorem good_merge
    {batch : CountedPending}
    {front : List CountedGroup}
    {prior : CountedGroup}
    {group : Group}
    (h : batch.Good)
    (hgroups : batch.groups = front ++ [prior])
    (hencoded : group.Encoded)
    (hcombines : prior.group.combines group = true)
    (hbytes : batch.bytes + group.bytes ≤ writeBytes)
    (hmetadata : batch.metadataBytes + group.metadataBytes ≤ changeMetadataBytes)
    (happends : batch.appends + group.appends.length ≤ changesPerBatch) :
    CountedPending.Good {
      groups := front ++ [{
        group := prior.group.merge group
        metadataBytes := jsonBytes (prior.group.merge group).change.metadata }]
      bytes := batch.bytes + group.bytes
      metadataBytes := batch.metadataBytes - prior.metadataBytes +
        jsonBytes (prior.group.merge group).change.metadata
      appends := batch.appends + group.appends.length } := by
  obtain ⟨hcounted, hwithin⟩ := h
  rw [counted_iff, hgroups] at hcounted
  obtain ⟨hsum, hsum', hsum'', hcounts⟩ := hcounted
  have hall := hwithin.weighs
  rw [hgroups] at hall
  obtain ⟨hfront, hprior⟩ := List.forall_mem_append.1 hall
  obtain ⟨hcountsFront, hcountsPrior⟩ := List.forall_mem_append.1 hcounts
  have hown : prior.metadataBytes = prior.group.metadataBytes :=
    hcountsPrior prior (List.mem_singleton_self prior)
  obtain ⟨hweighs, hle⟩ := weighs_merge (hprior prior (List.mem_singleton_self prior)) hencoded
    hcombines
  simp only [List.map_append, List.sum_append, List.map_singleton, List.sum_singleton] at hsum
  simp only [List.map_append, List.sum_append, List.map_singleton, List.sum_singleton] at hsum'
  simp only [List.map_append, List.sum_append, List.map_singleton, List.sum_singleton] at hsum''
  have hsize : jsonBytes (prior.group.merge group).change.metadata =
      (prior.group.merge group).metadataBytes :=
    jsonBytes_of_le (by
      rw [Group.metadataBytes] at hle
      omega)
  obtain ⟨body, next, hjoins⟩ := joins_of_combines hcombines
  have hmergedBytes : (prior.group.merge group).bytes = prior.group.bytes + group.bytes := by
    rw [merge_eq hjoins, Group.bytes, Group.bytes, Group.bytes, List.map_append, List.sum_append]
  have hmergedAppends : (prior.group.merge group).appends.length =
      prior.group.appends.length + group.appends.length := by
    rw [merge_eq hjoins, List.length_append]
  have hlength := hwithin.groups
  rw [hgroups, List.length_append, List.length_singleton] at hlength
  rw [hsize]
  refine ⟨(counted_iff _).2 ⟨?_, ?_, ?_, ?_⟩, hbytes, ?_, happends, ?_, ?_⟩
  · simp only [List.map_append, List.sum_append, List.map_singleton, List.sum_singleton,
      hmergedBytes]
    omega
  · simp only [List.map_append, List.sum_append, List.map_singleton, List.sum_singleton]
    omega
  · simp only [List.map_append, List.sum_append, List.map_singleton, List.sum_singleton,
      hmergedAppends]
    omega
  · exact List.forall_mem_append.2 ⟨hcountsFront, List.forall_mem_singleton.2 rfl⟩
  · dsimp only
    omega
  · simpa using hlength
  · exact List.forall_mem_append.2 ⟨hfront, List.forall_mem_singleton.2 hweighs⟩

/-- A group that is added keeps the counters exact, and the batch within the limits. -/
theorem good_addGroup
    {batch : CountedPending}
    {group : Group}
    (h : batch.Good)
    (hencoded : group.Encoded)
    (hfits : group.Fits)
    (hroom : batch.isFull group group.bytes (jsonBytes group.change.metadata) = false) :
    (batch.addGroup group group.bytes (jsonBytes group.change.metadata)).Good := by
  have hmetadata : jsonBytes group.change.metadata = group.metadataBytes :=
    jsonBytes_of_le (Nat.le_trans hfits.metadata (by decide))
  rw [hmetadata] at hroom ⊢
  have hweighs := weighs_of_encoded hencoded
  rcases List.eq_nil_or_concat batch.groups with hnil | ⟨front, prior, hgroups⟩
  · -- The first group of a batch is within the limits alone.
    have hcounted := (counted_iff batch).1 h.1
    rw [hnil] at hcounted
    obtain ⟨hbytes, hmetadata, happends, -⟩ := hcounted
    simp only [List.map_nil, List.sum_nil] at hbytes hmetadata happends
    have hgood := good_push h hweighs (by rw [hnil]; decide)
      (by rw [hbytes, Nat.zero_add]; exact hfits.bytes)
      (by rw [hmetadata, Nat.zero_add]; exact hfits.metadata)
      (by rw [happends, Nat.zero_add]; exact hfits.appends)
    rw [hnil] at hgood
    rw [CountedPending.addGroup]
    simp only [hnil, List.getLast?_nil]
    exact hgood
  · have hne : batch.groups ≠ [] := by
      rw [hgroups]
      simp
    obtain ⟨hlength, hbytes, hsize, happends⟩ := room_of_not_full hroom hne
    rw [List.concat_eq_append] at hgroups
    rw [CountedPending.addGroup]
    simp only [hgroups, List.getLast?_concat]
    by_cases hcombines : prior.group.combines group = true
    · rw [if_pos hcombines]
      simp only [List.dropLast_concat]
      exact good_merge h hgroups hencoded hcombines hbytes hsize happends
    · rw [if_neg hcombines, ← hgroups]
      exact good_push h hweighs hlength hbytes hsize happends

end Invariant

section Runs

variable {ε : Type}
variable (outcome : List Transaction → Except ε Unit)

/-- Every transaction so far was admitted, and the batch is good. -/
structure Journal.Sound (s : Journal) : Prop where
  issued : ∀ tx ∈ s.issued, tx.admitted
  batch : s.batch.Good

theorem commitPacked_of_le
    {σ : Type}
    {commit : StreamIdentity → List ContentAppend → List Change → Proc σ ε Unit}
    (stream : StreamIdentity)
    (changes : List Change)
    (fuel : Nat)
    {pieces : List ContentAppend}
    (h : pieces.length ≤ changesPerBatch) :
    Pending.commitPacked commit stream changes fuel pieces = commit stream pieces changes := by
  cases fuel with
  | zero =>
      rfl
  | succ fuel =>
      rw [Pending.commitPacked, if_neg (Nat.not_lt_of_le h)]

/-- The transaction of a batch is admitted. -/
theorem admitted_of_good
    {batch : CountedPending}
    (h : batch.Good)
    (stream : StreamIdentity) :
    Transaction.admitted {
      stream := stream
      appends := batch.pending.packed
      changes := batch.pending.map Group.change } := by
  obtain ⟨hcounted, hwithin⟩ := h
  obtain ⟨hsum, hlength⟩ := packed_spec batch.pending
  have hbytes := hcounted.bytes
  have happends := hcounted.appends
  have hmetadata := hcounted.metadata
  have hmap : ((batch.pending.map Group.change).map fun change =>
      change.metadata.compactLen).sum = (batch.pending.map Group.metadataBytes).sum := by
    rw [List.map_map]
    rfl
  refine ⟨?_, ?_, ?_, ?_⟩
  · rw [hsum, ← hbytes]
    exact hwithin.bytes
  · rw [List.length_map, CountedPending.pending, List.length_map]
    exact hwithin.groups
  · exact Nat.le_trans hlength (happends ▸ hwithin.appends)
  · dsimp only
    rw [hmap, ← hmetadata]
    exact hwithin.metadata

/-- A flush takes the batch, and issues it as one transaction that is admitted. -/
theorem sound_flush
    {s : Journal}
    (h : s.Sound) :
    (Journal.flush outcome s).1.Sound ∧
      (Journal.flush outcome s).1.batch = CountedPending.default := by
  have hgood : CountedPending.default.Good := ⟨counted_default, within_default⟩
  have htake : Journal.take s =
      ({ s with batch := CountedPending.default }, .ok (ε := ε) s.batch.pending) := rfl
  rw [Journal.flush, Proc.bind_of_ok htake]
  cases hpending : s.batch.pending with
  | nil =>
      exact ⟨⟨h.issued, hgood⟩, rfl⟩
  | cons first rest =>
      have hadmitted := admitted_of_good h.batch first.stream
      rw [hpending] at hadmitted
      show ((Pending.commitPacked (Journal.commit outcome) first.stream _ _ _) _).1.Sound ∧
        ((Pending.commitPacked (Journal.commit outcome) first.stream _ _ _) _).1.batch = _
      rw [commitPacked_of_le _ _ _ hadmitted.2.2.1]
      exact ⟨⟨List.forall_mem_append.2 ⟨h.issued, List.forall_mem_singleton.2 hadmitted⟩, hgood⟩,
        rfl⟩

/-- What a push does once there is room. -/
theorem sound_add
    {s : Journal}
    (h : s.Sound)
    {group : Group}
    (hencoded : group.Encoded)
    (hfits : group.Fits)
    (hroom : s.batch.isFull group group.bytes (jsonBytes group.change.metadata) = false) :
    Journal.Sound (Journal.whenM (fun _ => group.change.eventType = "agent_end")
      (Journal.flush outcome) { s with
        batch := s.batch.addGroup group group.bytes (jsonBytes group.change.metadata) }).1 := by
  have hadded : Journal.Sound { s with
      batch := s.batch.addGroup group group.bytes (jsonBytes group.change.metadata) } :=
    ⟨h.issued, good_addGroup h.batch hencoded hfits hroom⟩
  rw [Journal.whenM]
  split
  · exact (sound_flush outcome hadded).1
  · exact hadded

/-- A push of a group of one event. -/
theorem sound_push
    {s : Journal}
    (h : s.Sound)
    {group : Group}
    (hencoded : group.Encoded)
    (hfits : group.Fits) :
    (Journal.push outcome group s).1.Sound := by
  rw [Journal.push]
  cases hfull : s.batch.isFull group group.bytes (jsonBytes group.change.metadata) with
  | false =>
      have hskip : Journal.whenM (fun s => s.batch.isFull group group.bytes
          (jsonBytes group.change.metadata)) (Journal.flush outcome) s = (s, .ok ()) := by
        rw [Journal.whenM, hfull]
        rfl
      rw [Proc.bind_of_ok hskip]
      exact sound_add outcome h hencoded hfits hfull
  | true =>
      have hflush : Journal.whenM (fun s => s.batch.isFull group group.bytes
          (jsonBytes group.change.metadata)) (Journal.flush outcome) s =
            Journal.flush outcome s := by
        rw [Journal.whenM, hfull]
        rfl
      obtain ⟨hsound, hempty⟩ := sound_flush outcome h
      cases hrun : Journal.flush outcome s with
      | mk next result =>
          rw [hrun] at hsound hempty
          rw [hrun] at hflush
          cases result with
          | error e =>
              rw [Proc.bind_of_error hflush]
              exact hsound
          | ok _ =>
              rw [Proc.bind_of_ok hflush]
              refine sound_add outcome hsound hencoded hfits ?_
              rw [show next.batch = CountedPending.default from hempty]
              rfl

/-- Every transaction of a run is within what a commit admits, and the counters are the sums
of what is pending. -/
theorem transactions_admitted
    (ops : List PendingOp)
    (hgroups : ∀ group, PendingOp.push group ∈ ops → group.Encoded ∧ group.Fits) :
    (∀ tx ∈ (Machine.run (Journal.step outcome) Journal.start ops).issued, tx.admitted) ∧
      (Machine.run (Journal.step outcome) Journal.start ops).batch.Counted := by
  have hsound : ∀ s : Journal, s.Sound → (Machine.run (Journal.step outcome) s ops).Sound := by
    induction ops with
    | nil =>
        exact fun s hs => hs
    | cons op ops ih =>
        intro s hs
        refine ih (fun group hgroup => hgroups group (List.mem_cons_of_mem _ hgroup)) _ ?_
        cases op with
        | push group =>
            obtain ⟨hencoded, hfits⟩ := hgroups group List.mem_cons_self
            exact sound_push outcome hs hencoded hfits
        | flush =>
            exact (sound_flush outcome hs).1
  have hstart : Journal.start.Sound := by
    refine ⟨fun tx htx => ?_, counted_default, within_default⟩
    cases htx
  obtain ⟨hissued, hcounted, -⟩ := hsound _ hstart
  exact ⟨hissued, hcounted⟩

/-- The group of a piece of an answer, at a cursor. -/
def answerGroup (cursor : Nat) (text : String) (offset : Nat) : Group where
  stream := { sessionId := "session", runId := "run", epoch := 0 }
  appends := [{ key := "m:0", offset := offset, text := text.toList }]
  change := {
    firstCursor := cursor, lastCursor := cursor, eventType := "text_chunk"
    metadata := .obj [("data", .obj [
      ("content_bytes", .num (.posInt text.utf8ByteSize)), ("content_key", .str "m:0"),
      ("content_offset", .num (.posInt offset)), ("text", .str "")])]
    bodies := [{
      field := "/data/text", encoding := .text, key := "m:0", offset := offset
      length := text.utf8ByteSize }] }

theorem encoded_answerGroup
    {cursor offset : Nat}
    {text : String}
    (hcursor : cursor < 2 ^ 63)
    (htext : 0 < text.utf8ByteSize)
    (hlength : text.utf8ByteSize < 2 ^ 63) :
    (answerGroup cursor text offset).Encoded := by
  have hfield : ∀ key, dataField (answerGroup cursor text offset).change.metadata key =
      Fields.lookup key [("content_bytes", .num (.posInt text.utf8ByteSize)),
        ("content_key", .str "m:0"), ("content_offset", .num (.posInt offset)),
        ("text", .str "")] := fun key => dataField_eq rfl key
  refine ⟨?_, ⟨by simp [answerGroup], ?_⟩, fun body hbody => ?_, fun _ key _ => ?_⟩
  · have hkeys : ∀ a b c d : Json, Fields.Sorted
        [("content_bytes", a), ("content_key", b), ("content_offset", c), ("text", d)] := by
      intro a b c d
      refine List.Pairwise.cons ?_ (List.Pairwise.cons ?_ (List.Pairwise.cons ?_
        (List.pairwise_singleton _ _)))
      all_goals
        simp only [List.mem_cons, List.not_mem_nil, or_false, forall_eq_or_imp, forall_eq]
        decide
    simp only [answerGroup, Json.Canonical, Json.CanonicalFields, and_true]
    exact ⟨List.pairwise_singleton _ _, hkeys _ _ _ _⟩
  · simp only [answerGroup]
    omega
  · obtain rfl := List.singleton_inj.1 hbody
    refine ⟨Int.natCast_nonneg _, Int.natCast_pos.2 htext, ?_, fun _ _ => ⟨⟨"m:0", ?_⟩, ?_, ?_⟩⟩
    · dsimp only
      omega
    · rw [hfield]
      simp [Fields.lookup]
    · rw [hfield]
      rfl
    · rw [hfield]
      rfl
  · rw [hfield, hfield]
    exact ⟨by simp [Fields.lookup], by simp [Fields.lookup]⟩

theorem transactions_admitted_answer :
    (∀ tx ∈ (Machine.run (Journal.step fun _ => .ok (ε := String) ()) Journal.start
        [.push (answerGroup 4 "Hello" 0), .push (answerGroup 5 ", you" 5), .flush]).issued,
      tx.admitted) ∧
      CountedPending.Counted
        (Machine.run (Journal.step fun _ => .ok (ε := String) ()) Journal.start
          [.push (answerGroup 4 "Hello" 0), .push (answerGroup 5 ", you" 5), .flush]).batch := by
  refine transactions_admitted _ _ fun group hgroup => ?_
  have hcases : group = answerGroup 4 "Hello" 0 ∨ group = answerGroup 5 ", you" 5 := by
    simpa using hgroup
  rcases hcases with rfl | rfl
  · exact ⟨encoded_answerGroup (by decide) (by decide) (by decide),
      ⟨by decide, by decide, by decide +kernel⟩⟩
  · exact ⟨encoded_answerGroup (by decide) (by decide) (by decide),
      ⟨by decide, by decide, by decide +kernel⟩⟩

end Runs

end Content
end FutureOs
