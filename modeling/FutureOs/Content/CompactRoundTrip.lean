import FutureOs.Content.Compact

/-!
# Decoding inverts encoding

The parts `encode` splits a change into are put together by `decode` to the same
metadata (`decode_encode`): every field that was moved, dropped or turned into a
flag comes back, and no other appears.
-/

namespace FutureOs
namespace Content

/-- Fields with new keys are all put in. -/
theorem putFields_eq
    (message : String)
    {more object : List (String × Json)}
    (hmore : Fields.Sorted more)
    (hnew : ∀ key, Fields.lookup key more ≠ none → Fields.lookup key object = none) :
    putFields message more object = .ok (Fields.insertAll more object) := by
  induction more generalizing object with
  | nil =>
      rfl
  | cons field more ih =>
      obtain ⟨k, v⟩ := field
      have hk : Fields.lookup k object = none :=
        hnew k (by rw [Fields.lookup_cons, if_pos rfl]; exact nofun)
      have hrest : Fields.Sorted more := (List.pairwise_cons.1 hmore).2
      rw [putFields, ensure_bind, if_pos hk, ih hrest]
      · rfl
      · intro key hkey
        have hne : key ≠ k := by
          rintro rfl
          exact hkey hmore.lookup_tail
        rw [Fields.lookup_insert, if_neg hne]
        refine hnew key ?_
        rwa [Fields.lookup_cons, if_neg hne]

/-! ### Range fields

Each range field has a flag bit of its own.
-/

abbrev RangeField := Nat × String × Int

/-- Distinct bits, distinct names. -/
structure Separated (fields : List RangeField) : Prop where
  pairwise : fields.Pairwise fun a b => a.1 &&& b.1 = 0 ∧ a.2.1 ≠ b.2.1
  nonzero : ∀ a ∈ fields, a.1 ≠ 0

theorem separated_rangeFields (range : ContentRange) (firstCursor : Int) :
    Separated (rangeFields range firstCursor) where
  pairwise := by simp [rangeFields]
  nonzero := by simp [rangeFields]

theorem Separated.tail
    {a : RangeField}
    {fields : List RangeField}
    (h : Separated (a :: fields)) :
    Separated fields where
  pairwise := (List.pairwise_cons.1 h.pairwise).2
  nonzero := fun b hb => h.nonzero b (List.mem_cons_of_mem a hb)

/-- The bits of other fields are not touched. -/
theorem takeRangeFields_flags
    {fields : List RangeField}
    (data : List (String × Json))
    {flags mask : Nat}
    (hmask : ∀ a ∈ fields, a.1 &&& mask = 0) :
    (takeRangeFields fields data flags).2 &&& mask = flags &&& mask := by
  induction fields generalizing data flags with
  | nil =>
      rfl
  | cons a fields ih =>
      have hrest : ∀ b ∈ fields, b.1 &&& mask = 0 :=
        fun b hb => hmask b (List.mem_cons_of_mem a hb)
      unfold takeRangeFields
      split
      · rw [ih _ hrest, Nat.and_or_distrib_right, hmask a List.mem_cons_self,
          Nat.or_zero]
      · exact ih _ hrest

theorem lookup_takeRangeFields_of_ne
    {fields : List RangeField}
    (data : List (String × Json))
    (flags : Nat)
    {key : String}
    (hkey : ∀ a ∈ fields, a.2.1 ≠ key) :
    Fields.lookup key (takeRangeFields fields data flags).1 =
      Fields.lookup key data := by
  induction fields generalizing data flags with
  | nil =>
      rfl
  | cons a fields ih =>
      have hrest : ∀ b ∈ fields, b.2.1 ≠ key :=
        fun b hb => hkey b (List.mem_cons_of_mem a hb)
      unfold takeRangeFields
      split
      · rw [ih _ _ hrest, Fields.lookup_erase,
          if_neg (Ne.symm (hkey a List.mem_cons_self))]
      · exact ih _ _ hrest

/-- A set flag stands for the derived value; without it the field is where it was. -/
theorem lookup_takeRangeFields
    {fields : List RangeField}
    (hfields : Separated fields)
    (data : List (String × Json))
    (flags : Nat)
    (hflags : ∀ a ∈ fields, flags &&& a.1 = 0)
    {a : RangeField}
    (ha : a ∈ fields) :
    let out := takeRangeFields fields data flags
    (out.2 &&& a.1 ≠ 0 → Fields.lookup a.2.1 data = some (.ofInt a.2.2) ∧
      Fields.lookup a.2.1 out.1 = none) ∧
    (out.2 &&& a.1 = 0 → Fields.lookup a.2.1 out.1 = Fields.lookup a.2.1 data) := by
  induction fields generalizing data flags with
  | nil =>
      simp at ha
  | cons b fields ih =>
      obtain ⟨hhead, -⟩ := List.pairwise_cons.1 hfields.pairwise
      have hbits : ∀ c ∈ fields, c.1 &&& b.1 = 0 := by
        intro c hc
        rw [Nat.and_comm]
        exact (hhead c hc).1
      have hnames : ∀ c ∈ fields, c.2.1 ≠ b.2.1 :=
        fun c hc => Ne.symm (hhead c hc).2
      have hzero := hflags b List.mem_cons_self
      by_cases hb : (Fields.lookup b.2.1 data).bind Json.asI64? = some b.2.2
      · have hrun : takeRangeFields (b :: fields) data flags =
            takeRangeFields fields (Fields.erase b.2.1 data) (flags ||| b.1) := by
          rw [takeRangeFields, if_pos hb]
        rw [hrun]
        rcases List.mem_cons.1 ha with rfl | ha
        · -- the field itself: its flag is set and it is gone
          obtain ⟨v, hv, hvalue⟩ := Option.bind_eq_some_iff.1 hb
          have hflag : (takeRangeFields fields (Fields.erase a.2.1 data)
              (flags ||| a.1)).2 &&& a.1 ≠ 0 := by
            rw [takeRangeFields_flags _ hbits, Nat.and_or_distrib_right, hzero,
              Nat.zero_or, Nat.and_self]
            exact hfields.nonzero a List.mem_cons_self
          refine ⟨fun _ => ⟨?_, ?_⟩, fun h => absurd h hflag⟩
          · rw [hv, Json.eq_ofInt_of_asI64? hvalue]
          · rw [lookup_takeRangeFields_of_ne _ _ hnames, Fields.lookup_erase,
              if_pos rfl]
        · have hrest := ih hfields.tail (Fields.erase b.2.1 data)
            (flags ||| b.1) (fun c hc => ?_) ha
          · rw [Fields.lookup_erase, if_neg (hnames a ha)] at hrest
            exact hrest
          · rw [Nat.and_or_distrib_right, hflags c (List.mem_cons_of_mem b hc),
              (hhead c hc).1, Nat.or_zero]
      · have hrun : takeRangeFields (b :: fields) data flags =
            takeRangeFields fields data flags := by
          rw [takeRangeFields, if_neg hb]
        rw [hrun]
        rcases List.mem_cons.1 ha with rfl | ha
        · have hflag : (takeRangeFields fields data flags).2 &&& a.1 = 0 := by
            rw [takeRangeFields_flags _ hbits, hzero]
          refine ⟨fun h => absurd hflag h, fun _ => ?_⟩
          rw [lookup_takeRangeFields_of_ne _ _ hnames]
        · exact ih hfields.tail data flags
            (fun c hc => hflags c (List.mem_cons_of_mem b hc)) ha

/-- Putting back: a flagged field must be absent, and gets its value. -/
theorem putRangeFields_eq
    {fields : List RangeField}
    (hfields : Separated fields)
    (flags : Nat)
    {data : List (String × Json)}
    (hdata : Fields.Sorted data)
    (habsent : ∀ a ∈ fields, flags &&& a.1 ≠ 0 → Fields.lookup a.2.1 data = none) :
    ∃ out, putRangeFields flags fields data = .ok out ∧ Fields.Sorted out ∧
      (∀ a ∈ fields, Fields.lookup a.2.1 out =
        if flags &&& a.1 ≠ 0 then some (.ofInt a.2.2)
        else Fields.lookup a.2.1 data) ∧
      (∀ key, (∀ a ∈ fields, a.2.1 ≠ key) →
        Fields.lookup key out = Fields.lookup key data) := by
  induction fields generalizing data with
  | nil =>
      exact ⟨data, rfl, hdata, by simp, fun _ _ => rfl⟩
  | cons b fields ih =>
      obtain ⟨hhead, -⟩ := List.pairwise_cons.1 hfields.pairwise
      have hnames : ∀ c ∈ fields, c.2.1 ≠ b.2.1 :=
        fun c hc => Ne.symm (hhead c hc).2
      simp only [putRangeFields]
      by_cases hb : flags &&& b.1 ≠ 0
      · have hnone := habsent b List.mem_cons_self hb
        obtain ⟨out, hrun, hsorted, hin, hout⟩ := ih hfields.tail
          (hdata.insert b.2.1 (.ofInt b.2.2)) (fun c hc hflag => by
            rw [Fields.lookup_insert, if_neg (hnames c hc)]
            exact habsent c (List.mem_cons_of_mem b hc) hflag)
        refine ⟨out, ?_, hsorted, ?_, ?_⟩
        · rw [if_pos hb, ensure_bind, if_pos hnone]
          exact hrun
        · intro c hc
          rcases List.mem_cons.1 hc with rfl | hc
          · rw [hout _ hnames, Fields.lookup_insert, if_pos rfl, if_pos hb]
          · rw [hin c hc, Fields.lookup_insert, if_neg (hnames c hc)]
        · intro key hkey
          rw [hout key fun c hc => hkey c (List.mem_cons_of_mem b hc),
            Fields.lookup_insert, if_neg (Ne.symm (hkey b List.mem_cons_self))]
      · obtain ⟨out, hrun, hsorted, hin, hout⟩ := ih hfields.tail hdata
          (fun c hc => habsent c (List.mem_cons_of_mem b hc))
        refine ⟨out, ?_, hsorted, ?_, ?_⟩
        · rw [if_neg hb]
          exact hrun
        · intro c hc
          rcases List.mem_cons.1 hc with rfl | hc
          · rw [hout _ hnames, if_neg hb]
          · exact hin c hc
        · exact fun key hkey => hout key fun c hc => hkey c (List.mem_cons_of_mem b hc)

theorem takeRangeFields_sorted
    {data : List (String × Json)}
    (h : Fields.Sorted data)
    (fields : List RangeField)
    (flags : Nat) :
    Fields.Sorted (takeRangeFields fields data flags).1 := by
  induction fields generalizing data flags with
  | nil =>
      exact h
  | cons a fields ih =>
      unfold takeRangeFields
      split
      · exact ih (h.erase a.2.1) _
      · exact ih h _

/-- What the flags took out of the data, `decode` puts back. -/
theorem putRangeFields_takeRangeFields
    (range : ContentRange)
    (firstCursor : Int)
    (data : List (String × Json))
    {full : List (String × Json)}
    (hfull : Fields.Sorted full)
    (hsame : ∀ a ∈ rangeFields range firstCursor,
      Fields.lookup a.2.1 full =
        Fields.lookup a.2.1
          (takeRangeFields (rangeFields range firstCursor) data 0).1) :
    ∃ out,
      putRangeFields (takeRangeFields (rangeFields range firstCursor) data 0).2
        (rangeFields range firstCursor) full = .ok out ∧
      Fields.Sorted out ∧
      (∀ a ∈ rangeFields range firstCursor,
        Fields.lookup a.2.1 out = Fields.lookup a.2.1 data) ∧
      (∀ key, (∀ a ∈ rangeFields range firstCursor, a.2.1 ≠ key) →
        Fields.lookup key out = Fields.lookup key full) := by
  have hsep := separated_rangeFields range firstCursor
  have hzero : ∀ a ∈ rangeFields range firstCursor, 0 &&& a.1 = 0 :=
    fun a _ => Nat.zero_and a.1
  obtain ⟨out, hrun, hsorted, hin, hout⟩ := putRangeFields_eq hsep
    (takeRangeFields (rangeFields range firstCursor) data 0).2 hfull
    (fun a ha hflag => by
      rw [hsame a ha]
      exact ((lookup_takeRangeFields hsep data 0 hzero ha).1 hflag).2)
  refine ⟨out, hrun, hsorted, fun a ha => ?_, hout⟩
  obtain ⟨hset, hclear⟩ := lookup_takeRangeFields hsep data 0 hzero ha
  rw [hin a ha]
  by_cases hflag :
      (takeRangeFields (rangeFields range firstCursor) data 0).2 &&& a.1 = 0
  · rw [if_neg (by rw [hflag]; exact fun h => h rfl), hsame a ha, hclear hflag]
  · rw [if_pos hflag, (hset hflag).1]

/-! ### The whole change -/

/-- The data of a metadata object. -/
def dataOf (object : List (String × Json)) : Option (List (String × Json)) :=
  (Fields.lookup "data" object).bind Json.asObject?

theorem dataOf_eq_some
    {object data : List (String × Json)} :
    dataOf object = some data ↔ Fields.lookup "data" object = some (.obj data) := by
  unfold dataOf
  constructor
  · intro h
    obtain ⟨v, hv, hdata⟩ := Option.bind_eq_some_iff.1 h
    cases v with
    | obj fields =>
        obtain rfl := Option.some.inj hdata
        exact hv
    | _ => cases hdata
  · intro h
    rw [h]
    rfl

@[simp] theorem dataOf_insert (object data : List (String × Json)) :
    dataOf (Fields.insert "data" (.obj data) object) = some data := by
  rw [dataOf_eq_some, Fields.lookup_insert, if_pos rfl]

/-- The data after its flagged range fields are gone, and the flags. -/
def remainingData (change : Change) (direct : Option FieldBody)
    (data : List (String × Json)) : List (String × Json) × Nat :=
  match direct with
  | some body => takeRangeFields (rangeFields body.range change.firstCursor) data 0
  | none => (data, 0)

/-- Stable fields outside the data are put in like any others. -/
theorem putStable_eq
    {stable object : List (String × Json)}
    (hstable : Fields.Sorted stable)
    (hdata : Fields.lookup "data" stable = none)
    (hnew : ∀ key, Fields.lookup key stable ≠ none → Fields.lookup key object = none) :
    putStable stable object = .ok (Fields.insertAll stable object) := by
  induction stable generalizing object with
  | nil =>
      rfl
  | cons field stable ih =>
      obtain ⟨k, v⟩ := field
      have hk : Fields.lookup k object = none :=
        hnew k (by rw [Fields.lookup_cons, if_pos rfl]; exact nofun)
      have hne : "data" ≠ k := by
        rintro rfl
        rw [Fields.lookup_cons, if_pos rfl] at hdata
        cases hdata
      rw [Fields.lookup_cons, if_neg hne] at hdata
      rw [putStable, if_neg (Ne.symm hne), ensure_bind, if_pos hk,
        ih (List.pairwise_cons.1 hstable).2 hdata]
      · rfl
      · intro key hkey
        have hkne : key ≠ k := by
          rintro rfl
          exact hkey hstable.lookup_tail
        rw [Fields.lookup_insert, if_neg hkne]
        refine hnew key ?_
        rwa [Fields.lookup_cons, if_neg hkne]

/-- The shared fields of the data come back before the others. -/
theorem putStable_data
    {context stable object data : List (String × Json)}
    (hobject : Fields.Sorted object)
    (hcontext : Fields.Sorted context)
    (hfirst : ∀ field ∈ stable, "data" < field.1)
    (hdata : Fields.lookup "data" object = some (.obj data))
    (hnew : ∀ key, Fields.lookup key context ≠ none → Fields.lookup key data = none) :
    putStable
        (if context = [] then stable else Fields.insert "data" (.obj context) stable)
        object =
      putStable stable
        (Fields.insert "data" (.obj (Fields.insertAll context data)) object) := by
  by_cases hempty : context = []
  · rw [if_pos hempty, hempty]
    have hsame : Fields.insert "data" (.obj data) object = object :=
      Fields.insert_of_lookup hobject hdata
    show putStable stable object =
      putStable stable (Fields.insert "data" (.obj data) object)
    rw [hsame]
  · have hdataOf : (Fields.lookup "data" object).bind Json.asObject? = some data :=
      dataOf_eq_some.2 hdata
    rw [if_neg hempty, Fields.insert_first hfirst, putStable, if_pos rfl, hdataOf,
      context_some, except_ok_bind]
    show putFields _ context data >>= _ = _
    rw [putFields_eq _ hcontext hnew, except_ok_bind]

/-- What `splitStable` leaves of an object with data. -/
theorem splitStable_data
    {object data : List (String × Json)}
    (hdata : dataOf (Fields.moveFields ["run_sequence"] object []).1 = some data) :
    splitStable (.obj object) =
      (if (Fields.moveFields contextFields data []).2 = [] then
          (Fields.moveFields ["run_sequence"] object []).2
        else
          Fields.insert "data" (.obj (Fields.moveFields contextFields data []).2)
            (Fields.moveFields ["run_sequence"] object []).2,
        .obj (Fields.insert "data" (.obj (Fields.moveFields contextFields data []).1)
          (Fields.moveFields ["run_sequence"] object []).1)) := by
  have hdata' : (Fields.lookup "data"
      (Fields.moveFields ["run_sequence"] object []).1).bind Json.asObject? =
        some data := hdata
  simp only [splitStable, hdata']
  split <;> rfl

theorem splitStable_noData
    {object : List (String × Json)}
    (hdata : dataOf (Fields.moveFields ["run_sequence"] object []).1 = none) :
    splitStable (.obj object) =
      ((Fields.moveFields ["run_sequence"] object []).2,
        .obj (Fields.moveFields ["run_sequence"] object []).1) := by
  have hdata' : (Fields.lookup "data"
      (Fields.moveFields ["run_sequence"] object []).1).bind Json.asObject? = none :=
    hdata
  simp only [splitStable, hdata']

theorem takeFlags_data
    (change : Change)
    (direct : Option FieldBody)
    (object data : List (String × Json)) :
    takeFlags change direct (.obj (Fields.insert "data" (.obj data) object)) =
      (.obj (Fields.insert "data" (.obj (remainingData change direct data).1) object),
        (remainingData change direct data).2) := by
  cases direct with
  | none =>
      rfl
  | some body =>
      have hdata : (Fields.lookup "data"
          (Fields.insert "data" (.obj data) object)).bind Json.asObject? = some data :=
        dataOf_insert object data
      simp only [takeFlags, hdata, remainingData]
      rw [Fields.insert_insert]

theorem takeFlags_noData
    (change : Change)
    (direct : Option FieldBody)
    {object : List (String × Json)}
    (hdata : dataOf object = none) :
    takeFlags change direct (.obj object) = (.obj object, 0) := by
  have hdata' : (Fields.lookup "data" object).bind Json.asObject? = none := hdata
  cases direct with
  | none =>
      rfl
  | some body =>
      simp only [takeFlags, hdata']

theorem putRangeFields_zero
    (fields : List RangeField)
    (data : List (String × Json)) :
    putRangeFields 0 fields data = .ok data := by
  induction fields with
  | nil =>
      rfl
  | cons a fields ih =>
      rw [putRangeFields, if_neg (by rw [Nat.zero_and]; exact fun h => h rfl), ih]

/--
The data in three steps: without its context fields, without the flagged range
fields, and, going back, with both.
-/
theorem remainingData_restored
    (change : Change)
    (direct : Option FieldBody)
    {data : List (String × Json)}
    (hdata : Fields.Sorted data) :
    let moved := Fields.moveFields contextFields data []
    let left := remainingData change direct moved.1
    (∀ key, Fields.lookup key moved.2 ≠ none → Fields.lookup key left.1 = none) ∧
    (left.2 = 0 → Fields.insertAll moved.2 left.1 = data) ∧
    (left.2 ≠ 0 → ∃ body, direct = some body ∧
      putRangeFields left.2 (rangeFields body.range change.firstCursor)
        (Fields.insertAll moved.2 left.1) = .ok data) := by
  intro moved left
  have hsorted := hdata.moveFields Fields.sorted_nil contextFields
  have hmoved := fun key => Fields.lookup_moveFields contextFields data [] key
  have hall := Fields.insertAll_moveFields hdata contextFields
  cases direct with
  | none =>
      refine ⟨fun key hkey => ?_, fun _ => hall, fun h => absurd rfl h⟩
      obtain ⟨hsrc, hdst⟩ := hmoved key
      have hin : key ∈ contextFields := by
        by_contra hout
        rw [hdst, if_neg hout] at hkey
        exact hkey rfl
      exact hsrc.trans (if_pos hin)
  | some body =>
      have hnames : ∀ a ∈ rangeFields body.range change.firstCursor,
          a.2.1 ∉ contextFields := by
        simp [rangeFields, contextFields]
      have hleftSorted : Fields.Sorted left.1 := takeRangeFields_sorted hsorted.1 _ _
      have hdisjoint : ∀ key, Fields.lookup key moved.2 ≠ none →
          Fields.lookup key left.1 = none := by
        intro key hkey
        obtain ⟨hsrc, hdst⟩ := hmoved key
        have hin : key ∈ contextFields := by
          by_contra hout
          rw [hdst, if_neg hout] at hkey
          exact hkey rfl
        have hleft := lookup_takeRangeFields_of_ne moved.1 0
          (fun a ha heq => hnames a ha (heq ▸ hin) :
            ∀ a ∈ rangeFields body.range change.firstCursor, a.2.1 ≠ key)
        exact hleft.trans (hsrc.trans (if_pos hin))
      have hfull : Fields.Sorted (Fields.insertAll moved.2 left.1) :=
        hleftSorted.insertAll _
      obtain ⟨out, hrun, hout, hin, hother⟩ := putRangeFields_takeRangeFields
        body.range change.firstCursor moved.1 hfull (fun a ha => by
          rw [Fields.lookup_insertAll hsorted.2, (hmoved a.2.1).2,
            if_neg (hnames a ha)]
          rfl)
      have hdataOut : out = data := by
        rw [← hall]
        refine Fields.ext hout (hsorted.1.insertAll _) fun key => ?_
        by_cases hrange : ∃ a ∈ rangeFields body.range change.firstCursor, a.2.1 = key
        · obtain ⟨a, ha, rfl⟩ := hrange
          rw [hin a ha, Fields.lookup_insertAll hsorted.2, (hmoved a.2.1).2,
            if_neg (hnames a ha)]
          rfl
        · have hne : ∀ a ∈ rangeFields body.range change.firstCursor, a.2.1 ≠ key :=
            fun a ha heq => hrange ⟨a, ha, heq⟩
          rw [hother key hne, Fields.lookup_insertAll hsorted.2,
            Fields.lookup_insertAll hsorted.2]
          congr 1
          exact lookup_takeRangeFields_of_ne moved.1 0 hne
      refine ⟨hdisjoint, fun hzero => ?_, fun _ => ⟨body, rfl, ?_⟩⟩
      · have hzero' : (takeRangeFields (rangeFields body.range change.firstCursor)
            moved.1 0).2 = 0 := hzero
        rw [hzero', putRangeFields_zero] at hrun
        rw [← hdataOut]
        exact Except.ok.inj hrun
      · rw [← hdataOut]
        exact hrun

/-- A metadata object in key order, and its data too. -/
structure OrderedMetadata (object : List (String × Json)) : Prop where
  sorted : Fields.Sorted object
  sortedData : ∀ data, dataOf object = some data → Fields.Sorted data

theorem orderedMetadata_of_canonical
    {object : List (String × Json)}
    (h : (Json.obj object).Canonical) :
    OrderedMetadata object where
  sorted := h.1
  sortedData := by
    intro data hdata
    have hmem := Fields.mem_of_lookup (dataOf_eq_some.1 hdata)
    have hcanonical : (Json.obj data).Canonical :=
      (Json.canonicalFields_iff object).1 h.2 _ hmem
    exact hcanonical.1

/-- Decoding what `encode` made of a change gives its metadata back. -/
theorem decode_encode
    (change : Change)
    (direct : Option FieldBody)
    {object : List (String × Json)}
    (hmetadata : change.metadata = .obj object)
    (hordered : OrderedMetadata object) :
    let split := splitStable change.metadata
    let rest := takeFlags change direct split.2
    decode (.obj split.1) rest.1 rest.2 change.firstCursor
      (direct.map FieldBody.range) = .ok change.metadata := by
  intro split rest
  have hsorted := hordered.sorted.moveFields Fields.sorted_nil ["run_sequence"]
  have hmoved := fun key => Fields.lookup_moveFields ["run_sequence"] object [] key
  have hall := Fields.insertAll_moveFields hordered.sorted ["run_sequence"]
  -- the only stable field outside the data is `run_sequence`
  have hstable : ∀ key, Fields.lookup key
      (Fields.moveFields ["run_sequence"] object []).2 ≠ none →
      key = "run_sequence" := by
    intro key hkey
    rw [(hmoved key).2] at hkey
    by_contra hne
    rw [if_neg (by simpa using hne)] at hkey
    exact hkey rfl
  have hnoData : Fields.lookup "data"
      (Fields.moveFields ["run_sequence"] object []).2 = none := by
    by_contra hne
    exact absurd (hstable "data" hne) (by decide)
  have hfirst : ∀ field ∈ (Fields.moveFields ["run_sequence"] object []).2,
      "data" < field.1 := by
    intro field hfield
    have hlook := hsorted.2.lookup_of_mem hfield
    rw [hstable field.1 (by rw [hlook]; exact nofun)]
    decide
  cases hdata : dataOf (Fields.moveFields ["run_sequence"] object []).1 with
  | none =>
      have hsplit : split = _ := (congrArg splitStable hmetadata).trans
        (splitStable_noData hdata)
      have hrest : rest = _ := (congrArg (fun x => takeFlags change direct x.2) hsplit).trans
        (takeFlags_noData change direct hdata)
      rw [hsplit, hrest, hmetadata]
      simp only [decode, Json.asObject?, context_some, except_ok_bind]
      rw [putStable_eq hsorted.2 hnoData, hall]
      · rfl
      · intro key hkey
        rw [(hmoved key).1, hstable key hkey, if_pos (by decide)]
  | some data =>
      have hsplit : split = _ := (congrArg splitStable hmetadata).trans
        (splitStable_data hdata)
      have hrest : rest = _ := (congrArg (fun x => takeFlags change direct x.2) hsplit).trans
        (takeFlags_data change direct _ _)
      have hdataObject : Fields.lookup "data" object = some (.obj data) := by
        have hlook := dataOf_eq_some.1 hdata
        rwa [(hmoved "data").1, if_neg (by decide)] at hlook
      have hdataSorted := hordered.sortedData data (dataOf_eq_some.2 hdataObject)
      obtain ⟨hdisjoint, hzero, hflags⟩ :=
        remainingData_restored change direct hdataSorted
      -- the object with the stable fields back, whatever its data is by then
      have hput : ∀ restored : List (String × Json),
          putStable (Fields.moveFields ["run_sequence"] object []).2
            (Fields.insert "data" (.obj restored)
              (Fields.insert "data"
                (.obj (remainingData change direct
                  (Fields.moveFields contextFields data []).1).1)
                (Fields.moveFields ["run_sequence"] object []).1)) =
          .ok (Fields.insert "data" (.obj restored) object) := by
        intro restored
        rw [putStable_eq hsorted.2 hnoData]
        · congr 1
          refine Fields.ext (((hsorted.1.insert _ _).insert _ _).insertAll _)
            (hordered.sorted.insert _ _) fun key => ?_
          rw [Fields.lookup_insertAll hsorted.2, Fields.lookup_insert,
            Fields.lookup_insert, Fields.lookup_insert]
          by_cases hkey : key = "data"
          · rw [hkey, hnoData, if_pos rfl, if_pos rfl]
            rfl
          · rw [if_neg hkey, if_neg hkey, if_neg hkey]
            have hback := Fields.lookup_insertAll hsorted.2
              (Fields.moveFields ["run_sequence"] object []).1 key
            rw [hall] at hback
            exact hback.symm
        · intro key hkey
          have hkeyNe : key ≠ "data" := by
            rintro rfl
            exact hkey hnoData
          rw [Fields.lookup_insert, if_neg hkeyNe, Fields.lookup_insert,
            if_neg hkeyNe, (hmoved key).1, hstable key hkey, if_pos (by decide)]
      rw [hsplit, hrest, hmetadata]
      simp only [decode, Json.asObject?, context_some, except_ok_bind]
      have hcontextSorted :=
        (hdataSorted.moveFields Fields.sorted_nil contextFields).2
      rw [putStable_data (hsorted.1.insert _ _) hcontextSorted hfirst
        (by rw [Fields.lookup_insert, if_pos rfl]) hdisjoint, hput, except_ok_bind]
      have hsame : Fields.insert "data" (.obj data) object = object :=
        Fields.insert_of_lookup hordered.sorted hdataObject
      by_cases hnone : (remainingData change direct
          (Fields.moveFields contextFields data []).1).2 = 0
      · rw [if_neg (by rw [hnone]; exact fun h => h rfl), hzero hnone, hsame]
        rfl
      · obtain ⟨body, rfl, hrun⟩ := hflags hnone
        rw [if_pos hnone]
        simp only [Option.map_some, context_some, except_ok_bind]
        have hdataOf := dataOf_insert object (Fields.insertAll
          (Fields.moveFields contextFields data []).2
          (remainingData change (some body)
            (Fields.moveFields contextFields data []).1).1)
        unfold dataOf at hdataOf
        rw [hdataOf, context_some, except_ok_bind, hrun, except_ok_bind]
        rw [Fields.insert_insert, hsame]
        rfl

end Content
end FutureOs
