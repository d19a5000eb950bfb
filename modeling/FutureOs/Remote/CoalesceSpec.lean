import FutureOs.Remote.Coalesce
import Mathlib.Data.List.Chain
import Mathlib.Data.List.Forall2
import Mathlib.Logic.Function.Basic

/-!
# Coalescing is invisible

A group of fragments is gathered one by one (`Gathers`) and published as one
event, which stands for them (`StandsFor`): consecutive source indices of one
stream that the event declares, and the text a client would have made of them.

A group of several is lost where `data` cannot be rebuilt: `merged_payload` asks
for `content_key`, `fragment_of` for one that is a text.  And its bytes are
declared wrongly where a canonical fragment replaces bytes of the group.  Along
every run without such groups (`Declares`) coalescing is invisible
(`lane_invisible`); along every run whatever is published stands for a group of
source events, in order (`lane_partitions`).
-/

namespace FutureOs
namespace Remote

/-! ## Reading a fragment -/

section Fragments

variable {event : EventPublish}

/-- What is read of an event of this type, with this `data` and text in it. -/
def fragmentWith
    (event : EventPublish)
    (eventType : String)
    (data : Json)
    (text : String) :
    Fragment where
  key := streamKeyOf event eventType data
  idx := idxOf event
  firstIdx :=
    if (canonicalOf data).isSome then
      ((data.get? "content_first_idx").bind Json.asI64?).getD (idxOf event)
    else
      idxOf event
  contentOffset := offsetOf data
  contentEnd := endOf data
  text := text
  replaces := (data.get? "snapshot").bind Json.asBool? = some true

/-- What `fragment_of` has checked. -/
structure Read
    (event : EventPublish)
    (eventType : String)
    (data : Json)
    (text : String) : Prop where
  typed : (event.get? "type").bind Json.asStr? = some eventType
  known : eventType ∈ fragmentTypes
  carried : event.payload.data.map Data.value = some data
  texted : (data.get? "text").bind Json.asStr? = some text
  placed : ¬misplaced data text

theorem fragmentOf_eq_some_iff {fragment : Fragment} :
    fragmentOf event = some fragment ↔
      ∃ eventType data text, Read event eventType data text ∧
        fragment = fragmentWith event eventType data text := by
  constructor
  · intro h
    obtain ⟨eventType, htype, h⟩ := Option.bind_eq_some_iff.1 h
    split at h
    · simp at h
    · rename_i hknown
      obtain ⟨data, hdata, h⟩ := Option.bind_eq_some_iff.1 h
      obtain ⟨text, htext, h⟩ := Option.bind_eq_some_iff.1 h
      split at h
      · simp at h
      · rename_i hplaced
        exact ⟨eventType, data, text,
          ⟨htype, not_not.1 hknown, hdata, htext, hplaced⟩, (Option.some.inj h).symm⟩
  · rintro ⟨eventType, data, text, h, rfl⟩
    unfold fragmentOf
    simp only [h.typed, Option.bind_eq_bind, Option.bind_some]
    rw [if_neg (not_not.2 h.known)]
    simp only [h.carried, h.texted, Option.bind_some]
    rw [if_neg h.placed]
    rfl

theorem checkedAddU64_eq_some {a b c : Nat} :
    checkedAddU64 a b = some c ↔ a + b = c ∧ a + b < 2 ^ 64 := by
  unfold checkedAddU64
  split
  · rename_i h
    rw [Option.some.injEq]
    exact ⟨fun hc => ⟨hc, h⟩, fun hc => hc.1⟩
  · rename_i h
    simp only [reduceCtorEq, false_iff]
    exact fun hc => h hc.2

/-- A fragment without a content key has neither a range nor a first index. -/
theorem Read.plain
    {eventType : String}
    {data : Json}
    {text : String}
    (hkey : canonicalOf data = none) :
    (fragmentWith event eventType data text).firstIdx = idxOf event ∧
      (fragmentWith event eventType data text).contentOffset = none ∧
      (fragmentWith event eventType data text).contentEnd = none := by
  simp [fragmentWith, offsetOf, endOf, hkey]

/-- A canonical fragment has the byte range of its text. -/
theorem Read.canonical
    {eventType : String}
    {data : Json}
    {text : String}
    (h : Read event eventType data text)
    (hkey : (canonicalOf data).isSome = true) :
    ∃ offset, natOf data "content_offset" = some offset ∧
      natOf data "content_bytes" = some text.utf8ByteSize ∧
      offsetOf data = some offset ∧
      endOf data = some (offset + text.utf8ByteSize) ∧
      offset + text.utf8ByteSize < 2 ^ 64 := by
  have hplaced := h.placed
  simp only [misplaced, hkey, true_and, not_or, not_not] at hplaced
  obtain ⟨hoffset, hend, hbytes⟩ := hplaced
  obtain ⟨offset, hoffset⟩ := Option.ne_none_iff_exists'.1 hoffset
  obtain ⟨stop, hend⟩ := Option.ne_none_iff_exists'.1 hend
  have hadd : checkedAddU64 offset text.utf8ByteSize = some stop := by
    rw [endOf, hoffset, Option.bind_some, hbytes, Option.bind_some] at hend
    exact hend
  obtain ⟨hstop, hfits⟩ := checkedAddU64_eq_some.1 hadd
  obtain ⟨canonical, hcanonical⟩ := Option.isSome_iff_exists.1 hkey
  refine ⟨offset, ?_, hbytes, hoffset, hstop ▸ hend, hfits⟩
  rw [offsetOf, hcanonical, Option.bind_some] at hoffset
  exact hoffset

/-! ## Rebuilding a payload -/

/--
What rebuilding `data` needs of an event with a content key in it: a byte range
that the text fits into, an index, and a count that is one.
-/
def Rangeable
    (event : EventPublish)
    (data : Json)
    (text : String)
    (covered : Nat) : Prop :=
  (data.get? "content_key").isSome = true →
    ∃ offset bytes,
      natOf data "content_offset" = some offset ∧
      natOf data "content_bytes" = some bytes ∧
      offset + bytes < 2 ^ 64 ∧
      text.utf8ByteSize ≤ offset + bytes ∧
      ((event.get? "idx").bind Json.asI64?).isSome = true ∧
      covered < 2 ^ 63

theorem natOf_obj {object : List (String × Json)} {key : String} {n : Nat}
    (h : natOf (.obj object) key = some n) :
    ∃ v, Fields.lookup key object = some v ∧ v.asU64? = some n :=
  Option.bind_eq_some_iff.1 h

theorem asI64?_ofInt
    {n : Int}
    (hlow : -2 ^ 63 ≤ n)
    (hhigh : n < 2 ^ 63) :
    (Json.ofInt n).asI64? = some n := by
  cases n with
  | ofNat n =>
      rw [Int.ofNat_eq_natCast] at hhigh
      have hn : n < 2 ^ 63 := by omega
      simp only [Json.ofInt, Json.asI64?]
      rw [if_pos hn]
      rfl
  | negSucc n =>
      rfl

/-- The rebuilt `data`: other fields stay, and a keyed one gets the range. -/
theorem rangedData_spec
    {object : List (String × Json)}
    {text : String}
    {covered : Nat}
    (h : Rangeable event (.obj object) text covered) :
    ∃ object', rangedData event object text covered = some object' ∧
      (∀ key, key ≠ "content_first_idx" → key ≠ "content_bytes" →
        key ≠ "content_offset" →
        Fields.lookup key object' = Fields.lookup key object) ∧
      ((Fields.lookup "content_key" object).isSome = true →
        ∀ offset bytes,
          natOf (.obj object) "content_offset" = some offset →
          natOf (.obj object) "content_bytes" = some bytes →
          natOf (.obj object') "content_offset" =
              some (offset + bytes - text.utf8ByteSize) ∧
            natOf (.obj object') "content_bytes" = some text.utf8ByteSize ∧
            Fields.lookup "content_first_idx" object' =
              some (Json.ofInt (wrapI64 (idxOf event - covered + 1)))) := by
  unfold rangedData
  by_cases hkeyed : (Fields.lookup "content_key" object).isSome = true
  · obtain ⟨offset, bytes, hoffset, hbytes, hfits, htext, hidx, hcovered⟩ := h hkeyed
    obtain ⟨_, hoffset', hoffset''⟩ := natOf_obj hoffset
    obtain ⟨_, hbytes', hbytes''⟩ := natOf_obj hbytes
    obtain ⟨idx, hidx⟩ := Option.isSome_iff_exists.1 hidx
    obtain ⟨v, hidx', hidx''⟩ := Option.bind_eq_some_iff.1 hidx
    have hread : idxOf event = idx := by rw [idxOf, hidx, Option.getD_some]
    rw [if_pos hkeyed]
    simp only [hoffset', hoffset'', hbytes', hbytes'', hidx', hidx'',
      Option.bind_eq_bind, Option.bind_some, checkedAddU64_eq_some.2 ⟨rfl, hfits⟩]
    rw [if_neg (by omega), if_neg (by omega)]
    refine ⟨_, rfl, ?_, ?_⟩
    · intro key hfirst hcount hstart
      rw [Fields.lookup_insert, if_neg hfirst, Fields.lookup_insert, if_neg hcount,
        Fields.lookup_insert, if_neg hstart]
    · intro _ offset' bytes' h₁ h₂
      obtain rfl := Option.some.inj (hoffset.symm.trans h₁)
      obtain rfl := Option.some.inj (hbytes.symm.trans h₂)
      refine ⟨?_, ?_, ?_⟩
      · simp [natOf, Json.get?, Json.asObject?, Fields.lookup_insert, Json.asU64?]
      · simp [natOf, Json.get?, Json.asObject?, Fields.lookup_insert, Json.asU64?]
      · simp [Fields.lookup_insert, hread]
  · rw [if_neg hkeyed]
    exact ⟨object, rfl, fun _ _ _ _ => rfl, fun hyes => absurd hyes hkeyed⟩

/-- What a client reads of a merged event. -/
def declared (last : Fragment) (text : String) (covered : Nat) (replaces : Bool) :
    Fragment :=
  { last with
    firstIdx :=
      if last.contentOffset.isSome then wrapI64 (last.idx - covered + 1) else last.idx
    contentOffset := last.contentEnd.map (· - text.utf8ByteSize)
    text := text
    replaces := replaces || last.replaces }

theorem canonicalOf_isSome_of_offset
    {data : Json}
    (h : (offsetOf data).isSome = true) :
    (canonicalOf data).isSome = true := by
  unfold offsetOf at h
  cases hkey : canonicalOf data with
  | none =>
      simp [hkey] at h
  | some canonical =>
      rfl

/-- The stream of an event depends on the fields that name it only. -/
theorem streamKeyOf_congr
    {event event' : EventPublish}
    {data data' : Json}
    (eventType : String)
    (hevent : ∀ key, key ≠ "coalescedCount" → event'.get? key = event.get? key)
    (hdata : ∀ key ∈ ["tool_id", "tool_call_id", "block_id", "blockId", "content_key"],
      data'.get? key = data.get? key) :
    streamKeyOf event' eventType data' = streamKeyOf event eventType data := by
  unfold streamKeyOf textOf canonicalOf
  rw [hevent "sessionId" (by decide), hevent "runId" (by decide),
    hevent "epoch" (by decide), hdata "tool_id" (by decide),
    hdata "tool_call_id" (by decide), hdata "block_id" (by decide),
    hdata "blockId" (by decide), hdata "content_key" (by decide)]

/-- What a rebuilt `data` has in its fields. -/
structure Rebuilt
    (event : EventPublish)
    (data data' : Json)
    (text : String)
    (covered : Nat)
    (replaces : Bool) : Prop where
  texted : data'.get? "text" = some (.str text)
  snapshot : data'.get? "snapshot" =
    if replaces then some (.bool true) else data.get? "snapshot"
  other : ∀ key ∈ ["tool_id", "tool_call_id", "block_id", "blockId", "content_key"],
    data'.get? key = data.get? key
  range : (data.get? "content_key").isSome = true →
    ∀ offset bytes,
      natOf data "content_offset" = some offset →
      natOf data "content_bytes" = some bytes →
      natOf data' "content_offset" = some (offset + bytes - text.utf8ByteSize) ∧
        natOf data' "content_bytes" = some text.utf8ByteSize ∧
        data'.get? "content_first_idx" =
          some (Json.ofInt (wrapI64 (idxOf event - covered + 1)))

/-- An event with this body and such `data` reads as the group's fragment. -/
theorem Rebuilt.fragment
    {event' : EventPublish}
    {eventType : String}
    {data data' : Json}
    {own text : String}
    {covered : Nat}
    {replaces : Bool}
    (h : Rebuilt event data data' text covered replaces)
    (hevent : ∀ key, key ≠ "coalescedCount" → event'.get? key = event.get? key)
    (hcarried : event'.payload.data.map Data.value = some data')
    (hread : Read event eventType data own)
    (hfits : (canonicalOf data).isSome = true → ∀ offset,
      natOf data "content_offset" = some offset →
      text.utf8ByteSize ≤ offset + own.utf8ByteSize)
    (hfirst : (canonicalOf data).isSome = true →
      -2 ^ 63 ≤ wrapI64 (idxOf event - covered + 1) ∧
        wrapI64 (idxOf event - covered + 1) < 2 ^ 63) :
    fragmentOf event' =
      some (declared (fragmentWith event eventType data own) text covered
        replaces) := by
  have hidx : idxOf event' = idxOf event := by
    unfold idxOf
    rw [hevent "idx" (by decide)]
  have hcanonical : canonicalOf data' = canonicalOf data := by
    unfold canonicalOf
    rw [h.other "content_key" (by decide)]
  have hreplaces : decide ((data'.get? "snapshot").bind Json.asBool? = some true) =
      (replaces || decide ((data.get? "snapshot").bind Json.asBool? = some true)) := by
    rw [h.snapshot]
    cases replaces <;> rfl
  have htyped : (event'.get? "type").bind Json.asStr? = some eventType := by
    rw [hevent "type" (by decide)]
    exact hread.typed
  have htexted : (data'.get? "text").bind Json.asStr? = some text := by
    rw [h.texted]
    rfl
  cases hkey : canonicalOf data with
  | none =>
      have hkey' : canonicalOf data' = none := hcanonical.trans hkey
      refine fragmentOf_eq_some_iff.2 ⟨eventType, data', text,
        ⟨htyped, hread.known, hcarried, htexted, ?_⟩, ?_⟩
      · rintro ⟨hsome, _⟩
        simp [hkey'] at hsome
      · simp only [declared, fragmentWith, offsetOf, endOf, hkey, hkey', hidx,
          streamKeyOf_congr eventType hevent h.other, hreplaces, Option.isSome_none,
          Option.bind_none, Option.map_none, Bool.false_eq_true, if_false]
  | some canonical =>
      have hkey' : canonicalOf data' = some canonical := hcanonical.trans hkey
      have hpresent : (data.get? "content_key").isSome = true := by
        obtain ⟨v, hv, _⟩ := Option.bind_eq_some_iff.1 hkey
        rw [hv]
        rfl
      obtain ⟨offset, hoffset, hbytes, hoffsetOf, hendOf, hlimit⟩ :=
        hread.canonical (by rw [hkey]; rfl)
      obtain ⟨hoffset', hbytes', hfirst'⟩ := h.range hpresent _ _ hoffset hbytes
      have hroom := hfits (by rw [hkey]; rfl) _ hoffset
      obtain ⟨hlow, hhigh⟩ := hfirst (by rw [hkey]; rfl)
      have hoffsetOf' : offsetOf data' =
          some (offset + own.utf8ByteSize - text.utf8ByteSize) := by
        rw [offsetOf, hkey', Option.bind_some, hoffset']
      have hendOf' : endOf data' = some (offset + own.utf8ByteSize) := by
        rw [endOf, hoffsetOf', Option.bind_some, hbytes', Option.bind_some]
        exact checkedAddU64_eq_some.2 ⟨by omega, by omega⟩
      refine fragmentOf_eq_some_iff.2 ⟨eventType, data', text,
        ⟨htyped, hread.known, hcarried, htexted, ?_⟩, ?_⟩
      · rintro ⟨_, hwrong⟩
        simp [hoffsetOf', hendOf', hbytes'] at hwrong
      · simp only [declared, fragmentWith, hoffsetOf, hendOf, hoffsetOf', hendOf', hkey,
          hkey', hidx, streamKeyOf_congr eventType hevent h.other, hreplaces, hfirst',
          Option.isSome_some, Option.bind_some, Option.map_some, if_true,
          asI64?_ofInt hlow hhigh, Option.getD_some]

/-- The fields of `data`, once the group's range, text and flag are in it. -/
theorem rebuilt_insert
    {object object' : List (String × Json)}
    {text : String}
    {covered : Nat}
    (hother : ∀ key, key ≠ "content_first_idx" → key ≠ "content_bytes" →
      key ≠ "content_offset" → Fields.lookup key object' = Fields.lookup key object)
    (hkeyed : (Fields.lookup "content_key" object).isSome = true →
      ∀ offset bytes,
        natOf (.obj object) "content_offset" = some offset →
        natOf (.obj object) "content_bytes" = some bytes →
        natOf (.obj object') "content_offset" =
            some (offset + bytes - text.utf8ByteSize) ∧
          natOf (.obj object') "content_bytes" = some text.utf8ByteSize ∧
          Fields.lookup "content_first_idx" object' =
            some (Json.ofInt (wrapI64 (idxOf event - covered + 1))))
    (replaces : Bool) :
    Rebuilt event (.obj object) (.obj (if replaces then
      Fields.insert "snapshot" (.bool true) (Fields.insert "text" (.str text) object')
      else Fields.insert "text" (.str text) object')) text covered replaces := by
  have hget : ∀ fields key, Json.get? (.obj fields) key = Fields.lookup key fields :=
    fun _ _ => rfl
  have hkept : ∀ key, key ≠ "snapshot" → key ≠ "text" →
      Json.get? (.obj (if replaces then
        Fields.insert "snapshot" (.bool true) (Fields.insert "text" (.str text) object')
        else Fields.insert "text" (.str text) object')) key =
      Fields.lookup key object' := by
    intro key hsnapshot htext
    rw [hget]
    cases replaces with
    | true => simp [Fields.lookup_insert, hsnapshot, htext]
    | false => simp [Fields.lookup_insert, htext]
  refine ⟨?_, ?_, ?_, ?_⟩
  · rw [hget]
    cases replaces <;> simp [Fields.lookup_insert]
  · rw [hget]
    cases replaces with
    | true =>
        simp [Fields.lookup_insert]
    | false =>
        simp only [Bool.false_eq_true, if_false, Fields.lookup_insert]
        rw [if_neg (by decide), hother "snapshot" (by decide) (by decide) (by decide)]
        rfl
  · intro key hkey
    have hnames : key ≠ "snapshot" ∧ key ≠ "text" ∧ key ≠ "content_first_idx" ∧
        key ≠ "content_bytes" ∧ key ≠ "content_offset" := by
      revert key
      decide
    obtain ⟨hsnapshot, htext, hfirst, hbytes, hoffset⟩ := hnames
    rw [hkept key hsnapshot htext, hother key hfirst hbytes hoffset]
    rfl
  · intro hpresent offset bytes hoffset hbytes
    obtain ⟨hoffset', hbytes', hfirst'⟩ := hkeyed hpresent _ _ hoffset hbytes
    refine ⟨?_, ?_, ?_⟩
    · rw [natOf, hkept "content_offset" (by decide) (by decide)]
      exact hoffset'
    · rw [natOf, hkept "content_bytes" (by decide) (by decide)]
      exact hbytes'
    · rw [hkept "content_first_idx" (by decide) (by decide)]
      exact hfirst'

/-- A rebuilt payload reads as the newest fragment with the group's text. -/
theorem mergedPayload_spec
    {eventType : String}
    {data : Json}
    {own text : String}
    {covered : Nat}
    (replaces : Bool)
    (hread : Read event eventType data own)
    (hrange : Rangeable event data text covered)
    (hfirst : (canonicalOf data).isSome = true →
      -2 ^ 63 ≤ wrapI64 (idxOf event - covered + 1) ∧
        wrapI64 (idxOf event - covered + 1) < 2 ^ 63) :
    ∃ payload, mergedPayload event text covered replaces = some payload ∧
      idxOf { event with payload := payload } = idxOf event ∧
      EventPublish.get? { event with payload := payload } "coalescedCount" =
        some (.num (.posInt covered)) ∧
      fragmentOf { event with payload := payload } =
        some (declared (fragmentWith event eventType data own) text covered
          replaces) := by
  obtain ⟨value, hvalue, rfl⟩ := Option.map_eq_some_iff.1 hread.carried
  obtain ⟨fields, hfields⟩ : ∃ fields, event.payload.fields = some fields := by
    have htyped := hread.typed
    unfold EventPublish.get? at htyped
    cases hnone : event.payload.fields with
    | none => simp [hnone] at htyped
    | some fields => exact ⟨fields, rfl⟩
  obtain ⟨object, hobject⟩ : ∃ object, value.value = .obj object := by
    have htexted := hread.texted
    unfold Json.get? at htexted
    cases hcase : value.value with
    | obj object => exact ⟨object, rfl⟩
    | _ => simp [hcase, Json.asObject?] at htexted
  rw [hobject] at hread hrange hfirst ⊢
  obtain ⟨object', hranged, hother, hkeyed⟩ := rangedData_spec hrange
  have hrebuilt := rebuilt_insert hother hkeyed replaces
  have hevent : ∀ payload : Payload,
      payload.fields = some (Fields.insert "coalescedCount" (.num (.posInt covered))
        fields) →
      ∀ key, key ≠ "coalescedCount" →
        EventPublish.get? { event with payload := payload } key = event.get? key := by
    intro payload hpayload key hne
    simp only [EventPublish.get?, hpayload, hfields, Option.bind_some]
    rw [Fields.lookup_insert, if_neg hne]
  unfold mergedPayload
  simp only [hfields, hvalue, hobject, Json.asObject?, hranged, Option.bind_eq_bind,
    Option.bind_some]
  refine ⟨_, rfl, ?_, ?_, ?_⟩
  · unfold idxOf
    rw [hevent _ rfl "idx" (by decide)]
  · simp [EventPublish.get?, Fields.lookup_insert]
  · refine hrebuilt.fragment (hevent _ rfl) rfl hread ?_ hfirst
    intro hkey offset hoffset
    obtain ⟨canonical, hcanonical⟩ := Option.isSome_iff_exists.1 hkey
    obtain ⟨v, hv, _⟩ := Option.bind_eq_some_iff.1 hcanonical
    obtain ⟨offset', bytes, hoffset', hbytes, _, hroom, _⟩ := hrange (by rw [hv]; rfl)
    obtain ⟨_, _, hown, _⟩ := hread.canonical hkey
    rw [hoffset] at hoffset'
    rw [hbytes] at hown
    rw [Option.some.inj hoffset', ← Option.some.inj hown]
    exact hroom

end Fragments



/-! ## The client -/

/-- The text a client has for each stream. -/
abbrev Texts : Type := StreamKey → String

/-- The text of a stream after a fragment, which appends or replaces. -/
def applyFragment (texts : Texts) (fragment : Fragment) : Texts :=
  Function.update texts fragment.key
    (if fragment.replaces then fragment.text else texts fragment.key ++ fragment.text)

def receive (texts : Texts) (event : EventPublish) : Texts :=
  match fragmentOf event with
  | none => texts
  | some fragment => applyFragment texts fragment

/-- What a client has after these events. -/
def view (texts : Texts) (events : List EventPublish) : Texts :=
  events.foldl receive texts

theorem view_append (texts : Texts) (events events' : List EventPublish) :
    view texts (events ++ events') = view (view texts events) events' :=
  List.foldl_append

/-- Fragments of one stream, each at the indices right after the one before it. -/
def Consecutive (fragments : List Fragment) : Prop :=
  fragments.IsChain fun a b => b.key = a.key ∧ b.firstIdx = a.idx + 1

/--
A published event and the source events it stands for; `exact` says that the
bytes are declared exactly too, and not only the indices.
-/
inductive StandsFor (exact : Prop) : List EventPublish → EventPublish → Prop
  /-- An event that is published as it came. -/
  | alone (event : EventPublish) : StandsFor exact [event] event
  /-- A merged event: consecutive fragments of one stream, declared exactly. -/
  | merged {sources : List EventPublish} {event : EventPublish}
      (fragments : List Fragment) (first last shown : Fragment)
      (hsources : sources.map fragmentOf = fragments.map some)
      (hfirst : fragments.head? = some first)
      (hlast : fragments.getLast? = some last)
      (hmany : 2 ≤ fragments.length)
      (hfew : fragments.length ≤ maxMergedFragments)
      (hconsecutive : Consecutive fragments)
      (hranges : ∀ fragment ∈ fragments, fragment.firstIdx ≤ fragment.idx)
      (hidx : idxOf event = last.idx)
      (hcount : (event.get? "coalescedCount").bind Json.asI64? =
        some (last.idx - first.firstIdx + 1))
      (hshown : fragmentOf event = some shown)
      (hkey : shown.key = last.key)
      (hfirstIdx : last.contentOffset.isSome = true →
        shown.firstIdx = first.firstIdx)
      (hoffset : exact → shown.contentOffset = first.contentOffset)
      (hend : shown.contentEnd = last.contentEnd)
      (htexts : ∀ texts, applyFragment texts shown =
        fragments.foldl applyFragment texts) :
      StandsFor exact sources event

variable {exact total : Prop}

/-- Source events that are fragments act on a client as their fragments. -/
theorem view_fragments
    {sources : List EventPublish}
    {fragments : List Fragment}
    (h : sources.map fragmentOf = fragments.map some)
    (texts : Texts) :
    view texts sources = fragments.foldl applyFragment texts := by
  induction sources generalizing fragments texts with
  | nil =>
      cases fragments with
      | nil => rfl
      | cons fragment fragments => simp at h
  | cons source sources ih =>
      cases fragments with
      | nil =>
          simp at h
      | cons fragment fragments =>
          obtain ⟨hhead, htail⟩ := List.cons.inj h
          change view (receive texts source) sources = _
          rw [receive, hhead, ih htail]
          rfl

/-- A client has the same texts after an event as after what it stands for. -/
theorem StandsFor.view_eq
    {sources : List EventPublish}
    {event : EventPublish}
    (h : StandsFor exact sources event)
    (texts : Texts) :
    view texts sources = view texts [event] := by
  cases h with
  | alone =>
      rfl
  | merged fragments first last shown hsources _ _ _ _ _ _ _ _ hshown _ _ _ _ htexts =>
      rw [view_fragments hsources, ← htexts]
      change _ = receive texts event
      rw [receive, hshown]

/--
The published events stand for the source events, group by group and in order;
`total` says that no group is left out.
-/
def Partitions (exact total : Prop) (sources published : List EventPublish) : Prop :=
  ∃ groups kept : List (List EventPublish),
    groups.flatten = sources ∧ kept.Sublist groups ∧ (total → kept = groups) ∧
    List.Forall₂ (StandsFor exact) kept published

theorem Partitions.nil : Partitions exact total [] [] :=
  ⟨[], [], rfl, List.Sublist.refl _, fun _ => rfl, .nil⟩

theorem Partitions.append
    {sources published sources' published' : List EventPublish}
    (h : Partitions exact total sources published)
    (h' : Partitions exact total sources' published') :
    Partitions exact total (sources ++ sources') (published ++ published') := by
  obtain ⟨groups, kept, rfl, hkept, htotal, hstands⟩ := h
  obtain ⟨groups', kept', rfl, hkept', htotal', hstands'⟩ := h'
  refine ⟨groups ++ groups', kept ++ kept', List.flatten_append, hkept.append hkept',
    ?_, List.rel_append hstands hstands'⟩
  intro hall
  rw [htotal hall, htotal' hall]

theorem Partitions.one
    {sources : List EventPublish}
    {event : EventPublish}
    (h : StandsFor exact sources event) :
    Partitions exact total sources [event] :=
  ⟨[sources], [sources], by simp, List.Sublist.refl _, fun _ => rfl, .cons h .nil⟩

/-- A group that is not published. -/
theorem Partitions.dropped
    (sources : List EventPublish)
    (h : ¬total) :
    Partitions exact total sources [] :=
  ⟨[sources], [], by simp, List.nil_sublist _, fun hall => absurd hall h, .nil⟩

/--
Coalescing is invisible to an appending client: the published events stand for
the source events, group by group and in order; what is not a fragment stands
alone; and after each of them the client has the texts it would have had after
the last source event it stands for.
-/
def Invisible (sources published : List EventPublish) : Prop :=
  ∃ groups : List (List EventPublish),
    groups.flatten = sources ∧
    List.Forall₂ (StandsFor True) groups published ∧
    (∀ group ∈ groups, ∀ event ∈ group, fragmentOf event = none → group = [event]) ∧
    ∀ texts k, view texts (published.take k) = view texts (groups.take k).flatten

theorem StandsFor.fragment_of_mem
    {sources : List EventPublish}
    {event : EventPublish}
    (h : StandsFor exact sources event) :
    ∀ source ∈ sources, fragmentOf source = none → sources = [source] := by
  intro source hmem hnone
  cases h with
  | alone =>
      rw [List.mem_singleton.1 hmem]
  | merged fragments _ _ _ hsources =>
      have hread := List.mem_map_of_mem (f := fragmentOf) hmem
      rw [hsources, hnone] at hread
      simp at hread

theorem view_groups
    {groups : List (List EventPublish)}
    {published : List EventPublish}
    (h : List.Forall₂ (StandsFor exact) groups published)
    (texts : Texts) :
    view texts published = view texts groups.flatten := by
  induction h generalizing texts with
  | nil =>
      rfl
  | @cons group event groups published hstands _ ih =>
      rw [List.flatten_cons, view_append, hstands.view_eq, ← ih]
      rfl

theorem exists_standsFor
    {groups : List (List EventPublish)}
    {published : List EventPublish}
    (h : List.Forall₂ (StandsFor exact) groups published) :
    ∀ group ∈ groups, ∃ event, StandsFor exact group event := by
  induction h with
  | nil =>
      simp
  | cons hstands _ ih =>
      intro group hgroup
      rcases List.mem_cons.1 hgroup with rfl | hrest
      · exact ⟨_, hstands⟩
      · exact ih group hrest

theorem Partitions.invisible
    {sources published : List EventPublish}
    (h : Partitions True True sources published) :
    Invisible sources published := by
  obtain ⟨groups, kept, hflatten, _, htotal, hstands⟩ := h
  rw [htotal trivial] at hstands
  refine ⟨groups, hflatten, hstands, ?_, ?_⟩
  · intro group hgroup
    obtain ⟨event, hevent⟩ := exists_standsFor hstands group hgroup
    exact hevent.fragment_of_mem
  · intro texts k
    exact view_groups (List.forall₂_take k hstands) texts

/-! ## A group and its sources -/

/-- A canonical fragment has a range of indices, like the group it joins. -/
def Ranged (p : PendingGroup) (fragment : Fragment) : Prop :=
  fragment.contentOffset.isSome = true →
    p.firstIdx ≤ p.newestIdx ∧
      fragment.firstIdx ≤ fragment.idx ∧
      -2 ^ 63 ≤ p.firstIdx ∧
      fragment.idx - p.firstIdx + 1 < 2 ^ 63

/-- A canonical fragment does not replace bytes of the group it joins. -/
def Appends (p : PendingGroup) (fragment : Fragment) : Prop :=
  fragment.contentOffset.isSome = true → fragment.replaces = true → p.text = ""

instance (p : PendingGroup) (fragment : Fragment) : Decidable (Ranged p fragment) := by
  unfold Ranged
  infer_instance

instance (p : PendingGroup) (fragment : Fragment) : Decidable (Appends p fragment) := by
  unfold Appends
  infer_instance

/-- How a group has come about, fragment by fragment. -/
inductive Gathers (exact : Prop) :
    PendingGroup → List Fragment → List EventPublish → Prop
  | start {fragment : Fragment} {event : EventPublish} {now : Nat} :
      fragmentOf event = some fragment →
      Gathers exact (.start fragment event now) [fragment] [event]
  | join {p : PendingGroup} {fragments : List Fragment} {sources : List EventPublish}
      {fragment : Fragment} {event : EventPublish} :
      Gathers exact p fragments sources →
      fragmentOf event = some fragment →
      p.accepts fragment event = true →
      Ranged p fragment →
      (exact → Appends p fragment) →
      Gathers exact (p.join fragment event) (fragments ++ [fragment])
        (sources ++ [event])

/-- The bytes and indices of one fragment. -/
structure Placed (fragment : Fragment) : Prop where
  plain : fragment.contentOffset = none →
    fragment.contentEnd = none ∧ fragment.firstIdx = fragment.idx
  canonical : ∀ offset, fragment.contentOffset = some offset →
    fragment.contentEnd = some (offset + fragment.text.utf8ByteSize)

theorem placed_of_fragmentOf
    {event : EventPublish}
    {fragment : Fragment}
    (h : fragmentOf event = some fragment) :
    Placed fragment := by
  obtain ⟨eventType, data, text, hread, rfl⟩ := fragmentOf_eq_some_iff.1 h
  cases hkey : canonicalOf data with
  | none =>
      obtain ⟨hidx, hoffset, hend⟩ := Read.plain hkey
      refine ⟨fun _ => ⟨hend, hidx⟩, fun offset hsome => ?_⟩
      rw [hoffset] at hsome
      simp at hsome
  | some canonical =>
      obtain ⟨offset, _, _, hoffset, hend, _⟩ := hread.canonical (by rw [hkey]; rfl)
      refine ⟨fun hnone => ?_, fun offset' hsome => ?_⟩
      · exact absurd (hoffset.symm.trans hnone) (by simp)
      · obtain rfl := Option.some.inj (hoffset.symm.trans hsome)
        exact hend

/-- What a group keeps of its fragments. -/
structure Summary
    (p : PendingGroup)
    (fragments : List Fragment)
    (sources : List EventPublish)
    (first last : Fragment) : Prop where
  read : sources.map fragmentOf = fragments.map some
  head : fragments.head? = some first
  tail : fragments.getLast? = some last
  newest : fragmentOf p.event = some last
  keys : ∀ fragment ∈ fragments, fragment.key = p.key
  newestIdx : p.newestIdx = last.idx
  firstIdx : p.firstIdx = first.firstIdx
  contentEnd : p.contentEnd = last.contentEnd
  count : p.merged + 1 = fragments.length
  bound : p.merged < maxMergedFragments
  consecutive : Consecutive fragments
  texts : ∀ texts, fragments.foldl applyFragment texts =
    Function.update texts p.key
      (if p.replaces then p.text else texts p.key ++ p.text)

theorem applyFragment_update
    (texts : Texts)
    (key : StreamKey)
    (text : String)
    {fragment : Fragment}
    (hkey : fragment.key = key) :
    applyFragment (Function.update texts key text) fragment =
      Function.update texts key
        (if fragment.replaces then fragment.text else text ++ fragment.text) := by
  unfold applyFragment
  rw [hkey, Function.update_self, Function.update_idem]

theorem Gathers.summary
    {p : PendingGroup}
    {fragments : List Fragment}
    {sources : List EventPublish}
    (h : Gathers exact p fragments sources) :
    ∃ first last, Summary p fragments sources first last := by
  induction h with
  | @start fragment event now hread =>
      refine ⟨fragment, fragment, by simp [hread], rfl, rfl, hread, ?_, rfl, rfl, rfl,
        rfl, show 0 < maxMergedFragments by decide, List.isChain_singleton _, ?_⟩
      · intro other hother
        rw [List.mem_singleton.1 hother]
        rfl
      · intro texts
        rfl
  | @join p fragments sources fragment event _ hread haccepts _ _ ih =>
      obtain ⟨first, last, ih⟩ := ih
      simp only [PendingGroup.accepts, decide_eq_true_eq] at haccepts
      obtain ⟨hkey, hnext, _, hcount, _⟩ := haccepts
      obtain ⟨hnext, _⟩ := checkedAdd_eq_some.1 hnext
      refine ⟨first, fragment, by simp [ih.read, hread], ?_, by simp, hread, ?_, rfl,
        ih.firstIdx, rfl, ?_, hcount, ?_, ?_⟩
      · rw [List.head?_append, ih.head]
        rfl
      · intro other hother
        rcases List.mem_append.1 hother with hold | hnew
        · exact ih.keys other hold
        · rw [List.mem_singleton.1 hnew]
          exact hkey.symm
      · rw [List.length_append, ← ih.count]
        rfl
      · refine List.IsChain.append ih.consecutive (List.isChain_singleton _) ?_
        intro a ha b hb
        obtain rfl := Option.some.inj (ih.tail.symm.trans ha)
        obtain rfl := Option.some.inj hb
        have hmem : last ∈ fragments := List.mem_of_getLast? ih.tail
        refine ⟨hkey.symm.trans (ih.keys last hmem).symm, ?_⟩
        rw [← hnext, ih.newestIdx]
      · intro texts
        rw [List.foldl_append, ih.texts, List.foldl_cons, List.foldl_nil,
          applyFragment_update texts p.key _ hkey.symm]
        congr 1
        unfold PendingGroup.join
        cases fragment.replaces <;> cases p.replaces <;> simp [String.append_assoc]

/-- A group of fragments without a content key: one index each. -/
structure Plainly (p : PendingGroup) (fragments : List Fragment) : Prop where
  contentEnd : p.contentEnd = none
  counted : p.newestIdx = p.firstIdx + p.merged
  indices : ∀ fragment ∈ fragments,
    fragment.contentOffset = none ∧ fragment.firstIdx = fragment.idx

/-- A group of canonical fragments: the bytes of its text, up to where it ends. -/
structure Canonically
    (exact : Prop)
    (p : PendingGroup)
    (fragments : List Fragment)
    (offset : Nat) : Prop where
  contentEnd : ∃ stop, p.contentEnd = some stop ∧ p.text.utf8ByteSize ≤ stop ∧
    (exact → stop = offset + p.text.utf8ByteSize)
  offsets : ∀ fragment ∈ fragments, fragment.contentOffset.isSome = true
  ranges : p.merged ≠ 0 →
    (∀ fragment ∈ fragments, fragment.firstIdx ≤ fragment.idx) ∧
      p.firstIdx ≤ p.newestIdx ∧ -2 ^ 63 ≤ p.firstIdx ∧
      p.newestIdx - p.firstIdx + 1 < 2 ^ 63

theorem Gathers.plainly
    {p : PendingGroup}
    {fragments : List Fragment}
    {sources : List EventPublish}
    (h : Gathers exact p fragments sources)
    {first : Fragment}
    (hfirst : fragments.head? = some first)
    (hplain : first.contentOffset = none) :
    Plainly p fragments := by
  induction h with
  | start hread =>
      obtain rfl := Option.some.inj hfirst
      obtain ⟨hend, hidx⟩ := (placed_of_fragmentOf hread).plain hplain
      refine ⟨hend, ?_, ?_⟩
      · simp [PendingGroup.start, hidx]
      · intro other hother
        rw [List.mem_singleton.1 hother]
        exact ⟨hplain, hidx⟩
  | @join p fragments sources fragment event hgathers hread haccepts _ _ ih =>
      obtain ⟨first', last, hsummary⟩ := hgathers.summary
      rw [List.head?_append, hsummary.head] at hfirst
      obtain rfl := Option.some.inj hfirst
      have hold := ih hsummary.head
      simp only [PendingGroup.accepts, decide_eq_true_eq] at haccepts
      obtain ⟨_, hnext, hoffset, _, _⟩ := haccepts
      obtain ⟨hnext, _⟩ := checkedAdd_eq_some.1 hnext
      rw [hold.contentEnd] at hoffset
      obtain ⟨hend, hidx⟩ := (placed_of_fragmentOf hread).plain hoffset.symm
      refine ⟨hend, ?_, ?_⟩
      · change fragment.idx = p.firstIdx + ((p.merged + 1 : Nat) : Int)
        have hcounted := hold.counted
        omega
      · intro other hother
        rcases List.mem_append.1 hother with hin | hnew
        · exact hold.indices other hin
        · rw [List.mem_singleton.1 hnew]
          exact ⟨hoffset.symm, hidx⟩

theorem Gathers.canonically
    {p : PendingGroup}
    {fragments : List Fragment}
    {sources : List EventPublish}
    (h : Gathers exact p fragments sources)
    {first : Fragment}
    (hfirst : fragments.head? = some first)
    {offset : Nat}
    (hcanonical : first.contentOffset = some offset) :
    Canonically exact p fragments offset := by
  induction h with
  | start hread =>
      obtain rfl := Option.some.inj hfirst
      refine ⟨⟨_, (placed_of_fragmentOf hread).canonical _ hcanonical,
        Nat.le_add_left _ _, fun _ => rfl⟩, ?_, ?_⟩
      · intro other hother
        rw [List.mem_singleton.1 hother, hcanonical]
        rfl
      · intro hmerged
        exact absurd rfl hmerged
  | @join p fragments sources fragment event hgathers hread haccepts hranged hexact ih =>
      obtain ⟨first', last, hsummary⟩ := hgathers.summary
      rw [List.head?_append, hsummary.head] at hfirst
      obtain rfl := Option.some.inj hfirst
      have hold := ih hsummary.head
      simp only [PendingGroup.accepts, decide_eq_true_eq] at haccepts
      obtain ⟨_, hnext, hoffset, _, _⟩ := haccepts
      obtain ⟨hnext, _⟩ := checkedAdd_eq_some.1 hnext
      obtain ⟨stop, hstop, hroom, hend⟩ := hold.contentEnd
      rw [hstop] at hoffset
      have hsome : fragment.contentOffset.isSome = true := by
        rw [← hoffset]
        rfl
      obtain ⟨hrange, hown, hlow, hwidth⟩ := hranged hsome
      refine ⟨⟨stop + fragment.text.utf8ByteSize,
        (placed_of_fragmentOf hread).canonical _ hoffset.symm, ?_, ?_⟩, ?_, ?_⟩
      · unfold PendingGroup.join
        cases hcase : fragment.replaces with
        | true =>
            simp
        | false =>
            simp only [Bool.false_eq_true, if_false, String.utf8ByteSize_append]
            omega
      · intro hall
        have hsum := hend hall
        unfold PendingGroup.join
        cases hcase : fragment.replaces with
        | true =>
            rw [hexact hall hsome hcase] at hsum
            simpa using hsum
        | false =>
            simp only [Bool.false_eq_true, if_false, String.utf8ByteSize_append]
            omega
      · intro other hother
        rcases List.mem_append.1 hother with hin | hnew
        · exact hold.offsets other hin
        · rw [List.mem_singleton.1 hnew]
          exact hsome
      · intro _
        refine ⟨?_, ?_, hlow, hwidth⟩
        · intro other hother
          rcases List.mem_append.1 hother with hin | hnew
          · by_cases hone : p.merged = 0
            · have hcount := hsummary.count
              rw [hone] at hcount
              obtain ⟨only, honly⟩ := List.length_eq_one_iff.1 hcount.symm
              have hhead := hsummary.head
              have htail := hsummary.tail
              rw [honly] at hin hhead htail
              obtain rfl := List.mem_singleton.1 hin
              obtain rfl := Option.some.inj hhead
              obtain rfl := Option.some.inj htail
              rw [hsummary.firstIdx, hsummary.newestIdx] at hrange
              exact hrange
            · exact (hold.ranges hone).1 other hin
          · rw [List.mem_singleton.1 hnew]
            exact hown
        · change p.firstIdx ≤ fragment.idx
          omega

/-! ## Publishing a group -/

theorem wrapI64_of_range
    {n : Int}
    (hlow : -2 ^ 63 ≤ n)
    (hhigh : n < 2 ^ 63) :
    wrapI64 n = n := by
  unfold wrapI64
  rw [Int.bmod_def]
  split <;> omega

theorem idxOf_lt (event : EventPublish) : idxOf event < 2 ^ 63 := by
  unfold idxOf
  cases hidx : (event.get? "idx").bind Json.asI64? with
  | none =>
      simp
  | some idx =>
      obtain ⟨v, _, hv⟩ := Option.bind_eq_some_iff.1 hidx
      rw [Option.getD_some]
      unfold Json.asI64? at hv
      split at hv
      · split at hv
        · rw [← Option.some.inj hv]
          omega
        · simp at hv
      · rw [← Option.some.inj hv]
        omega
      · simp at hv

/--
What a group of several needs of its newest event when it is published: where
its `data` has a content key, there is an index, and the key is a text or there
is a byte range with room for the group's text.
-/
def Declarable (p : PendingGroup) : Prop :=
  p.merged ≠ 0 → ∀ data ∈ p.event.payload.data.map Data.value,
    (data.get? "content_key").isSome = true →
    ((p.event.get? "idx").bind Json.asI64?).isSome = true ∧
      ((canonicalOf data).isSome = true ∨
        ∃ offset ∈ natOf data "content_offset",
          ∃ bytes ∈ natOf data "content_bytes",
            offset + bytes < 2 ^ 64 ∧ p.text.utf8ByteSize ≤ offset + bytes)

instance (p : PendingGroup) : Decidable (Declarable p) := by
  unfold Declarable
  infer_instance

/-- The count of a group of several is the number of its indices. -/
theorem Gathers.covered_eq
    {p : PendingGroup}
    {fragments : List Fragment}
    {sources : List EventPublish}
    (h : Gathers exact p fragments sources)
    (hmerged : p.merged ≠ 0) :
    (p.covered : Int) = p.newestIdx - p.firstIdx + 1 ∧ p.covered < 2 ^ 63 := by
  obtain ⟨first, last, hsummary⟩ := h.summary
  unfold PendingGroup.covered
  cases hoffset : first.contentOffset with
  | none =>
      have hplain := h.plainly hsummary.head hoffset
      have hcounted := hplain.counted
      have hbound := hsummary.bound
      unfold maxMergedFragments at hbound
      rw [hplain.contentEnd, if_neg (by simp)]
      omega
  | some offset =>
      have hcanonical := h.canonically hsummary.head hoffset
      obtain ⟨stop, hstop, _⟩ := hcanonical.contentEnd
      obtain ⟨_, hrange, hlow, hwidth⟩ := hcanonical.ranges hmerged
      have hwrap : wrapI64 (p.newestIdx - p.firstIdx + 1) =
          p.newestIdx - p.firstIdx + 1 := wrapI64_of_range (by omega) hwidth
      simp only [hstop, Option.isSome_some, if_true, hwrap]
      omega

theorem Gathers.replaces
    {p : PendingGroup}
    {fragments : List Fragment}
    {sources : List EventPublish}
    (h : Gathers exact p fragments sources)
    {last : Fragment}
    (hlast : fragmentOf p.event = some last)
    (hreplaces : last.replaces = true) :
    p.replaces = true := by
  cases h with
  | start hread =>
      obtain rfl := Option.some.inj (hread.symm.trans hlast)
      exact hreplaces
  | join _ hread _ _ _ =>
      obtain rfl := Option.some.inj (hread.symm.trans hlast)
      change (_ || _) = true
      rw [hreplaces, Bool.or_true]

/-- A group of several is published as one event that stands for its sources. -/
theorem Gathers.publish_merged
    {p : PendingGroup}
    {fragments : List Fragment}
    {sources : List EventPublish}
    (h : Gathers exact p fragments sources)
    (hmerged : p.merged ≠ 0)
    (hdeclarable : Declarable p) :
    ∃ event, p.publish = [event] ∧ StandsFor exact sources event := by
  obtain ⟨first, last, hsummary⟩ := h.summary
  obtain ⟨hcovered, hlimit⟩ := h.covered_eq hmerged
  obtain ⟨eventType, data, own, hread, hlast⟩ :=
    fragmentOf_eq_some_iff.1 hsummary.newest
  have hidx : last.idx = idxOf p.event := by rw [hlast]; rfl
  have hback : idxOf p.event - (p.covered : Int) + 1 = p.firstIdx := by
    have hnewest := hsummary.newestIdx
    omega
  have hcanonical : (canonicalOf data).isSome = true →
      ∃ offset, first.contentOffset = some offset := by
    intro hkey
    obtain ⟨_, _, _, hoffset, _⟩ := hread.canonical hkey
    cases hnone : first.contentOffset with
    | some offset => exact ⟨offset, rfl⟩
    | none =>
        have hplain := h.plainly hsummary.head hnone
        have hlastOffset := (hplain.indices last
          (List.mem_of_getLast? hsummary.tail)).1
        rw [hlast] at hlastOffset
        exact absurd (hoffset.symm.trans hlastOffset) (by simp)
  have hrange : Rangeable p.event data p.text p.covered := by
    intro hpresent
    obtain ⟨hindexed, hkeyed⟩ := hdeclarable hmerged data hread.carried hpresent
    rcases hkeyed with hkey | ⟨offset, hoffset, bytes, hbytes, hfits, hroom⟩
    · obtain ⟨offset, hfirst⟩ := hcanonical hkey
      have hgroup := h.canonically hsummary.head hfirst
      obtain ⟨start, hstart, hbytes, _, hend, hfits⟩ := hread.canonical hkey
      obtain ⟨stop, hstop, hroom, _⟩ := hgroup.contentEnd
      have hsame : some (start + own.utf8ByteSize) = some stop := by
        rw [← hend, ← hstop, hsummary.contentEnd, hlast]
        rfl
      have hsum := Option.some.inj hsame
      exact ⟨start, _, hstart, hbytes, hfits, by omega, hindexed, hlimit⟩
    · exact ⟨offset, bytes, hoffset, hbytes, hfits, hroom, hindexed, hlimit⟩
  have hfirstRange : (canonicalOf data).isSome = true →
      -2 ^ 63 ≤ p.firstIdx ∧ p.firstIdx < 2 ^ 63 := by
    intro hkey
    obtain ⟨offset, hfirst⟩ := hcanonical hkey
    obtain ⟨_, hle, hlow, _⟩ := (h.canonically hsummary.head hfirst).ranges hmerged
    have hidxlt := idxOf_lt p.event
    have hnewest := hsummary.newestIdx
    exact ⟨hlow, by omega⟩
  obtain ⟨payload, hpayload, hidx', hcount, hshown⟩ :=
    mergedPayload_spec p.replaces hread hrange (by
      intro hkey
      obtain ⟨hlow, hhigh⟩ := hfirstRange hkey
      rw [hback, wrapI64_of_range hlow hhigh]
      exact ⟨hlow, hhigh⟩)
  refine ⟨{ p.event with payload := payload }, ?_, ?_⟩
  · rw [PendingGroup.publish, if_neg hmerged, hpayload]
  · rw [← hlast] at hshown
    refine .merged fragments first last _ hsummary.read hsummary.head hsummary.tail
      ?_ ?_ hsummary.consecutive ?_ (hidx'.trans hidx.symm) ?_ hshown rfl ?_ ?_ rfl ?_
    · have hlength := hsummary.count
      omega
    · have hlength := hsummary.count
      have hbound := hsummary.bound
      omega
    · cases hoffset : first.contentOffset with
      | none =>
          intro fragment hmem
          rw [((h.plainly hsummary.head hoffset).indices fragment hmem).2]
      | some offset =>
          exact ((h.canonically hsummary.head hoffset).ranges hmerged).1
    · rw [hcount, Option.bind_some, Json.asI64?, if_pos hlimit, ← hsummary.newestIdx,
        ← hsummary.firstIdx, ← hcovered]
    · intro hsome
      have hkey : (canonicalOf data).isSome = true := by
        refine canonicalOf_isSome_of_offset ?_
        rw [hlast] at hsome
        exact hsome
      obtain ⟨hlow, hhigh⟩ := hfirstRange hkey
      simp only [declared, hsome, if_true]
      rw [hidx, hback, wrapI64_of_range hlow hhigh, hsummary.firstIdx]
    · intro hall
      change last.contentEnd.map _ = _
      rw [← hsummary.contentEnd]
      cases hoffset : first.contentOffset with
      | none =>
          rw [(h.plainly hsummary.head hoffset).contentEnd, Option.map_none]
      | some offset =>
          obtain ⟨stop, hstop, _, hsum⟩ := (h.canonically hsummary.head hoffset).contentEnd
          rw [hstop, Option.map_some, hsum hall, Nat.add_sub_cancel]
    · intro texts
      have hkey : last.key = p.key :=
        hsummary.keys last (List.mem_of_getLast? hsummary.tail)
      have hreplaces : (p.replaces || last.replaces) = p.replaces := by
        cases hcase : last.replaces with
        | true => rw [h.replaces hsummary.newest hcase, Bool.or_true]
        | false => rw [Bool.or_false]
      rw [hsummary.texts]
      unfold applyFragment declared
      simp only [hkey, hreplaces]

/-- Where `data` cannot be rebuilt, there is no range to put into it. -/
theorem rangedData_eq_none
    {event : EventPublish}
    {object : List (String × Json)}
    {text : String}
    (covered : Nat)
    (hpresent : ((Json.obj object).get? "content_key").isSome = true)
    (h : ¬(((event.get? "idx").bind Json.asI64?).isSome = true ∧
      ∃ offset ∈ natOf (.obj object) "content_offset",
        ∃ bytes ∈ natOf (.obj object) "content_bytes",
          offset + bytes < 2 ^ 64 ∧ text.utf8ByteSize ≤ offset + bytes)) :
    rangedData event object text covered = none := by
  by_contra hsome
  obtain ⟨object', hsome⟩ := Option.ne_none_iff_exists'.1 hsome
  have hkeyed : (Fields.lookup "content_key" object).isSome = true := hpresent
  unfold rangedData at hsome
  rw [if_pos hkeyed] at hsome
  obtain ⟨v, hv, hsome⟩ := Option.bind_eq_some_iff.1 hsome
  obtain ⟨offset, hoffset, hsome⟩ := Option.bind_eq_some_iff.1 hsome
  obtain ⟨w, hw, hsome⟩ := Option.bind_eq_some_iff.1 hsome
  obtain ⟨bytes, hbytes, hsome⟩ := Option.bind_eq_some_iff.1 hsome
  obtain ⟨stop, hstop, hsome⟩ := Option.bind_eq_some_iff.1 hsome
  obtain ⟨rfl, hfits⟩ := checkedAddU64_eq_some.1 hstop
  split at hsome
  · simp at hsome
  · rename_i hroom
    obtain ⟨x, hx, hsome⟩ := Option.bind_eq_some_iff.1 hsome
    obtain ⟨idx, hidx, _⟩ := Option.bind_eq_some_iff.1 hsome
    refine h ⟨?_, offset, ?_, bytes, ?_, hfits, Nat.not_lt.1 hroom⟩
    · rw [hx, Option.bind_some, hidx]
      rfl
    · exact Option.bind_eq_some_iff.2 ⟨v, hv, hoffset⟩
    · exact Option.bind_eq_some_iff.2 ⟨w, hw, hbytes⟩

/-- A group of several that cannot be declared is not published. -/
theorem Gathers.publish_undeclarable
    {p : PendingGroup}
    {fragments : List Fragment}
    {sources : List EventPublish}
    (h : Gathers exact p fragments sources)
    (hmerged : p.merged ≠ 0)
    (hundeclarable : ¬Declarable p) :
    p.publish = [] := by
  obtain ⟨first, last, hsummary⟩ := h.summary
  simp only [Declarable, hmerged, ne_eq, not_false_eq_true, forall_const, not_forall]
    at hundeclarable
  obtain ⟨data, hdata, hpresent, hwrong⟩ := hundeclarable
  obtain ⟨value, hvalue, rfl⟩ := Option.map_eq_some_iff.1 hdata
  obtain ⟨object, hobject⟩ : ∃ object, value.value = .obj object := by
    unfold Json.get? at hpresent
    cases hcase : value.value with
    | obj object => exact ⟨object, rfl⟩
    | _ => simp [hcase, Json.asObject?] at hpresent
  rw [hobject] at hpresent hwrong
  have hnone : rangedData p.event object p.text p.covered = none := by
    refine rangedData_eq_none p.covered hpresent ?_
    rintro ⟨hidx, hroom⟩
    exact hwrong ⟨hidx, Or.inr hroom⟩
  have hpayload : mergedPayload p.event p.text p.covered p.replaces = none := by
    unfold mergedPayload
    cases p.event.payload.fields with
    | none => rfl
    | some fields =>
        simp only [hvalue, hobject, Json.asObject?, hnone, Option.bind_eq_bind,
          Option.bind_some, Option.bind_none]
  rw [PendingGroup.publish, if_neg hmerged, hpayload]

theorem Gathers.publish
    {p : PendingGroup}
    {fragments : List Fragment}
    {sources : List EventPublish}
    (h : Gathers exact p fragments sources)
    (hdeclarable : total → Declarable p) :
    Partitions exact total sources p.publish := by
  by_cases hmerged : p.merged = 0
  · rw [PendingGroup.publish, if_pos hmerged]
    cases h with
    | start _ => exact .one (.alone _)
    | join _ _ _ _ _ => exact absurd hmerged (Nat.succ_ne_zero _)
  · by_cases hcase : Declarable p
    · obtain ⟨event, hevent, hstands⟩ := h.publish_merged hmerged hcase
      rw [hevent]
      exact .one hstands
    · rw [h.publish_undeclarable hmerged hcase]
      exact .dropped _ fun hall => hcase (hdeclarable hall)

/-! ## The lane -/

inductive LaneOp
  | offer (event : EventPublish) (now : Nat)
  | flush

namespace Lane

def step (c : Coalescer) : LaneOp → Coalescer
  | .offer event now => (c.offer event now).1
  | .flush => c.flush.1

def published (c : Coalescer) : LaneOp → List EventPublish
  | .offer event now => (c.offer event now).2
  | .flush => c.flush.2

/-- The source events of a run. -/
def offered (ops : List LaneOp) : List EventPublish :=
  ops.flatMap fun
    | .offer event _ => [event]
    | .flush => []

/-- The group an operation publishes. -/
def closes (c : Coalescer) : LaneOp → Option PendingGroup
  | .flush => c.pending
  | .offer event now =>
      if c.expired now then
        c.pending
      else
        match fragmentOf event with
        | none => c.pending
        | some fragment => c.pending.filter fun p => !p.accepts fragment event

/-- The group an operation joins, with the fragment. -/
def extends? (c : Coalescer) : LaneOp → Option (PendingGroup × Fragment)
  | .flush => none
  | .offer event now =>
      if c.expired now then
        none
      else
        (fragmentOf event).bind fun fragment =>
          (c.pending.filter fun p => p.accepts fragment event).map fun p =>
            (p, fragment)

/-- A group that grows has a range of indices. -/
def Ranges (c : Coalescer) (op : LaneOp) : Prop :=
  ∀ q ∈ extends? c op, Ranged q.1 q.2

/-- The group that is published can be declared, and so can the one that grows. -/
def Declares (c : Coalescer) (op : LaneOp) : Prop :=
  (∀ p ∈ closes c op, Declarable p) ∧
    ∀ q ∈ extends? c op, Ranged q.1 q.2 ∧ Appends q.1 q.2

instance (c : Coalescer) (op : LaneOp) : Decidable (Ranges c op) := by
  unfold Ranges
  infer_instance

instance (c : Coalescer) (op : LaneOp) : Decidable (Declares c op) := by
  unfold Declares
  infer_instance

/-- What a step needs for its groups to be declared as far as this. -/
structure Allows (exact total : Prop) (c : Coalescer) (op : LaneOp) : Prop where
  ranges : Ranges c op
  appends : exact → ∀ q ∈ extends? c op, Appends q.1 q.2
  declares : total → ∀ p ∈ closes c op, Declarable p

theorem Declares.allows
    {c : Coalescer}
    {op : LaneOp}
    (h : Declares c op) :
    Allows True True c op :=
  ⟨fun q hq => (h.2 q hq).1, fun _ q hq => (h.2 q hq).2, fun _ => h.1⟩

/-- The pending group has come about from these sources. -/
def Holds (exact : Prop) (c : Coalescer) (sources : List EventPublish) : Prop :=
  match c.pending with
  | none => sources = []
  | some p => ∃ fragments, Gathers exact p fragments sources

/-- What was published stands for what was offered, less what is pending. -/
def Invariant
    (exact total : Prop)
    (c : Coalescer)
    (sources published : List EventPublish) : Prop :=
  ∃ past waiting, sources = past ++ waiting ∧
    Partitions exact total past published ∧ Holds exact c waiting

theorem flush_holds
    {c : Coalescer}
    {waiting : List EventPublish}
    (h : Holds exact c waiting)
    (hdeclarable : total → ∀ p ∈ c.pending, Declarable p) :
    Partitions exact total waiting c.flush.2 ∧ c.flush.1.pending = none := by
  unfold Coalescer.flush
  unfold Holds at h
  cases hpending : c.pending with
  | none =>
      rw [hpending] at h
      rw [h]
      exact ⟨.nil, hpending⟩
  | some p =>
      rw [hpending] at h
      obtain ⟨fragments, hgathers⟩ := h
      exact ⟨hgathers.publish fun hall => hdeclarable hall p hpending, rfl⟩

/-- What offering an event to a live group does. -/
theorem offerLive_holds
    {c : Coalescer}
    {waiting : List EventPublish}
    (event : EventPublish)
    (now : Nat)
    (h : Holds exact c waiting)
    (hcloses : total → ∀ p ∈ c.pending,
      (∀ fragment, fragmentOf event = some fragment →
        p.accepts fragment event = false) → Declarable p)
    (hjoins : ∀ p ∈ c.pending, ∀ fragment, fragmentOf event = some fragment →
      p.accepts fragment event = true →
      Ranged p fragment ∧ (exact → Appends p fragment)) :
    ∃ past waiting', waiting ++ [event] = past ++ waiting' ∧
      Partitions exact total past (c.offerLive event now).2 ∧
      Holds exact (c.offerLive event now).1 waiting' := by
  unfold Coalescer.offerLive
  cases hread : fragmentOf event with
  | none =>
      have hflush := flush_holds h fun hall p hp => hcloses hall p hp
        fun fragment hfragment => by
          rw [hread] at hfragment
          simp at hfragment
      refine ⟨waiting ++ [event], [], by simp, hflush.1.append (.one (.alone event)), ?_⟩
      unfold Holds
      rw [hflush.2]
  | some fragment =>
      cases hpending : c.pending with
      | none =>
          unfold Holds at h
          rw [hpending] at h
          rw [h]
          exact ⟨[], [event], rfl, .nil, [fragment], .start hread⟩
      | some p =>
          dsimp only
          split
          · rename_i haccepts
            unfold Holds at h
            rw [hpending] at h
            obtain ⟨fragments, hgathers⟩ := h
            obtain ⟨hranged, hexact⟩ := hjoins p hpending fragment hread haccepts
            exact ⟨[], waiting ++ [event], rfl, .nil, _,
              hgathers.join hread haccepts hranged hexact⟩
          · rename_i haccepts
            have hflush := flush_holds h fun hall q hq => hcloses hall q hq
              fun fragment' hfragment => by
                obtain rfl := Option.some.inj (hpending.symm.trans hq)
                obtain rfl := Option.some.inj (hread.symm.trans hfragment)
                exact Bool.eq_false_iff.2 haccepts
            exact ⟨waiting, [event], rfl, hflush.1, [fragment], .start hread⟩

theorem invariant_step
    {c : Coalescer}
    {sources out : List EventPublish}
    (h : Invariant exact total c sources out)
    {op : LaneOp}
    (hallows : Allows exact total c op) :
    Invariant exact total (step c op) (sources ++ offered [op]) (out ++ published c op) := by
  obtain ⟨past, waiting, rfl, hpast, hholds⟩ := h
  obtain ⟨hranges, hexact, hcloses⟩ := hallows
  cases op with
  | flush =>
      obtain ⟨hflush, hnone⟩ := flush_holds hholds hcloses
      refine ⟨past ++ waiting, [], by simp [offered], hpast.append hflush, ?_⟩
      unfold Holds
      rw [step, hnone]
  | offer event now =>
      rw [step, published]
      unfold Coalescer.offer
      cases hexpired : c.expired now with
      | true =>
          simp only [closes, hexpired, if_true] at hcloses ⊢
          obtain ⟨hflush, hnone⟩ := flush_holds hholds hcloses
          have hempty : Holds exact c.flush.1 [] := by
            unfold Holds
            rw [hnone]
          obtain ⟨done, waiting', hsplit, hdone, hholds'⟩ :=
            offerLive_holds event now hempty (by simp [hnone]) (by simp [hnone])
          refine ⟨past ++ waiting ++ done, waiting', ?_, ?_, hholds'⟩
          · rw [List.append_assoc _ done, ← hsplit]
            simp [offered]
          · rw [← List.append_assoc]
            exact (hpast.append hflush).append hdone
      | false =>
          simp only [Bool.false_eq_true, if_false]
          obtain ⟨done, waiting', hsplit, hdone, hholds'⟩ :=
            offerLive_holds event now hholds
              (fun hall p hp hnone => hcloses hall p (by
                simp only [closes, hexpired, Bool.false_eq_true, if_false]
                cases hread : fragmentOf event with
                | none => exact hp
                | some fragment =>
                    simp only [Option.mem_def, Option.filter_eq_some_iff]
                    exact ⟨hp, by simp [hnone fragment hread]⟩))
              (fun p hp fragment hread haccepts => by
                have hgrows : (p, fragment) ∈ extends? c (.offer event now) := by
                  simp only [extends?, hexpired, Bool.false_eq_true, if_false, hread,
                    Option.bind_some, Option.mem_def, Option.map_eq_some_iff,
                    Option.filter_eq_some_iff]
                  exact ⟨p, ⟨hp, haccepts⟩, rfl⟩
                exact ⟨hranges _ hgrows, fun hall => hexact hall _ hgrows⟩)
          refine ⟨past ++ done, waiting', ?_, hpast.append hdone, hholds'⟩
          rw [List.append_assoc past done, ← hsplit]
          simp [offered]

/-- A new coalescer with this window. -/
def fresh (window : Nat) : Coalescer :=
  ⟨none, window⟩

/-- What the lane publishes for a run that ends with a flush. -/
def lane (window : Nat) (ops : List LaneOp) : List EventPublish :=
  Machine.trace step published (fresh window) (ops ++ [.flush])

theorem invariant_run
    {c : Coalescer}
    {sources out : List EventPublish}
    (h : Invariant exact total c sources out)
    {ops : List LaneOp}
    (hallows : Machine.Guarded step (Allows exact total) c ops) :
    Invariant exact total (Machine.run step c ops) (sources ++ offered ops)
      (out ++ Machine.trace step published c ops) := by
  induction ops generalizing c sources out with
  | nil =>
      simpa [offered, Machine.trace] using h
  | cons op ops ih =>
      have hnext := ih (invariant_step h hallows.1) hallows.2
      have hoffered : offered (op :: ops) = offered [op] ++ offered ops := by
        simp [offered]
      rw [hoffered, Machine.trace, ← List.append_assoc, ← List.append_assoc]
      exact hnext

/-- What a run that ends with a flush publishes, as far as its steps allow. -/
theorem lane_partitions
    (window : Nat)
    (ops : List LaneOp)
    (hallows : Machine.Guarded step (Allows exact total) (fresh window)
      (ops ++ [.flush])) :
    Partitions exact total (offered ops) (lane window ops) := by
  have hfresh : Invariant exact total (fresh window) [] [] := ⟨[], [], rfl, .nil, rfl⟩
  obtain ⟨past, waiting, hsources, hpast, hholds⟩ := invariant_run hfresh hallows
  have hnone : (Machine.run step (fresh window) (ops ++ [.flush])).pending = none := by
    rw [Machine.run_concat]
    change ((Machine.run step (fresh window) ops).flush.1).pending = none
    unfold Coalescer.flush
    split
    · assumption
    · rfl
  have hempty : waiting = [] := by
    unfold Holds at hholds
    rw [hnone] at hholds
    exact hholds
  have hoffered : offered (ops ++ [.flush]) = offered ops := by
    simp [offered]
  rw [hempty, List.append_nil, List.nil_append, hoffered] at hsources
  rw [List.nil_append] at hpast
  rw [hsources]
  exact hpast

/--
For every sequence of events and flushes that ends with a flush, coalescing is
invisible, where what is published and what joins a group can be declared.
-/
theorem lane_invisible
    (window : Nat)
    (ops : List LaneOp)
    (hdeclares : Machine.Guarded step Declares (fresh window) (ops ++ [.flush])) :
    Invisible (offered ops) (lane window ops) :=
  (lane_partitions window ops (hdeclares.mono fun _ _ h => h.allows)).invisible

/-! ## Fragments that do not merge -/

/-- A text chunk of one session and run, with this `data`. -/
def chunk (idx : Nat) (data : List (String × Json)) : EventPublish where
  subject := "p.pair.evt.s"
  payload :=
    { fields := some [("idx", .num (.posInt idx)), ("runId", .str "r"),
        ("sessionId", .str "s"), ("type", .str "text_chunk")]
      data := some (Data.print (.obj data))
      length := 100 }
  statusSubject := none

/-- Two chunks inside one window, and the flush. -/
def twoChunks (data : List (String × Json)) : List LaneOp :=
  [.offer (chunk 0 data) 0, .offer (chunk 1 data) 5]

theorem lane_invisible_two_chunks :
    Invisible (offered (twoChunks [("text", .str "a")]))
        (lane coalesceWindow (twoChunks [("text", .str "a")])) ∧
      (lane coalesceWindow (twoChunks [("text", .str "a")])).length = 1 :=
  ⟨lane_invisible coalesceWindow (twoChunks [("text", .str "a")])
      (by decide +kernel),
    by decide +kernel⟩

/--
Two chunks whose content key is there but is not a text are merged, and the
group cannot be rebuilt: nothing is published for them.
-/
theorem lane_drops :
    ¬Invisible
      (offered (twoChunks [("content_key", .null), ("text", .str "a")]))
      (lane coalesceWindow (twoChunks [("content_key", .null), ("text", .str "a")])) := by
  have hnone : lane coalesceWindow
      (twoChunks [("content_key", .null), ("text", .str "a")]) = [] := by
    refine List.length_eq_zero_iff.1 ?_
    decide +kernel
  rintro ⟨groups, hflatten, hstands, _, _⟩
  rw [hnone] at hstands
  cases hstands
  simp [offered, twoChunks] at hflatten

end Lane

end Remote
end FutureOs
