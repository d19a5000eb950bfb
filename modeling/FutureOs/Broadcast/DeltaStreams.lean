import FutureOs.Broadcast.Projection
import FutureOs.Lib.Segments

/-!
# Fragments of a delta stream

A delta as it is read: its envelope and its data.  `Fragment.same` and `Fragment.join` are
what both folders do with two of them.  Where canonical fragments declare their own length
the join obeys the laws of a stream (`streamLaws`): what follows a segment follows its last
fragment.
-/

namespace FutureOs
namespace Broadcast

/-! ## Adding text -/

section AppendText

variable {v : Json}

theorem get?_appendText_of_ne
    {key : String}
    (htext : key ≠ "text")
    (hbytes : key ≠ "content_bytes")
    (t : String) :
    (appendText v t).get? key = v.get? key := by
  unfold appendText
  dsimp only
  split
  · rw [Json.get?_put_of_ne hbytes, Json.get?_put_of_ne htext]
  · rw [Json.get?_put_of_ne htext]

@[simp] theorem isCanonical_appendText (t : String) :
    isCanonical (appendText v t) = isCanonical v := by
  unfold isCanonical
  rw [get?_appendText_of_ne (by decide) (by decide)]

/-- The text of a segment with a fragment's. -/
theorem textOf_appendText_of_isObject
    (h : v.asObject?.isSome)
    (t : String) :
    textOf (appendText v t) = some ((textOf v).getD "" ++ t) := by
  have htext : (appendText v t).get? "text" = some (.str ((textOf v).getD "" ++ t)) := by
    unfold appendText
    dsimp only
    split
    · rw [Json.get?_put_of_ne (by decide), Json.get?_put, if_pos ⟨rfl, h⟩]
    · rw [Json.get?_put, if_pos ⟨rfl, h⟩]
  rw [textOf, htext]
  rfl

theorem textOf_appendText
    (h : textOf v ≠ none)
    (t : String) :
    textOf (appendText v t) = some ((textOf v).getD "" ++ t) := by
  cases v with
  | obj fields => exact textOf_appendText_of_isObject rfl t
  | _ => exact absurd rfl h

theorem textLen_appendText
    (h : textOf v ≠ none)
    (t : String) :
    textLen (appendText v t) = textLen v + t.utf8ByteSize := by
  obtain ⟨s, hs⟩ := Option.ne_none_iff_exists'.1 h
  unfold textLen
  rw [textOf_appendText h, hs]
  simp [String.utf8ByteSize_append]

theorem content_bytes_appendText
    (hcanonical : isCanonical v = true)
    (t : String) :
    natField (appendText v t) "content_bytes" = some (textLen v + t.utf8ByteSize) := by
  unfold natField appendText
  dsimp only
  have hkey : (v.put "text" (.str ((textOf v).getD "" ++ t))).get? "content_key" ≠ none := by
    rw [Json.get?_put_of_ne (by decide)]
    exact Option.isSome_iff_ne_none.1 hcanonical
  rw [if_pos hcanonical, Json.get?_put_self hkey]
  rfl

/-- What does not vary along a stream is left alone. -/
theorem stableFields_appendText
    {canonical : Bool}
    (hcanonical : isCanonical v = true → canonical = true)
    (t : String) :
    stableFields canonical (appendText v t) = stableFields canonical v := by
  have hput : ∀ w key value, varying canonical key = true →
      stableFields canonical (Json.put w key value) = stableFields canonical w := by
    intro w key value hkey
    unfold stableFields
    cases w with
    | obj fields =>
        simp only [Json.put, Json.asObject?, Option.map_some]
        rw [@Json.filter_putField _ (fun key => !varying canonical key) (by simp [hkey])]
    | _ => rfl
  unfold appendText
  dsimp only
  split
  · rename_i h
    rw [hput _ _ _ (by rw [hcanonical h]; decide), hput _ _ _ (by simp [varying])]
  · rw [hput _ _ _ (by simp [varying])]

theorem appendText_appendText
    (h : textOf v ≠ none)
    (t t' : String) :
    appendText (appendText v t) t' = appendText v (t ++ t') := by
  have hall : appendText (appendText v t) t' =
      let joined := (appendText v t).put "text" (.str ((textOf v).getD "" ++ (t ++ t')))
      if isCanonical v then
        joined.put "content_bytes" (.num (.posInt (textLen v + (t ++ t').utf8ByteSize)))
      else
        joined := by
    rw [appendText, isCanonical_appendText, textOf_appendText h, textLen_appendText h,
      String.utf8ByteSize_append, ← Nat.add_assoc, Option.getD_some, String.append_assoc]
  rw [hall]
  cases v with
  | obj fields =>
      have hkey : ∀ value, Fields.lookup "text" (Json.putField "text" value fields) ≠ none := by
        intro value
        rw [Json.lookup_putField, if_pos rfl]
        nofun
      unfold appendText
      dsimp only
      split
      · simp only [Json.put]
        rw [Json.putField_comm (by decide) _ _ (hkey _), Json.putField_putField,
          Json.putField_putField]
      · simp only [Json.put]
        rw [Json.putField_putField]
  | _ => exact absurd rfl h

end AppendText

/-! ## Fragments -/

/-- A delta as it is read: the event without its data, and the data. -/
structure Fragment where
  header : SseEvent
  value : Json
deriving DecidableEq

namespace Fragment

def text (f : Fragment) : String :=
  (textOf f.value).getD ""

/-- The fragment continues the segment. -/
def same (p f : Fragment) : Bool :=
  sameDeltaStream p.header f.header p.value f.value

/-- The segment with the fragment's text. -/
def join (p f : Fragment) : Fragment where
  header := p.header.upTo f.header
  value := appendText p.value f.text

/-- A canonical fragment declares the length of its text. -/
structure DeclaresLength (f : Fragment) : Prop where
  hasText : textOf f.value ≠ none
  declared : isCanonical f.value = true →
    natField f.value "content_bytes" = some f.text.utf8ByteSize

/-- What it means to continue a segment. -/
structure Follows (p f : Fragment) : Prop where
  runId : p.header.runId = f.header.runId
  epoch : p.header.epoch = f.header.epoch
  eventType : p.header.eventType = f.header.eventType
  fresh : (f.value.get? "snapshot").bind Json.asBool? ≠ some true
  content : (isCanonical p.value || isCanonical f.value) = true →
    (p.value.get? "content_key").map Json.normal =
        (f.value.get? "content_key").map Json.normal ∧
      contentEnd p.value = natField f.value "content_offset"
  isObject : (stableFields (isCanonical p.value || isCanonical f.value) p.value).isSome
  stable : stableFields (isCanonical p.value || isCanonical f.value) p.value =
    stableFields (isCanonical p.value || isCanonical f.value) f.value

theorem same_iff
    {p f : Fragment} :
    p.same f = true ↔ p.Follows f := by
  unfold same sameDeltaStream
  simp only [Bool.and_eq_true, decide_eq_true_eq, Bool.or_eq_true, Bool.not_eq_true']
  constructor
  · rintro ⟨⟨⟨⟨⟨⟨hrun, hepoch⟩, htype⟩, hfresh⟩, hcontent⟩, hobject⟩, hstable⟩
    refine ⟨hrun, hepoch, htype, hfresh, fun hcanonical => ?_, hobject, hstable⟩
    rcases hcontent with hplain | hcontent
    · rw [hcanonical] at hplain
      cases hplain
    · exact hcontent
  · intro h
    refine ⟨⟨⟨⟨⟨⟨h.runId, h.epoch⟩, h.eventType⟩, h.fresh⟩, ?_⟩, h.isObject⟩, h.stable⟩
    cases hcanonical : isCanonical p.value || isCanonical f.value with
    | false => exact Or.inl rfl
    | true => exact Or.inr (h.content hcanonical)

/-- Fragments of one stream are canonical together. -/
theorem Follows.isCanonical_eq
    {p f : Fragment}
    (h : p.Follows f) :
    isCanonical p.value = isCanonical f.value := by
  cases hcanonical : isCanonical p.value || isCanonical f.value with
  | false =>
      rw [Bool.or_eq_false_iff] at hcanonical
      rw [hcanonical.1, hcanonical.2]
  | true =>
      have hkey := congrArg Option.isSome (h.content hcanonical).1
      simpa [isCanonical] using hkey

theorem Follows.key_eq
    {p f : Fragment}
    (h : p.Follows f) :
    (p.value.get? "content_key").map Json.normal =
      (f.value.get? "content_key").map Json.normal := by
  cases hcanonical : isCanonical p.value || isCanonical f.value with
  | false =>
      simp only [Bool.or_eq_false_iff, isCanonical, Option.isSome_eq_false_iff,
        Option.isNone_iff_eq_none] at hcanonical
      rw [hcanonical.1, hcanonical.2]
  | true => exact (h.content hcanonical).1

/-- What does not vary in plain streams does not vary in canonical ones. -/
theorem stableFields_true (v : Json) :
    stableFields true v =
      (stableFields false v).map fun fields =>
        fields.filter fun field => !varying true field.1 := by
  unfold stableFields
  cases v.asObject? with
  | none => rfl
  | some fields =>
      simp only [Option.map_some, List.filter_map, List.filter_filter]
      congr 2
      exact List.filter_congr fun field _ => by grind [varying]

theorem Follows.stable_of
    {p f : Fragment}
    (h : p.Follows f)
    {canonical : Bool}
    (hcanonical : isCanonical p.value = true → canonical = true) :
    stableFields canonical p.value = stableFields canonical f.value := by
  have hstable := h.stable
  rw [← h.isCanonical_eq, Bool.or_self] at hstable
  cases hp : isCanonical p.value with
  | true =>
      rw [hp] at hstable
      rw [hcanonical hp]
      exact hstable
  | false =>
      rw [hp] at hstable
      cases canonical with
      | false => exact hstable
      | true => rw [stableFields_true, stableFields_true, hstable]

/-! ## The laws of a stream -/

theorem text_join
    {p f : Fragment}
    (hp : textOf p.value ≠ none) :
    (p.join f).text = p.text ++ f.text := by
  unfold text join
  dsimp only
  rw [textOf_appendText hp]
  rfl

theorem textLen_eq (f : Fragment) : textLen f.value = f.text.utf8ByteSize := by
  unfold textLen text
  cases textOf f.value <;> rfl

/-- Where a segment ends after a fragment that continues it. -/
theorem Follows.contentEnd_join
    {p q : Fragment}
    (h : p.Follows q)
    (hp : p.DeclaresLength)
    (hq : q.DeclaresLength)
    (hcanonical : isCanonical p.value = true) :
    contentEnd (p.join q).value = contentEnd q.value := by
  have hcontent := (h.content (by rw [hcanonical]; rfl)).2
  have hjoined : natField (p.join q).value "content_bytes" =
      some (p.text.utf8ByteSize + q.text.utf8ByteSize) := by
    rw [join, content_bytes_appendText hcanonical, textLen_eq]
  have hoffset : natField (p.join q).value "content_offset" =
      natField p.value "content_offset" := by
    unfold natField join
    rw [get?_appendText_of_ne (by decide) (by decide)]
  unfold contentEnd at hcontent ⊢
  rw [hp.declared hcanonical] at hcontent
  rw [hjoined, hoffset, hq.declared (h.isCanonical_eq ▸ hcanonical), ← hcontent]
  cases natField p.value "content_offset" with
  | none => rfl
  | some offset =>
      simp only [Option.bind_some, checkedAdd64]
      by_cases hfits : offset + p.text.utf8ByteSize < 2 ^ 64
      · rw [if_pos hfits, Option.bind_some, Nat.add_assoc]
      · rw [if_neg hfits, Option.bind_none, if_neg (by omega)]

/-- What follows a joined fragment is what follows the fragment. -/
theorem follows_join_iff
    {p q f : Fragment}
    (h : p.Follows q)
    (hp : p.DeclaresLength)
    (hq : q.DeclaresLength) :
    (p.join q).Follows f ↔ q.Follows f := by
  have hcanonical : isCanonical (p.join q).value = isCanonical q.value := by
    rw [join, isCanonical_appendText, h.isCanonical_eq]
  have hkey : ((p.join q).value.get? "content_key").map Json.normal =
      (q.value.get? "content_key").map Json.normal := by
    rw [join, get?_appendText_of_ne (by decide) (by decide), h.key_eq]
  have hstable : stableFields (isCanonical q.value || isCanonical f.value) (p.join q).value =
      stableFields (isCanonical q.value || isCanonical f.value) q.value := by
    have hall : isCanonical p.value = true →
        (isCanonical q.value || isCanonical f.value) = true := by
      intro hp
      rw [← h.isCanonical_eq, hp, Bool.true_or]
    rw [join, stableFields_appendText hall, h.stable_of hall]
  have hcontent : (isCanonical q.value || isCanonical f.value) = true →
      ((((p.join q).value.get? "content_key").map Json.normal =
          (f.value.get? "content_key").map Json.normal ∧
        contentEnd (p.join q).value = natField f.value "content_offset") ↔
      ((q.value.get? "content_key").map Json.normal =
          (f.value.get? "content_key").map Json.normal ∧
        contentEnd q.value = natField f.value "content_offset")) := by
    intro hsome
    rw [hkey]
    refine and_congr_right fun hkeys => ?_
    -- with equal keys both are canonical, and the ends agree
    have hq' : isCanonical q.value = true := by
      have hboth := congrArg Option.isSome hkeys
      simp only [Option.isSome_map] at hboth
      unfold isCanonical at hsome ⊢
      rwa [← hboth, Bool.or_self] at hsome
    rw [h.contentEnd_join hp hq (h.isCanonical_eq.trans hq')]
  constructor
  · intro hf
    refine ⟨h.runId ▸ hf.runId, h.epoch ▸ hf.epoch, h.eventType ▸ hf.eventType, hf.fresh,
      fun hsome => (hcontent hsome).1 (hf.content (by rwa [hcanonical])), ?_, ?_⟩
    · rw [← hstable, ← hcanonical]
      exact hf.isObject
    · rw [← hstable, ← hcanonical]
      exact hf.stable
  · intro hf
    refine ⟨h.runId.trans hf.runId, h.epoch.trans hf.epoch, h.eventType.trans hf.eventType,
      hf.fresh, fun hsome => (hcontent (by rwa [hcanonical] at hsome)).2
        (hf.content (by rwa [hcanonical] at hsome)), ?_, ?_⟩
    · rw [hcanonical, hstable]
      exact hf.isObject
    · rw [hcanonical, hstable]
      exact hf.stable

/-- What a joined fragment follows is what its first part follows. -/
theorem follows_of_join_iff {p q f : Fragment} :
    p.Follows (q.join f) ↔ p.Follows q := by
  have hcanonical : isCanonical (q.join f).value = isCanonical q.value :=
    isCanonical_appendText _
  have hget : ∀ key, key ≠ "text" → key ≠ "content_bytes" →
      (q.join f).value.get? key = q.value.get? key :=
    fun key htext hbytes => get?_appendText_of_ne htext hbytes _
  have hstable : stableFields (isCanonical p.value || isCanonical q.value) (q.join f).value =
      stableFields (isCanonical p.value || isCanonical q.value) q.value :=
    stableFields_appendText (fun hq => by rw [hq, Bool.or_true]) _
  have hfresh := hget "snapshot" (by decide) (by decide)
  have hkey := hget "content_key" (by decide) (by decide)
  have hoffset : natField (q.join f).value "content_offset" =
      natField q.value "content_offset" := by
    unfold natField
    rw [hget _ (by decide) (by decide)]
  constructor
  · intro h
    refine ⟨h.runId, h.epoch, h.eventType, hfresh ▸ h.fresh, fun hsome => ?_, ?_, ?_⟩
    · rw [← hkey, ← hoffset]
      exact h.content (by rwa [hcanonical])
    · rw [← hcanonical]
      exact h.isObject
    · rw [← hstable, ← hcanonical]
      exact h.stable
  · intro h
    refine ⟨h.runId, h.epoch, h.eventType, hfresh ▸ h.fresh, fun hsome => ?_, ?_, ?_⟩
    · rw [hkey, hoffset]
      exact h.content (by rwa [hcanonical] at hsome)
    · rw [hcanonical]
      exact h.isObject
    · rw [hcanonical, hstable]
      exact h.stable

theorem streamLaws : StreamLaws same join DeclaresLength where
  good := by
    intro p f hp hf _
    have htext : textOf (p.join f).value ≠ none := by
      rw [join, textOf_appendText hp.hasText]
      nofun
    refine ⟨htext, fun hcanonical => ?_⟩
    rw [join, isCanonical_appendText] at hcanonical
    rw [text_join hp.hasText, String.utf8ByteSize_append, join,
      content_bytes_appendText hcanonical, textLen_eq]
  assoc := by
    intro p q f hp hq _
    unfold join
    dsimp only
    rw [appendText_appendText hp.hasText]
    have htext := text_join (f := f) hq.hasText
    unfold join at htext
    rw [htext]
    rfl
  after := by
    intro p q f hp hq _ hsame
    rw [Bool.eq_iff_iff, same_iff, same_iff, follows_join_iff (same_iff.1 hsame) hp hq]
  before := by
    intro p q f _ _ _ _
    rw [Bool.eq_iff_iff, same_iff, same_iff, follows_of_join_iff]

end Fragment

end Broadcast
end FutureOs
