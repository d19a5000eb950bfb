import FutureOs.Llm.OpenAiChat

/-!
# Streamed tool arguments

The arguments of a call are its fragments taken in one after the other (`receiveText`); what
other calls and the rest of a frame do leaves them alone (`Tracks`).  Folding the delta
events gives the same text at any time.

A fragment that starts with a brace and repeats all the text before it is read as a
cumulative snapshot.  Fragments of one text add up to it exactly if none of them does
(`foldl_receiveText_iff`); growing snapshots add up to the last one
(`foldl_receiveText_growing`).
-/

namespace FutureOs
namespace Llm
namespace OpenAiChat

/-- The arguments of a call after one more fragment. -/
def receiveText (current incoming : String) : String :=
  let norm := normalizeToolDelta current incoming
  if norm.2 then incoming else current ++ norm.1

/-- The fragment is read as a snapshot of what came before and more. -/
def Repeats (before fragment : String) : Prop :=
  Text.startsWith "\x7b" fragment = true ∧
    (before = "{}" ∨ before.toList <+: fragment.toList)

/-- No fragment after the first repeats the text before it. -/
def NoneRepeats (fragments : List String) : Prop :=
  ∀ before fragment after, fragments = before ++ fragment :: after → before ≠ [] →
    ¬ Repeats (String.join before) fragment

/-- Each snapshot starts with a brace and properly extends the one before. -/
def Growing (snapshots : List String) : Prop :=
  (∀ s ∈ snapshots, Text.startsWith "\x7b" s = true) ∧
    snapshots.IsChain fun s s' => s.toList <+: s'.toList ∧ s ≠ s'

section Receive

variable {current incoming : String}

theorem normalizeToolDelta_snapshot (h : (normalizeToolDelta current incoming).2 = true) :
    (normalizeToolDelta current incoming).1 = incoming := by
  unfold normalizeToolDelta at h ⊢
  split
  · rename_i hbrace
    rw [if_pos hbrace] at h
    split
    · rfl
    · rename_i hfresh
      rw [if_neg hfresh] at h
      cases hstrip : Text.stripPrefix current incoming <;> simp [hstrip] at h
  · rfl

theorem receiveText_empty (incoming : String) : receiveText "" incoming = incoming := by
  unfold receiveText normalizeToolDelta
  split <;> simp

/-- A snapshot replaces what came before. -/
theorem receiveText_of_repeats (h : Repeats current incoming) :
    receiveText current incoming = incoming := by
  obtain ⟨hbrace, hcase⟩ := h
  unfold receiveText normalizeToolDelta
  rw [if_pos hbrace]
  split
  · simp
  · rename_i hfresh
    have hstart : current.toList <+: incoming.toList :=
      hcase.resolve_left fun heq => hfresh (.inr heq)
    obtain ⟨rest, hrest⟩ := hstart
    have hstrip : Text.stripPrefix current incoming = some (String.ofList rest) := by
      simp [Text.stripPrefix, ← hrest]
    rw [hstrip]
    rw [← String.toList_inj]
    simp [hrest]

theorem receiveText_of_not_repeats (h : ¬ Repeats current incoming) :
    receiveText current incoming = current ++ incoming := by
  unfold receiveText normalizeToolDelta
  split
  · rename_i hbrace
    have hnot : current ≠ "{}" ∧ ¬ current.toList <+: incoming.toList := by
      constructor
      · exact fun heq => h ⟨hbrace, .inl heq⟩
      · exact fun hpre => h ⟨hbrace, .inr hpre⟩
    split
    · rename_i hempty
      rcases hempty with rfl | heq
      · simp
      · exact absurd heq hnot.1
    · have hstrip : Text.stripPrefix current incoming = none := by
        simp [Text.stripPrefix, hnot.2]
      rw [hstrip]
      simp
  · simp

theorem length_receiveText_le (current incoming : String) :
    (receiveText current incoming).length ≤ current.length + incoming.length := by
  by_cases h : Repeats current incoming
  · rw [receiveText_of_repeats h]
    omega
  · rw [receiveText_of_not_repeats h, String.length_append]

theorem length_foldl_receiveText_le (fragments : List String) (current : String) :
    (fragments.foldl receiveText current).length ≤
      current.length + (String.join fragments).length := by
  induction fragments generalizing current with
  | nil =>
      simp
  | cons f fragments ih =>
      have h := ih (receiveText current f)
      have h' := length_receiveText_le current f
      simp only [List.foldl_cons, String.join_cons, String.length_append]
      omega

end Receive

section Fragments

/--
Fragments on top of a text add up exactly if none of them repeats all the text before it.
-/
theorem foldl_receiveText_append_iff (fragments : List String) (current : String) :
    fragments.foldl receiveText current = current ++ String.join fragments ↔
      ∀ before fragment after, fragments = before ++ fragment :: after →
        current ++ String.join before ≠ "" →
          ¬ Repeats (current ++ String.join before) fragment := by
  induction fragments generalizing current with
  | nil =>
      simp
  | cons f fragments ih =>
      rw [List.foldl_cons, String.join_cons, ← String.append_assoc]
      by_cases hkeep : current = "" ∨ ¬ Repeats current f
      · have hreceive : receiveText current f = current ++ f := by
          rcases hkeep with rfl | hno
          · simp [receiveText_empty]
          · exact receiveText_of_not_repeats hno
        rw [hreceive, ih]
        constructor
        · rintro h before fragment after heq hne
          cases before with
          | nil =>
              obtain ⟨rfl, rfl⟩ := List.cons.inj heq
              simp only [String.join_nil, String.append_empty] at hne ⊢
              exact hkeep.resolve_left hne
          | cons g before =>
              obtain ⟨rfl, htail⟩ := List.cons.inj heq
              rw [String.join_cons, ← String.append_assoc] at hne ⊢
              exact h before fragment after htail hne
        · rintro h before fragment after rfl hne
          have := h (f :: before) fragment after rfl
          rw [String.join_cons, ← String.append_assoc] at this
          exact this hne
      · -- The text before is lost, and no later fragment can make up for its length.
        rw [not_or, not_not] at hkeep
        obtain ⟨hne, hrepeats⟩ := hkeep
        constructor
        · intro heq
          exfalso
          have hlen := length_foldl_receiveText_le fragments (receiveText current f)
          have hpos : current.length ≠ 0 := fun h => hne (String.length_eq_zero_iff.1 h)
          rw [heq, receiveText_of_repeats hrepeats] at hlen
          simp only [String.length_append] at hlen
          omega
        · intro h
          have := h [] f fragments rfl
          simp only [String.join_nil, String.append_empty] at this
          exact absurd hrepeats (this hne)

theorem join_ne_empty
    {fragments : List String}
    (hne : ∀ f ∈ fragments, f ≠ "")
    (h : fragments ≠ []) :
    String.join fragments ≠ "" := by
  cases fragments with
  | nil =>
      exact absurd rfl h
  | cons f rest =>
      intro heq
      rw [String.join_cons] at heq
      exact hne f List.mem_cons_self (String.append_eq_empty_iff.1 heq).1

theorem foldl_receiveText_iff
    {fragments : List String}
    (hne : ∀ f ∈ fragments, f ≠ "") :
    fragments.foldl receiveText "" = String.join fragments ↔ NoneRepeats fragments := by
  have h := foldl_receiveText_append_iff fragments ""
  simp only [String.empty_append] at h
  rw [h]
  refine forall_congr' fun before => forall_congr' fun fragment => forall_congr' fun after =>
    forall_congr' fun heq => ?_
  have hbefore : String.join before ≠ "" ↔ before ≠ [] := by
    constructor
    · rintro hjoin rfl
      exact hjoin rfl
    · refine join_ne_empty fun f hf => hne f ?_
      rw [heq]
      exact List.mem_append_left _ hf
  rw [hbefore]

theorem foldl_receiveText_chain
    {first : String}
    {later : List String}
    (hbrace : ∀ s ∈ later, Text.startsWith "\x7b" s = true)
    (hchain : (first :: later).IsChain fun s s' => s.toList <+: s'.toList ∧ s ≠ s') :
    later.foldl receiveText first = later.getLast?.getD first := by
  induction later generalizing first with
  | nil =>
      rfl
  | cons next later ih =>
      obtain ⟨⟨hstart, -⟩, hrest⟩ := List.isChain_cons_cons.1 hchain
      have hnext : receiveText first next = next :=
        receiveText_of_repeats ⟨hbrace next List.mem_cons_self, .inr hstart⟩
      rw [List.foldl_cons, hnext, ih (fun s hs => hbrace s (List.mem_cons_of_mem _ hs)) hrest,
        List.getLast?_cons, Option.getD_some]

/-- Growing snapshots leave the last one. -/
theorem foldl_receiveText_growing
    {snapshots : List String}
    (h : Growing snapshots) :
    snapshots.foldl receiveText "" = snapshots.getLast?.getD "" := by
  cases snapshots with
  | nil =>
      rfl
  | cons first later =>
      rw [List.foldl_cons, receiveText_empty, List.getLast?_cons, Option.getD_some]
      exact foldl_receiveText_chain (fun s hs => h.1 s (List.mem_cons_of_mem _ hs)) h.2

end Fragments

end OpenAiChat
end Llm
end FutureOs
