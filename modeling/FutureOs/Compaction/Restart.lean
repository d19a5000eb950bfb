import FutureOs.Compaction.Cut

/-!
# A compacted prompt after a restart

A compaction hands out a prompt, and a restart rebuilds one from the journal and the
checkpoint.  `Covers` is what a checkpoint of the compactor says about the journal; every
compaction keeps it, and with it the two prompts are the same.
-/

namespace FutureOs
namespace Compaction

/-! ## Anchors -/

section Anchors

variable {message : AgentMessage}
variable {item : ProjectedMessage}

theorem anchorOf_eq_some :
    anchorOf message = some item ↔
      ∃ anchor, protectedText message = some anchor ∧
        item = ⟨anchor, anchor.journalEntryId.toList⟩ := by
  simp [anchorOf, eq_comm]

theorem journalEntryId_anchorOf
    (h : anchorOf message = some item) :
    item.message.journalEntryId = message.journalEntryId := by
  obtain ⟨anchor, hanchor, rfl⟩ := anchorOf_eq_some.mp h
  exact journalEntryId_protectedText hanchor

theorem sourceEntryIds_anchorOf
    (h : anchorOf message = some item) :
    item.sourceEntryIds = item.message.journalEntryId.toList := by
  obtain ⟨anchor, -, rfl⟩ := anchorOf_eq_some.mp h
  rfl

theorem role_anchorOf
    (h : anchorOf message = some item) :
    item.message.role = message.role := by
  obtain ⟨anchor, hanchor, rfl⟩ := anchorOf_eq_some.mp h
  exact role_protectedText hanchor

/-- An anchor in a prompt is collected as it is. -/
theorem anchorOf_anchorOf
    (h : anchorOf message = some item) :
    anchorOf item.message = some item := by
  obtain ⟨anchor, hanchor, rfl⟩ := anchorOf_eq_some.mp h
  exact anchorOf_eq_some.mpr ⟨anchor, protectedText_protectedText hanchor, rfl⟩

theorem anchorOf_summaryMessage (summary : Text) (entryId : String) :
    anchorOf (summaryMessage summary entryId) = none := by
  simp [anchorOf, protectedText_summaryMessage]

/-- Every anchor there could be. -/
def allAnchors (covered : List AgentMessage) : List ProjectedMessage :=
  covered.filterMap anchorOf

/-- The entry of an item is one of the protected ones. -/
def inProtected (ids : List String) (item : ProjectedMessage) : Bool :=
  item.message.journalEntryId.any fun id => id ∈ ids

theorem protectedAnchors_eq_filter (checkpoint : ContextCheckpoint) (covered : List AgentMessage) :
    protectedAnchors checkpoint covered =
      (allAnchors covered).filter (inProtected checkpoint.protectedEntryIds) := by
  unfold protectedAnchors allAnchors
  rw [List.filter_filterMap]
  refine List.filterMap_congr fun message _ => ?_
  cases hanchor : anchorOf message with
  | none =>
      simp
  | some item =>
      rw [Option.filter_some, inProtected, journalEntryId_anchorOf hanchor]

theorem ids_allAnchors_sublist (covered : List AgentMessage) :
    ((allAnchors covered).map fun item => item.message.journalEntryId).Sublist
      (covered.map AgentMessage.journalEntryId) := by
  induction covered with
  | nil =>
      exact List.Sublist.refl []
  | cons message rest ih =>
      rw [allAnchors, List.filterMap_cons, List.map_cons]
      cases hanchor : anchorOf message with
      | none =>
          exact ih.cons _
      | some item =>
          rw [List.map_cons, journalEntryId_anchorOf hanchor]
          exact ih.cons_cons _

/-- The anchors of the anchors of a prompt. -/
theorem filterMap_anchors
    {items : List ProjectedMessage}
    {covered : List AgentMessage}
    (h : items.Sublist (allAnchors covered)) :
    items.filterMap (fun item => anchorOf item.message) = items := by
  have hself : ∀ item ∈ items, anchorOf item.message = some item := by
    intro item hitem
    obtain ⟨message, -, hanchor⟩ := List.mem_filterMap.mp (h.subset hitem)
    exact anchorOf_anchorOf hanchor
  rw [List.filterMap_congr hself, List.filterMap_some]

/-- A part of distinct things is what of them has one of its names. -/
theorem filter_of_sublist
    {α β : Type}
    {name : α → β}
    {p : α → Bool}
    {part all : List α}
    (hpart : part.Sublist all)
    (hnodup : (all.map name).Nodup)
    (hp : ∀ a ∈ all, p a = true ↔ name a ∈ part.map name) :
    all.filter p = part := by
  induction hpart with
  | slnil =>
      rfl
  | @cons part all a hpart ih =>
      rw [List.map_cons, List.nodup_cons] at hnodup
      have hnot : ¬ p a = true := fun h => by
        obtain ⟨b, hb, heq⟩ := List.mem_map.mp ((hp a List.mem_cons_self).mp h)
        exact hnodup.1 (heq ▸ List.mem_map_of_mem (hpart.subset hb))
      rw [List.filter_cons_of_neg hnot]
      exact ih hnodup.2 fun b hb => hp b (List.mem_cons_of_mem a hb)
  | @cons_cons part all a hpart ih =>
      rw [List.map_cons, List.nodup_cons] at hnodup
      rw [List.filter_cons_of_pos ((hp a List.mem_cons_self).mpr (by simp))]
      congr 1
      refine ih hnodup.2 fun b hb => ?_
      have hne : name b ≠ name a := fun heq => hnodup.1 (heq ▸ List.mem_map_of_mem hb)
      rw [hp b (List.mem_cons_of_mem a hb), List.map_cons, List.mem_cons]
      exact or_iff_right hne

end Anchors

/-! ## The prompt of a checkpoint -/

section Projection

variable {raw covered tail : List AgentMessage}
variable {checkpoint : ContextCheckpoint}

/-- The anchors and the message of a checkpoint. -/
def front (checkpoint : Option ContextCheckpoint) (covered : List AgentMessage) :
    List ProjectedMessage :=
  match checkpoint with
  | none => []
  | some checkpoint => protectedAnchors checkpoint covered ++ checkpointMessages checkpoint

/-- What a checkpoint of the compactor says about the journal. -/
structure Covers (checkpoint : ContextCheckpoint) (covered : List AgentMessage) : Prop where
  cutoff : ∃ last, covered.getLast? = some last ∧ checkpoint.cutoffEntryId = last.journalEntryId
  summary : ∃ text, checkpoint.summary = [.text text] ∧ isBlank text = false
  /-- The users' texts are protected. -/
  users : ∀ item ∈ allAnchors covered, item.message.role = "user" →
    inProtected checkpoint.protectedEntryIds item = true

/-- Without a checkpoint nothing is covered. -/
def CoversOption (checkpoint : Option ContextCheckpoint) (covered : List AgentMessage) : Prop :=
  match checkpoint with
  | none => covered = []
  | some checkpoint => Covers checkpoint covered

theorem tailStart_of_covers
    (hjournal : Journal (covered ++ tail))
    (hcovers : Covers checkpoint covered) :
    tailStart (covered ++ tail) (some checkpoint) = covered.length := by
  obtain ⟨last, hlast, hcutoff⟩ := hcovers.cutoff
  obtain ⟨earlier, rfl⟩ := List.getLast?_eq_some_iff.mp hlast
  obtain ⟨id, hid⟩ := Option.ne_none_iff_exists'.mp (hjournal.identified last (by simp))
  have hdistinct := hjournal.distinct
  rw [List.append_assoc, List.map_append, List.nodup_append] at hdistinct
  have hearlier : (earlier.findIdx? fun message => message.journalEntryId = some id) = none := by
    rw [List.findIdx?_eq_none_iff]
    intro message hmessage
    have hne := hdistinct.2.2 _ (List.mem_map_of_mem hmessage) (some id) (by simp [hid])
    simpa using hne
  simp only [tailStart, Option.bind_some, hcutoff, hid]
  rw [List.append_assoc, List.findIdx?_append, hearlier]
  simp [List.findIdx?_cons, hid]

theorem summaryText_singleton (text : Text) :
    summaryText [.text text] = text := by
  simp [summaryText, List.intercalate]

theorem checkpointMessages_of_text
    {text : Text}
    (hsummary : checkpoint.summary = [.text text])
    (hblank : isBlank text = false) :
    checkpointMessages checkpoint =
      [⟨summaryMessage text checkpoint.entryId, [checkpoint.entryId]⟩] := by
  have hne : text ≠ [] := by
    rintro rfl
    cases hblank
  rw [checkpointMessages, hsummary, summaryText_singleton]
  simp [hne]

theorem projectMessages_of_covers
    {checkpoint : Option ContextCheckpoint}
    (hjournal : Journal (covered ++ tail))
    (hcovers : CoversOption checkpoint covered) :
    projectMessages (covered ++ tail) checkpoint =
      front checkpoint covered ++ tail.map projectRaw := by
  cases checkpoint with
  | none =>
      obtain rfl : covered = [] := hcovers
      simp [projectMessages, front, tailStart]
  | some checkpoint =>
      simp [projectMessages, front, tailStart_of_covers hjournal hcovers]

/-- The front of a prompt is said already. -/
theorem not_compactable_front
    {checkpoint : Option ContextCheckpoint}
    (hcovers : CoversOption checkpoint covered) :
    ∀ item ∈ front checkpoint covered,
      (internalSummary item.message).isSome = true ∨ item.message.isProtected = true := by
  cases checkpoint with
  | none =>
      simp [front]
  | some checkpoint =>
      obtain ⟨text, hsummary, hblank⟩ := hcovers.summary
      intro item hitem
      rcases List.mem_append.mp hitem with hanchor | hmessage
      · rw [protectedAnchors_eq_filter] at hanchor
        obtain ⟨message, -, hmade⟩ := List.mem_filterMap.mp (List.mem_filter.mp hanchor).1
        obtain ⟨anchor, hprotected, rfl⟩ := anchorOf_eq_some.mp hmade
        exact .inr (isProtected_protectedText hprotected)
      · rw [checkpointMessages_of_text hsummary hblank, List.mem_singleton] at hmessage
        rw [hmessage]
        exact .inl (Option.isSome_iff_ne_none.mpr (internalSummary_summaryMessage hblank))

/-- The anchors that are collected from the front of a prompt. -/
theorem filterMap_front_sublist
    {checkpoint : Option ContextCheckpoint}
    (hcovers : CoversOption checkpoint covered) :
    ((front checkpoint covered).filterMap fun item => anchorOf item.message).Sublist
      (allAnchors covered) := by
  cases checkpoint with
  | none =>
      exact List.nil_sublist _
  | some checkpoint =>
      obtain ⟨text, hsummary, hblank⟩ := hcovers.summary
      have hanchors : (protectedAnchors checkpoint covered).Sublist (allAnchors covered) := by
        rw [protectedAnchors_eq_filter]
        exact List.filter_sublist
      rw [front, checkpointMessages_of_text hsummary hblank, List.filterMap_append,
        filterMap_anchors hanchors]
      simpa [anchorOf_summaryMessage] using hanchors

/-- The users' anchors are among them. -/
theorem user_mem_front
    {checkpoint : Option ContextCheckpoint}
    {item : ProjectedMessage}
    (hcovers : CoversOption checkpoint covered)
    (hmem : item ∈ allAnchors covered)
    (huser : item.message.role = "user") :
    item ∈ (front checkpoint covered).filterMap fun item => anchorOf item.message := by
  cases checkpoint with
  | none =>
      obtain rfl : covered = [] := hcovers
      exact absurd hmem (by simp [allAnchors])
  | some checkpoint =>
      obtain ⟨message, -, hanchor⟩ := List.mem_filterMap.mp hmem
      refine List.mem_filterMap.mpr ⟨item, List.mem_append_left _ ?_, anchorOf_anchorOf hanchor⟩
      rw [protectedAnchors_eq_filter]
      exact List.mem_filter.mpr ⟨hmem, hcovers.users item hmem huser⟩

end Projection

/-! ## One compaction -/

section Step

variable {covered tail : List AgentMessage}
variable {checkpoint : Option ContextCheckpoint}
variable {manager : ContextManager}
variable {prompt : PromptContext}
variable {trigger : Trigger}
variable {phase : Phase}
variable {instructions : Option Text}
variable {made : CompactionPlan}

/-- A plan cuts the journal behind what is covered already, and not in front of the result of a
tool. -/
structure CutsTail (covered tail : List AgentMessage) (checkpoint : Option ContextCheckpoint)
    (made : CompactionPlan) (first rest : List AgentMessage) : Prop where
  split : tail = first ++ rest
  progress : first ≠ []
  removed : made.removed = front checkpoint covered ++ first.map projectRaw
  retained : made.retained = rest.map projectRaw
  turn : ∀ message ∈ rest.head?, message.role ≠ "tool"

theorem front_lt_cut
    (hcovers : CoversOption checkpoint covered)
    {items : List ProjectedMessage}
    {cut : Nat}
    (hcontent : hasCompactableContent ((front checkpoint covered ++ items).take cut) = true) :
    (front checkpoint covered).length < cut := by
  by_contra hle
  rw [Nat.not_lt] at hle
  rw [List.take_append_of_le_length hle] at hcontent
  obtain ⟨item, hitem, hnew⟩ := List.any_eq_true.mp hcontent
  rcases not_compactable_front hcovers item (List.mem_of_mem_take hitem) with h | h
  · rw [Option.isSome_iff_ne_none] at h
    simp [Option.isNone_iff_eq_none, h] at hnew
  · simp [h] at hnew

theorem cutsTail_of_plan
    {summaryCap : Nat}
    (hjournal : Journal (covered ++ tail))
    (hcovers : CoversOption checkpoint covered)
    (hprompt : prompt.messages = projectMessages (covered ++ tail) checkpoint)
    (h : plan manager prompt trigger phase instructions summaryCap = .ok (.compact made)) :
    ∃ first rest, CutsTail covered tail checkpoint made first rest := by
  obtain ⟨cut, hadmitted, hle, hcontent, hplace⟩ := plan_eq_compact h
  rw [projectMessages_of_covers hjournal hcovers] at hprompt
  have hlt : (front checkpoint covered).length < cut := front_lt_cut hcovers (hprompt ▸ hcontent)
  obtain ⟨count, rfl⟩ := Nat.exists_eq_add_of_lt hlt
  rw [Nat.add_assoc] at hadmitted hle hplace
  have hget : ∀ n, prompt.messages[(front checkpoint covered).length + n]? =
      (tail[n]?).map projectRaw := by
    intro n
    rw [hprompt, List.getElem?_append_right (Nat.le_add_right _ _), Nat.add_sub_cancel_left,
      List.getElem?_map]
  have hlength : count + 1 ≤ tail.length := by
    rw [hprompt, List.length_append, List.length_map] at hle
    omega
  refine ⟨tail.take (count + 1), tail.drop (count + 1), (List.take_append_drop _ _).symm, ?_, ?_,
    ?_, ?_⟩
  · rw [← List.length_pos_iff_ne_nil, List.length_take]
    omega
  · rw [hadmitted.removed, hprompt, List.take_append, List.take_of_length_le (Nat.le_add_right _ _),
      Nat.add_sub_cancel_left, List.map_take]
  · rw [hadmitted.retained, hprompt, List.drop_append, List.drop_of_length_le (Nat.le_add_right _ _),
      Nat.add_sub_cancel_left, List.map_drop, List.nil_append]
  · intro message hmessage htool
    rw [List.head?_drop] at hmessage
    rcases hplace with (hend | ⟨-, hplace⟩) | ⟨index, item, hindex, hitem, hsummary⟩
    · rw [hprompt, List.length_append, List.length_map] at hend
      rw [List.getElem?_eq_none (by omega)] at hmessage
      cases hmessage
    · rw [isTool, hget, Option.mem_def.mp hmessage] at hplace
      simp [projectRaw, htool] at hplace
    · -- The message in front is a user's, and a result follows a call or another result.
      obtain rfl : index = (front checkpoint covered).length + count := by omega
      rw [hget] at hitem
      obtain ⟨last, hlast, rfl⟩ := Option.map_eq_some_iff.mp hitem
      obtain ⟨hbound, hvalue⟩ := List.getElem?_eq_some_iff.mp (Option.mem_def.mp hmessage)
      have hsplit : covered ++ tail =
          (covered ++ tail.take (count + 1)) ++ message :: tail.drop (count + 2) := by
        rw [List.append_assoc, ← hvalue, ← List.drop_eq_getElem_cons hbound,
          List.take_append_drop]
      have htake : tail.take (count + 1) = tail.take count ++ [last] := by
        rw [List.take_add_one, hlast]
        rfl
      obtain ⟨earlier, previous, hbefore, hrole⟩ := hjournal.answered _ _ _ hsplit htool
      rw [htake, ← List.append_assoc] at hbefore
      obtain ⟨-, hprevious⟩ := List.append_inj' hbefore rfl
      cases hprevious
      have huser := role_of_internalSummary hsummary
      simp only [projectRaw] at huser
      rcases hrole with h | ⟨h, -⟩ <;> rw [huser] at h <;> exact absurd h (by decide)

theorem mem_first_identified
    {first rest : List AgentMessage}
    (hjournal : Journal (covered ++ tail))
    (hcut : CutsTail covered tail checkpoint made first rest) :
    ∃ last id, first.getLast? = some last ∧ last.journalEntryId = some id := by
  obtain ⟨last, hlast⟩ := Option.ne_none_iff_exists'.mp
    (fun h => hcut.progress (List.getLast?_eq_none_iff.mp h))
  have hmem : last ∈ covered ++ tail := by
    rw [hcut.split]
    exact List.mem_append_right _ (List.mem_append_left _ (List.mem_of_getLast? hlast))
  obtain ⟨id, hid⟩ := Option.ne_none_iff_exists'.mp (hjournal.identified last hmem)
  exact ⟨last, id, hlast, hid⟩

/-- The cutoff of a plan is the last message it covers. -/
theorem cutoff_of_cutsTail
    {first rest : List AgentMessage}
    {cut : Nat}
    (hjournal : Journal (covered ++ tail))
    (hcut : CutsTail covered tail checkpoint made first rest)
    (hadmitted : Admitted prompt cut made) :
    ∃ last, first.getLast? = some last ∧ last.journalEntryId = some made.cutoffEntryId := by
  obtain ⟨last, id, hlast, hid⟩ := mem_first_identified hjournal hcut
  obtain ⟨earlier, rfl⟩ := List.getLast?_eq_some_iff.mp hlast
  have hsources : (sourceIds made.removed).getLast? = some id := by
    rw [hcut.removed, sourceIds, List.map_append, ← List.append_assoc, List.flatMap_append,
      List.filter_append]
    simp [projectRaw, hid, journalEntryId_ne hid]
  rw [hadmitted.cutoff, Option.some.injEq] at hsources
  exact ⟨last, hlast, hsources ▸ hid⟩

theorem journalCutoff_of_cutsTail
    {first rest : List AgentMessage}
    {cut : Nat}
    (hjournal : Journal (covered ++ tail))
    (hcut : CutsTail covered tail checkpoint made first rest)
    (hadmitted : Admitted prompt cut made) :
    journalCutoff (covered ++ tail) made = .ok made.cutoffEntryId := by
  obtain ⟨last, hlast, hid⟩ := cutoff_of_cutsTail hjournal hcut hadmitted
  have hentry : hasEntry (covered ++ tail) made.cutoffEntryId = true := by
    refine List.any_eq_true.mpr ⟨last, ?_, decide_eq_true hid⟩
    rw [hcut.split]
    exact List.mem_append_right _ (List.mem_append_left _ (List.mem_of_getLast? hlast))
  rw [journalCutoff, if_pos hentry]

/-- The anchors a plan keeps: some of all there are, with all of the users'. -/
theorem protectedItems_of_cutsTail
    {first rest : List AgentMessage}
    {cut : Nat}
    (hjournal : Journal (covered ++ tail))
    (hcovers : CoversOption checkpoint covered)
    (hcut : CutsTail covered tail checkpoint made first rest)
    (hadmitted : Admitted prompt cut made) :
    made.protectedItems.Sublist (allAnchors (covered ++ first)) ∧
      ∀ item ∈ allAnchors (covered ++ first), item.message.role = "user" →
        item ∈ made.protectedItems := by
  have hraw : (first.map projectRaw).filterMap (fun item => anchorOf item.message) =
      allAnchors first := by
    rw [List.filterMap_map]
    rfl
  have hall : allAnchors (covered ++ first) = allAnchors covered ++ allAnchors first :=
    List.filterMap_append
  have hfront := filterMap_front_sublist hcovers
  have hitems : made.removed.filterMap (fun item => anchorOf item.message) =
      (front checkpoint covered).filterMap (fun item => anchorOf item.message) ++
        allAnchors first := by
    rw [hcut.removed, List.filterMap_append, hraw]
  have hsub : (made.removed.filterMap fun item => anchorOf item.message).Sublist
      (allAnchors (covered ++ first)) := by
    rw [hitems, hall]
    exact hfront.append (List.Sublist.refl _)
  have hnodup : ((allAnchors (covered ++ first)).map fun item =>
      item.message.journalEntryId).Nodup := by
    have hdistinct := hjournal.distinct
    rw [hcut.split, ← List.append_assoc, List.map_append] at hdistinct
    exact (List.nodup_append.mp hdistinct).1.sublist (ids_allAnchors_sublist _)
  have hcollected : collectProtected made.removed =
      made.removed.filterMap fun item => anchorOf item.message :=
    keepUnseen_of_nodup (hnodup.sublist (hsub.map _)) (by simp)
  obtain ⟨outputRoom, hkept⟩ := hadmitted.anchors
  rw [hcollected] at hkept
  constructor
  · have h := (keepOutputs_sublist
      (made.removed.filterMap fun item => anchorOf item.message).reverse outputRoom).reverse
    rw [List.reverse_reverse, ← hkept] at h
    exact h.trans hsub
  · intro item hitem huser
    rw [hkept, List.mem_reverse]
    refine user_mem_keepOutputs (List.mem_reverse.mpr ?_) huser
    rw [hitems]
    rw [hall] at hitem
    rcases List.mem_append.mp hitem with hold | hnew
    · exact List.mem_append_left _ (user_mem_front hcovers hold huser)
    · exact List.mem_append_right _ hnew

end Step

/-! ## The checkpoint of a compaction -/

section Finish

variable {manager : ContextManager}
variable {plan : CompactionPlan}
variable {summary : Text}
variable {algorithm : Algorithm}
variable {entryId : String}
variable {prompt : PromptContext}
variable {checkpoint : ContextCheckpoint}

theorem isBlank_append
    {text : Text}
    (h : isBlank text = false)
    (more : Text) :
    isBlank (text ++ more) = false := by
  rw [isBlank, List.all_append]
  rw [isBlank] at h
  rw [h, Bool.false_and]

theorem isBlank_noted
    (h : isBlank summary = false) :
    isBlank (noted plan summary algorithm) = false := by
  unfold noted
  split
  · exact h
  · exact isBlank_append h _

/-- What a finished compaction hands out. -/
structure Finished (manager : ContextManager) (plan : CompactionPlan) (summary : Text)
    (entryId : String) (prompt : PromptContext) (checkpoint : ContextCheckpoint) : Prop where
  notBlank : isBlank summary = false
  messages : prompt.messages = compactedMessages plan summary entryId
  fitsTarget : historyTokens prompt.messages ≤ plan.targetTokens
  fitsInput : historyTokens prompt.messages + plan.usage.fixedInputTokens ≤
    manager.inputLimit plan.usage
  entry : checkpoint.entryId = entryId
  cutoff : checkpoint.cutoffEntryId = some plan.cutoffEntryId
  text : checkpoint.summary = [.text summary]
  protectedIds : checkpoint.protectedEntryIds = plan.protectedItems.flatMap (·.sourceEntryIds)

theorem finalize_eq_ok
    (h : finalize manager plan summary algorithm entryId = .ok (.compacted prompt checkpoint)) :
    Finished manager plan (noted plan summary algorithm) entryId prompt checkpoint := by
  unfold finalize at h
  obtain ⟨⟨⟩, hblank, h⟩ := bind_eq_ok.mp h
  obtain ⟨⟨⟩, hfits, h⟩ := bind_eq_ok.mp h
  obtain ⟨⟨⟩, -, h⟩ := bind_eq_ok.mp h
  cases h
  have hbudget := ensure_eq_ok.mp hfits
  exact ⟨isBlank_noted (ensure_eq_ok.mp hblank), rfl, hbudget.1, hbudget.2, rfl, rfl, rfl, rfl⟩

theorem stage_eq_ready
    {raw : List AgentMessage}
    {trigger : Trigger}
    {phase : Phase}
    {instructions : Option Text}
    {wantsSummary : Bool}
    {evidence : Text}
    {reserve : Nat}
    (h : stage manager prompt raw trigger phase instructions wantsSummary =
      .ok (.ready plan evidence reserve)) :
    ∃ made cutoff coveredFrom,
      Compaction.plan manager prompt trigger phase instructions
        (evidenceTokens + summaryAllowance manager wantsSummary) = .ok (.compact made) ∧
      journalCutoff raw made = .ok cutoff ∧
      plan = { made with cutoffEntryId := cutoff, coveredFromEntryId := coveredFrom } := by
  unfold stage at h
  dsimp only at h
  obtain ⟨planned, hplanned, h⟩ := bind_eq_ok.mp h
  cases planned with
  | unchanged same =>
      cases h
  | compact made =>
      obtain ⟨cutoff, hcutoff, h⟩ := bind_eq_ok.mp h
      obtain ⟨built, -, h⟩ := bind_eq_ok.mp h
      obtain ⟨coveredFrom, -, h⟩ := bind_eq_ok.mp h
      cases h
      exact ⟨made, cutoff, coveredFrom, hplanned, hcutoff, rfl⟩

theorem prepareEvidence_eq_ok
    {raw : List AgentMessage}
    {trigger : Trigger}
    {phase : Phase}
    {instructions : Option Text}
    {after : PromptContext}
    (h : prepareEvidence manager prompt raw trigger phase instructions entryId =
      .ok (.compacted after checkpoint)) :
    ∃ staged evidence reserve,
      stage manager prompt raw trigger phase instructions false =
        .ok (.ready staged evidence reserve) ∧
      finalize manager staged (compose header evidence) .deterministic entryId =
        .ok (.compacted after checkpoint) := by
  unfold prepareEvidence at h
  obtain ⟨result, hstage, h⟩ := bind_eq_ok.mp h
  cases result with
  | unchanged same =>
      cases h
  | ready staged evidence reserve =>
      exact ⟨staged, evidence, reserve, hstage, h⟩

end Finish

/-! ## The chain of compactions -/

section Chain

/-- What the last checkpoint covers of the journal. -/
def coveredBy (raw : List AgentMessage) (checkpoint : Option ContextCheckpoint) :
    List AgentMessage :=
  raw.take (tailStart raw checkpoint)

/-- What it does not. -/
def uncovered (raw : List AgentMessage) (checkpoint : Option ContextCheckpoint) :
    List AgentMessage :=
  raw.drop (tailStart raw checkpoint)

/-- A journal that only grows, and the last checkpoint of a chain of compactions over it. -/
inductive Reached : List AgentMessage → Option ContextCheckpoint → Prop
  | start
      {raw : List AgentMessage}
      (hjournal : Journal raw) :
      Reached raw none
  | commit
      {raw new : List AgentMessage}
      {checkpoint : Option ContextCheckpoint}
      (hreached : Reached raw checkpoint)
      (hjournal : Journal (raw ++ new)) :
      Reached (raw ++ new) checkpoint
  | compact
      {raw : List AgentMessage}
      {checkpoint : Option ContextCheckpoint}
      {manager : ContextManager}
      {prompt after : PromptContext}
      {trigger : Trigger}
      {phase : Phase}
      {instructions : Option Text}
      {entryId : String}
      {made : ContextCheckpoint}
      (hreached : Reached raw checkpoint)
      (hprompt : prompt.messages = projectMessages raw checkpoint)
      (hmade : prepareEvidence manager prompt raw trigger phase instructions entryId =
        .ok (.compacted after made)) :
      Reached raw (some made)

/-- What a compaction leaves, for the prompt it hands out. -/
structure Survives (manager : ContextManager) (prompt : PromptContext) (raw : List AgentMessage)
    (previous : Option ContextCheckpoint) (trigger : Trigger) (phase : Phase)
    (instructions : Option Text) (after : PromptContext) (made : ContextCheckpoint) : Prop where
  /-- The prompt of a restart is the same. -/
  restart : ∀ inputTokens contextWindow,
    (projectPromptContext raw (some made) inputTokens contextWindow).messages = after.messages
  /-- What users said in the covered prefix is in it. -/
  users : ∀ message ∈ coveredBy raw (some made), message.role = "user" →
    message.isCheckpoint = false → ∀ said, .text said ∈ message.content → isBlank said = false →
      ∃ item ∈ after.messages, item.sourceEntryIds = message.journalEntryId.toList ∧
        .text said ∈ item.message.content
  /-- Behind the anchors and the checkpoint's message comes the tail. -/
  tail : ∃ anchors summary, after.messages =
    anchors ++ summary :: (uncovered raw (some made)).map projectRaw
  disjoint : ∀ covered ∈ coveredBy raw (some made), ∀ message ∈ uncovered raw (some made),
    covered.journalEntryId ≠ message.journalEntryId
  /-- The tail does not start with the result of a tool. -/
  turn : ∀ message ∈ (uncovered raw (some made)).head?, message.role ≠ "tool"
  /-- The coverage moves on. -/
  forward : tailStart raw previous < tailStart raw (some made)
  fits : ∃ admitted,
    plan manager prompt trigger phase instructions evidenceTokens = .ok (.compact admitted) ∧
      historyTokens after.messages ≤ admitted.targetTokens ∧
      historyTokens after.messages + prompt.usage.fixedInputTokens ≤
        manager.inputLimit prompt.usage

variable {covered tail : List AgentMessage}
variable {checkpoint : Option ContextCheckpoint}
variable {manager : ContextManager}
variable {prompt after : PromptContext}
variable {trigger : Trigger}
variable {phase : Phase}
variable {instructions : Option Text}
variable {entryId : String}
variable {made : ContextCheckpoint}
variable {staged : CompactionPlan}
variable {summary : Text}

/-- The ids a checkpoint protects are those of the anchors it was made with. -/
theorem inProtected_iff
    {items : List ProjectedMessage}
    (hitems : items.Sublist (allAnchors covered))
    (item : ProjectedMessage) :
    inProtected (items.flatMap (·.sourceEntryIds)) item = true ↔
      item.message.journalEntryId.isSome = true ∧
        item.message.journalEntryId ∈ items.map fun item => item.message.journalEntryId := by
  have hsources : ∀ other ∈ items,
      other.sourceEntryIds = other.message.journalEntryId.toList := by
    intro other hother
    obtain ⟨message, -, hanchor⟩ := List.mem_filterMap.mp (hitems.subset hother)
    exact sourceEntryIds_anchorOf hanchor
  rw [inProtected]
  cases hid : item.message.journalEntryId with
  | none =>
      simp
  | some id =>
      simp only [Option.any_some, Option.isSome_some, true_and, decide_eq_true_eq,
        List.mem_flatMap, List.mem_map]
      constructor
      · rintro ⟨other, hother, hmem⟩
        rw [hsources other hother, Option.mem_toList] at hmem
        exact ⟨other, hother, hmem⟩
      · rintro ⟨other, hother, hmem⟩
        refine ⟨other, hother, ?_⟩
        rw [hsources other hother, Option.mem_toList]
        exact hmem

/-- A finished compaction leaves a checkpoint that covers more, and its prompt is the one that
is projected from it. -/
theorem covers_of_finished
    {plan : CompactionPlan}
    {first rest : List AgentMessage}
    {cut : Nat}
    (hjournal : Journal (covered ++ tail))
    (hcovers : CoversOption checkpoint covered)
    (hcut : CutsTail covered tail checkpoint plan first rest)
    (hadmitted : Admitted prompt cut plan)
    (hstaged : staged.protectedItems = plan.protectedItems ∧ staged.retained = plan.retained ∧
      staged.cutoffEntryId = plan.cutoffEntryId)
    (hfinished : Finished manager staged summary entryId after made) :
    Covers made (covered ++ first) ∧
      after.messages = front (some made) (covered ++ first) ++ rest.map projectRaw := by
  obtain ⟨hsub, husers⟩ := protectedItems_of_cutsTail hjournal hcovers hcut hadmitted
  obtain ⟨last, hlast, hid⟩ := cutoff_of_cutsTail hjournal hcut hadmitted
  have hids : made.protectedEntryIds = plan.protectedItems.flatMap (·.sourceEntryIds) := by
    rw [hfinished.protectedIds, hstaged.1]
  have hdistinct : ((allAnchors (covered ++ first)).map fun item =>
      item.message.journalEntryId).Nodup := by
    have hnodup := hjournal.distinct
    rw [hcut.split, ← List.append_assoc, List.map_append] at hnodup
    exact (List.nodup_append.mp hnodup).1.sublist (ids_allAnchors_sublist _)
  have hidentified : ∀ item ∈ allAnchors (covered ++ first),
      item.message.journalEntryId.isSome = true := by
    intro item hitem
    obtain ⟨message, hmessage, hanchor⟩ := List.mem_filterMap.mp hitem
    rw [journalEntryId_anchorOf hanchor, Option.isSome_iff_ne_none]
    refine hjournal.identified message ?_
    rw [hcut.split, ← List.append_assoc]
    exact List.mem_append_left _ hmessage
  have hprotected : ∀ item ∈ allAnchors (covered ++ first),
      inProtected made.protectedEntryIds item = true ↔
        item.message.journalEntryId ∈
          plan.protectedItems.map fun item => item.message.journalEntryId := by
    intro item hitem
    rw [hids, inProtected_iff hsub, and_iff_right (hidentified item hitem)]
  have hkept : protectedAnchors made (covered ++ first) = plan.protectedItems := by
    rw [protectedAnchors_eq_filter]
    exact filter_of_sublist hsub hdistinct hprotected
  constructor
  · refine ⟨⟨last, ?_, ?_⟩, ⟨summary, hfinished.text, hfinished.notBlank⟩, ?_⟩
    · rw [List.getLast?_append, hlast, Option.some_or]
    · rw [hfinished.cutoff, hstaged.2.2, hid]
    · intro item hitem huser
      exact (hprotected item hitem).mpr (List.mem_map_of_mem (husers item hitem huser))
  · rw [hfinished.messages, compactedMessages, hstaged.1, hstaged.2.1, hcut.retained, front, hkept,
      checkpointMessages_of_text hfinished.text hfinished.notBlank, hfinished.entry,
      List.append_assoc]
    rfl

/-- One compaction, over any checkpoint of the compactor. -/
theorem prepare_covers
    (hjournal : Journal (covered ++ tail))
    (hcovers : CoversOption checkpoint covered)
    (hprompt : prompt.messages = projectMessages (covered ++ tail) checkpoint)
    (hmade : prepareEvidence manager prompt (covered ++ tail) trigger phase instructions entryId =
      .ok (.compacted after made)) :
    ∃ plan first rest,
      Compaction.plan manager prompt trigger phase instructions evidenceTokens =
        .ok (.compact plan) ∧
      CutsTail covered tail checkpoint plan first rest ∧
      Covers made (covered ++ first) ∧
      after.messages = front (some made) (covered ++ first) ++ rest.map projectRaw ∧
      historyTokens after.messages ≤ plan.targetTokens ∧
      historyTokens after.messages + prompt.usage.fixedInputTokens ≤
        manager.inputLimit prompt.usage := by
  obtain ⟨staged, evidence, reserve, hstage, hfinal⟩ := prepareEvidence_eq_ok hmade
  obtain ⟨plan, cutoff, coveredFrom, hplan, hcutoff, hstaged⟩ := stage_eq_ready hstage
  obtain ⟨first, rest, hcut⟩ := cutsTail_of_plan hjournal hcovers hprompt hplan
  obtain ⟨cut, hadmitted, -⟩ := plan_eq_compact hplan
  rw [journalCutoff_of_cutsTail hjournal hcut hadmitted] at hcutoff
  cases hcutoff
  have hfinished := finalize_eq_ok hfinal
  have hparts : staged.protectedItems = plan.protectedItems ∧ staged.retained = plan.retained ∧
      staged.cutoffEntryId = plan.cutoffEntryId := by
    rw [hstaged]
    exact ⟨rfl, rfl, rfl⟩
  have husage : staged.usage = prompt.usage := by
    rw [hstaged]
    exact hadmitted.usage
  have htarget : staged.targetTokens = plan.targetTokens := by
    rw [hstaged]
  obtain ⟨hnext, hmessages⟩ :=
    covers_of_finished hjournal hcovers hcut hadmitted hparts hfinished
  refine ⟨plan, first, rest, hplan, hcut, hnext, hmessages, ?_, ?_⟩
  · exact htarget ▸ hfinished.fitsTarget
  · exact husage ▸ hfinished.fitsInput

/-- After any chain the checkpoint says what the compactor left. -/
theorem Reached.covers
    {raw : List AgentMessage}
    (hreached : Reached raw checkpoint) :
    Journal raw ∧ ∃ covered tail, raw = covered ++ tail ∧ CoversOption checkpoint covered := by
  induction hreached with
  | start hjournal =>
      exact ⟨hjournal, [], _, rfl, rfl⟩
  | @commit raw new checkpoint _ hjournal ih =>
      obtain ⟨-, covered, tail, rfl, hcovers⟩ := ih
      exact ⟨hjournal, covered, tail ++ new, List.append_assoc _ _ _, hcovers⟩
  | compact _ hprompt hmade ih =>
      obtain ⟨hjournal, covered, tail, rfl, hcovers⟩ := ih
      obtain ⟨plan, first, rest, -, hcut, hnext, -⟩ :=
        prepare_covers hjournal hcovers hprompt hmade
      refine ⟨hjournal, covered ++ first, rest, ?_, hnext⟩
      rw [hcut.split, List.append_assoc]

theorem tailStart_of_coversOption
    (hjournal : Journal (covered ++ tail))
    (hcovers : CoversOption checkpoint covered) :
    tailStart (covered ++ tail) checkpoint = covered.length := by
  cases checkpoint with
  | none =>
      obtain rfl : covered = [] := hcovers
      rfl
  | some checkpoint =>
      exact tailStart_of_covers hjournal hcovers

/-- What a user said is in the anchor of the message. -/
theorem said_mem_anchor
    {message : AgentMessage}
    {said : Text}
    (hid : message.journalEntryId ≠ none)
    (hrole : message.role = "user")
    (hcheckpoint : message.isCheckpoint = false)
    (hsaid : .text said ∈ message.content)
    (hblank : isBlank said = false) :
    ∃ item, anchorOf message = some item ∧ .text said ∈ item.message.content := by
  obtain ⟨id, hid⟩ := Option.ne_none_iff_exists'.mp hid
  have hmem : .text said ∈ message.content.filter ContentBlock.isSpoken :=
    List.mem_filter.mpr ⟨hsaid, by simp [ContentBlock.isSpoken, hblank]⟩
  have hanchor := protectedText_eq_some.mpr
    ⟨by simp [hrole], hcheckpoint, id, hid, List.ne_nil_of_mem hmem, rfl⟩
  exact ⟨_, anchorOf_eq_some.mpr ⟨_, hanchor, rfl⟩, hmem⟩

/-- A compacted prompt is the one a restart sends; all that users said is in it, nothing is
both covered and in the tail, which starts with no result of a tool, the coverage moves on, and
the prompt fits. -/
theorem compaction_survives
    (raw : List AgentMessage)
    (checkpoint : Option ContextCheckpoint)
    (hreached : Reached raw checkpoint)
    (manager : ContextManager)
    (prompt : PromptContext)
    (hprompt : prompt.messages = projectMessages raw checkpoint)
    (trigger : Trigger)
    (phase : Phase)
    (instructions : Option Text)
    (entryId : String)
    (after : PromptContext)
    (made : ContextCheckpoint)
    (hmade : prepareEvidence manager prompt raw trigger phase instructions entryId =
      .ok (.compacted after made)) :
    Survives manager prompt raw checkpoint trigger phase instructions after made := by
  obtain ⟨hjournal, covered, tail, rfl, hcovers⟩ := hreached.covers
  obtain ⟨plan, first, rest, hplan, hcut, hnext, hmessages, htarget, hinput⟩ :=
    prepare_covers hjournal hcovers hprompt hmade
  obtain ⟨rfl⟩ := hcut.split
  have hassoc : covered ++ (first ++ rest) = (covered ++ first) ++ rest :=
    (List.append_assoc _ _ _).symm
  have hjournal' : Journal ((covered ++ first) ++ rest) := hassoc ▸ hjournal
  have hstart : tailStart (covered ++ (first ++ rest)) (some made) = (covered ++ first).length := by
    rw [hassoc]
    exact tailStart_of_covers hjournal' hnext
  have hcoveredBy : coveredBy (covered ++ (first ++ rest)) (some made) = covered ++ first := by
    rw [coveredBy, hstart, hassoc, List.take_left]
  have huncovered : uncovered (covered ++ (first ++ rest)) (some made) = rest := by
    rw [uncovered, hstart, hassoc, List.drop_left]
  obtain ⟨text, hsummary, hblank⟩ := hnext.summary
  constructor
  · intro inputTokens contextWindow
    have hoption : CoversOption (some made) (covered ++ first) := hnext
    rw [hmessages, hassoc]
    exact projectMessages_of_covers hjournal' hoption
  · intro message hmessage hrole hcheckpoint said hsaid hspoken
    rw [hcoveredBy] at hmessage
    have hid := hjournal'.identified message (List.mem_append_left _ hmessage)
    obtain ⟨item, hanchor, hin⟩ := said_mem_anchor hid hrole hcheckpoint hsaid hspoken
    have hitem : item ∈ allAnchors (covered ++ first) :=
      List.mem_filterMap.mpr ⟨message, hmessage, hanchor⟩
    refine ⟨item, ?_, ?_, hin⟩
    · rw [hmessages, front, protectedAnchors_eq_filter]
      refine List.mem_append_left _ (List.mem_append_left _ (List.mem_filter.mpr ⟨hitem, ?_⟩))
      exact hnext.users item hitem ((role_anchorOf hanchor).trans hrole)
    · rw [sourceEntryIds_anchorOf hanchor, journalEntryId_anchorOf hanchor]
  · rw [huncovered, hmessages, front, checkpointMessages_of_text hsummary hblank,
      List.append_assoc]
    exact ⟨_, _, rfl⟩
  · intro old hold message hmessage heq
    rw [hcoveredBy] at hold
    rw [huncovered] at hmessage
    have hdistinct := hjournal'.distinct
    rw [List.map_append, List.nodup_append] at hdistinct
    exact hdistinct.2.2 _ (List.mem_map_of_mem hold) _ (List.mem_map_of_mem hmessage) heq
  · rw [huncovered]
    exact hcut.turn
  · rw [tailStart_of_coversOption hjournal hcovers, hstart, List.length_append]
    exact Nat.lt_add_of_pos_right (List.length_pos_iff_ne_nil.mpr hcut.progress)
  · exact ⟨plan, hplan, htarget, hinput⟩

/-! ### A journal with texts that are left out -/

/-- A message of the journal with one text. -/
def sampleMessage (role id : String) (said : Text) (metadata : List (String × Json)) :
    AgentMessage :=
  ⟨role, [.text said], "", "", some ((journalEntryIdKey, .str id) :: metadata)⟩

/-- A user's message of white space, one with the mark of a checkpoint, and an answer. -/
def sampleJournal : List AgentMessage :=
  [sampleMessage "user" "a" ['\t'] [],
    sampleMessage "user" "b" ['n', 'o', 't', 'e'] [(internalCheckpointKey, .bool true)],
    sampleMessage "assistant" "c" ['o', 'k'] []]

def sampleManager : ContextManager := ⟨true, 6400, 4000, 32000, "model"⟩

def samplePrompt : PromptContext := projectPromptContext sampleJournal none none 32000

/-- Everything is covered, and no text of the prompt is one of the given ones. -/
def leavesOut (said : List Text) : Except ContextError ContextPreparation → Bool
  | .ok (.compacted after made) =>
      tailStart sampleJournal (some made) = sampleJournal.length &&
        after.messages.all fun item => said.all fun text => .text text ∉ item.message.content
  | _ => false

theorem leavesOut_eq_true
    {said : List Text}
    {result : Except ContextError ContextPreparation}
    (h : leavesOut said result = true) :
    ∃ after made, result = .ok (.compacted after made) ∧
      coveredBy sampleJournal (some made) = sampleJournal ∧
      ∀ item ∈ after.messages, ∀ text ∈ said, .text text ∉ item.message.content := by
  match result with
  | .ok (.compacted after made) =>
      obtain ⟨hstart, hall⟩ := Bool.and_eq_true_iff.mp h
      refine ⟨after, made, rfl, ?_, fun item hitem text htext => ?_⟩
      · rw [coveredBy, of_decide_eq_true hstart, List.take_length]
      · exact of_decide_eq_true
          (List.all_eq_true.mp (List.all_eq_true.mp hall item hitem) text htext)

set_option maxRecDepth 20000 in
theorem sample_leavesOut :
    leavesOut [['\t'], ['n', 'o', 't', 'e']]
      (prepareEvidence sampleManager samplePrompt sampleJournal .manual .standalone none "s") =
        true := by
  decide +kernel

theorem sampleJournal_journal : Journal sampleJournal where
  identified := by decide +kernel
  distinct := by decide +kernel
  answered := by
    intro before message after hsplit htool
    have hroles : ∀ message ∈ sampleJournal, message.role ≠ "tool" := by decide
    exact absurd htool (hroles message (by simp [hsplit]))

theorem compaction_survives_sample :
    ∃ after made,
      prepareEvidence sampleManager samplePrompt sampleJournal .manual .standalone none "s" =
        .ok (.compacted after made) ∧
      Survives sampleManager samplePrompt sampleJournal none .manual .standalone none after made := by
  obtain ⟨after, made, hmade, -⟩ := leavesOut_eq_true sample_leavesOut
  exact ⟨after, made, hmade, compaction_survives sampleJournal none (.start sampleJournal_journal)
    sampleManager samplePrompt rfl .manual .standalone none "s" after made hmade⟩

/-- Two user's messages are covered, and their texts are nowhere in the prompt. -/
theorem user_texts_left_out :
    ∃ after made, Reached sampleJournal none ∧
      prepareEvidence sampleManager samplePrompt sampleJournal .manual .standalone none "s" =
        .ok (.compacted after made) ∧
      ∀ said ∈ [['\t'], ['n', 'o', 't', 'e']],
        (∃ message ∈ coveredBy sampleJournal (some made), message.role = "user" ∧
          .text said ∈ message.content) ∧
        ∀ item ∈ after.messages, .text said ∉ item.message.content := by
  obtain ⟨after, made, hmade, hcovered, hout⟩ := leavesOut_eq_true sample_leavesOut
  refine ⟨after, made, .start sampleJournal_journal, hmade, fun said hsaid => ⟨?_, ?_⟩⟩
  · rw [hcovered]
    have hsays : ∀ said ∈ [['\t'], ['n', 'o', 't', 'e']],
        ∃ message ∈ sampleJournal, message.role = "user" ∧ .text said ∈ message.content := by
      decide
    exact hsays said hsaid
  · exact fun item hitem => hout item hitem said hsaid

end Chain

end Compaction
end FutureOs
