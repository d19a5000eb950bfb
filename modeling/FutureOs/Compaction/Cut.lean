import FutureOs.Compaction.Evidence

/-!
# Where a plan cuts

A cut is at the end of the prompt, in front of a message that is no tool's result, or right
behind the message of a checkpoint (`plan_eq_compact`).
-/

namespace FutureOs
namespace Compaction

/-! ## Boundaries -/

section Boundary

variable {messages : List ProjectedMessage}
variable {costs : List Nat}
variable {keepRecentTokens : Nat}

theorem isTool_of_isCall
    {index : Nat}
    (h : isCall messages index = true) :
    isTool messages index = false := by
  obtain ⟨item, hitem, hboth⟩ := (Option.any_eq_true _ _).mp h
  have hrole : item.message.role = "assistant" := by
    simpa using (Bool.and_eq_true_iff.mp hboth).1
  simp [isTool, hitem, hrole]

theorem backToCall_spec (messages : List ProjectedMessage) (cut : Nat) :
    backToCall messages cut = 0 ∨ isTool messages (backToCall messages cut) = false := by
  induction cut with
  | zero =>
      exact .inl rfl
  | succ cut ih =>
      rw [backToCall]
      split
      · split
        · rename_i hcall
          exact .inr (isTool_of_isCall hcall)
        · exact ih
      · rename_i htool
        exact .inr (Bool.eq_false_iff.mpr htool)

theorem fallbackCut_spec
    {cut : Nat}
    (h : fallbackCut messages costs keepRecentTokens = some cut) :
    cut < messages.length ∧ isTool messages cut = false := by
  unfold fallbackCut at h
  split at h
  · cases h
  · dsimp only at h
    split at h
    · rename_i hrange
      cases h
      exact ⟨hrange.2, (backToCall_spec messages _).resolve_left (by omega)⟩
    · cases h

theorem mem_userStarts
    {start : Nat}
    (h : start ∈ userStarts messages) :
    ∃ item, messages[start]? = some item ∧ item.message.role = "user" := by
  obtain ⟨⟨item, _⟩, hmem, rfl⟩ := List.mem_map.mp h
  obtain ⟨hzip, hstarts⟩ := List.mem_filter.mp hmem
  refine ⟨item, List.mem_zipIdx_iff_getElem?.mp hzip, ?_⟩
  have hturn : item.startsTurn = true := hstarts
  simp only [ProjectedMessage.startsTurn, Bool.and_eq_true, decide_eq_true_eq] at hturn
  exact hturn.1.1

theorem retainTurns_mem
    {turns : List (Nat × Nat)}
    {retained start : Nat}
    {found : Option Nat}
    (h : retainTurns costs keepRecentTokens turns retained found = some start) :
    found = some start ∨ start ∈ turns.map Prod.fst := by
  induction turns generalizing retained found with
  | nil =>
      exact .inl h
  | cons turn older ih =>
      obtain ⟨first, stop⟩ := turn
      rw [retainTurns] at h
      split at h
      · exact .inl h
      · rcases ih h with heq | hmem
        · cases heq
          exact .inr (by simp)
        · exact .inr (by simp [hmem])

/-- A place where a compaction may cut. -/
def CutPlace (messages : List ProjectedMessage) (cut : Nat) : Prop :=
  cut = messages.length ∨ cut < messages.length ∧ isTool messages cut = false

theorem turnAwareCut_spec
    {all : Bool}
    {cut : Nat}
    (h : turnAwareCut messages costs keepRecentTokens all = some cut) :
    CutPlace messages cut := by
  have hfallback : ∀ {cut}, fallbackCut messages costs keepRecentTokens = some cut →
      CutPlace messages cut := fun h => .inr (fallbackCut_spec h)
  unfold turnAwareCut at h
  dsimp only at h
  split at h
  · split at h
    · cases h
      exact .inl rfl
    · exact hfallback h
  · split at h
    · rename_i start hstart
      split at h
      · cases h
        exact .inl rfl
      · split at h
        · exact hfallback h
        · cases h
          have hmem : cut ∈ userStarts messages := by
            rcases retainTurns_mem hstart with hnone | hmem
            · cases hnone
            · rw [List.map_reverse, List.mem_reverse] at hmem
              obtain ⟨⟨first, stop⟩, hpair, rfl⟩ := List.mem_map.mp hmem
              exact (List.of_mem_zip hpair).1
          obtain ⟨item, hitem, hrole⟩ := mem_userStarts hmem
          refine .inr ⟨(List.getElem?_eq_some_iff.mp hitem).1, ?_⟩
          simp [isTool, hitem, hrole]
    · exact hfallback h

theorem lastSummary_spec
    {index : Nat}
    (h : lastSummary messages = some index) :
    ∃ item, messages[index]? = some item ∧ internalSummary item.message ≠ none := by
  obtain ⟨⟨item, _⟩, hlast, rfl⟩ := Option.map_eq_some_iff.mp h
  obtain ⟨hzip, hsummary⟩ := List.mem_filter.mp (List.mem_of_getLast? hlast)
  exact ⟨item, List.mem_zipIdx_iff_getElem?.mp hzip, Option.isSome_iff_ne_none.mp hsummary⟩

end Boundary

/-! ## The plan -/

section Plan

variable {manager : ContextManager}
variable {prompt : PromptContext}
variable {trigger : Trigger}
variable {phase : Phase}
variable {instructions : Option Text}
variable {summaryCap cut : Nat}
variable {made : CompactionPlan}

theorem boundary_spec
    {messages : List ProjectedMessage}
    {costs : List Nat}
    (h : boundary manager messages costs trigger phase = some cut) :
    CutPlace messages cut := by
  rcases Option.or_eq_some_iff.mp h with hturn | ⟨-, hall⟩
  · exact turnAwareCut_spec hturn
  · split at hall
    · cases hall
      exact .inl rfl
    · cases hall

/-- A cut behind the last checkpoint's message. -/
def BehindSummary (messages : List ProjectedMessage) (cut : Nat) : Prop :=
  ∃ index item, cut = index + 1 ∧ messages[index]? = some item ∧
    internalSummary item.message ≠ none

theorem finalCut_spec
    {messages : List ProjectedMessage}
    {costs : List Nat}
    (h : CutPlace messages cut) :
    CutPlace messages (finalCut manager messages costs trigger phase cut) ∨
      BehindSummary messages (finalCut manager messages costs trigger phase cut) := by
  unfold finalCut
  cases hlast : lastSummary messages with
  | none =>
      dsimp only
      split
      · exact .inl (.inl rfl)
      · exact .inl h
  | some index =>
      obtain ⟨item, hitem, hsummary⟩ := lastSummary_spec hlast
      dsimp only
      split
      · exact .inl (.inl rfl)
      · rcases Nat.le_total cut (index + 1) with hle | hle
        · rw [Nat.max_eq_right hle]
          exact .inr ⟨index, item, rfl, hitem, hsummary⟩
        · rw [Nat.max_eq_left hle]
          exact .inl h

/-- What an admitted plan holds. -/
structure Admitted (prompt : PromptContext) (cut : Nat) (made : CompactionPlan) : Prop where
  removed : made.removed = prompt.messages.take cut
  retained : made.retained = prompt.messages.drop cut
  anchors : ∃ outputRoom, made.protectedItems =
    (keepOutputs outputRoom (collectProtected made.removed).reverse).1.reverse
  coveredFrom : (sourceIds made.removed).head? = some made.coveredFromEntryId
  cutoff : (sourceIds made.removed).getLast? = some made.cutoffEntryId
  usage : made.usage = prompt.usage

theorem budgeted_eq_ok
    (h : budgeted manager prompt trigger phase instructions summaryCap cut = .ok made) :
    Admitted prompt cut made := by
  unfold budgeted at h
  dsimp only at h
  obtain ⟨⟨⟩, -, h⟩ := bind_eq_ok.mp h
  obtain ⟨coveredFrom, hfrom, h⟩ := bind_eq_ok.mp h
  obtain ⟨cutoff, hcutoff, h⟩ := bind_eq_ok.mp h
  cases h
  exact ⟨rfl, rfl, ⟨_, rfl⟩, context_eq_ok.mp hfrom, context_eq_ok.mp hcutoff, rfl⟩

theorem plan_eq_compact
    (h : plan manager prompt trigger phase instructions summaryCap = .ok (.compact made)) :
    ∃ cut, Admitted prompt cut made ∧ cut ≤ prompt.messages.length ∧
      hasCompactableContent (prompt.messages.take cut) = true ∧
      (CutPlace prompt.messages cut ∨ BehindSummary prompt.messages cut) := by
  unfold plan at h
  dsimp only at h
  split at h
  · cases h
  · split at h
    · cases h
    · split at h
      · cases h
      · split at h
        · split at h <;> cases h
        · rename_i start hstart
          split at h
          · cases h
          · rename_i hrange
            rw [not_or, not_or] at hrange
            split at h
            · rename_i hcontent
              obtain ⟨plan', hbudgeted, hmade⟩ : ∃ plan', budgeted manager prompt trigger phase
                  instructions summaryCap (finalCut manager prompt.messages
                    prompt.messageTokenCosts trigger phase start) = .ok plan' ∧
                    PlannedPreparation.compact plan' = .compact made := by
                cases hbudgeted : budgeted manager prompt trigger phase instructions summaryCap
                  (finalCut manager prompt.messages prompt.messageTokenCosts trigger phase start)
                    with
                | error e =>
                    rw [hbudgeted] at h
                    cases h
                | ok plan' =>
                    rw [hbudgeted] at h
                    exact ⟨plan', rfl, Except.ok.inj h⟩
              cases hmade
              exact ⟨_, budgeted_eq_ok hbudgeted, Nat.le_of_not_lt hrange.2.1, hcontent,
                finalCut_spec (boundary_spec hstart)⟩
            · cases h

end Plan

/-! ## Anchors that are kept -/

section Anchors

variable {items : List ProjectedMessage}

theorem keepUnseen_of_nodup
    {seen : List (Option String)}
    (hnodup : (items.map fun item => item.message.journalEntryId).Nodup)
    (hseen : ∀ item ∈ items, item.message.journalEntryId ∉ seen) :
    keepUnseen items seen = items := by
  induction items generalizing seen with
  | nil =>
      rfl
  | cons item rest ih =>
      rw [List.map_cons, List.nodup_cons] at hnodup
      rw [keepUnseen, if_neg (hseen item List.mem_cons_self), ih hnodup.2]
      intro other hother hmem
      rcases List.mem_cons.mp hmem with heq | hold
      · exact hnodup.1 (heq ▸ List.mem_map_of_mem hother)
      · exact hseen other (List.mem_cons_of_mem item hother) hold

theorem keepOutputs_sublist (items : List ProjectedMessage) (outputRoom : Nat) :
    (keepOutputs outputRoom items).1.Sublist items := by
  induction items generalizing outputRoom with
  | nil =>
      exact List.Sublist.refl []
  | cons item rest ih =>
      rw [keepOutputs]
      split
      · exact (ih outputRoom).cons_cons item
      · split
        · exact (ih _).cons_cons item
        · exact (ih outputRoom).cons item

theorem user_mem_keepOutputs
    {item : ProjectedMessage}
    {outputRoom : Nat}
    (hmem : item ∈ items)
    (huser : item.message.role = "user") :
    item ∈ (keepOutputs outputRoom items).1 := by
  induction items generalizing outputRoom with
  | nil =>
      exact absurd hmem (by simp)
  | cons first rest ih =>
      rw [keepOutputs]
      rcases List.mem_cons.mp hmem with rfl | hrest
      · rw [if_pos huser]
        exact List.mem_cons_self
      · split
        · exact List.mem_cons_of_mem first (ih hrest)
        · split
          · exact List.mem_cons_of_mem first (ih hrest)
          · exact ih hrest

end Anchors

end Compaction
end FutureOs
