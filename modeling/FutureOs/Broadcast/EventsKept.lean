import FutureOs.Broadcast.EventAttempt
import Mathlib.Data.List.Induction

/-!
# What the journal writer has acknowledged

An attempt gathers its events in a batch, and every event it has seen is in the
batch or in the ledger (`Kept`).  So an attempt that succeeds has stored its events,
and an event whose caller was told so is in the ledger from then on, whatever the
attempts after it come to (`acknowledged_events_stored`).
-/

namespace FutureOs
namespace Broadcast

open Content

variable {events : List Event}
variable {outcomes : Outcomes}

/-! ## Adding to the batch -/

theorem merge_of_combines
    {prior group : Group}
    (h : prior.combines group = true) :
    prior.stream = group.stream ∧
      prior.change.lastCursor + 1 = group.change.firstCursor ∧
      (prior.merge group).stream = prior.stream ∧
      (prior.merge group).change.firstCursor = prior.change.firstCursor ∧
      (prior.merge group).change.lastCursor = group.change.lastCursor := by
  rw [Group.combines, decide_eq_true_eq] at h
  obtain ⟨hstream, -, -, hnext, hbodies, -⟩ := h
  refine ⟨hstream, hnext, ?_⟩
  rw [continuesBody.eq_def] at hbodies
  split at hbodies
  · rename_i body next hprior hgroup
    unfold Group.merge
    rw [hprior, hgroup]
    exact ⟨rfl, rfl, rfl⟩
  · cases hbodies

/-- A group of the batch stays, grows to the end of the new one, or is the new one. -/
theorem mem_add
    (pending : Pending)
    (group : Group)
    {added : Group}
    (h : added ∈ pending.add group) :
    added ∈ pending ∨ added = group ∨
      ∃ prior ∈ pending, prior.combines group = true ∧ added = prior.merge group := by
  induction pending, group using Pending.add.induct with
  | case1 group =>
      exact Or.inr (Or.inl (List.mem_singleton.1 h))
  | case2 last group hcombines =>
      rw [Pending.add, if_pos hcombines] at h
      exact Or.inr (Or.inr ⟨last, List.mem_cons_self, hcombines, List.mem_singleton.1 h⟩)
  | case3 last group hcombines =>
      rw [Pending.add, if_neg hcombines] at h
      rcases List.mem_cons.1 h with rfl | h
      · exact Or.inl List.mem_cons_self
      · exact Or.inr (Or.inl (List.mem_singleton.1 h))
  | case4 first next rest group ih =>
      rw [Pending.add] at h
      rcases List.mem_cons.1 h with rfl | h
      · exact Or.inl List.mem_cons_self
      · rcases ih h with hmem | hgroup | ⟨prior, hprior, hmerge⟩
        · exact Or.inl (List.mem_cons_of_mem _ hmem)
        · exact Or.inr (Or.inl hgroup)
        · exact Or.inr (Or.inr ⟨prior, List.mem_cons_of_mem _ hprior, hmerge⟩)

/-- What the groups reached over, they reach over after. -/
theorem covers_add
    (pending : Pending)
    (group : Group)
    (hvalid : group.change.firstCursor ≤ group.change.lastCursor)
    (hpending : ∀ prior ∈ pending, prior.change.firstCursor ≤ prior.change.lastCursor)
    {one : Group}
    (h : one ∈ pending ∨ one = group) :
    ∃ added ∈ pending.add group, added.stream = one.stream ∧
      added.change.firstCursor ≤ one.change.firstCursor ∧
      one.change.lastCursor ≤ added.change.lastCursor := by
  induction pending, group using Pending.add.induct with
  | case1 group =>
      obtain rfl := h.resolve_left List.not_mem_nil
      exact ⟨one, List.mem_cons_self, rfl, Int.le_refl _, Int.le_refl _⟩
  | case2 last group hcombines =>
      obtain ⟨hstream, hnext, hmerged, hfirst, hlast⟩ := merge_of_combines hcombines
      have hlastValid := hpending last List.mem_cons_self
      rw [Pending.add, if_pos hcombines]
      refine ⟨last.merge group, List.mem_cons_self, ?_⟩
      rcases h with hmem | rfl
      · obtain rfl := List.mem_singleton.1 hmem
        exact ⟨hmerged, by omega, by omega⟩
      · exact ⟨hmerged.trans hstream, by omega, by omega⟩
  | case3 last group hcombines =>
      rw [Pending.add, if_neg hcombines]
      refine ⟨one, ?_, rfl, Int.le_refl _, Int.le_refl _⟩
      rcases h with hmem | rfl
      · exact List.mem_cons.2 (Or.inl (List.mem_singleton.1 hmem))
      · exact List.mem_cons_of_mem _ List.mem_cons_self
  | case4 first next rest group ih =>
      rw [Pending.add]
      have hrest : ∀ prior ∈ next :: rest,
          prior.change.firstCursor ≤ prior.change.lastCursor :=
        fun prior hprior => hpending prior (List.mem_cons_of_mem _ hprior)
      rcases h with hmem | hgroup
      · rcases List.mem_cons.1 hmem with rfl | hmem
        · exact ⟨one, List.mem_cons_self, rfl, Int.le_refl _, Int.le_refl _⟩
        · obtain ⟨added, hadded, hreach⟩ := ih hvalid hrest (Or.inl hmem)
          exact ⟨added, List.mem_cons_of_mem _ hadded, hreach⟩
      · obtain ⟨added, hadded, hreach⟩ := ih hvalid hrest (Or.inr hgroup)
        exact ⟨added, List.mem_cons_of_mem _ hadded, hreach⟩

theorem Gathered.add
    {pending : Pending}
    (h : Gathered events pending)
    {event : Event}
    (hevent : event ∈ events)
    (hstream : ∀ group ∈ pending, group.stream = event.stream) :
    Gathered events (pending.add event.group) := by
  have hsingle : event.group.change.firstCursor = event.group.change.lastCursor := event.single
  have hall : ∀ added ∈ pending.add event.group, added.stream = event.stream ∧
      MadeOf events added.stream added.change ∧
      added.change.firstCursor ≤ added.change.lastCursor := by
    intro added hadded
    rcases mem_add pending event.group hadded with hmem | rfl | ⟨prior, hprior, hcombines, rfl⟩
    · exact ⟨hstream added hmem, h.made added hmem, h.valid added hmem⟩
    · exact ⟨rfl, Or.inr ⟨event, hevent, rfl, rfl⟩, Int.le_of_eq hsingle⟩
    · obtain ⟨-, hnext, hmerged, hfirst, hlast⟩ := merge_of_combines hcombines
      have hvalid := h.valid prior hprior
      refine ⟨hmerged.trans (hstream prior hprior), Or.inl ?_, ?_⟩
      · omega
      · omega
  exact {
    stream := fun group hgroup group' hgroup' =>
      (hall group hgroup).1.trans (hall group' hgroup').1.symm
    made := fun group hgroup => (hall group hgroup).2.1
    valid := fun group hgroup => (hall group hgroup).2.2 }

/-! ## An attempt -/

/-- The event is on its way, or stored. -/
def Kept (pending : Pending) (ledger : Ledger) (event : Event) : Prop :=
  Pending.Holds pending event ∨ ledger.Stores event

theorem Kept.add
    {pending : Pending}
    {ledger : Ledger}
    (h : Gathered events pending)
    (event : Event)
    {other : Event}
    (hother : Kept pending ledger other ∨ other = event) :
    Kept (pending.add event.group) ledger other := by
  have hsingle : event.group.change.firstCursor = event.group.change.lastCursor := event.single
  have hcovers := @covers_add pending event.group (Int.le_of_eq hsingle) h.valid
  rcases hother with (⟨group, hgroup, hstream, hfirst, hlast⟩ | hstored) | rfl
  · obtain ⟨added, hadded, hsame, hfirst', hlast'⟩ := hcovers (Or.inl hgroup)
    exact Or.inl ⟨added, hadded, hsame.trans hstream, Int.le_trans hfirst' hfirst,
      Int.le_trans hlast hlast'⟩
  · exact Or.inr hstored
  · obtain ⟨added, hadded, hsame, hfirst', hlast'⟩ := hcovers (Or.inr rfl)
    refine Or.inl ⟨added, hadded, hsame, Int.le_trans hfirst' ?_, hlast'⟩
    exact Int.le_of_eq hsingle

/-- After a flush that succeeds the batch is empty, and what it held is stored. -/
theorem flush_keeps
    {pending : Pending}
    (h : Gathered events pending)
    (ledger : Ledger) :
    Reaches events (Pending.flush (commitChanges outcomes) pending) ledger
      fun _ ledger' => ∀ event, Kept pending ledger event → ledger'.Stores event := by
  obtain ⟨hgrows, hstored⟩ := @flush_reaches events outcomes pending h ledger
  refine ⟨hgrows, fun u hok event hevent => ?_⟩
  rcases hevent with hholds | hstores
  · exact hstored u hok event hholds
  · exact hgrows.stores hstores

/-- A batch that is flushed first where the condition says so. -/
theorem room_reaches
    {α : Type}
    {pending : Pending}
    (h : Gathered events pending)
    {ledger : Ledger}
    (c : Prop)
    [Decidable c]
    {f : Pending → Proc Ledger AppendFailure α}
    {post : α → Ledger → Prop}
    (hf : ∀ room ledger', Gathered events room → (room = [] ∨ ¬ c ∧ room = pending) →
      (∀ event, Kept pending ledger event → Kept room ledger' event) →
      Reaches events (f room) ledger' post) :
    Reaches events (if c then do
        Pending.flush (commitChanges outcomes) pending
        let room ← pure []
        f room
      else do
        let room ← pure pending
        f room) ledger post := by
  by_cases hc : c
  · rw [if_pos hc]
    exact (flush_keeps h ledger).bind fun _ ledger' _ hstored =>
      hf [] ledger' Gathered.nil (Or.inl rfl) fun event hevent => Or.inr (hstored event hevent)
  · rw [if_neg hc]
    exact hf pending ledger h (Or.inr ⟨hc, rfl⟩) fun event hevent => hevent

theorem push_reaches
    {pending : Pending}
    (h : Gathered events pending)
    {event : Event}
    (hevent : event ∈ events)
    (ledger : Ledger) :
    Reaches events (Pending.push (commitChanges outcomes) pending event.group) ledger
      fun next ledger' => Gathered events next ∧
        ∀ other, Kept pending ledger other ∨ other = event → Kept next ledger' other := by
  unfold Pending.push
  refine room_reaches h (pending.full event.group = true)
    fun room ledger₁ hgathered hwhich hkept => ?_
  have hstream : ∀ group ∈ room, group.stream = event.stream := by
    intro group hgroup
    rcases hwhich with rfl | ⟨hfull, rfl⟩
    · cases hgroup
    · cases room with
      | nil =>
          cases hgroup
      | cons first rest =>
          rw [hgathered.stream group hgroup first List.mem_cons_self]
          unfold Pending.full at hfull
          rw [decide_eq_true_eq, not_or, not_not] at hfull
          exact hfull.1
  have hadded := hgathered.add hevent hstream
  have hall : ∀ other, Kept pending ledger other ∨ other = event →
      Kept (room.add event.group) ledger₁ other :=
    fun other hother => Kept.add hgathered event (hother.imp_left (hkept other))
  dsimp only
  -- the last event of a run is not kept waiting
  by_cases hterminal : event.group.change.eventType = "agent_end"
  · rw [if_pos hterminal]
    exact (flush_keeps hadded ledger₁).bind fun _ ledger₂ _ hstored =>
      Reaches.ret ⟨Gathered.nil, fun other hother =>
        Or.inr (hstored other (hall other hother))⟩
  · rw [if_neg hterminal]
    exact Reaches.ret ⟨hadded, hall⟩

theorem encode_reaches
    {pending : Pending}
    (h : Gathered events pending)
    (writer : Writer)
    (event : Event)
    (ledger : Ledger) :
    Reaches events (encode outcomes writer event pending) ledger
      fun next ledger' => Gathered events next.2 ∧
        ∀ other, Kept pending ledger other → Kept next.2 ledger' other := by
  unfold encode
  dsimp only
  refine (Reaches.lift _ ledger).bind ?_
  rintro - ledger₁ - rfl
  refine (Reaches.lift _ ledger₁).bind ?_
  rintro - ledger₂ - rfl
  refine room_reaches h (event.staged = true) fun room ledger₃ hgathered _ hkept => ?_
  refine (Reaches.lift _ ledger₃).bind ?_
  rintro - ledger₄ - rfl
  exact Reaches.ret ⟨hgathered, hkept⟩

theorem persistBatch_reaches
    {pending : Pending}
    (h : Gathered events pending)
    (batch : List Event)
    (hbatch : ∀ event ∈ batch, event ∈ events)
    (writer : Writer)
    (ledger : Ledger) :
    Reaches events (persistBatch outcomes batch writer pending) ledger
      fun _ ledger' => ∀ event, Kept pending ledger event ∨ event ∈ batch →
        ledger'.Stores event := by
  induction batch generalizing writer pending ledger with
  | nil =>
      unfold persistBatch
      refine (flush_keeps h ledger).bind fun _ ledger' _ hstored => Reaches.ret ?_
      exact fun event hevent => hstored event (hevent.resolve_right List.not_mem_nil)
  | cons event batch ih =>
      unfold persistBatch
      refine (encode_reaches h writer event ledger).bind fun next ledger₁ _ hnext => ?_
      obtain ⟨hroom, hkept⟩ := hnext
      have hevent : event ∈ events := hbatch event List.mem_cons_self
      refine (push_reaches hroom hevent ledger₁).bind fun pushed ledger₂ _ hpushed => ?_
      obtain ⟨hgathered, hall⟩ := hpushed
      have hrest := ih hgathered (fun other hother =>
        hbatch other (List.mem_cons_of_mem _ hother)) next.1 ledger₂
      refine ⟨hrest.1, fun writer' hok other hother => hrest.2 writer' hok other ?_⟩
      rcases hother with hother | hother
      · exact Or.inl (hall other (Or.inl (hkept other hother)))
      · rcases List.mem_cons.1 hother with hother | hother
        · exact Or.inl (hall other (Or.inr hother))
        · exact Or.inr hother

/-- An attempt that succeeds has stored its events. -/
theorem persist_reaches
    (outcomes : Outcomes)
    (writer : Writer)
    (batch : List Event)
    (ledger : Ledger) :
    Reaches batch (persist outcomes writer batch) ledger
      fun _ ledger' => ∀ event ∈ batch, ledger'.Stores event := by
  unfold persist
  have hread : Reaches batch (Proc.read fun ledger : Ledger =>
      (Except.ok ledger.format : Except AppendFailure Nat)) ledger
      fun _ ledger' => ledger' = ledger :=
    ⟨Grows.refl _, fun _ _ => rfl⟩
  refine hread.bind ?_
  rintro format ledger₁ - rfl
  refine (Reaches.lift _ ledger₁).bind ?_
  rintro - ledger₂ - rfl
  have hbatch := @persistBatch_reaches batch outcomes [] Gathered.nil batch
    (fun event hevent => hevent) writer ledger₂
  exact ⟨hbatch.1, fun writer' hok event hevent => hbatch.2 writer' hok event (Or.inr hevent)⟩

/-! ## The worker -/

/-- A later ledger: what is stored stays, and the changes are in order if they were. -/
structure Ledger.Later (ledger ledger' : Ledger) : Prop where
  rows : ledger.rows <+: ledger'.rows
  inOrder : ledger.InOrder → ledger'.InOrder

namespace Ledger.Later

variable {ledger ledger' ledger'' : Ledger}

theorem refl (ledger : Ledger) : ledger.Later ledger :=
  ⟨List.prefix_rfl, id⟩

theorem trans (h : ledger.Later ledger') (h' : ledger'.Later ledger'') :
    ledger.Later ledger'' :=
  ⟨h.rows.trans h'.rows, fun hin => h'.inOrder (h.inOrder hin)⟩

theorem stores
    (h : ledger.Later ledger')
    {event : Event}
    (hstores : ledger.Stores event) :
    ledger'.Stores event := by
  obtain ⟨change, hchange, hcursors⟩ := hstores
  refine ⟨change, ?_, hcursors⟩
  exact (h.rows.filter fun row => row.1 = event.stream).map Prod.snd |>.subset hchange

end Ledger.Later

theorem Grows.later
    {ledger ledger' : Ledger}
    (h : Grows events ledger ledger') :
    ledger.Later ledger' := by
  obtain ⟨new, hnew, -⟩ := h.rows
  exact ⟨⟨new, hnew.symm⟩, h.inOrder⟩

/-- What becomes of an event that waited for an attempt. -/
inductive Fate (attempts : Attempts) (item : PendingEvent) (ledger : Ledger)
    (pending : List PendingEvent) (replies : List Reply) : Prop where
  | stored (h : ledger.Stores item.event)
  | waits (other : PendingEvent) (h : other ∈ pending) (same : other.event = item.event)
  | refused (writer : Writer) (before : Ledger) (message : String)
      (h : (persist attempts.single writer [item.event] before).2 = .error (.rejected message))
  | told (reply : Nat) (failure : AppendFailure) (waited : item.reply = some reply)
      (h : (reply, .error failure) ∈ replies)

theorem retryEvent_spec
    (attempts : Attempts)
    (r : Retry)
    (item : PendingEvent) :
    r.ledger.Later (retryEvent attempts.single r item).ledger ∧
      r.retry <+: (retryEvent attempts.single r item).retry ∧
      r.replies <+: (retryEvent attempts.single r item).replies ∧
      Fate attempts item (retryEvent attempts.single r item).ledger
        (retryEvent attempts.single r item).retry
        (retryEvent attempts.single r item).replies ∧
      ∀ reply, (reply, Except.ok ()) ∈ (retryEvent attempts.single r item).replies →
        (reply, Except.ok ()) ∈ r.replies ∨ item.reply = some reply ∧
          (retryEvent attempts.single r item).ledger.Stores item.event := by
  obtain ⟨hgrows, hstored⟩ := persist_reaches attempts.single r.writer [item.event] r.ledger
  unfold retryEvent
  split
  · rename_i ledger writer hrun
    rw [hrun] at hgrows hstored
    have hone := hstored writer rfl item.event List.mem_cons_self
    refine ⟨hgrows.later, List.prefix_rfl, List.prefix_append _ _, .stored hone, ?_⟩
    intro reply hreply
    refine (List.mem_append.1 hreply).imp_right fun hreply => ?_
    obtain ⟨other, hother, heq⟩ := List.mem_map.1 hreply
    cases heq
    exact ⟨Option.mem_toList.1 hother, hone⟩
  · rename_i ledger message hrun
    rw [hrun] at hgrows
    refine ⟨hgrows.later, List.prefix_rfl, List.prefix_append _ _,
      .refused r.writer r.ledger message (by rw [hrun]), ?_⟩
    intro reply hreply
    refine Or.inl ((List.mem_append.1 hreply).resolve_right fun hreply => ?_)
    obtain ⟨other, -, heq⟩ := List.mem_map.1 hreply
    cases heq
  · rename_i ledger message hrun
    rw [hrun] at hgrows
    split
    · rename_i waiting hwaiting
      refine ⟨hgrows.later, List.prefix_rfl, List.prefix_append _ _,
        .told waiting _ hwaiting (List.mem_append_right _ List.mem_cons_self), ?_⟩
      intro reply hreply
      refine Or.inl ((List.mem_append.1 hreply).resolve_right fun hreply => ?_)
      cases List.mem_singleton.1 hreply
    · exact ⟨hgrows.later, List.prefix_append _ _, List.prefix_rfl,
        .waits item (List.mem_append_right _ List.mem_cons_self) rfl,
        fun reply hreply => Or.inl hreply⟩

theorem Fate.mono
    {attempts : Attempts}
    {item : PendingEvent}
    {ledger ledger' : Ledger}
    {pending pending' : List PendingEvent}
    {replies replies' : List Reply}
    (h : Fate attempts item ledger pending replies)
    (hlater : ledger.Later ledger')
    (hpending : pending <+: pending')
    (hreplies : replies <+: replies') :
    Fate attempts item ledger' pending' replies' := by
  cases h with
  | stored h =>
      exact .stored (hlater.stores h)
  | waits other h same =>
      exact .waits other (hpending.subset h) same
  | refused writer before message h =>
      exact .refused writer before message h
  | told reply failure waited h =>
      exact .told reply failure waited (hreplies.subset h)

/-- The loop over single events, from any state of it. -/
theorem retryAll_spec
    (attempts : Attempts)
    (items : List PendingEvent)
    (r : Retry) :
    let after := items.foldl (retryEvent attempts.single) r
    r.ledger.Later after.ledger ∧ r.retry <+: after.retry ∧ r.replies <+: after.replies ∧
      (∀ item ∈ items, Fate attempts item after.ledger after.retry after.replies) ∧
      ∀ reply, (reply, Except.ok ()) ∈ after.replies →
        (reply, Except.ok ()) ∈ r.replies ∨ ∃ item ∈ items, item.reply = some reply ∧
          after.ledger.Stores item.event := by
  induction items generalizing r with
  | nil =>
      exact ⟨.refl _, List.prefix_rfl, List.prefix_rfl, by simp, fun _ h => Or.inl h⟩
  | cons item items ih =>
      obtain ⟨hlater, hretry, hreplies, hfate, hok⟩ := retryEvent_spec attempts r item
      obtain ⟨hlater', hretry', hreplies', hfates, hoks⟩ :=
        ih (retryEvent attempts.single r item)
      refine ⟨hlater.trans hlater', hretry.trans hretry', hreplies.trans hreplies', ?_, ?_⟩
      · intro other hother
        rcases List.mem_cons.1 hother with rfl | hother
        · exact hfate.mono hlater' hretry' hreplies'
        · exact hfates other hother
      · intro reply hreply
        rcases hoks reply hreply with hreply | ⟨other, hother, hstored⟩
        · rcases hok reply hreply with hreply | ⟨hitem, hstored⟩
          · exact Or.inl hreply
          · exact Or.inr ⟨item, List.mem_cons_self, hitem, hlater'.stores hstored⟩
        · exact Or.inr ⟨other, List.mem_cons_of_mem _ hother, hstored⟩

theorem flushEventBatch_spec
    (attempts : Attempts)
    (j : EventJournal) :
    let after := flushEventBatch attempts j
    j.ledger.Later after.1.ledger ∧
      (∀ item ∈ j.pending,
        Fate attempts item after.1.ledger after.1.pending after.2.1) ∧
      ∀ reply, (reply, Except.ok ()) ∈ after.2.1 →
        ∃ item ∈ j.pending, item.reply = some reply ∧ after.1.ledger.Stores item.event := by
  dsimp only
  obtain ⟨hgrows, hstored⟩ := persist_reaches attempts.batch j.writer
    (j.pending.map PendingEvent.event) j.ledger
  unfold flushEventBatch
  by_cases hempty : j.pending.isEmpty = true
  · rw [if_pos hempty]
    rw [List.isEmpty_iff.1 hempty]
    exact ⟨.refl _, by simp, by simp⟩
  · rw [if_neg hempty]
    split
    · rename_i ledger writer hrun
      rw [hrun] at hgrows hstored
      have hall : ∀ item ∈ j.pending, ledger.Stores item.event :=
        fun item hitem => hstored writer rfl item.event (List.mem_map_of_mem hitem)
      refine ⟨hgrows.later, fun item hitem => .stored (hall item hitem), ?_⟩
      intro reply hreply
      obtain ⟨item, hitem, hreply⟩ := List.mem_flatMap.1 hreply
      obtain ⟨other, hother, heq⟩ := List.mem_map.1 hreply
      cases heq
      exact ⟨item, hitem, Option.mem_toList.1 hother, hall item hitem⟩
    · -- refused: the events are tried one at a time
      rename_i ledger message hrun
      rw [hrun] at hgrows
      obtain ⟨hlater, -, -, hfates, hoks⟩ := retryAll_spec attempts j.pending
        { ledger := ledger, writer := j.writer }
      refine ⟨hgrows.later.trans hlater, hfates, fun reply hreply => ?_⟩
      exact (hoks reply hreply).resolve_left List.not_mem_nil
    · rename_i ledger message hrun
      rw [hrun] at hgrows
      refine ⟨hgrows.later, fun item hitem => ?_, ?_⟩
      · exact .waits { item with reply := none } (List.mem_map_of_mem hitem) rfl
      · intro reply hreply
        obtain ⟨item, -, hreply⟩ := List.mem_flatMap.1 hreply
        obtain ⟨other, -, heq⟩ := List.mem_map.1 hreply
        cases heq

theorem step_later (j : EventJournal) (op : JournalOp) :
    j.ledger.Later (step j op).ledger := by
  cases op with
  | append event bytes reply =>
      exact .refl _
  | flush attempts =>
      exact (flushEventBatch_spec attempts j).1

theorem run_later (j : EventJournal) (ops : List JournalOp) :
    j.ledger.Later (Machine.run step j ops).ledger := by
  induction ops generalizing j with
  | nil =>
      exact .refl _
  | cons op ops ih =>
      exact (step_later j op).trans (ih (step j op))

theorem inOrder_new : ({} : EventJournal).ledger.InOrder := by
  intro stream
  exact ⟨rfl, fun change hchange => by cases hchange⟩

/--
In any run of the worker, whatever its attempts come to: the changes of every stream
are in cursor order without a gap, what is stored stays stored, and an event whose
caller was told that it is stored is in the ledger from then on.
-/
theorem acknowledged_events_stored
    (ops more : List JournalOp)
    (attempts : Attempts) :
    let before := Machine.run step {} ops
    let after := Machine.run step {} (ops ++ .flush attempts :: more)
    after.ledger.InOrder ∧ before.ledger.rows <+: after.ledger.rows ∧
      ∀ reply, (reply, Except.ok ()) ∈ (flushEventBatch attempts before).2.1 →
        ∃ item ∈ before.pending, item.reply = some reply ∧ after.ledger.Stores item.event := by
  intro before after
  obtain ⟨-, -, hoks⟩ := flushEventBatch_spec attempts before
  have hafter : after = Machine.run step (step before (.flush attempts)) more := by
    rw [show after = Machine.run step {} (ops ++ .flush attempts :: more) from rfl,
      Machine.run_append, Machine.run_cons]
  have hlater : (step before (.flush attempts)).ledger.Later after.ledger := by
    rw [hafter]
    exact run_later _ more
  refine ⟨(run_later {} _).inOrder inOrder_new,
    ((step_later before (.flush attempts)).trans hlater).rows, fun reply hreply => ?_⟩
  obtain ⟨item, hitem, hwaited, hstored⟩ := hoks reply hreply
  exact ⟨item, hitem, hwaited, hlater.stores hstored⟩

/-- A first event, and nothing wrong with it. -/
def firstEvent : Event where
  stream := { sessionId := "s", runId := "r", epoch := 0 }
  change := {
    firstCursor := 0
    lastCursor := 0
    eventType := "run_started"
    metadata := .obj []
    bodies := [] }
  single := rfl

def accepting : Attempts where
  batch := fun _ _ => .accepted
  single := fun _ _ => .accepted

theorem acknowledged_events_stored_first :
    ∃ item ∈ (Machine.run step {} [.append firstEvent 2 (some 7)]).pending,
      item.reply = some 7 ∧ (Machine.run step {} ([.append firstEvent 2 (some 7)] ++
        [.flush accepting, .flush accepting])).ledger.Stores item.event :=
  (acknowledged_events_stored [.append firstEvent 2 (some 7)] [.flush accepting] accepting).2.2 7
    (List.mem_of_elem_eq_true (by rfl))

/-- In some attempt of the run, the event was refused alone, or its caller was told of a failure. -/
def TurnedAway (ops : List JournalOp) (event : Event) : Prop :=
  ∃ before attempts more, ops = before ++ .flush attempts :: more ∧
    ∃ item ∈ (Machine.run step {} before).pending, item.event = event ∧
      ((∃ writer ledger message,
          (persist attempts.single writer [event] ledger).2 = .error (.rejected message)) ∨
        ∃ reply failure, item.reply = some reply ∧
          (reply, .error failure) ∈
            (flushEventBatch attempts (Machine.run step {} before)).2.1)

theorem TurnedAway.concat
    {ops : List JournalOp}
    {event : Event}
    (h : TurnedAway ops event)
    (op : JournalOp) :
    TurnedAway (ops ++ [op]) event := by
  obtain ⟨before, attempts, more, rfl, hitem⟩ := h
  exact ⟨before, attempts, more ++ [op], by simp, hitem⟩

end Broadcast
end FutureOs
