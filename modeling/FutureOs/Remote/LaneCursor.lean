import FutureOs.Remote.CoalesceSpec
import FutureOs.Remote.RunCursor

/-!
# The lane and the cursor agree

What the coalescer publishes for a run is read back by the client's cursor as the
source indices it stands for (`covers_of_standsFor`).  Along every sequence of
deliveries and out-of-band advances the cursor applies no index twice unless a
canonical range lets the caller trim it, and knows what it has (`Keeps`).
-/

namespace FutureOs
namespace Remote

/-! ## The cursor of one run -/

namespace RunCursor

theorem get_set
    (cursor : RunCursor)
    (runId run : String)
    (entry : RunCursorEntry) :
    (cursor.set runId entry).get run =
      if run = runId then some entry else cursor.get run := by
  have hmap : ∀ fields : RunCursor,
      Fields.lookup run (fields.map fun field =>
          if field.1 = runId then (field.1, entry) else field) =
        if run = runId then (Fields.lookup run fields).map (fun _ => entry)
        else Fields.lookup run fields := by
    intro fields
    induction fields with
    | nil =>
        simp
    | cons field rest ih =>
        obtain ⟨k, e⟩ := field
        by_cases hk : k = runId
        · subst hk
          simp only [List.map_cons, if_true, Fields.lookup_cons, ih]
          split <;> rfl
        · simp only [List.map_cons, if_neg hk, Fields.lookup_cons, ih]
          by_cases hrun : run = k
          · subst hrun
            rw [if_pos rfl, if_neg hk, if_pos rfl]
          · rw [if_neg hrun, if_neg hrun]
  have happend : ∀ fields : RunCursor, Fields.lookup run (fields ++ [(runId, entry)]) =
      (Fields.lookup run fields).or (if run = runId then some entry else none) := by
    intro fields
    induction fields with
    | nil =>
        rfl
    | cons field rest ih =>
        obtain ⟨k, e⟩ := field
        simp only [List.cons_append, Fields.lookup_cons, ih]
        split <;> rfl
  unfold set get
  split
  · rename_i hsome
    refine (hmap cursor).trans ?_
    by_cases hrun : run = runId
    · subst hrun
      obtain ⟨e, he⟩ := Option.isSome_iff_exists.1 hsome
      rw [if_pos rfl, if_pos rfl, he, Option.map_some]
    · rw [if_neg hrun, if_neg hrun]
  · rename_i hnone
    rw [happend]
    by_cases hrun : run = runId
    · subst hrun
      have hnone : Fields.lookup run cursor = none := by
        simpa [get] using hnone
      rw [hnone, if_pos rfl]
      rfl
    · rw [if_neg hrun, if_neg hrun, Option.or_none]

/-- Eviction only takes entries away. -/
theorem get_evict
    {fuel : Nat}
    {cursor : RunCursor}
    {run : String}
    {entry : RunCursorEntry}
    (h : (evict fuel cursor).get run = some entry) :
    cursor.get run = some entry := by
  induction fuel generalizing cursor with
  | zero =>
      exact h
  | succ fuel ih =>
      unfold evict at h
      split at h
      · cases cursor with
        | nil =>
            exact h
        | cons field rest =>
            have hleft := ih h
            unfold get at hleft
            rw [Fields.lookup_erase] at hleft
            split at hleft
            · simp at hleft
            · exact hleft
      · exact h

/-- What `advanceCursor` makes of a run's entry. -/
def advanced (entry : Option RunCursorEntry) (idx : Int) (completePrefix : Bool) :
    RunCursorEntry :=
  match entry with
  | none => ⟨idx, completePrefix⟩
  | some entry =>
      if entry.highWater < idx then
        ⟨idx, entry.prefixComplete || completePrefix⟩
      else
        { entry with prefixComplete := entry.prefixComplete || completePrefix }

theorem get_advance
    {cursor : RunCursor}
    {runId run : String}
    {idx : Int}
    {completePrefix : Bool}
    {entry : RunCursorEntry}
    (h : (cursor.advance runId idx completePrefix).get run = some entry) :
    if run = runId then
      entry = advanced (cursor.get runId) idx completePrefix
    else
      cursor.get run = some entry := by
  have hleft := get_evict h
  unfold advanced
  cases hcase : cursor.get runId with
  | none =>
      rw [hcase] at hleft
      simp only [get_set] at hleft
      split at hleft
      · rename_i hrun
        rw [if_pos hrun]
        exact (Option.some.inj hleft).symm
      · rename_i hrun
        rw [if_neg hrun]
        exact hleft
  | some old =>
      rw [hcase] at hleft
      dsimp only at hleft ⊢
      by_cases hrun : run = runId
      · subst hrun
        rw [if_pos rfl]
        split at hleft
        · rename_i hup
          rw [get_set, if_pos rfl] at hleft
          rw [if_pos hup]
          exact (Option.some.inj hleft).symm
        · rename_i hup
          rw [if_neg hup]
          split at hleft
          · rename_i hnew
            rw [get_set, if_pos rfl] at hleft
            rw [← Option.some.inj hleft, hnew.1, hnew.2]
            rfl
          · rename_i hold
            rw [hcase] at hleft
            rw [← Option.some.inj hleft]
            obtain ⟨water, complete⟩ := old
            cases complete with
            | true => rfl
            | false =>
                cases completePrefix with
                | true => exact absurd ⟨rfl, rfl⟩ hold
                | false => rfl
      · rw [if_neg hrun]
        split at hleft
        · rwa [get_set, if_neg hrun] at hleft
        · split at hleft
          · rwa [get_set, if_neg hrun] at hleft
          · exact hleft

/-- A run that has just come in is not the oldest one. -/
theorem get_evict_new
    (fuel : Nat)
    (cursor : RunCursor)
    {run : String}
    (entry : RunCursorEntry)
    (h : cursor.get run = none) :
    (evict fuel (cursor ++ [(run, entry)])).get run = some entry := by
  have hlast : ∀ fields : RunCursor, Fields.lookup run fields = none →
      Fields.lookup run (fields ++ [(run, entry)]) = some entry := by
    intro fields
    induction fields with
    | nil =>
        intro _
        simp [Fields.lookup_cons]
    | cons field rest ih =>
        obtain ⟨k, e⟩ := field
        intro hnone
        rw [Fields.lookup_cons] at hnone
        split at hnone
        · simp at hnone
        · rename_i hk
          rw [List.cons_append, Fields.lookup_cons, if_neg hk]
          exact ih hnone
  induction fuel generalizing cursor with
  | zero =>
      exact hlast cursor h
  | succ fuel ih =>
      unfold evict
      split
      · cases cursor with
        | nil =>
            rename_i hmany
            exact absurd hmany (by simp [maxRuns])
        | cons field rest =>
            obtain ⟨k, e⟩ := field
            have hk : run ≠ k := by
              intro heq
              simp [get, Fields.lookup_cons, heq] at h
            have herase : Fields.erase k ((k, e) :: rest ++ [(run, entry)]) =
                Fields.erase k ((k, e) :: rest) ++ [(run, entry)] := by
              have hone : Fields.erase k [(run, entry)] = [(run, entry)] := by
                simp [Fields.erase, hk]
              unfold Fields.erase at hone ⊢
              rw [List.filter_append, hone]
            change (evict fuel (Fields.erase k _)).get run = _
            rw [herase]
            refine ih _ ?_
            unfold get
            rw [Fields.lookup_erase, if_neg hk]
            exact h
      · exact hlast cursor h

theorem get_advance_new
    {cursor : RunCursor}
    {run : String}
    (idx : Int)
    (completePrefix : Bool)
    (h : cursor.get run = none) :
    (cursor.advance run idx completePrefix).get run = some ⟨idx, completePrefix⟩ := by
  unfold advance
  rw [h]
  have hset : cursor.set run ⟨idx, completePrefix⟩ =
      cursor ++ [(run, ⟨idx, completePrefix⟩)] := by
    unfold set
    rw [h]
    rfl
  dsimp only
  rw [hset]
  exact get_evict_new _ cursor _ h

end RunCursor

/-! ## Deliveries -/

/-- The run of an event, as the client reads it. -/
def runIdOf (event : EventPublish) : Option String :=
  (event.get? "runId").bind Json.asStr?

def eventIdx (event : EventPublish) : Option Int :=
  (event.get? "idx").bind Json.asI64?

def countOf? (event : EventPublish) : Option Int :=
  (event.get? "coalescedCount").bind Json.asI64?

/-- The first source index the client takes an event for. -/
def laneStart (event : EventPublish) : Int :=
  coveredStart (idxOf event) (countOf? event) event.payload.data

inductive CursorOp
  | deliver (event : EventPublish)
  | advance (runId : String) (idx : Int) (completePrefix : Bool)

/-- `nextEvent` of a delivered event, for a client that omits no indices. -/
def next (cursor : RunCursor) (event : EventPublish) : CursorEvent × RunCursor :=
  nextEvent cursor (runIdOf event) (eventIdx event) (countOf? event) false
    event.payload.data

namespace CursorOp

def step (cursor : RunCursor) : CursorOp → RunCursor
  | .deliver event => (next cursor event).2
  | .advance runId idx completePrefix => cursor.advance runId idx completePrefix

/-- The cursor entry of the run is not evicted. -/
def Stays (run : String) (cursor : RunCursor) (op : CursorOp) : Prop :=
  (cursor.get run).isSome = true → ((step cursor op).get run).isSome = true

instance (run : String) (cursor : RunCursor) (op : CursorOp) :
    Decidable (Stays run cursor op) := by
  unfold Stays
  infer_instance

/-- Whether a delivered event of the run is applied. -/
def applies (run : String) (cursor : RunCursor) (event : EventPublish) : Bool :=
  runIdOf event = some run ∧ (next cursor event).1 = .apply (idxOf event)

/-- The indices of the run an operation applies. -/
def applied (run : String) (cursor : RunCursor) : CursorOp → List (Int × Int)
  | .deliver event =>
      if applies run cursor event then [(laneStart event, idxOf event)] else []
  | .advance _ _ _ => []

/--
The indices of the run an operation accounts for: those of an applied event, all
up to the mark after a call that claims a complete prefix, and those a call
moves the mark over (its caller has applied them out of band).
-/
def accounted (run : String) (cursor : RunCursor) : CursorOp → List (Int × Int)
  | .deliver event => applied run cursor (.deliver event)
  | .advance runId idx completePrefix =>
      if runId = run then
        match cursor.get run with
        | none => if completePrefix then [(0, idx)] else []
        | some entry =>
            if completePrefix then
              [(0, max entry.highWater idx)]
            else
              [(entry.highWater + 1, idx)]
      else
        []

/--
The indices an applied event covers, or a call that claims a complete prefix;
what a call without that claim moves the mark over is not among them.
-/
def claimed (run : String) (cursor : RunCursor) : CursorOp → List (Int × Int)
  | .deliver event => applied run cursor (.deliver event)
  | .advance runId idx completePrefix =>
      if completePrefix then accounted run cursor (.advance runId idx completePrefix)
      else []

end CursorOp

/-- The entry of a run, as far as nothing is evicted, after one delivery. -/
theorem next_cases
    (cursor : RunCursor)
    {run : String}
    (hrun : run ≠ "")
    {event : EventPublish}
    (hevent : runIdOf event = some run)
    {idx : Int}
    (hidx : eventIdx event = some idx) :
    ((next cursor event).2 = cursor ∧ ∀ i, (next cursor event).1 ≠ .apply i) ∨
    ((next cursor event).1 = .apply idx ∧
      ((cursor.get run = none ∧
        (next cursor event).2 = cursor.advance run idx (laneStart event = 0)) ∨
      ∃ entry, cursor.get run = some entry ∧
        (next cursor event).2 = cursor.set run { entry with highWater := idx } ∧
        entry.highWater < idx ∧ laneStart event ≤ entry.highWater + 1 ∧
        (contentRangeStart event.payload.data = none →
          laneStart event = entry.highWater + 1))) := by
  have hread : idxOf event = idx := by
    rw [idxOf]
    exact congrArg (Option.getD · (-1)) hidx
  unfold next nextEvent
  rw [hevent, hidx]
  dsimp only
  rw [if_neg hrun, laneStart, hread]
  cases hentry : cursor.get run with
  | none =>
      dsimp only
      split
      · exact Or.inl ⟨rfl, fun _ => by simp⟩
      · exact Or.inr ⟨rfl, Or.inl ⟨rfl, rfl⟩⟩
  | some entry =>
      dsimp only
      split
      · exact Or.inl ⟨rfl, fun _ => by simp⟩
      · rename_i hnew
        split
        · rename_i hstart
          refine Or.inr ⟨rfl, Or.inr ⟨entry, rfl, rfl, Int.not_le.1 hnew, ?_, ?_⟩⟩
          · omega
          · intro hplain
            rcases hstart with hstart | ⟨hsome, _⟩
            · exact hstart
            · simp [hplain] at hsome
        · split
          · exact Or.inl ⟨rfl, fun _ => by simp⟩
          · exact Or.inl ⟨rfl, fun _ => by simp⟩

/-- An event of another run leaves the entry of this one, unless it evicts it. -/
theorem next_other
    {cursor : RunCursor}
    {run : String}
    {event : EventPublish}
    (hevent : runIdOf event ≠ some run)
    {entry : RunCursorEntry}
    (h : (next cursor event).2.get run = some entry) :
    cursor.get run = some entry := by
  unfold next nextEvent at h
  split at h
  · rename_i runId idx hrunId hidx
    have hne : run ≠ runId := fun heq => hevent (heq ▸ hrunId)
    split at h
    · exact h
    · dsimp only at h
      split at h
      · split at h
        · exact h
        · have hleft := RunCursor.get_advance h
          rwa [if_neg hne] at hleft
      · split at h
        · exact h
        · split at h
          · rwa [RunCursor.get_set, if_neg hne] at h
          · split at h
            · exact h
            · split at h
              · rwa [RunCursor.get_set, if_neg hne] at h
              · exact h
  · exact h

/-- What the cursor keeps of a run: what was applied and what it accounts for. -/
structure Keeps
    (run : String)
    (cursor : RunCursor)
    (applied accounted : List (Int × Int)) : Prop where
  untracked : cursor.get run = none → applied = []
  below : ∀ entry, cursor.get run = some entry →
    ∀ range ∈ applied, range.2 ≤ entry.highWater
  complete : ∀ entry, cursor.get run = some entry → entry.prefixComplete = true →
    ∀ i, 0 ≤ i → i ≤ entry.highWater →
      ∃ range ∈ accounted, range.1 ≤ i ∧ i ≤ range.2

/-- Nothing of the run has happened. -/
theorem Keeps.same
    {run : String}
    {cursor cursor' : RunCursor}
    {applied accounted : List (Int × Int)}
    (h : Keeps run cursor applied accounted)
    (hback : ∀ entry, cursor'.get run = some entry → cursor.get run = some entry)
    (hstays : (cursor.get run).isSome = true → (cursor'.get run).isSome = true) :
    Keeps run cursor' applied accounted where
  untracked := fun hnone => h.untracked (by
    by_contra hsome
    have hstill := hstays (Option.isSome_iff_ne_none.2 hsome)
    rw [hnone] at hstill
    simp at hstill)
  below := fun entry hentry => h.below entry (hback entry hentry)
  complete := fun entry hentry => h.complete entry (hback entry hentry)

theorem Keeps.deliver
    {run : String}
    (hrun : run ≠ "")
    {cursor : RunCursor}
    {applied accounted : List (Int × Int)}
    (h : Keeps run cursor applied accounted)
    {event : EventPublish}
    (hstays : CursorOp.Stays run cursor (.deliver event)) :
    Keeps run (CursorOp.step cursor (.deliver event))
      (applied ++ CursorOp.applied run cursor (.deliver event))
      (accounted ++ CursorOp.accounted run cursor (.deliver event)) := by
  simp only [CursorOp.step, CursorOp.accounted, CursorOp.applied]
  have hsame : (CursorOp.applies run cursor event = false) →
      (∀ entry, (next cursor event).2.get run = some entry →
        cursor.get run = some entry) →
      Keeps run (next cursor event).2 (applied ++ []) (accounted ++ []) := by
    intro _ hback
    rw [List.append_nil, List.append_nil]
    exact h.same hback hstays
  by_cases hevent : runIdOf event = some run
  · cases hidx : eventIdx event with
    | none =>
        have hquiet : next cursor event = (.untracked, cursor) := by
          unfold next nextEvent
          rw [hevent, hidx]
        have hno : CursorOp.applies run cursor event = false := by
          simp [CursorOp.applies, hquiet]
        rw [if_neg (by simp [hno])]
        refine hsame hno fun entry hentry => ?_
        rwa [hquiet] at hentry
    | some idx =>
        have hread : idxOf event = idx := by
          rw [idxOf]
          exact congrArg (Option.getD · (-1)) hidx
        rcases next_cases cursor hrun hevent hidx with ⟨hcursor, hverdict⟩ | ⟨hverdict, hmove⟩
        · have hno : CursorOp.applies run cursor event = false := by
            simp [CursorOp.applies, hverdict]
          rw [if_neg (by simp [hno])]
          refine hsame hno fun entry hentry => ?_
          rwa [hcursor] at hentry
        · have hyes : CursorOp.applies run cursor event = true := by
            simp [CursorOp.applies, hevent, hverdict, hread]
          rw [if_pos hyes]
          rcases hmove with ⟨hnone, hcursor⟩ | ⟨entry, hentry, hcursor, hnew, hstart, _⟩
          · have hget := RunCursor.get_advance_new idx (laneStart event = 0) hnone
            rw [hcursor, h.untracked hnone, List.nil_append, hread]
            refine ⟨?_, ?_, ?_⟩
            · intro hgone
              rw [hget] at hgone
              simp at hgone
            · intro entry hentry range hrange
              rw [List.mem_singleton.1 hrange,
                ← Option.some.inj (hget.symm.trans hentry)]
            · intro entry hentry hcomplete i hlow hhigh
              rw [← Option.some.inj (hget.symm.trans hentry)] at hcomplete hhigh
              have hzero : laneStart event = 0 := of_decide_eq_true hcomplete
              exact ⟨(laneStart event, idx), by simp, by omega, hhigh⟩
          · have hget : (cursor.set run { entry with highWater := idx }).get run =
                some { entry with highWater := idx } := by
              rw [RunCursor.get_set, if_pos rfl]
            rw [hcursor, hread]
            refine ⟨?_, ?_, ?_⟩
            · intro hgone
              rw [hget] at hgone
              simp at hgone
            · intro entry' hentry' range hrange
              rw [← Option.some.inj (hget.symm.trans hentry')]
              rcases List.mem_append.1 hrange with hold | hone
              · exact (h.below entry hentry range hold).trans hnew.le
              · rw [List.mem_singleton.1 hone]
            · intro entry' hentry' hcomplete i hlow hhigh
              rw [← Option.some.inj (hget.symm.trans hentry')] at hcomplete hhigh
              by_cases hi : i ≤ entry.highWater
              · obtain ⟨range, hmem, hin⟩ :=
                  h.complete entry hentry hcomplete i hlow hi
                exact ⟨range, List.mem_append_left _ hmem, hin⟩
              · exact ⟨(laneStart event, idx), by simp, by omega, hhigh⟩
  · have hno : CursorOp.applies run cursor event = false := by
      simp [CursorOp.applies, hevent]
    rw [if_neg (by simp [hno])]
    exact hsame hno fun entry hentry => next_other hevent hentry

theorem Keeps.advance
    {run : String}
    {cursor : RunCursor}
    {applied accounted : List (Int × Int)}
    (h : Keeps run cursor applied accounted)
    {runId : String}
    {idx : Int}
    {completePrefix : Bool}
    (hstays : CursorOp.Stays run cursor (.advance runId idx completePrefix)) :
    Keeps run (CursorOp.step cursor (.advance runId idx completePrefix))
      (applied ++ CursorOp.applied run cursor (.advance runId idx completePrefix))
      (accounted ++ CursorOp.accounted run cursor
        (.advance runId idx completePrefix)) := by
  simp only [CursorOp.step, CursorOp.accounted, CursorOp.applied, List.append_nil]
  by_cases hrun : runId = run
  · subst hrun
    rw [if_pos rfl]
    cases hentry : cursor.get runId with
    | none =>
        have hget := RunCursor.get_advance_new idx completePrefix hentry
        rw [h.untracked hentry]
        refine ⟨fun _ => rfl, by simp, ?_⟩
        intro entry hafter hcomplete i hlow hhigh
        rw [← Option.some.inj (hget.symm.trans hafter)] at hcomplete hhigh
        have hclaim : completePrefix = true := hcomplete
        exact ⟨(0, idx), by simp [hclaim], hlow, hhigh⟩
    | some old =>
        have hback : ∀ entry, (cursor.advance runId idx completePrefix).get runId =
            some entry → entry = RunCursor.advanced (some old) idx completePrefix := by
          intro entry hafter
          have hadvance := RunCursor.get_advance hafter
          rwa [if_pos rfl, hentry] at hadvance
        refine ⟨?_, ?_, ?_⟩
        · intro hgone
          have hstill : ((cursor.advance runId idx completePrefix).get runId).isSome =
              true := hstays (by rw [hentry]; rfl)
          rw [hgone] at hstill
          simp at hstill
        · intro entry hafter range hrange
          have hbelow := h.below old hentry range hrange
          rw [hback entry hafter]
          unfold RunCursor.advanced
          dsimp only
          split
          · exact hbelow.trans (by assumption : old.highWater < idx).le
          · exact hbelow
        · intro entry hafter hcomplete i hlow hhigh
          rw [hback entry hafter] at hcomplete hhigh
          unfold RunCursor.advanced at hcomplete hhigh
          dsimp only at hcomplete hhigh
          cases hclaim : completePrefix with
          | true =>
              refine ⟨(0, max old.highWater idx), by simp, hlow, ?_⟩
              split at hhigh
              · exact hhigh.trans (le_max_right _ _)
              · exact hhigh.trans (le_max_left _ _)
          | false =>
              rw [hclaim] at hcomplete hhigh
              simp only [Bool.or_false] at hcomplete hhigh
              have hold : old.prefixComplete = true := by
                split at hcomplete <;> exact hcomplete
              by_cases hi : i ≤ old.highWater
              · obtain ⟨range, hmem, hin⟩ := h.complete old hentry hold i hlow hi
                exact ⟨range, List.mem_append_left _ hmem, hin⟩
              · refine ⟨(old.highWater + 1, idx), by simp, by omega, ?_⟩
                split at hhigh
                · exact hhigh
                · exact absurd hhigh hi
  · rw [if_neg hrun, List.append_nil]
    refine h.same (fun entry hafter => ?_) hstays
    have hadvance := RunCursor.get_advance hafter
    rwa [if_neg (Ne.symm hrun)] at hadvance

theorem Keeps.step
    {run : String}
    (hrun : run ≠ "")
    {cursor : RunCursor}
    {applied accounted : List (Int × Int)}
    (h : Keeps run cursor applied accounted)
    {op : CursorOp}
    (hstays : CursorOp.Stays run cursor op) :
    Keeps run (CursorOp.step cursor op) (applied ++ CursorOp.applied run cursor op)
      (accounted ++ CursorOp.accounted run cursor op) := by
  cases op with
  | deliver event =>
      exact h.deliver hrun hstays
  | advance runId idx completePrefix =>
      exact h.advance hstays

/-- What a client keeps of a run whose entry stays. -/
theorem Keeps.run
    {run : String}
    (hrun : run ≠ "")
    {cursor : RunCursor}
    {applied accounted : List (Int × Int)}
    (h : Keeps run cursor applied accounted)
    {ops : List CursorOp}
    (hstays : Machine.Guarded CursorOp.step (CursorOp.Stays run) cursor ops) :
    Keeps run (Machine.run CursorOp.step cursor ops)
      (applied ++ Machine.trace CursorOp.step (CursorOp.applied run) cursor ops)
      (accounted ++ Machine.trace CursorOp.step (CursorOp.accounted run) cursor ops) := by
  induction ops generalizing cursor applied accounted with
  | nil =>
      simpa [Machine.trace] using h
  | cons op ops ih =>
      simpa [Machine.trace, List.append_assoc] using
        ih (h.step hrun hstays.1) hstays.2

theorem keeps_new (run : String) : Keeps run [] [] [] where
  untracked := fun _ => rfl
  below := by simp
  complete := by simp [RunCursor.get]

/-! ## Source events -/

/-- The source event of a run at an index. -/
structure SourceEvent (run : String) (k : Nat) (event : EventPublish) : Prop where
  runId : runIdOf event = some run
  idx : eventIdx event = some (k : Int)
  single : countOf? event = none
  /-- Canonical content that names its first index names this one. -/
  first : ∀ data ∈ event.payload.data, (canonicalOf data.value).isSome = true →
    ∀ n, (data.value.get? "content_first_idx").bind Json.asI64? = some n → n = k

/-- The source events of a run, at the indices 0, 1, 2, … -/
def Sources (run : String) (sources : List EventPublish) : Prop :=
  ∀ k event, sources[k]? = some event → SourceEvent run k event

theorem SourceEvent.idxOf_eq
    {run : String}
    {k : Nat}
    {event : EventPublish}
    (h : SourceEvent run k event) :
    idxOf event = k :=
  congrArg (Option.getD · (-1)) h.idx

/-- A fragment at an index of a run. -/
theorem SourceEvent.fragment
    {run : String}
    {k : Nat}
    {event : EventPublish}
    (h : SourceEvent run k event)
    {fragment : Fragment}
    (hread : fragmentOf event = some fragment) :
    fragment.idx = k ∧ fragment.firstIdx = k ∧ fragment.key.run = run := by
  obtain ⟨eventType, data, text, hfields, rfl⟩ := fragmentOf_eq_some_iff.1 hread
  refine ⟨h.idxOf_eq, ?_, ?_⟩
  · obtain ⟨value, hvalue, rfl⟩ := Option.map_eq_some_iff.1 hfields.carried
    simp only [fragmentWith]
    split
    · rename_i hkey
      cases hfirst : (value.value.get? "content_first_idx").bind Json.asI64? with
      | none =>
          rw [Option.getD_none, h.idxOf_eq]
      | some n =>
          rw [Option.getD_some, h.first value hvalue hkey n hfirst]
    · exact h.idxOf_eq
  · change textOf event "runId" = run
    have hrunId : (event.get? "runId").bind Json.asStr? = some run := h.runId
    rw [textOf, hrunId, Option.getD_some]

/-- A canonical start is the first index as the lane reads it. -/
theorem contentRangeStart_eq_some
    {data : Data}
    {start : Nat}
    (h : contentRangeStart (some data) = some start) :
    (canonicalOf data.value).isSome = true ∧
      (data.value.get? "content_first_idx").bind Json.asI64? = some (start : Int) := by
  unfold contentRangeStart at h
  simp only [Option.bind_eq_bind, Option.bind_some] at h
  split at h
  · simp at h
  · obtain ⟨canonical, hkey, h⟩ := Option.bind_eq_some_iff.1 h
    obtain ⟨first, hfirst, h⟩ := Option.bind_eq_some_iff.1 h
    obtain ⟨_, _, h⟩ := Option.bind_eq_some_iff.1 h
    obtain ⟨_, _, h⟩ := Option.bind_eq_some_iff.1 h
    obtain rfl := Option.some.inj h
    refine ⟨by rw [hkey]; rfl, ?_⟩
    unfold safeField at hfirst
    split at hfirst
    · rename_i n hn
      split at hfirst
      · rename_i hsafe
        obtain rfl := Option.some.inj hfirst
        rw [hn, Option.bind_some, Json.asI64?, if_pos (by omega)]
      · simp at hfirst
    · simp at hfirst

/-- An event whose canonical start and whose count agree starts there. -/
theorem laneStart_eq
    {event : EventPublish}
    {first : Nat}
    (hcanonical : ∀ start, contentRangeStart event.payload.data = some start →
      start = first)
    (hcovered : coveredFrom (idxOf event) (countOf? event) = first) :
    laneStart event = first := by
  unfold laneStart coveredStart
  cases hcase : canonicalStart (idxOf event) event.payload.data with
  | some start =>
      obtain ⟨hstart, _⟩ := Option.filter_eq_some_iff.1 hcase
      exact congrArg _ (hcanonical start hstart)
  | none =>
      exact hcovered

/-! ## The range of a published event -/

/-- A published event is read as the source indices it stands for. -/
structure Covers
    (run : String)
    (sources : List EventPublish)
    (first len : Nat)
    (event : EventPublish) : Prop where
  stands : StandsFor False ((sources.drop first).take len) event
  nonempty : 0 < len
  within : first + len ≤ sources.length
  runId : runIdOf event = some run
  idx : eventIdx event = some ((first + len : Nat) - 1 : Int)
  canonical : ∀ start, contentRangeStart event.payload.data = some start → start = first
  start : laneStart event = first

theorem covers_of_standsFor
    {run : String}
    (hrun : run ≠ "")
    {past group rest : List EventPublish}
    (hsources : Sources run (past ++ group ++ rest))
    {event : EventPublish}
    (h : StandsFor False group event) :
    Covers run (past ++ group ++ rest) past.length group.length event := by
  have hstands : StandsFor False
      (((past ++ group ++ rest).drop past.length).take group.length) event := by
    rwa [List.append_assoc, List.drop_left, List.take_left]
  have hat : ∀ (i : Nat) source, group[i]? = some source →
      SourceEvent run (past.length + i) source := by
    intro i source hi
    refine hsources _ _ ?_
    obtain ⟨hlt, _⟩ := List.getElem?_eq_some_iff.1 hi
    rw [List.append_assoc, List.getElem?_append_right (by omega),
      List.getElem?_append_left (by omega), Nat.add_sub_cancel_left, hi]
  have hwithin : past.length + group.length ≤ (past ++ group ++ rest).length := by
    simp only [List.length_append]
    omega
  cases h with
  | alone =>
      have hone := hat 0 event rfl
      have hcanonical : ∀ start, contentRangeStart event.payload.data = some start →
          start = past.length := by
        intro start hstart
        cases hdata : event.payload.data with
        | none =>
            simp [hdata, contentRangeStart] at hstart
        | some data =>
            rw [hdata] at hstart
            obtain ⟨hkey, hfirst⟩ := contentRangeStart_eq_some hstart
            exact Int.ofNat.inj (hone.first data hdata hkey _ hfirst)
      refine ⟨hstands, Nat.one_pos, hwithin, hone.runId, ?_, hcanonical,
        laneStart_eq hcanonical ?_⟩
      · rw [hone.idx]
        simp
      · rw [hone.single, hone.idxOf_eq]
        simp [coveredFrom]
  | merged fragments first last shown hread hfirst hlast hmany hfew _ _ hidx hcount
      hshown hkey hfirstIdx _ hend _ =>
      have hlength : group.length = fragments.length := by
        simpa using congrArg List.length hread
      have hfragment : ∀ (i : Nat) fragment, fragments[i]? = some fragment →
          ∃ source : EventPublish, group[i]? = some source ∧
            fragmentOf source = some fragment := by
        intro i fragment hi
        have hmap := congrArg (fun l : List (Option Fragment) => l[i]?) hread
        simp only [List.getElem?_map, hi, Option.map_some] at hmap
        exact Option.map_eq_some_iff.1 hmap
      obtain ⟨source, hsource, hsourceRead⟩ := hfragment 0 first (by
        rw [← List.head?_eq_getElem?, hfirst])
      obtain ⟨_, hfirstAt, _⟩ := (hat 0 source hsource).fragment hsourceRead
      obtain ⟨source', hsource', hsourceRead'⟩ := hfragment (fragments.length - 1) last (by
        rw [← List.getLast?_eq_getElem?, hlast])
      obtain ⟨hlastAt, _, hlastRun⟩ := (hat _ source' hsource').fragment hsourceRead'
      have hidxOf : idxOf event = ((past.length + group.length : Nat) - 1 : Int) := by
        rw [hidx, hlastAt]
        omega
      have hcanonical : ∀ start, contentRangeStart event.payload.data = some start →
          start = past.length := by
        intro start hstart
        obtain ⟨eventType, data, text, hshownRead, rfl⟩ :=
          fragmentOf_eq_some_iff.1 hshown
        obtain ⟨value, hvalue, rfl⟩ := Option.map_eq_some_iff.1 hshownRead.carried
        rw [hvalue] at hstart
        obtain ⟨hkeyed, hstartIdx⟩ := contentRangeStart_eq_some hstart
        obtain ⟨_, _, _, _, hshownEnd, _⟩ := hshownRead.canonical hkeyed
        have hlastOffset : last.contentOffset.isSome = true := by
          by_contra hnone
          have hplain := ((placed_of_fragmentOf hsourceRead').plain
            (Option.not_isSome_iff_eq_none.1 hnone)).1
          rw [hplain] at hend
          exact absurd (hshownEnd.symm.trans hend) (by simp)
        have hstartFirst := hfirstIdx hlastOffset
        simp only [fragmentWith, hkeyed, if_true, hstartIdx,
          Option.getD_some] at hstartFirst
        omega
      refine ⟨hstands, by omega, hwithin, ?_, ?_, hcanonical,
        laneStart_eq hcanonical ?_⟩
      · have hnamed : textOf event "runId" = run := by
          obtain ⟨eventType, data, text, _, rfl⟩ := fragmentOf_eq_some_iff.1 hshown
          rw [← hlastRun, ← hkey]
          rfl
        unfold textOf at hnamed
        unfold runIdOf
        cases hcase : (event.get? "runId").bind Json.asStr? with
        | none =>
            rw [hcase] at hnamed
            exact absurd hnamed.symm hrun
        | some name =>
            rw [hcase] at hnamed
            rw [← hnamed, Option.getD_some]
      · unfold idxOf at hidxOf
        unfold eventIdx
        cases hcase : (event.get? "idx").bind Json.asI64? with
        | none =>
            rw [hcase, Option.getD_none] at hidxOf
            omega
        | some idx =>
            rw [hcase, Option.getD_some] at hidxOf
            rw [hidxOf]
      · have hwidth : countOf? event = some (group.length : Int) := by
          rw [countOf?, hcount]
          congr 1
          omega
        rw [hwidth, hidxOf]
        have hsafe : safeInteger (group.length : Int) ∧ 0 < (group.length : Int) := by
          unfold safeInteger
          unfold maxMergedFragments at hfew
          omega
        simp only [coveredFrom, if_pos hsafe]
        omega

namespace Lane

/-- The pending group has one index a fragment. -/
def Tracks (c : Coalescer) : Prop :=
  ∀ p ∈ c.pending, 0 ≤ p.firstIdx ∧ p.newestIdx = p.firstIdx + p.merged

/-- A fragment that is offered is at one index, which is not negative. -/
def Single : LaneOp → Prop
  | .offer event _ => ∀ fragment, fragmentOf event = some fragment →
      fragment.firstIdx = fragment.idx ∧ 0 ≤ fragment.idx
  | .flush => True

theorem flush_pending (c : Coalescer) : c.flush.1.pending = none := by
  unfold Coalescer.flush
  split
  · assumption
  · rfl

theorem tracks_of_none {c : Coalescer} (h : c.pending = none) : Tracks c := by
  intro p hp
  rw [h] at hp
  simp at hp

theorem offerLive_tracks
    {c : Coalescer}
    {event : EventPublish}
    (now : Nat)
    (h : Tracks c)
    (hsingle : Single (.offer event now)) :
    Tracks (c.offerLive event now).1 := by
  unfold Coalescer.offerLive
  cases hread : fragmentOf event with
  | none =>
      exact tracks_of_none (flush_pending c)
  | some fragment =>
      obtain ⟨hone, hpositive⟩ := hsingle fragment hread
      have hstart : Tracks { c with pending := some (.start fragment event now) } := by
        intro p hp
        obtain rfl := Option.some.inj hp
        simp only [PendingGroup.start]
        omega
      cases hpending : c.pending with
      | none =>
          exact hstart
      | some p =>
          dsimp only
          split
          · rename_i haccepts
            intro q hq
            obtain rfl := Option.some.inj hq
            obtain ⟨hlow, hcount⟩ := h p hpending
            simp only [PendingGroup.accepts, decide_eq_true_eq] at haccepts
            obtain ⟨hnext, _⟩ := checkedAdd_eq_some.1 haccepts.2.1
            simp only [PendingGroup.join]
            omega
          · intro q hq
            obtain rfl := Option.some.inj hq
            simp only [PendingGroup.start]
            omega

theorem step_tracks
    {c : Coalescer}
    {op : LaneOp}
    (h : Tracks c)
    (hsingle : Single op) :
    Ranges c op ∧ Tracks (step c op) := by
  cases op with
  | flush =>
      exact ⟨by simp [Ranges, extends?], tracks_of_none (flush_pending c)⟩
  | offer event now =>
      constructor
      · intro q hq hoffset
        simp only [extends?] at hq
        split at hq
        · simp at hq
        · obtain ⟨fragment, hread, hq⟩ := Option.bind_eq_some_iff.1 hq
          obtain ⟨p, hp, rfl⟩ := Option.map_eq_some_iff.1 hq
          obtain ⟨hpending, haccepts⟩ := Option.filter_eq_some_iff.1 hp
          obtain ⟨hlow, hcount⟩ := h p hpending
          obtain ⟨hone, hpositive⟩ := hsingle fragment hread
          simp only [PendingGroup.accepts, decide_eq_true_eq] at haccepts
          obtain ⟨_, hnext, _, hfew, _⟩ := haccepts
          obtain ⟨hnext, _⟩ := checkedAdd_eq_some.1 hnext
          unfold maxMergedFragments at hfew
          dsimp only
          omega
      · rw [step]
        unfold Coalescer.offer
        split
        · exact offerLive_tracks now (tracks_of_none (flush_pending c)) hsingle
        · exact offerLive_tracks now h hsingle

/-- A run's source events never make a group whose indices are out of range. -/
theorem guarded_ranges
    {run : String}
    (window : Nat)
    {ops : List LaneOp}
    (hsources : Sources run (offered ops)) :
    Machine.Guarded step Ranges (fresh window) (ops ++ [.flush]) := by
  refine Machine.guarded_of_invariant (I := Tracks) (p := Single)
    (fun _ _ => step_tracks) (tracks_of_none rfl) ?_
  intro op hop
  cases op with
  | flush =>
      trivial
  | offer event now =>
      intro fragment hread
      have hin : event ∈ offered ops := by
        refine List.mem_flatMap.2 ⟨.offer event now, ?_, by simp⟩
        simpa using hop
      obtain ⟨k, hlt, hk⟩ := List.getElem_of_mem hin
      obtain ⟨hidx, hfirst, _⟩ :=
        (hsources k event (List.getElem?_eq_some_iff.2 ⟨hlt, hk⟩)).fragment hread
      omega

/-- Every published event of a run is read as the indices it stands for. -/
theorem covers_of_partitions
    {run : String}
    (hrun : run ≠ "")
    {total : Prop}
    {sources published : List EventPublish}
    (hsources : Sources run sources)
    (h : Partitions False total sources published) :
    ∀ event ∈ published, ∃ first len, Covers run sources first len event := by
  obtain ⟨groups, kept, rfl, hkept, _, hstands⟩ := h
  intro event hevent
  obtain ⟨i, hlt, hi⟩ := List.getElem_of_mem hevent
  have hlen := hstands.length_eq
  have hgroup : kept[i] ∈ groups := hkept.subset (List.getElem_mem _)
  have hone := List.forall₂_iff_get.1 hstands
  have hstand : StandsFor False kept[i] event := by
    have hget := hone.2 i (by omega) hlt
    simpa [hi] using hget
  obtain ⟨before, after, hsplit⟩ := List.append_of_mem hgroup
  rw [hsplit] at hsources ⊢
  rw [List.flatten_append, List.flatten_cons, ← List.append_assoc] at hsources ⊢
  exact ⟨_, _, covers_of_standsFor hrun hsources hstand⟩

end Lane

/-! ## Delivery in order -/

/-- Events of a run, each at the indices right after the one before it. -/
def Follow (run : String) (sources : List EventPublish) : Nat → List EventPublish → Prop
  | _, [] => True
  | n, event :: rest =>
      ∃ len, Covers run sources n len event ∧ Follow run sources (n + len) rest

theorem follow_of_standsFor
    {run : String}
    (hrun : run ≠ "")
    (past : List EventPublish)
    (groups : List (List EventPublish))
    {published : List EventPublish}
    (hsources : Sources run (past ++ groups.flatten))
    (h : List.Forall₂ (StandsFor False) groups published) :
    Follow run (past ++ groups.flatten) past.length published := by
  induction h generalizing past with
  | nil =>
      trivial
  | @cons group event groups published hstands _ ih =>
      rw [List.flatten_cons, ← List.append_assoc] at hsources ⊢
      refine ⟨group.length, covers_of_standsFor hrun hsources hstands, ?_⟩
      have hrest := ih _ hsources
      rwa [List.length_append] at hrest

/-- The entry of a run that has been applied up to here. -/
def Reached (run : String) (cursor : RunCursor) (n : Nat) : Prop :=
  match cursor.get run with
  | none => n = 0
  | some entry => entry.highWater + 1 = n

/-- The event at the next indices is applied. -/
theorem next_applies
    {run : String}
    (hrun : run ≠ "")
    {sources : List EventPublish}
    {cursor : RunCursor}
    {n len : Nat}
    {event : EventPublish}
    (hcovers : Covers run sources n len event)
    (hreached : Reached run cursor n) :
    CursorOp.applies run cursor event = true ∧
      Reached run (CursorOp.step cursor (.deliver event)) (n + len) := by
  have hidx : idxOf event = ((n + len : Nat) - 1 : Int) :=
    congrArg (Option.getD · (-1)) hcovers.idx
  have hsome := hcovers.nonempty
  unfold Reached at hreached
  rcases next_cases cursor hrun hcovers.runId hcovers.idx with
    ⟨_, hverdict⟩ | ⟨hverdict, hmove⟩
  · exfalso
    unfold next nextEvent at hverdict
    rw [hcovers.runId, hcovers.idx] at hverdict
    simp only [if_neg hrun] at hverdict
    have hstart : coveredStart ((n + len : Nat) - 1 : Int) (countOf? event)
        event.payload.data = n := by
      rw [← hidx]
      exact hcovers.start
    cases hentry : cursor.get run with
    | none =>
        rw [hentry] at hreached hverdict
        dsimp only at hreached hverdict
        rw [if_neg] at hverdict
        · exact hverdict _ rfl
        · rintro ⟨hgap, _⟩
          obtain ⟨start, hcanonical, hpositive⟩ := (Option.any_eq_true _ _).1 hgap
          have hzero := hcovers.canonical start hcanonical
          simp only [decide_eq_true_eq] at hpositive
          omega
    | some entry =>
        rw [hentry] at hreached hverdict
        dsimp only at hreached hverdict
        rw [if_neg (by omega), if_pos (by left; omega)] at hverdict
        exact hverdict _ rfl
  · rw [← hidx] at hverdict
    refine ⟨by simp [CursorOp.applies, hcovers.runId, hverdict], ?_⟩
    unfold Reached
    rw [CursorOp.step]
    rcases hmove with ⟨hnone, hcursor⟩ | ⟨entry, _, hcursor, _⟩
    · rw [hcursor, RunCursor.get_advance_new _ _ hnone]
      dsimp only
      omega
    · rw [hcursor, RunCursor.get_set, if_pos rfl]
      dsimp only
      omega

namespace CursorOp

/-- What is delivered of a run. -/
def delivered (run : String) (client : List CursorOp) : List EventPublish :=
  client.flatMap fun
    | .deliver event => if runIdOf event = some run then [event] else []
    | .advance _ _ _ => []

/-- No call moves the run's mark out of band. -/
def InBand (run : String) (client : List CursorOp) : Prop :=
  ∀ op ∈ client, match op with
    | .deliver _ => True
    | .advance runId _ _ => runId ≠ run

/-- Every delivered event of the run is applied. -/
def AllApplied (run : String) (cursor : RunCursor) (client : List CursorOp) : Prop :=
  ∀ past event rest, client = past ++ .deliver event :: rest →
    runIdOf event = some run → applies run (Machine.run step cursor past) event = true

end CursorOp

theorem allApplied_of_follow
    {run : String}
    (hrun : run ≠ "")
    {sources : List EventPublish}
    {cursor : RunCursor}
    {n : Nat}
    {client : List CursorOp}
    (hstays : Machine.Guarded CursorOp.step (CursorOp.Stays run) cursor client)
    (hband : CursorOp.InBand run client)
    (hreached : Reached run cursor n)
    (hfollow : Follow run sources n (CursorOp.delivered run client)) :
    CursorOp.AllApplied run cursor client := by
  induction client generalizing cursor n with
  | nil =>
      intro past event rest hsplit
      simp at hsplit
  | cons op client ih =>
      obtain ⟨hstay, hstays⟩ := hstays
      have hband' : CursorOp.InBand run client := fun op' hop' =>
        hband op' (List.mem_cons_of_mem _ hop')
      have hnext : (∀ event, op = .deliver event → runIdOf event = some run →
            CursorOp.applies run cursor event = true) ∧
          ∃ n', Reached run (CursorOp.step cursor op) n' ∧
            Follow run sources n' (CursorOp.delivered run client) := by
        have hother : (∀ entry, (CursorOp.step cursor op).get run = some entry →
            cursor.get run = some entry) → Reached run (CursorOp.step cursor op) n := by
          intro hback
          unfold Reached at hreached ⊢
          cases hafter : (CursorOp.step cursor op).get run with
          | some entry =>
              rw [hback entry hafter] at hreached
              exact hreached
          | none =>
              cases hentry : cursor.get run with
              | none =>
                  rw [hentry] at hreached
                  exact hreached
              | some entry =>
                  have hstill := hstay (by rw [hentry]; rfl)
                  rw [hafter] at hstill
                  simp at hstill
        cases op with
        | deliver event =>
            by_cases hevent : runIdOf event = some run
            · have hcons : CursorOp.delivered run (.deliver event :: client) =
                  event :: CursorOp.delivered run client := by
                simp [CursorOp.delivered, hevent]
              rw [hcons] at hfollow
              obtain ⟨len, hcovers, hrest⟩ := hfollow
              obtain ⟨happlies, hreached'⟩ := next_applies hrun hcovers hreached
              refine ⟨?_, n + len, hreached', hrest⟩
              intro event' heq _
              obtain rfl := CursorOp.deliver.inj heq
              exact happlies
            · have hcons : CursorOp.delivered run (.deliver event :: client) =
                  CursorOp.delivered run client := by
                simp [CursorOp.delivered, hevent]
              rw [hcons] at hfollow
              refine ⟨?_, n, hother fun entry => next_other hevent, hfollow⟩
              intro event' heq hevent'
              obtain rfl := CursorOp.deliver.inj heq
              exact absurd hevent' hevent
        | advance runId idx completePrefix =>
            have hrunId : runId ≠ run := hband _ List.mem_cons_self
            refine ⟨by simp, n, hother fun entry hafter => ?_, hfollow⟩
            have hadvance := RunCursor.get_advance hafter
            rwa [if_neg (Ne.symm hrunId)] at hadvance
      obtain ⟨hhere, n', hreached', hfollow'⟩ := hnext
      intro past event rest hsplit hevent
      cases past with
      | nil =>
          obtain ⟨heq, _⟩ := List.cons.inj hsplit
          exact hhere event heq hevent
      | cons op' past =>
          obtain ⟨rfl, hrest⟩ := List.cons.inj hsplit
          exact ih hstays hband' hreached' hfollow' past event rest hrest hevent

/-! ## The lane and the client -/

/-- What a client makes of a run, in whatever order its events come. -/
structure Consistent (run : String) (client : List CursorOp) : Prop where
  /-- Without a byte range, an event is applied only beyond what was applied before. -/
  once : ∀ past event rest, client = past ++ .deliver event :: rest →
    CursorOp.applies run (Machine.run CursorOp.step [] past) event = true →
    contentRangeStart event.payload.data = none →
    ∀ range ∈ Machine.trace CursorOp.step (CursorOp.applied run) [] past,
      range.2 < laneStart event
  /-- It extends the run exactly from the mark. -/
  continues : ∀ past event rest, client = past ++ .deliver event :: rest →
    CursorOp.applies run (Machine.run CursorOp.step [] past) event = true →
    contentRangeStart event.payload.data = none →
    ∀ entry, (Machine.run CursorOp.step [] past).get run = some entry →
      laneStart event = entry.highWater + 1 ∧
        (Machine.run CursorOp.step [] (past ++ [.deliver event])).get run =
          some { entry with highWater := idxOf event }
  /-- A prefix that counts as complete has been accounted for. -/
  complete : ∀ entry, (Machine.run CursorOp.step [] client).get run = some entry →
    entry.prefixComplete = true → ∀ i, 0 ≤ i → i ≤ entry.highWater →
      ∃ range ∈ Machine.trace CursorOp.step (CursorOp.accounted run) [] client,
        range.1 ≤ i ∧ i ≤ range.2

/-- An applied event without a byte range starts right after the mark. -/
theorem applies_plain
    {run : String}
    (hrun : run ≠ "")
    {cursor : RunCursor}
    {event : EventPublish}
    (happlies : CursorOp.applies run cursor event = true)
    (hplain : contentRangeStart event.payload.data = none)
    {entry : RunCursorEntry}
    (hentry : cursor.get run = some entry) :
    laneStart event = entry.highWater + 1 ∧
      (CursorOp.step cursor (.deliver event)).get run =
        some { entry with highWater := idxOf event } := by
  simp only [CursorOp.applies, Bool.decide_and, Bool.and_eq_true, decide_eq_true_eq]
    at happlies
  obtain ⟨hevent, hverdict⟩ := happlies
  cases hidx : eventIdx event with
  | none =>
      unfold next nextEvent at hverdict
      rw [hevent, hidx] at hverdict
      simp at hverdict
  | some idx =>
      have hread : idxOf event = idx := congrArg (Option.getD · (-1)) hidx
      rcases next_cases cursor hrun hevent hidx with
        ⟨_, hno⟩ | ⟨_, ⟨hnone, _⟩ | ⟨entry', hentry', hcursor, _, _, hstart⟩⟩
      · exact absurd hverdict (hno _)
      · rw [hentry] at hnone
        simp at hnone
      · obtain rfl := Option.some.inj (hentry.symm.trans hentry')
        refine ⟨hstart hplain, ?_⟩
        rw [CursorOp.step, hcursor, RunCursor.get_set, if_pos rfl, hread]

theorem consistent
    {run : String}
    (hrun : run ≠ "")
    {client : List CursorOp}
    (hstays : Machine.Guarded CursorOp.step (CursorOp.Stays run) [] client) :
    Consistent run client := by
  have hkeeps : ∀ past rest, client = past ++ rest →
      Keeps run (Machine.run CursorOp.step [] past)
        (Machine.trace CursorOp.step (CursorOp.applied run) [] past)
        (Machine.trace CursorOp.step (CursorOp.accounted run) [] past) := by
    intro past rest hsplit
    rw [hsplit, Machine.guarded_append] at hstays
    exact (keeps_new run).run hrun hstays.1
  refine ⟨?_, ?_, ?_⟩
  · intro past event rest hsplit happlies hplain range hrange
    have hkept := hkeeps past _ hsplit
    cases hentry : (Machine.run CursorOp.step [] past).get run with
    | none =>
        rw [hkept.untracked hentry] at hrange
        simp at hrange
    | some entry =>
        have hbelow := hkept.below entry hentry range hrange
        have hstart := (applies_plain hrun happlies hplain hentry).1
        omega
  · intro past event rest hsplit happlies hplain entry hentry
    rw [Machine.run_concat]
    exact applies_plain hrun happlies hplain hentry
  · exact (hkeeps client [] (by simp)).complete

namespace Lane

/-- Every group that is closed can be declared, so that none is lost. -/
def Publishes (c : Coalescer) (op : LaneOp) : Prop :=
  ∀ p ∈ closes c op, Declarable p

instance (c : Coalescer) (op : LaneOp) : Decidable (Publishes c op) := by
  unfold Publishes
  infer_instance

/--
What the lane publishes of a run is read by the client as the indices it stands
for; the client is consistent whatever is delivered, in whatever order; and where
no group is lost, it applies all that comes in order and without loss.
-/
theorem lane_cursor_agree
    {run : String}
    (hrun : run ≠ "")
    (window : Nat)
    (ops : List LaneOp)
    (hsources : Sources run (offered ops)) :
    (∀ event ∈ lane window ops, ∃ first len,
      Covers run (offered ops) first len event) ∧
    ∀ client : List CursorOp,
      Machine.Guarded CursorOp.step (CursorOp.Stays run) [] client →
        Consistent run client ∧
        (Machine.Guarded step Publishes (fresh window) (ops ++ [.flush]) →
          CursorOp.InBand run client →
          CursorOp.delivered run client = lane window ops →
          CursorOp.AllApplied run [] client) := by
  have hranges := guarded_ranges window hsources
  constructor
  · have hpart : Partitions False False (offered ops) (lane window ops) :=
      lane_partitions window ops (hranges.mono fun _ _ h =>
        ⟨h, fun hno => hno.elim, fun hno => hno.elim⟩)
    exact covers_of_partitions hrun hsources hpart
  · intro client hstays
    refine ⟨consistent hrun hstays, fun hpublishes hband hdelivered => ?_⟩
    obtain ⟨groups, kept, hflatten, _, htotal, hstands⟩ :
        Partitions False True (offered ops) (lane window ops) :=
      lane_partitions window ops ((hranges.and hpublishes).mono fun _ _ h =>
        ⟨h.1, fun hno => hno.elim, fun _ => h.2⟩)
    rw [htotal trivial] at hstands
    have hfollow := follow_of_standsFor hrun [] groups
      (by rwa [List.nil_append, hflatten]) hstands
    rw [List.nil_append, ← hdelivered] at hfollow
    exact allApplied_of_follow hrun hstays hband rfl hfollow

/-- A client that is sent these events. -/
def received (events : List EventPublish) : List CursorOp :=
  events.map .deliver

theorem delivered_received
    {run : String}
    {events : List EventPublish}
    (h : ∀ event ∈ events, runIdOf event = some run) :
    CursorOp.delivered run (received events) = events := by
  induction events with
  | nil =>
      rfl
  | cons event events ih =>
      have hrest := ih fun other hother => h other (List.mem_cons_of_mem _ hother)
      have hevent := h event List.mem_cons_self
      unfold CursorOp.delivered received at hrest ⊢
      rw [List.map_cons, List.flatMap_cons, hrest]
      simp [hevent]

theorem sourceEvent_chunk
    {k : Nat}
    (hk : k < 2 ^ 63) :
    SourceEvent "r" k (chunk k [("text", .str "a")]) where
  runId := rfl
  idx := if_pos hk
  single := rfl
  first := by
    intro data hdata hkey
    obtain rfl := Option.some.inj hdata
    exact absurd hkey (by decide)

theorem sources_chunks :
    Sources "r" (offered (twoChunks [("text", .str "a")])) := by
  intro k event hk
  match k with
  | 0 =>
      obtain rfl := Option.some.inj hk
      exact sourceEvent_chunk (by decide)
  | 1 =>
      obtain rfl := Option.some.inj hk
      exact sourceEvent_chunk (by decide)
  | k + 2 =>
      simp [offered, twoChunks] at hk

theorem lane_cursor_agree_two_chunks :
    (∀ event ∈ lane coalesceWindow (twoChunks [("text", .str "a")]), ∃ first len,
      Covers "r" (offered (twoChunks [("text", .str "a")])) first len event) ∧
    CursorOp.AllApplied "r" []
      (received (lane coalesceWindow (twoChunks [("text", .str "a")]))) ∧
    Consistent "r" (received (lane coalesceWindow (twoChunks [("text", .str "a")]))) := by
  obtain ⟨hcovers, hclient⟩ := lane_cursor_agree (show "r" ≠ "" by decide) coalesceWindow
    (twoChunks [("text", .str "a")]) sources_chunks
  obtain ⟨hconsistent, happlied⟩ := hclient
    (received (lane coalesceWindow (twoChunks [("text", .str "a")]))) (by decide +kernel)
  refine ⟨hcovers, happlied (by decide +kernel) ?_ ?_, hconsistent⟩
  · intro op hop
    obtain ⟨event, _, rfl⟩ := List.mem_map.1 hop
    trivial
  · refine delivered_received fun event hevent => ?_
    obtain ⟨_, _, hcover⟩ := hcovers event hevent
    exact hcover.runId

/-- A client that is sent both chunks as one event, and tops the run up to 4. -/
def toppedUp : List CursorOp :=
  received (lane coalesceWindow (twoChunks [("text", .str "a")])) ++
    [.advance "r" 4 false]

/--
After a call that moves the mark from 1 to 4 without claiming a complete prefix,
the prefix up to 4 still counts as complete.
-/
theorem advance_keeps_complete :
    Sources "r" (offered (twoChunks [("text", .str "a")])) ∧
    Machine.Guarded CursorOp.step (CursorOp.Stays "r") [] toppedUp ∧
    ¬∀ entry, (Machine.run CursorOp.step [] toppedUp).get "r" = some entry →
      entry.prefixComplete = true → ∀ i, 0 ≤ i → i ≤ entry.highWater →
        ∃ range ∈ Machine.trace CursorOp.step (CursorOp.claimed "r") [] toppedUp,
          range.1 ≤ i ∧ i ≤ range.2 := by
  refine ⟨sources_chunks, by decide +kernel, fun h => ?_⟩
  obtain ⟨range, hrange, _, hin⟩ := h ⟨4, true⟩ (by decide +kernel) rfl 2 (by decide)
    (by decide)
  have hone : Machine.trace CursorOp.step (CursorOp.claimed "r") [] toppedUp =
      [(0, 1)] := by
    decide +kernel
  rw [hone, List.mem_singleton] at hrange
  rw [hrange] at hin
  exact absurd hin (by decide)

end Lane

end Remote
end FutureOs
