import FutureOs.Orchestration.Store

/-!
# A ledger written by appends

An append records an event under its content-derived id, absorbs an equal one and
refuses one whose id is taken.  A ledger written so has one line for each id
(`EventLog`), whatever the ids are derived with, and its readers see each event once.
-/

namespace FutureOs
namespace Orchestration

theorem keepFirst_of_nodup
    {events : List Event}
    (h : events.Nodup) :
    keepFirst events = events := by
  induction events using List.reverseRecOn with
  | nil =>
      rfl
  | append_singleton events e ih =>
      obtain ⟨hevents, -, hdisjoint⟩ := List.nodup_append.1 h
      rw [keepFirst_concat, ih hevents, if_neg]
      exact fun hmem => hdisjoint e hmem e List.mem_cons_self rfl

theorem CollisionFree.cons
    {derive : Event → String}
    {events : List Event}
    (h : CollisionFree derive events)
    {event : Event}
    (hid : derive event ∉ events.map derive) :
    CollisionFree derive (event :: events) := by
  intro a ha b hb hab
  rcases List.mem_cons.1 ha with rfl | ha'
  · rcases List.mem_cons.1 hb with rfl | hb'
    · rfl
    · exact absurd (hab ▸ List.mem_map_of_mem hb') hid
  · rcases List.mem_cons.1 hb with rfl | hb'
    · exact absurd (hab ▸ List.mem_map_of_mem ha') hid
    · exact h a ha' b hb' hab

/-- The events of a ledger, no two with the same id. -/
structure EventLog (derive : Event → String) where
  events : List Event
  ids : (events.map derive).Nodup

namespace EventLog

variable {derive : Event → String}

def empty : EventLog derive where
  events := []
  ids := List.nodup_nil

/-- The lines of the file. -/
def lines (log : EventLog derive) : List StoredEvent :=
  log.events.map (storedAs derive)

theorem collisionFree (log : EventLog derive) : CollisionFree derive log.events :=
  fun _ ha _ hb h => List.inj_on_of_nodup_map log.ids ha hb h

/-- Append one event: absorbed if recorded, refused if its id is taken. -/
def record (log : EventLog derive) (event : Event) : Except String (EventLog derive) :=
  if event ∈ log.events then
    .ok log
  else if h : derive event ∉ log.events.map derive then
    .ok
      { events := log.events ++ [event]
        ids := by
          rw [List.map_append, List.nodup_append]
          refine ⟨log.ids, List.nodup_singleton _, fun a ha b hb heq => ?_⟩
          exact h (List.mem_singleton.1 hb ▸ heq ▸ ha) }
  else
    .error ("conflicting event_id `" ++ derive event ++
      "` — same id, different content (StateEventConflictError)")

/-- A recorded event was there before, or is the last one. -/
theorem record_cases
    {log log' : EventLog derive}
    {event : Event}
    (h : log.record event = .ok log') :
    (event ∈ log.events ∧ log'.events = log.events) ∨
      (event ∉ log.events ∧ log'.events = log.events ++ [event]) := by
  unfold record at h
  split at h
  · rename_i hold
    exact Or.inl ⟨hold, by rw [← Except.ok.inj h]⟩
  · rename_i hnew
    split at h
    · exact Or.inr ⟨hnew, by rw [← Except.ok.inj h]⟩
    · cases h

/-- `record` is what an append does to the file. -/
theorem append_eq
    (log : EventLog derive)
    (entry : RegistryEntry)
    (event : Event) :
    Orchestration.append derive (some entry) log.lines event =
      (log.record event).map fun log' => (log'.lines, derive event) := by
  unfold Orchestration.append
  rw [ensure_of_pos (show (some entry).isSome = true from rfl), except_ok_bind]
  unfold record
  by_cases hold : event ∈ log.events
  · have hfree : CollisionFree derive (event :: log.events) := by
      refine log.collisionFree.subset fun e he => ?_
      rcases List.mem_cons.1 he with rfl | he
      · exact hold
      · exact he
    unfold lines
    rw [if_pos hold, appendEventLocked_storedAs hfree, if_pos hold]
    rfl
  · rw [if_neg hold]
    by_cases hid : derive event ∉ log.events.map derive
    · unfold lines
      rw [dif_pos hid, appendEventLocked_storedAs (log.collisionFree.cons hid), if_neg hold]
      rfl
    · rw [dif_neg hid]
      obtain ⟨b, hb, hsame⟩ := List.mem_map.1 (not_not.1 hid)
      unfold appendEventLocked
      cases hfind : log.lines.find?
          (fun line => line.eventId = (storedAs derive event).eventId) with
      | none =>
          have hnone := List.find?_eq_none.1 hfind (storedAs derive b) (List.mem_map_of_mem hb)
          exact absurd (decide_eq_true hsame) hnone
      | some line =>
          obtain ⟨c, hc, rfl⟩ := List.mem_map.1 (List.mem_of_find?_eq_some hfind)
          have hne : (storedAs derive c).event ≠ (storedAs derive event).event :=
            fun (h : c = event) => hold (h ▸ hc)
          dsimp only
          rw [if_neg hne]
          rfl

/-- A reader of the file sees the events. -/
theorem parse_eq (log : EventLog derive) :
    parseLedger derive log.lines = .ok log.lines := by
  unfold lines
  rw [parseLedger_storedAs log.collisionFree, keepFirst_of_nodup (List.Nodup.of_map derive log.ids)]

end EventLog

/-! ## Lines with any ids -/

section AnyLines

variable {derive : Event → String}
variable {lines stored : List StoredEvent}

/-- A kept line has the id the event would be written with. -/
def IsRecorded (derive : Event → String) (stored : List StoredEvent) (event : Event) : Prop :=
  ∃ prior ∈ stored, prior.effectiveId derive = derive event

instance (derive : Event → String) (stored : List StoredEvent) (event : Event) :
    Decidable (IsRecorded derive stored event) :=
  inferInstanceAs (Decidable (∃ prior ∈ stored, _))

/-- No line has the id of a new one and another event. -/
def FreeIds (derive : Event → String) (stored written : List StoredEvent) : Prop :=
  ∀ line ∈ written, ∀ prior ∈ stored ++ written,
    prior.effectiveId derive = line.effectiveId derive → prior.event = line.event

instance (derive : Event → String) (stored written : List StoredEvent) :
    Decidable (FreeIds derive stored written) :=
  inferInstanceAs (Decidable (∀ line ∈ written, ∀ prior ∈ stored ++ written, _))

theorem parseLedger_append (lines more : List StoredEvent) :
    parseLedger derive (lines ++ more) =
      parseLedger derive lines >>= fun out => more.foldlM (parseLine derive) out :=
  List.foldlM_append

theorem parseLedger_concat
    (h : parseLedger derive lines = .ok stored)
    (line : StoredEvent) :
    parseLedger derive (lines ++ [line]) = parseLine derive stored line := by
  rw [parseLedger_append, h, except_ok_bind, List.foldlM_cons]
  exact bind_pure _

/-- A line collapses into an equal one, or is kept. -/
theorem parseLine_cases
    {out out' : List StoredEvent}
    {line : StoredEvent}
    (h : parseLine derive out line = .ok out') :
    ((∃ prior ∈ out, prior.effectiveId derive = line.effectiveId derive ∧
        prior.event = line.event) ∧ out' = out) ∨
      ((∀ prior ∈ out, prior.effectiveId derive ≠ line.effectiveId derive) ∧
        out' = out ++ [line]) := by
  unfold parseLine at h
  split at h
  · rename_i prior hfind
    have hid := List.find?_some hfind
    split at h
    · rename_i hsame
      exact Or.inl ⟨⟨prior, List.mem_of_find?_eq_some hfind, of_decide_eq_true hid, hsame⟩,
        (Except.ok.inj h).symm⟩
    · cases h
  · rename_i hnone
    refine Or.inr ⟨fun prior hprior hid => ?_, (Except.ok.inj h).symm⟩
    exact List.find?_eq_none.1 hnone prior hprior (decide_eq_true hid)

theorem parseLine_ok
    (derive : Event → String)
    {out : List StoredEvent}
    {line : StoredEvent}
    (h : ∀ prior ∈ out, prior.effectiveId derive = line.effectiveId derive →
      prior.event = line.event) :
    ∃ out', parseLine derive out line = .ok out' := by
  unfold parseLine
  split
  · rename_i prior hfind
    have hid := List.find?_some hfind
    rw [if_pos (h prior (List.mem_of_find?_eq_some hfind) (of_decide_eq_true hid))]
    exact ⟨out, rfl⟩
  · exact ⟨_, rfl⟩

/-- Every line is kept itself or collapsed into a kept one. -/
theorem kept_of_mem
    (h : parseLedger derive lines = .ok stored)
    {line : StoredEvent}
    (hline : line ∈ lines) :
    ∃ prior ∈ stored, prior.effectiveId derive = line.effectiveId derive ∧
      prior.event = line.event := by
  induction lines using List.reverseRecOn generalizing stored with
  | nil =>
      cases hline
  | append_singleton lines last ih =>
      obtain ⟨out, hout, -⟩ := bind_eq_ok.1 ((parseLedger_append lines [last]).symm.trans h)
      have hlast := (parseLedger_concat hout last).symm.trans h
      rcases parseLine_cases hlast with ⟨hprior, rfl⟩ | ⟨-, rfl⟩
      · rcases List.mem_append.1 hline with hold | hnew
        · exact ih hout hold
        · rw [List.mem_singleton.1 hnew]
          exact hprior
      · rcases List.mem_append.1 hline with hold | hnew
        · obtain ⟨prior, hprior, hsame⟩ := ih hout hold
          exact ⟨prior, List.mem_append_left _ hprior, hsame⟩
        · rw [List.mem_singleton.1 hnew]
          exact ⟨last, List.mem_append_right _ List.mem_cons_self, rfl, rfl⟩

/-- Lines whose ids are free can be read. -/
theorem read_free
    {written : List StoredEvent}
    (hfree : FreeIds derive stored written) :
    ∃ more, written.foldlM (parseLine derive) stored = .ok (stored ++ more) ∧
      ∀ line ∈ more, line ∈ written := by
  induction written generalizing stored with
  | nil =>
      exact ⟨[], by rw [List.append_nil]; rfl, fun _ h => h⟩
  | cons line rest ih =>
      obtain ⟨out, hout⟩ := parseLine_ok derive (fun prior hprior =>
        hfree line List.mem_cons_self prior (List.mem_append_left _ hprior))
      have hcases : out = stored ∨ out = stored ++ [line] := by
        rcases parseLine_cases hout with ⟨-, rfl⟩ | ⟨-, rfl⟩
        · exact Or.inl rfl
        · exact Or.inr rfl
      have hrest : FreeIds derive out rest := by
        intro new hnew prior hprior
        refine hfree new (List.mem_cons_of_mem _ hnew) prior ?_
        rcases hcases with rfl | rfl
        · rcases List.mem_append.1 hprior with hold | hmem
          · exact List.mem_append_left _ hold
          · exact List.mem_append_right _ (List.mem_cons_of_mem _ hmem)
        · simpa [or_assoc] using hprior
      obtain ⟨more, hmore, hsub⟩ := ih hrest
      rw [List.foldlM_cons, hout, except_ok_bind, hmore]
      rcases hcases with rfl | rfl
      · exact ⟨more, rfl, fun l hl => List.mem_cons_of_mem _ (hsub l hl)⟩
      · refine ⟨line :: more, by rw [List.append_assoc]; rfl, fun l hl => ?_⟩
        rcases List.mem_cons.1 hl with rfl | hl
        · exact List.mem_cons_self
        · exact List.mem_cons_of_mem _ (hsub l hl)

/-- A ledger that cannot be read stays so. -/
theorem readable_of_append
    {more : List StoredEvent}
    (h : parseLedger derive (lines ++ more) = .ok stored) :
    ∃ out, parseLedger derive lines = .ok out := by
  obtain ⟨out, hout, -⟩ := bind_eq_ok.1 ((parseLedger_append lines more).symm.trans h)
  exact ⟨out, hout⟩

/-- After an append the event is recorded: it was before, or its line is the last. -/
theorem parse_append_cases
    {entry : Option RegistryEntry}
    {event : Event}
    {lines' stored' : List StoredEvent}
    {id : String}
    (happend : append derive entry lines event = .ok (lines', id))
    (hstored' : parseLedger derive lines' = .ok stored') :
    ∃ stored, parseLedger derive lines = .ok stored ∧
      ((IsRecorded derive stored event ∧ stored' = stored) ∨
        (¬ IsRecorded derive stored event ∧ stored' = stored ++ [storedAs derive event])) := by
  obtain ⟨-, -, happend⟩ := bind_eq_ok.1 happend
  obtain ⟨lines'', hlocked, hok⟩ := bind_eq_ok.1 happend
  obtain ⟨rfl, -⟩ := Prod.mk.inj (Except.ok.inj hok)
  unfold appendEventLocked at hlocked
  split at hlocked
  · rename_i line hfind
    split at hlocked
    · rename_i hsame
      obtain rfl := Except.ok.inj hlocked
      obtain ⟨prior, hprior, hid, -⟩ := kept_of_mem hstored' (List.mem_of_find?_eq_some hfind)
      have hid' := List.find?_some hfind
      have heq : line.eventId = derive event := of_decide_eq_true hid'
      have heffective : line.effectiveId derive = derive event := by
        unfold StoredEvent.effectiveId
        rw [heq, hsame]
        split <;> rfl
      exact ⟨stored', hstored', Or.inl ⟨⟨prior, hprior, hid.trans heffective⟩, rfl⟩⟩
    · cases hlocked
  · obtain rfl := Except.ok.inj hlocked
    obtain ⟨stored, hstored⟩ := readable_of_append hstored'
    rw [parseLedger_concat hstored] at hstored'
    refine ⟨stored, hstored, ?_⟩
    rcases parseLine_cases hstored' with ⟨⟨prior, hprior, hid, -⟩, rfl⟩ | ⟨hnew, rfl⟩
    · exact Or.inl ⟨⟨prior, hprior, by rw [hid, effectiveId_storedAs]⟩, rfl⟩
    · refine Or.inr ⟨?_, rfl⟩
      rintro ⟨prior, hprior, hid⟩
      exact hnew prior hprior (by rw [hid, effectiveId_storedAs])

end AnyLines

end Orchestration
end FutureOs
