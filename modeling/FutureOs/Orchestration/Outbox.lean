import FutureOs.Orchestration.Supervision
import Mathlib.Data.List.TakeWhile

/-!
# The outbox loses nothing

What holds of the events of an outbox at every step (`OutboxInv`, `PassInv`): batches of
one session share no note, a batch takes the oldest notes first, and the batch under way
has a note that is not delivered.  From the second and the third, each pass that comes to
its end delivers a note older than any note that is in no batch, so every note gets into
one.
-/

namespace FutureOs
namespace Orchestration

/-! ## Reading an extended ledger -/

section Reading

variable (events : List Event)

theorem notes_concat (e : Event) :
    notes (events ++ [e]) = notes events ++ e.kind.note.toList := by
  unfold notes
  rw [List.filterMap_append]
  cases h : e.kind.note <;> simp [h]

theorem noteKeys_concat (e : Event) :
    noteKeys (events ++ [e]) = noteKeys events ++ (e.kind.note.map Prod.fst).toList := by
  unfold noteKeys
  rw [notes_concat, List.map_append]
  cases e.kind.note <;> rfl

theorem prepared_concat (e : Event) :
    prepared (events ++ [e]) = prepared events ++ e.kind.prepared.toList := by
  unfold prepared
  rw [List.filterMap_append]
  cases h : e.kind.prepared <;> simp [h]

theorem deliveredIds_concat (e : Event) :
    deliveredIds (events ++ [e]) = deliveredIds events ++ e.kind.delivered.toList := by
  unfold deliveredIds
  rw [List.filterMap_append]
  cases h : e.kind.delivered <;> simp [h]

variable {events}

theorem mem_batchKeys
    {keep : Batch → Bool}
    {key : String} :
    key ∈ batchKeys events keep ↔ ∃ b ∈ prepared events, keep b = true ∧ key ∈ b.keys := by
  unfold batchKeys
  simp [List.mem_flatMap, and_assoc]

theorem mem_deliveredKeys
    {key : String} :
    key ∈ deliveredKeys events ↔
      ∃ b ∈ prepared events, b.id ∈ deliveredIds events ∧ key ∈ b.keys := by
  unfold deliveredKeys
  rw [mem_batchKeys]
  simp

theorem mem_assignedKeys
    {session key : String} :
    key ∈ assignedKeys events session ↔
      ∃ b ∈ prepared events, (b.session = session ∨ b.id ∈ deliveredIds events) ∧
        key ∈ b.keys := by
  unfold assignedKeys
  rw [mem_batchKeys]
  simp

end Reading

/-! ## Older notes -/

/-- The keys before the first occurrence of the key. -/
def olderKeys (events : List Event) (key : String) : List String :=
  (noteKeys events).takeWhile (· ≠ key)

theorem mem_takeWhile_append
    {l l' : List String}
    {key x : String}
    (h : x ∈ l.takeWhile (· ≠ key)) :
    x ∈ (l ++ l').takeWhile (· ≠ key) := by
  rw [List.takeWhile_append]
  split
  · exact List.mem_append_left _ ((List.takeWhile_prefix _).subset h)
  · exact h

section Collect

variable {room : Nat}
variable {assigned : List String}
variable {list : List (String × String)}

theorem mem_of_mem_collectNotes
    {note : String × String}
    (h : note ∈ collectNotes room assigned list) :
    note ∈ list ∧ note.1 ∉ assigned := by
  induction list generalizing room assigned with
  | nil =>
      cases room <;> cases h
  | cons m rest ih =>
      cases room with
      | zero =>
          cases h
      | succ room =>
          unfold collectNotes at h
          split at h
          · obtain ⟨hmem, hfree⟩ := ih h
            exact ⟨List.mem_cons_of_mem _ hmem, hfree⟩
          · rename_i hm
            rcases List.mem_cons.1 h with rfl | h
            · exact ⟨List.mem_cons_self, hm⟩
            · obtain ⟨hmem, hfree⟩ := ih h
              exact ⟨List.mem_cons_of_mem _ hmem, fun ha => hfree (List.mem_cons_of_mem _ ha)⟩

/-- A key that could be collected and is not comes after all that are. -/
theorem collectNotes_older
    {key : String}
    (hfree : key ∉ assigned)
    (hleft : key ∉ (collectNotes room assigned list).map Prod.fst)
    {note : String × String}
    (h : note ∈ collectNotes room assigned list) :
    note.1 ∈ (list.map Prod.fst).takeWhile (· ≠ key) := by
  induction list generalizing room assigned with
  | nil =>
      cases room <;> cases h
  | cons m rest ih =>
      cases room with
      | zero =>
          cases h
      | succ room =>
          unfold collectNotes at h hleft
          split at h
          · rename_i hm
            rw [if_pos hm] at hleft
            have hne : m.1 ≠ key := fun heq => hfree (heq ▸ hm)
            rw [List.map_cons, List.takeWhile_cons_of_pos (by simpa using hne)]
            exact List.mem_cons_of_mem _ (ih hfree hleft h)
          · rename_i hm
            rw [if_neg hm, List.map_cons, List.mem_cons, not_or] at hleft
            have hne : m.1 ≠ key := Ne.symm hleft.1
            rw [List.map_cons, List.takeWhile_cons_of_pos (by simpa using hne)]
            rcases List.mem_cons.1 h with rfl | h
            · exact List.mem_cons_self
            · refine List.mem_cons_of_mem _ (ih ?_ hleft.2 h)
              simp [hleft.1, hfree]

end Collect

/-! ## The invariant -/

/-- A key in no batch comes after all keys of the batch. -/
def OldestFirst (events : List Event) (b : Batch) : Prop :=
  ∀ key, (∀ b' ∈ prepared events, key ∉ b'.keys) → key ∉ b.keys →
    ∀ x ∈ b.keys, x ∈ olderKeys events key

/-- What holds of the events of an outbox and of what its passes have sent. -/
structure OutboxInv (events : List Event) (sent : List Prompt) : Prop where
  ids : ((prepared events).map Batch.id).Nodup
  known : ∀ id ∈ deliveredIds events, ∃ b ∈ prepared events, b.id = id
  queued : ∀ b ∈ prepared events, ∀ key ∈ b.keys, key ∈ noteKeys events
  oldest : ∀ b ∈ prepared events, OldestFirst events b
  disjoint : ∀ b ∈ prepared events, ∀ b' ∈ prepared events, b.session = b'.session →
    ∀ key ∈ b.keys, key ∈ b'.keys → b = b'
  recorded : ∀ p ∈ sent, ∃ b ∈ prepared events, p = b.prompt

/-- A batch to be recorded takes the oldest notes nobody else is to deliver. -/
structure Choice (events : List Event) (b : Batch) : Prop where
  new : ∀ b' ∈ prepared events, b'.id ≠ b.id
  keys : b.keys ≠ []
  queued : ∀ key ∈ b.keys, key ∈ noteKeys events
  free : ∀ key ∈ b.keys, key ∉ assignedKeys events b.session
  oldest : OldestFirst events b

/-- A recorded batch that is not delivered, with a note that is not delivered. -/
structure Undelivered (events : List Event) (b : Batch) : Prop where
  recorded : b ∈ prepared events
  open' : b.id ∉ deliveredIds events
  needed : ∃ key ∈ b.keys, key ∉ deliveredKeys events

def PassInv (events : List Event) : Option Pass → Prop
  | none => True
  | some (.started _) => True
  | some (.chosen b) => Choice events b
  | some (.ready b) => Undelivered events b
  | some (.accepted b) => Undelivered events b

section Choose

variable {events : List Event}

theorem retryBatch_spec
    {session : String}
    {b : Batch}
    (h : retryBatch events session = some b) :
    Undelivered events b ∧ b.session = session := by
  have hmem := List.mem_of_find?_eq_some h
  have hcond := List.find?_some h
  simp only [Bool.and_eq_true, decide_eq_true_eq, Bool.not_eq_true', List.all_eq_false] at hcond
  obtain ⟨⟨hsession, hopen⟩, key, hkey, hneeded⟩ := hcond
  exact ⟨⟨hmem, hopen, key, hkey, by simpa using hneeded⟩, hsession⟩

theorem newBatch_spec
    {goalId session id : String}
    (hid : ∀ b ∈ prepared events, b.id ≠ id)
    {b : Batch}
    (h : newBatch goalId events session id = some b) :
    Choice events b ∧ b.session = session := by
  unfold newBatch at h
  simp only at h
  split at h
  · cases h
  · rename_i hne
    obtain rfl := Option.some.inj h
    refine ⟨⟨hid, by simpa using hne, fun key hkey => ?_, fun key hkey => ?_,
      fun key hnone hleft x hx => ?_⟩, rfl⟩
    · obtain ⟨note, hnote, rfl⟩ := List.mem_map.1 hkey
      exact List.mem_map_of_mem (mem_of_mem_collectNotes hnote).1
    · obtain ⟨note, hnote, rfl⟩ := List.mem_map.1 hkey
      exact (mem_of_mem_collectNotes hnote).2
    · obtain ⟨note, hnote, rfl⟩ := List.mem_map.1 hx
      refine collectNotes_older (fun hassigned => ?_) hleft hnote
      obtain ⟨b', hb', -, hkey⟩ := mem_assignedKeys.1 hassigned
      exact hnone b' hb' hkey

end Choose

/-! ## What an append keeps -/

section Append

variable {events : List Event}
variable {sent : List Prompt}

theorem mem_olderKeys_concat
    {key x : String}
    (h : x ∈ olderKeys events key)
    (e : Event) :
    x ∈ olderKeys (events ++ [e]) key := by
  unfold olderKeys
  rw [noteKeys_concat]
  exact mem_takeWhile_append h

theorem mem_noteKeys_concat
    {key : String}
    (h : key ∈ noteKeys events)
    (e : Event) :
    key ∈ noteKeys (events ++ [e]) := by
  rw [noteKeys_concat]
  exact List.mem_append_left _ h

theorem mem_prepared_concat
    {b : Batch}
    (h : b ∈ prepared events)
    (e : Event) :
    b ∈ prepared (events ++ [e]) := by
  rw [prepared_concat]
  exact List.mem_append_left _ h

theorem OldestFirst.concat
    {b : Batch}
    (h : OldestFirst events b)
    (e : Event) :
    OldestFirst (events ++ [e]) b :=
  fun key hnone hleft x hx =>
    mem_olderKeys_concat (h key (fun b' hb' => hnone b' (mem_prepared_concat hb' e)) hleft x hx) e

section Plain

variable {e : Event}
variable (hprepared : e.kind.prepared = none)
variable (hdelivered : e.kind.delivered = none)

include hprepared in
theorem prepared_plain : prepared (events ++ [e]) = prepared events := by
  rw [prepared_concat, hprepared]
  exact List.append_nil _

include hdelivered in
theorem deliveredIds_plain : deliveredIds (events ++ [e]) = deliveredIds events := by
  rw [deliveredIds_concat, hdelivered]
  exact List.append_nil _

include hprepared hdelivered in
theorem batchKeys_plain :
    deliveredKeys (events ++ [e]) = deliveredKeys events ∧
      ∀ session, assignedKeys (events ++ [e]) session = assignedKeys events session := by
  unfold deliveredKeys assignedKeys batchKeys
  rw [prepared_plain hprepared, deliveredIds_plain hdelivered]
  exact ⟨rfl, fun _ => rfl⟩

include hprepared in
/-- Without a new batch the invariant stays, if only known batches are delivered. -/
theorem OutboxInv.concat
    (h : OutboxInv events sent)
    (hknown : ∀ id, e.kind.delivered = some id → ∃ b ∈ prepared events, b.id = id) :
    OutboxInv (events ++ [e]) sent := by
  have hbatches : prepared (events ++ [e]) = prepared events := prepared_plain hprepared
  refine ⟨?_, ?_, ?_, ?_, ?_, ?_⟩
  · rw [hbatches]
    exact h.ids
  · rw [hbatches, deliveredIds_concat]
    intro id hid
    rcases List.mem_append.1 hid with hold | hnew
    · exact h.known id hold
    · exact hknown id (Option.mem_toList.1 hnew)
  · rw [hbatches]
    exact fun b hb key hkey => mem_noteKeys_concat (h.queued b hb key hkey) e
  · rw [hbatches]
    exact fun b hb => (h.oldest b hb).concat e
  · rw [hbatches]
    exact h.disjoint
  · rw [hbatches]
    exact h.recorded

include hprepared hdelivered in
theorem Undelivered.plain
    {b : Batch}
    (h : Undelivered events b) :
    Undelivered (events ++ [e]) b := by
  refine ⟨mem_prepared_concat h.recorded e, ?_, ?_⟩
  · rw [deliveredIds_plain hdelivered]
    exact h.open'
  · rw [(batchKeys_plain hprepared hdelivered).1]
    exact h.needed

include hprepared hdelivered in
theorem PassInv.plain
    {pass : Option Pass}
    (h : PassInv events pass) :
    PassInv (events ++ [e]) pass := by
  cases pass with
  | none => trivial
  | some pass =>
      cases pass with
      | started session => trivial
      | chosen b =>
          obtain ⟨hnew, hkeys, hqueued, hfree, holdest⟩ := h
          refine ⟨?_, hkeys, fun key hkey => mem_noteKeys_concat (hqueued key hkey) e, ?_,
            holdest.concat e⟩
          · rw [prepared_plain hprepared]
            exact hnew
          · rw [(batchKeys_plain hprepared hdelivered).2]
            exact hfree
      | ready b => exact Undelivered.plain hprepared hdelivered h
      | accepted b => exact Undelivered.plain hprepared hdelivered h

end Plain

/-- Recording a new batch. -/
theorem OutboxInv.prepare
    (h : OutboxInv events sent)
    {b : Batch}
    (hb : Choice events b)
    {e : Event}
    (he : e.kind.prepared = some b)
    (hplain : e.kind.delivered = none) :
    OutboxInv (events ++ [e]) sent ∧ Undelivered (events ++ [e]) b := by
  have hbatches : prepared (events ++ [e]) = prepared events ++ [b] := by
    rw [prepared_concat, he]
    rfl
  have hids : deliveredIds (events ++ [e]) = deliveredIds events := deliveredIds_plain hplain
  have hopen : b.id ∉ deliveredIds events := by
    intro hid
    obtain ⟨b', hb', hsame⟩ := h.known b.id hid
    exact hb.new b' hb' hsame
  refine ⟨⟨?_, ?_, ?_, ?_, ?_, ?_⟩, ?_, ?_, ?_⟩
  · rw [hbatches, List.map_append, List.nodup_append]
    refine ⟨h.ids, List.nodup_singleton _, fun x hx y hy heq => ?_⟩
    obtain ⟨b', hb', rfl⟩ := List.mem_map.1 hx
    exact hb.new b' hb' (heq.trans (List.mem_singleton.1 hy))
  · rw [hids]
    intro id hid
    obtain ⟨b', hb', hsame⟩ := h.known id hid
    exact ⟨b', mem_prepared_concat hb' e, hsame⟩
  · intro b' hb' key hkey
    refine mem_noteKeys_concat ?_ e
    rw [hbatches] at hb'
    rcases List.mem_append.1 hb' with hold | hnew
    · exact h.queued b' hold key hkey
    · obtain rfl := List.mem_singleton.1 hnew
      exact hb.queued key hkey
  · intro b' hb'
    rw [hbatches] at hb'
    rcases List.mem_append.1 hb' with hold | hnew
    · exact (h.oldest b' hold).concat e
    · obtain rfl := List.mem_singleton.1 hnew
      exact hb.oldest.concat e
  · rw [hbatches]
    intro b1 hb1 b2 hb2 hsession key hkey1 hkey2
    rcases List.mem_append.1 hb1 with hold1 | hnew1
    · rcases List.mem_append.1 hb2 with hold2 | hnew2
      · exact h.disjoint b1 hold1 b2 hold2 hsession key hkey1 hkey2
      · obtain rfl := List.mem_singleton.1 hnew2
        exact absurd (mem_assignedKeys.2 ⟨b1, hold1, Or.inl hsession, hkey1⟩) (hb.free key hkey2)
    · obtain rfl := List.mem_singleton.1 hnew1
      rcases List.mem_append.1 hb2 with hold2 | hnew2
      · exact absurd (mem_assignedKeys.2 ⟨b2, hold2, Or.inl hsession.symm, hkey2⟩)
          (hb.free key hkey1)
      · exact (List.mem_singleton.1 hnew2).symm
  · intro p hp
    obtain ⟨b', hb', rfl⟩ := h.recorded p hp
    exact ⟨b', mem_prepared_concat hb' e, rfl⟩
  · rw [hbatches]
    exact List.mem_append_right _ List.mem_cons_self
  · rwa [hids]
  · obtain ⟨key, hkey⟩ := List.exists_mem_of_ne_nil _ hb.keys
    refine ⟨key, hkey, fun hdelivered => ?_⟩
    obtain ⟨b', hb', hid, hkey'⟩ := mem_deliveredKeys.1 hdelivered
    rw [hids] at hid
    rw [hbatches] at hb'
    rcases List.mem_append.1 hb' with hold | hnew
    · exact hb.free key hkey (mem_assignedKeys.2 ⟨b', hold, Or.inr hid, hkey'⟩)
    · rw [List.mem_singleton.1 hnew] at hid
      exact hopen hid

end Append

/-! ## Steps -/

section Steps

variable {derive : Event → String}
variable {entry : RegistryEntry}
variable {s : Outbox derive}

/-- The keys of a call are recorded, or among the notes it has still to append. -/
def QueueInv (events : List Event) (queueing : Option QueueCall) : Prop :=
  ∀ call ∈ queueing, ∀ note ∈ call.notes,
    note.key ∈ noteKeys events ∨ ∃ left ∈ call.rest, left.key = note.key

/-- The invariant of the outbox. -/
structure Outbox.Sound (s : Outbox derive) : Prop where
  events : OutboxInv s.log.events s.sent
  pass : PassInv s.log.events s.pass
  queue : QueueInv s.log.events s.queueing

theorem queueInv_none (events : List Event) : QueueInv events none :=
  fun _ hcall => nomatch hcall

theorem QueueInv.record
    {log log' : EventLog derive}
    {event : Event}
    (hrecord : log.record event = .ok log')
    {queueing : Option QueueCall}
    (h : QueueInv log.events queueing) :
    QueueInv log'.events queueing := by
  rcases EventLog.record_cases hrecord with ⟨-, hsame⟩ | ⟨-, hadded⟩
  · rw [hsame]
    exact h
  · rw [hadded]
    intro call hcall note hnote
    exact (h call hcall note hnote).imp_left fun hkey => mem_noteKeys_concat hkey event

theorem queueInv_freshNotes (events : List Event) (notes : List Note) :
    QueueInv events (some { notes := notes, rest := freshNotes (noteKeys events) notes }) := by
  intro call hcall
  obtain rfl := Option.some.inj hcall
  have hfresh : ∀ (seen : List String) (notes : List Note), ∀ note ∈ notes,
      note.key ∈ seen ∨ ∃ left ∈ freshNotes seen notes, left.key = note.key := by
    intro seen notes
    induction notes generalizing seen with
    | nil =>
        intro note hnote
        cases hnote
    | cons head rest ih =>
        intro note hnote
        unfold freshNotes
        split
        · rename_i hseen
          rcases List.mem_cons.1 hnote with rfl | hrest
          · exact Or.inl hseen
          · exact ih seen note hrest
        · rcases List.mem_cons.1 hnote with rfl | hrest
          · exact Or.inr ⟨_, List.mem_cons_self, rfl⟩
          · rcases ih (head.key :: seen) note hrest with hkey | ⟨left, hleft, hkey⟩
            · rcases List.mem_cons.1 hkey with hhead | hold
              · exact Or.inr ⟨head, List.mem_cons_self, hhead.symm⟩
              · exact Or.inl hold
            · exact Or.inr ⟨left, List.mem_cons_of_mem _ hleft, hkey⟩
  exact hfresh (noteKeys events) notes

/-- The head of the notes to append is recorded. -/
theorem QueueInv.next
    {log log' : EventLog derive}
    {note : Note}
    {ts : Nat}
    (hrecord : log.record (note.event entry ts) = .ok log')
    {notes rest : List Note}
    (h : QueueInv log.events (some { notes := notes, rest := note :: rest })) :
    QueueInv log'.events (some { notes := notes, rest := rest }) := by
  have hlogged : note.event entry ts ∈ log'.events := by
    rcases EventLog.record_cases hrecord with ⟨hold, hsame⟩ | ⟨-, hadded⟩
    · rwa [hsame]
    · rw [hadded]
      exact List.mem_append_right _ List.mem_cons_self
  have hnote : (note.key, note.message) ∈ Orchestration.notes log'.events :=
    List.mem_filterMap.2 ⟨_, hlogged, rfl⟩
  have hkey : note.key ∈ noteKeys log'.events := List.mem_map_of_mem (f := Prod.fst) hnote
  intro call hcall n hn
  obtain rfl := Option.some.inj hcall
  rcases h.record hrecord _ rfl n hn with hold | ⟨left, hleft, hsame⟩
  · exact Or.inl hold
  · rcases List.mem_cons.1 hleft with rfl | hleft
    · exact Or.inl (hsame ▸ hkey)
    · exact Or.inr ⟨left, hleft, hsame⟩

theorem Outbox.sound_start : (Outbox.start : Outbox derive).Sound := by
  refine ⟨⟨List.nodup_nil, ?_, ?_, ?_, ?_, ?_⟩, trivial, queueInv_none _⟩
  all_goals
    intro x hx
    exact (List.not_mem_nil hx).elim

/-- An append of a note or of an unrelated event. -/
theorem OutboxInv.record_plain
    {log log' : EventLog derive}
    {event : Event}
    (hrecord : log.record event = .ok log')
    (hprepared : event.kind.prepared = none)
    (hdelivered : event.kind.delivered = none)
    {sent : List Prompt}
    {pass : Option Pass}
    (h : OutboxInv log.events sent)
    (hpass : PassInv log.events pass) :
    OutboxInv log'.events sent ∧ PassInv log'.events pass := by
  rcases EventLog.record_cases hrecord with ⟨-, hsame⟩ | ⟨-, hadded⟩
  · rw [hsame]
    exact ⟨h, hpass⟩
  · rw [hadded]
    refine ⟨h.concat hprepared fun id hid => ?_, PassInv.plain hprepared hdelivered hpass⟩
    rw [hdelivered] at hid
    cases hid

/-- The invariant is kept by every step. -/
theorem Outbox.Sound.step
    (h : s.Sound)
    {op : OutboxOp}
    (hop : s.Regular op) :
    (s.step entry op).Sound := by
  obtain ⟨hevents, hpass, hqueue⟩ := h
  cases op with
  | queueStart notes =>
      simp only [Outbox.step]
      split
      · exact ⟨hevents, hpass, queueInv_freshNotes s.log.events notes⟩
      · exact ⟨hevents, hpass, hqueue⟩
  | queueNext ts =>
      simp only [Outbox.step]
      split
      · rename_i notes note rest hcall
        split
        · rename_i hrecord
          obtain ⟨hevents', hpass'⟩ := OutboxInv.record_plain hrecord rfl rfl hevents hpass
          rw [hcall] at hqueue
          exact ⟨hevents', hpass', hqueue.next hrecord⟩
        · exact ⟨hevents, hpass, queueInv_none _⟩
      · exact ⟨hevents, hpass, queueInv_none _⟩
  | queueStop =>
      exact ⟨hevents, hpass, queueInv_none _⟩
  | passStart now =>
      simp only [Outbox.step]
      split
      · refine ⟨hevents, ?_, hqueue⟩
        cases replayedSession entry now s.log.events <;> trivial
      · exact ⟨hevents, hpass, hqueue⟩
  | passChoose id =>
      simp only [Outbox.step]
      split
      · rename_i session _
        refine ⟨hevents, ?_, hqueue⟩
        unfold choosePass
        split
        · rename_i b hretry
          exact (retryBatch_spec hretry).1
        · cases hnew : newBatch entry.goalId s.log.events session id with
          | none => trivial
          | some b => exact (newBatch_spec hop hnew).1
      · exact ⟨hevents, hpass, hqueue⟩
  | passPrepare ts =>
      simp only [Outbox.step]
      split
      · rename_i b hchosen
        rw [hchosen] at hpass
        split
        · rename_i log hrecord
          rcases EventLog.record_cases hrecord with ⟨hold, -⟩ | ⟨-, hadded⟩
          · exact absurd rfl (hpass.new b (List.mem_filterMap.2 ⟨_, hold, rfl⟩))
          · have hprepare := hevents.prepare hpass (e := b.preparedEvent entry ts) rfl rfl
            rw [← hadded] at hprepare
            exact ⟨hprepare.1, hprepare.2, hqueue.record hrecord⟩
        · exact ⟨hevents, trivial, hqueue⟩
      · exact ⟨hevents, hpass, hqueue⟩
  | passPrompt =>
      simp only [Outbox.step]
      split
      · rename_i b hready
        rw [hready] at hpass
        refine ⟨{ hevents with recorded := fun p hp => ?_ }, hpass, hqueue⟩
        rcases List.mem_append.1 hp with hold | hnew
        · exact hevents.recorded p hold
        · exact ⟨b, hpass.recorded, List.mem_singleton.1 hnew⟩
      · exact ⟨hevents, hpass, hqueue⟩
  | passDeliver ts =>
      simp only [Outbox.step]
      split
      · rename_i b haccepted
        rw [haccepted] at hpass
        split
        · rename_i log hrecord
          refine ⟨?_, trivial, hqueue.record hrecord⟩
          rcases EventLog.record_cases hrecord with ⟨-, hsame⟩ | ⟨-, hadded⟩
          · rw [hsame]
            exact hevents
          · rw [hadded]
            refine hevents.concat rfl fun id hid => ?_
            obtain rfl := Option.some.inj hid
            exact ⟨b, hpass.recorded, rfl⟩
        · exact ⟨hevents, trivial, hqueue⟩
      · exact ⟨hevents, hpass, hqueue⟩
  | passStop =>
      exact ⟨hevents, trivial, hqueue⟩
  | append event =>
      simp only [Outbox.step]
      split
      · rename_i log hrecord
        obtain ⟨hevents', hpass'⟩ :=
          OutboxInv.record_plain hrecord hop.2.1 hop.2.2 hevents hpass
        exact ⟨hevents', hpass', hqueue.record hrecord⟩
      · exact ⟨hevents, hpass, hqueue⟩

end Steps

end Orchestration
end FutureOs
