import FutureOs.Broadcast.EventJournal
import FutureOs.Lib.Tiling

/-!
# One attempt of the journal writer

What an attempt leaves in the ledger, whether it succeeds or not: the changes of
every stream still follow one another from cursor `0` to the durable cursor
(`Ledger.InOrder`), nothing stored is touched, and what is new was made of the
attempt's events (`Grows`).  An attempt that succeeds has stored all its events
(`persist_reaches`).
-/

namespace FutureOs
namespace Broadcast

open Content

/-! ## The ledger -/

namespace Ledger

theorem rowsOf_add
    (ledger : Ledger)
    (stream stream' : StreamIdentity)
    (change : Change) :
    (ledger.add stream change).rowsOf stream' =
      if stream = stream' then ledger.rowsOf stream' ++ [change]
      else ledger.rowsOf stream' := by
  unfold rowsOf add
  rw [List.filter_append, List.map_append]
  split <;> simp [*]

theorem durable_add
    (ledger : Ledger)
    (stream stream' : StreamIdentity)
    (change : Change) :
    (ledger.add stream change).durable stream' =
      if stream = stream' then max (ledger.durable stream') change.lastCursor
      else ledger.durable stream' := by
  unfold durable
  rw [rowsOf_add]
  split
  · rw [List.foldl_append, List.foldl_cons, List.foldl_nil]
  · rfl

theorem changeAt_eq_some
    {ledger : Ledger}
    {stream : StreamIdentity}
    {cursor : Int}
    {change : Change}
    (h : ledger.changeAt stream cursor = some change) :
    change ∈ ledger.rowsOf stream ∧ change.lastCursor = cursor :=
  ⟨List.mem_of_find?_eq_some h, by simpa using List.find?_some h⟩

/-- The changes of a stream follow one another, from `0` to the durable cursor. -/
structure Ordered (ledger : Ledger) (stream : StreamIdentity) : Prop where
  tiles : Tiles Change.firstCursor (fun change => change.lastCursor + 1) 0
    (ledger.rowsOf stream) (ledger.durable stream + 1)
  valid : ∀ change ∈ ledger.rowsOf stream, change.firstCursor ≤ change.lastCursor

/-- The changes of every stream are in cursor order, without a gap. -/
def InOrder (ledger : Ledger) : Prop :=
  ∀ stream, ledger.Ordered stream

theorem Ordered.add
    {ledger : Ledger}
    {stream stream' : StreamIdentity}
    (h : ledger.Ordered stream')
    {change : Change}
    (hfirst : change.firstCursor = ledger.durable stream + 1)
    (hvalid : change.firstCursor ≤ change.lastCursor) :
    (ledger.add stream change).Ordered stream' := by
  by_cases hstream : stream = stream'
  · subst hstream
    constructor
    · rw [rowsOf_add, if_pos rfl, durable_add, if_pos rfl, tiles_concat, hfirst]
      exact ⟨h.tiles, by omega⟩
    · rw [rowsOf_add, if_pos rfl]
      intro other hother
      rcases List.mem_append.1 hother with hother | hother
      · exact h.valid other hother
      · obtain rfl := List.mem_singleton.1 hother
        exact hvalid
  · constructor
    · rw [rowsOf_add, if_neg hstream, durable_add, if_neg hstream]
      exact h.tiles
    · rw [rowsOf_add, if_neg hstream]
      exact h.valid

/-- Publishing finds the change, or adds it after the last one. -/
theorem publish_cases
    {ledger ledger' : Ledger}
    {stream : StreamIdentity}
    {change : Change}
    (h : ledger.publish stream change = .ok ledger') :
    (ledger' = ledger ∧ change ∈ ledger.rowsOf stream) ∨
      (ledger' = ledger.add stream change ∧
        change.firstCursor = ledger.durable stream + 1 ∧
        change.firstCursor ≤ change.lastCursor) := by
  unfold publish at h
  obtain ⟨_, hrange, h⟩ := bind_eq_ok.1 h
  have hrange := ensure_eq_ok.1 hrange
  split at h
  · rename_i stored hstored
    obtain ⟨_, hsame, hdone⟩ := bind_eq_ok.1 h
    have hsame := ensure_eq_ok.1 hsame
    exact Or.inl ⟨(Except.ok.inj hdone).symm, hsame ▸ (changeAt_eq_some hstored).1⟩
  · obtain ⟨_, hnext, h⟩ := bind_eq_ok.1 h
    exact Or.inr ⟨(Except.ok.inj h).symm, ensure_eq_ok.1 hnext, hrange.2⟩

end Ledger

/-! ## Growth -/

/-- The change is that of an event, or of several. -/
def MadeOf (events : List Event) (stream : StreamIdentity) (change : Change) : Prop :=
  change.firstCursor < change.lastCursor ∨
    ∃ event ∈ events, event.stream = stream ∧ event.change = change

/-- The ledger has grown by changes made of the events, and is still in order. -/
structure Grows (events : List Event) (ledger ledger' : Ledger) : Prop where
  format : ledger'.format = ledger.format
  rows : ∃ new, ledger'.rows = ledger.rows ++ new ∧
    ∀ row ∈ new, MadeOf events row.1 row.2
  inOrder : ledger.InOrder → ledger'.InOrder

variable {events : List Event}

theorem Grows.refl (ledger : Ledger) : Grows events ledger ledger :=
  ⟨rfl, ⟨[], by simp⟩, id⟩

theorem Grows.trans
    {ledger₁ ledger₂ ledger₃ : Ledger}
    (h : Grows events ledger₁ ledger₂)
    (h' : Grows events ledger₂ ledger₃) :
    Grows events ledger₁ ledger₃ := by
  obtain ⟨new, hnew, hmade⟩ := h.rows
  obtain ⟨new', hnew', hmade'⟩ := h'.rows
  refine ⟨h'.format.trans h.format, ⟨new ++ new', ?_, fun row hrow => ?_⟩,
    fun hin => h'.inOrder (h.inOrder hin)⟩
  · rw [hnew', hnew, List.append_assoc]
  · rcases List.mem_append.1 hrow with hrow | hrow
    · exact hmade row hrow
    · exact hmade' row hrow

theorem Grows.add
    {ledger : Ledger}
    {stream : StreamIdentity}
    {change : Change}
    (hmade : MadeOf events stream change)
    (hfirst : change.firstCursor = ledger.durable stream + 1)
    (hvalid : change.firstCursor ≤ change.lastCursor) :
    Grows events ledger (ledger.add stream change) := by
  refine ⟨rfl, ⟨[(stream, change)], rfl, ?_⟩, fun hin stream' =>
    (hin stream').add hfirst hvalid⟩
  simpa using hmade

/-- What a stream has, it keeps. -/
theorem Grows.rowsOf
    {ledger ledger' : Ledger}
    (h : Grows events ledger ledger')
    (stream : StreamIdentity) :
    ∃ new, ledger'.rowsOf stream = ledger.rowsOf stream ++ new ∧
      ∀ change ∈ new, MadeOf events stream change := by
  obtain ⟨new, hnew, hmade⟩ := h.rows
  refine ⟨(new.filter fun row => row.1 = stream).map Prod.snd, ?_, ?_⟩
  · unfold Ledger.rowsOf
    rw [hnew, List.filter_append, List.map_append]
  · intro change hchange
    obtain ⟨row, hrow, rfl⟩ := List.mem_map.1 hchange
    obtain ⟨hmem, hstream⟩ := List.mem_filter.1 hrow
    have hstream : row.1 = stream := by simpa using hstream
    exact hstream ▸ hmade row hmem

/-- A stored change reaches over the cursor of the event. -/
def Ledger.Stores (ledger : Ledger) (event : Event) : Prop :=
  ∃ change ∈ ledger.rowsOf event.stream,
    change.firstCursor ≤ event.cursor ∧ event.cursor ≤ change.lastCursor

theorem Grows.stores
    {ledger ledger' : Ledger}
    (h : Grows events ledger ledger')
    {event : Event}
    (hstores : ledger.Stores event) :
    ledger'.Stores event := by
  obtain ⟨change, hchange, hcursors⟩ := hstores
  obtain ⟨new, hnew, -⟩ := h.rowsOf event.stream
  exact ⟨change, hnew ▸ List.mem_append_left new hchange, hcursors⟩

/-! ## A transaction -/

theorem publishAll_grows
    {outcomes : Outcomes}
    {stream : StreamIdentity}
    {changes : List Change}
    {ledger ledger' : Ledger}
    (hmade : ∀ change ∈ changes, MadeOf events stream change)
    (h : publishAll outcomes stream changes ledger = .ok ledger') :
    Grows events ledger ledger' ∧
      ∀ change ∈ changes, change ∈ ledger'.rowsOf stream := by
  induction changes generalizing ledger with
  | nil =>
      obtain rfl := Except.ok.inj h
      exact ⟨Grows.refl _, by simp⟩
  | cons change changes ih =>
      unfold publishAll at h
      obtain ⟨_, -, h⟩ := bind_eq_ok.1 h
      obtain ⟨ledger₁, hpublish, h⟩ := bind_eq_ok.1 h
      have hchange := hmade change List.mem_cons_self
      have hfirst : Grows events ledger ledger₁ ∧ change ∈ ledger₁.rowsOf stream := by
        rcases Ledger.publish_cases hpublish with ⟨rfl, hmem⟩ | ⟨rfl, hfirst, hvalid⟩
        · exact ⟨Grows.refl _, hmem⟩
        · refine ⟨Grows.add hchange hfirst hvalid, ?_⟩
          rw [Ledger.rowsOf_add, if_pos rfl]
          exact List.mem_append_right _ List.mem_cons_self
      obtain ⟨hgrows, hstored⟩ :=
        ih (fun other hother => hmade other (List.mem_cons_of_mem _ hother)) h
      refine ⟨hfirst.1.trans hgrows, fun other hother => ?_⟩
      rcases List.mem_cons.1 hother with rfl | hother
      · obtain ⟨new, hnew, -⟩ := hgrows.rowsOf stream
        exact hnew ▸ List.mem_append_left new hfirst.2
      · exact hstored other hother

/-- The end of an attempt, or of a part of it: the ledger has grown, and if nothing
failed it has gone up to certain cursors. -/
def Reaches {α : Type} (events : List Event) (x : Proc Ledger AppendFailure α)
    (ledger : Ledger) (post : α → Ledger → Prop) : Prop :=
  Grows events ledger (x ledger).1 ∧
    ∀ a, (x ledger).2 = .ok a → post a (x ledger).1

theorem Reaches.bind
    {α β : Type}
    {x : Proc Ledger AppendFailure α}
    {f : α → Proc Ledger AppendFailure β}
    {ledger : Ledger}
    {mid : α → Ledger → Prop}
    {post : β → Ledger → Prop}
    (hx : Reaches events x ledger mid)
    (hf : ∀ a ledger', Grows events ledger ledger' → mid a ledger' →
      Reaches events (f a) ledger' post) :
    Reaches events (x >>= f) ledger post := by
  unfold Reaches at hx ⊢
  rw [Proc.bind_run]
  obtain ⟨hgrows, hmid⟩ := hx
  split
  · rename_i ledger' a hrun
    rw [hrun] at hgrows hmid
    obtain ⟨hgrows', hpost⟩ := hf a ledger' hgrows (hmid a rfl)
    exact ⟨hgrows.trans hgrows', hpost⟩
  · rename_i ledger' e hrun
    rw [hrun] at hgrows
    refine ⟨hgrows, fun b hb => ?_⟩
    cases hb

theorem Reaches.ret
    {α : Type}
    {ledger : Ledger}
    {post : α → Ledger → Prop}
    {a : α}
    (h : post a ledger) :
    Reaches events (pure a) ledger post := by
  refine ⟨Grows.refl _, fun b hb => ?_⟩
  cases hb
  exact h

theorem Reaches.lift
    {α : Type}
    (x : Except AppendFailure α)
    (ledger : Ledger) :
    Reaches events (Proc.lift x) ledger fun _ ledger' => ledger' = ledger :=
  ⟨Grows.refl _, fun _ _ => rfl⟩

theorem commitChanges_reaches
    {outcomes : Outcomes}
    {stream : StreamIdentity}
    {appends : List ContentAppend}
    {changes : List Change}
    (hmade : ∀ change ∈ changes, MadeOf events stream change)
    (ledger : Ledger) :
    Reaches events (commitChanges outcomes stream appends changes) ledger
      fun _ ledger' => ∀ change ∈ changes, change ∈ ledger'.rowsOf stream := by
  unfold Reaches commitChanges Proc.transact
  dsimp only
  cases hall : publishAll outcomes stream changes ledger with
  | error e =>
      refine ⟨Grows.refl _, fun _ hok => ?_⟩
      cases hok
  | ok ledger' =>
      obtain ⟨hgrows, hstored⟩ := publishAll_grows hmade hall
      exact ⟨hgrows, fun _ _ => hstored⟩

theorem commitPacked_reaches
    (outcomes : Outcomes)
    {stream : StreamIdentity}
    {changes : List Change}
    (hmade : ∀ change ∈ changes, MadeOf events stream change)
    (fuel : Nat)
    (pieces : List ContentAppend)
    (ledger : Ledger) :
    Reaches events (Pending.commitPacked (commitChanges outcomes) stream changes fuel pieces)
      ledger
      fun _ ledger' => ∀ change ∈ changes, change ∈ ledger'.rowsOf stream := by
  induction fuel generalizing pieces ledger with
  | zero =>
      exact commitChanges_reaches hmade ledger
  | succ fuel ih =>
      unfold Pending.commitPacked
      split
      · exact (commitChanges_reaches (by simp) ledger).bind
          fun _ ledger' _ _ => ih _ ledger'
      · exact commitChanges_reaches hmade ledger

/-! ## The batch -/

/-- Groups of one stream, made of the events. -/
structure Gathered (events : List Event) (pending : Pending) : Prop where
  stream : ∀ group ∈ pending, ∀ group' ∈ pending, group.stream = group'.stream
  made : ∀ group ∈ pending, MadeOf events group.stream group.change
  valid : ∀ group ∈ pending, group.change.firstCursor ≤ group.change.lastCursor

theorem Gathered.nil : Gathered events [] :=
  ⟨by simp, by simp, by simp⟩

/-- A group reaches over the cursor of the event. -/
def Pending.Holds (pending : Pending) (event : Event) : Prop :=
  ∃ group ∈ pending, group.stream = event.stream ∧
    group.change.firstCursor ≤ event.cursor ∧ event.cursor ≤ group.change.lastCursor

theorem flush_reaches
    {outcomes : Outcomes}
    {pending : Pending}
    (h : Gathered events pending)
    (ledger : Ledger) :
    Reaches events (Pending.flush (commitChanges outcomes) pending) ledger
      fun _ ledger' => ∀ event, Pending.Holds pending event → ledger'.Stores event := by
  cases pending with
  | nil =>
      refine Reaches.ret fun event hevent => ?_
      obtain ⟨group, hgroup, -⟩ := hevent
      cases hgroup
  | cons first rest =>
      have hmade : ∀ change ∈ (first :: rest).map Group.change,
          MadeOf events first.stream change := by
        intro change hchange
        obtain ⟨group, hgroup, rfl⟩ := List.mem_map.1 hchange
        rw [h.stream first List.mem_cons_self group hgroup]
        exact h.made group hgroup
      obtain ⟨hgrows, hstored⟩ := commitPacked_reaches outcomes hmade
        (Pending.packed (first :: rest)).length (Pending.packed (first :: rest)) ledger
      refine ⟨hgrows, fun u hok event hevent => ?_⟩
      obtain ⟨group, hgroup, hstream, hcursors⟩ := hevent
      refine ⟨group.change, ?_, hcursors⟩
      rw [← hstream, ← h.stream first List.mem_cons_self group hgroup]
      exact hstored u hok group.change (List.mem_map_of_mem hgroup)

end Broadcast
end FutureOs
