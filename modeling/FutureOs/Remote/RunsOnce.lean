import FutureOs.Remote.ReplySlots

/-!
# A command id runs once

A slot is left at two times: its `expires_at` counts from when it was made, its timer from
when the command ended.  Between the two a lookup that finds the command ended replaces the
slot, and the command runs again; and a command that captured no reply runs again for the
next delivery that waits.  On runs whose steps are all `Steady` neither happens, and then a
slot answers for its id until its command has ended and the lifetime has passed.

A delivery belongs to the newest slot its id had when it was looked up; `LookedUp` says so
of the keys of the slots, which no step changes.
-/

namespace FutureOs
namespace Remote

/-- What a slot keeps for good. -/
structure SlotKey where
  commandId : String
  request : Json
  made : Nat
deriving DecidableEq

def CachedReply.key (slot : CachedReply) : SlotKey where
  commandId := slot.commandId
  request := slot.request
  made := slot.made

/-- The slot the delivery belongs to, while or after it was handled with one. -/
def Handling.slot : Handling → Option Nat
  | .waiting r => some r
  | .executing r => some r
  | .replaying r => some r
  | .executed r => some r
  | .replayed r _ => some r
  | _ => none

/-- The slot whose mutex the delivery holds. -/
def Handling.holds : Handling → Option Nat
  | .executing r => some r
  | .replaying r => some r
  | _ => none

namespace ReplyState

/--
A command that ends has captured a reply; and no lookup finds the slot of its id at rest
and past its expiry before the lifetime has passed since the command ended.
-/
def Steady (ttl : Nat) (s : ReplyState) : ReplyStep → Prop
  | .lookup index =>
      ∀ h, s.handled[index]? = some h → ∀ r slot, s.slots h.delivery.commandId = some r →
        s.heap[r]? = some slot → slot.expiresAt ≤ s.clock → slot.inFlight = false →
          ∀ ended, slot.ended = some ended → ended + ttl ≤ s.clock
  | .finish index reply =>
      ∀ h, s.handled[index]? = some h → h.delivery.hasReply = true ∧ reply.isSome = true
  | _ => True

def keys (s : ReplyState) : List SlotKey :=
  s.heap.map (·.key)

/-- The slot was the newest of its id when the delivery was looked up. -/
def LookedUp (keys : List SlotKey) (h : Handled) (key : SlotKey) (r : Nat) : Prop :=
  ∃ t n, h.lookedUp = some (t, n) ∧ n ≤ keys.length ∧ r < n ∧ keys[r]? = some key ∧
    key.commandId = h.delivery.commandId ∧
      ∀ r' key', r' < n → keys[r']? = some key' →
        key'.made ≤ t ∧ (key'.commandId = h.delivery.commandId → r' ≤ r)

/-- A delivery that was looked up belongs to the slot found, or was refused by it. -/
def Placed (keys : List SlotKey) (h : Handled) : Prop :=
  match h.lookedUp with
  | none => h.handling.slot = none ∧ h.handling ≠ .refused
  | some _ => ∃ key r, LookedUp keys h key r ∧
      if key.request = h.delivery.request then
        h.handling.slot = some r
      else
        h.handling = .refused

/-- The command of the slot has ended, and the lifetime has passed at that time. -/
def Passed (ttl : Nat) (slot : CachedReply) (time : Nat) : Prop :=
  ∃ ended, slot.ended = some ended ∧ ended + ttl ≤ time

/-- What a slot in the heap is like. -/
structure SlotOk (slot : CachedReply) (clock : Nat) : Prop where
  executions : slot.executions = if slot.response.isSome || slot.locked then 1 else 0
  ended : slot.ended.isSome = slot.response.isSome
  made : slot.made ≤ clock

/-- Who holds the mutex of a slot found it as it is. -/
structure Held (s : ReplyState) (h : Handled) (r : Nat) : Prop where
  locked : ∃ slot, s.heap[r]? = some slot ∧ slot.locked = true ∧
    (h.handling = .executing r → slot.response = none) ∧
    (h.handling = .replaying r → slot.response.isSome = true)

structure Single (ttl : Nat) (s : ReplyState) : Prop where
  slots : ∀ slot ∈ s.heap, SlotOk slot s.clock
  current : ∀ id r, s.slots id = some r → ∃ key, s.keys[r]? = some key ∧ key.commandId = id ∧
    ∀ r' key', s.keys[r']? = some key' → key'.commandId = id → r' ≤ r
  retired : ∀ r slot, s.heap[r]? = some slot →
    s.slots slot.commandId = some r ∨ Passed ttl slot s.clock
  order : ∀ (r r' : Nat) (slot slot' : CachedReply), r < r' → s.heap[r]? = some slot → s.heap[r']? = some slot' →
    slot.commandId = slot'.commandId → Passed ttl slot slot'.made
  placed : ∀ h ∈ s.handled, Placed s.keys h
  held : ∀ h ∈ s.handled, ∀ r, h.handling.holds = some r → s.Held h r
  alone : ∀ (i j : Nat) (h h' : Handled) (r : Nat), s.handled[i]? = some h → s.handled[j]? = some h' →
    h.handling.holds = some r → h'.handling.holds = some r → i = j
  replayed : ∀ h ∈ s.handled, ∀ r reply, h.handling = .replayed r reply →
    ∃ slot, s.heap[r]? = some slot ∧ slot.response = some reply
  timers : ∀ timer ∈ s.timers, ∃ slot, s.heap[timer.slot]? = some slot ∧
    slot.commandId = timer.commandId ∧ Passed ttl slot timer.due

variable {ttl : Nat} {s s' : ReplyState}

/-! ## Keys and places -/

theorem keys_getElem?
    {r : Nat}
    {slot : CachedReply}
    (h : s.heap[r]? = some slot) :
    s.keys[r]? = some slot.key := by
  simp [keys, h]

theorem heap_of_keys
    {r : Nat}
    {key : SlotKey}
    (h : s.keys[r]? = some key) :
    ∃ slot, s.heap[r]? = some slot ∧ slot.key = key := by
  simpa [keys] using h

/-- Places are kept while keys only come to the end. -/
theorem Placed.append
    {keys : List SlotKey}
    {h : Handled}
    (hplaced : Placed keys h)
    (more : List SlotKey) :
    Placed (keys ++ more) h := by
  cases hlookup : h.lookedUp with
  | none =>
      simpa only [Placed, hlookup] using hplaced
  | some lookup =>
      simp only [Placed, hlookup] at hplaced ⊢
      obtain ⟨key, r, ⟨t, n, hat, hn, hr, hkey, hid, hnewest⟩, hhandling⟩ := hplaced
      refine ⟨key, r, ⟨t, n, hat, ?_, hr, ?_, hid, ?_⟩, hhandling⟩
      · rw [List.length_append]
        omega
      · rw [List.getElem?_append_left (by omega)]
        exact hkey
      · intro r' key' hr' hkey'
        rw [List.getElem?_append_left (by omega)] at hkey'
        exact hnewest r' key' hr' hkey'

/-- A delivery goes on with its slot. -/
theorem Placed.goesOn
    {keys : List SlotKey}
    {h : Handled}
    (hplaced : Placed keys h)
    {handling : Handling}
    {r : Nat}
    (hslot : h.handling.slot = some r)
    (hnext : handling.slot = some r) :
    Placed keys { h with handling := handling } := by
  cases hlookup : h.lookedUp with
  | none =>
      simp only [Placed, hlookup] at hplaced
      rw [hplaced.1] at hslot
      cases hslot
  | some lookup =>
      simp only [Placed, hlookup] at hplaced ⊢
      obtain ⟨key, r', ⟨t, n, hat, hlooked⟩, hhandling⟩ := hplaced
      refine ⟨key, r', ⟨t, n, hlookup.symm.trans hat, hlooked⟩, ?_⟩
      split at hhandling
      · rename_i hsame
        rw [if_pos hsame, hnext, ← hslot]
        exact hhandling
      · rw [hhandling] at hslot
        cases hslot

/-! ## A delivery goes on with its slot -/

theorem getElem?_set_iff
    {α : Type}
    {xs : List α}
    {i j : Nat}
    {x y z : α}
    (h : xs[i]? = some x) :
    (xs.set i y)[j]? = some z ↔ j = i ∧ z = y ∨ j ≠ i ∧ xs[j]? = some z := by
  have hlt : i < xs.length := (List.getElem?_eq_some_iff.1 h).1
  rw [List.getElem?_set]
  by_cases hij : i = j
  · subst hij
    simp [hlt, eq_comm]
  · simp [hij, Ne.symm hij]

theorem keys_set
    {r : Nat}
    {slot slot' : CachedReply}
    (hslot : s.heap[r]? = some slot)
    (hkey : slot'.key = slot.key) :
    (s.heap.set r slot').map (·.key) = s.keys := by
  refine List.ext_getElem? fun k => ?_
  rw [List.map_set, keys, List.getElem?_set]
  split
  · rename_i hk
    subst hk
    rw [List.getElem?_map, hslot, hkey]
    simp [(List.getElem?_eq_some_iff.1 hslot).1]
  · rfl

/--
The slot of a delivery changes, and the delivery goes on with it: no reply is lost, no other
delivery holds the mutex, and who holds it now finds the slot as it should be.
-/
theorem Single.goesOn
    (h : Single ttl s)
    {index : Nat}
    {handled : Handled}
    (hindex : s.handled[index]? = some handled)
    {r : Nat}
    (hhandling : handled.handling.slot = some r)
    {slot : CachedReply}
    (hslot : s.heap[r]? = some slot)
    (next : Handling)
    (hnext : next.slot = some r)
    (slot' : CachedReply)
    (more : List Retirement)
    (hkey : slot'.key = slot.key)
    (hok : SlotOk slot' s.clock)
    (hpassed : ∀ time, Passed ttl slot time → Passed ttl slot' time)
    (hreply : ∀ reply, slot.response = some reply → slot'.response = some reply)
    (hothers : ∀ j h', s.handled[j]? = some h' → h'.handling.holds = some r → j = index)
    (hholds : next.holds = some r → slot'.locked = true ∧
      (next = .executing r → slot'.response = none) ∧
      (next = .replaying r → slot'.response.isSome = true))
    (hreplayed : ∀ reply, next = .replayed r reply → slot'.response = some reply)
    (hmore : ∀ timer ∈ more, timer.slot = r ∧ timer.commandId = slot'.commandId ∧
      Passed ttl slot' timer.due) :
    Single ttl
      { s with
        handled := s.handled.set index { handled with handling := next }
        heap := s.heap.set r slot'
        timers := s.timers ++ more } := by
  have hkeys := keys_set hslot hkey
  have hid : slot'.commandId = slot.commandId := congrArg SlotKey.commandId hkey
  have hmade : slot'.made = slot.made := congrArg SlotKey.made hkey
  have hnextHolds : ∀ r', next.holds = some r' → r' = r := by
    intro r' hr'
    cases next <;> simp_all [Handling.holds, Handling.slot]
  have hmem : handled ∈ s.handled := List.mem_of_getElem? hindex
  have hset : ∀ h' ∈ s.handled.set index { handled with handling := next },
      h' = { handled with handling := next } ∨
        ∃ j, j ≠ index ∧ s.handled[j]? = some h' := by
    intro h' hh'
    obtain ⟨j, hj⟩ := List.getElem?_of_mem hh'
    rcases (getElem?_set_iff hindex).1 hj with ⟨-, rfl⟩ | ⟨hne, hold⟩
    · exact .inl rfl
    · exact .inr ⟨j, hne, hold⟩
  refine ⟨?_, ?_, ?_, ?_, ?_, ?_, ?_, ?_, ?_⟩
  · intro x hx
    rcases List.mem_or_eq_of_mem_set hx with hx | rfl
    · exact h.slots x hx
    · exact hok
  · simpa only [keys, hkeys] using h.current
  · intro k x hx
    rcases (getElem?_set_iff hslot).1 hx with ⟨rfl, rfl⟩ | ⟨-, hx⟩
    · rcases h.retired k slot hslot with hcurrent | hpast
      · exact .inl (hid ▸ hcurrent)
      · exact .inr (hpassed _ hpast)
    · exact h.retired k x hx
  · intro k k' x x' hlt hx hx' hsame
    rcases (getElem?_set_iff hslot).1 hx with ⟨rfl, rfl⟩ | ⟨-, hold⟩ <;>
      rcases (getElem?_set_iff hslot).1 hx' with ⟨rfl, rfl⟩ | ⟨-, hold'⟩
    · exact absurd hlt (Nat.lt_irrefl _)
    · exact hpassed _ (h.order _ _ _ _ hlt hslot hold' (hid ▸ hsame))
    · rw [hmade]
      exact h.order _ _ _ _ hlt hold hslot (hsame.trans hid)
    · exact h.order _ _ _ _ hlt hold hold' hsame
  · intro h' hh'
    simp only [keys, hkeys]
    rcases hset h' hh' with rfl | ⟨j, -, hold⟩
    · exact (h.placed handled hmem).goesOn hhandling hnext
    · exact h.placed h' (List.mem_of_getElem? hold)
  · intro h' hh' k hk
    rcases hset h' hh' with rfl | ⟨j, hne, hold⟩
    · obtain rfl := hnextHolds k hk
      obtain ⟨hlocked, hexecuting, hreplaying⟩ := hholds hk
      exact ⟨slot', (getElem?_set_iff hslot).2 (.inl ⟨rfl, rfl⟩), hlocked, hexecuting, hreplaying⟩
    · have hkr : k ≠ r := by
        rintro rfl
        exact hne (hothers j h' hold hk)
      obtain ⟨x, hx, hrest⟩ := (h.held h' (List.mem_of_getElem? hold) k hk).locked
      exact ⟨x, (getElem?_set_iff hslot).2 (.inr ⟨hkr, hx⟩), hrest⟩
  · intro i j a b k ha hb hka hkb
    rcases (getElem?_set_iff hindex).1 ha with ⟨rfl, rfl⟩ | ⟨-, hold⟩ <;>
      rcases (getElem?_set_iff hindex).1 hb with ⟨rfl, rfl⟩ | ⟨-, hold'⟩
    · rfl
    · obtain rfl := hnextHolds k hka
      exact (hothers j b hold' hkb).symm
    · obtain rfl := hnextHolds k hkb
      exact hothers i a hold hka
    · exact h.alone i j a b k hold hold' hka hkb
  · intro h' hh' k reply hrep
    rcases hset h' hh' with rfl | ⟨j, -, hold⟩
    · have hkr : k = r := by
        have hslotNext := hnext
        rw [show next = .replayed k reply from hrep] at hslotNext
        exact Option.some.inj hslotNext
      subst hkr
      exact ⟨slot', (getElem?_set_iff hslot).2 (.inl ⟨rfl, rfl⟩), hreplayed reply hrep⟩
    · obtain ⟨x, hx, hresponse⟩ := h.replayed h' (List.mem_of_getElem? hold) k reply hrep
      by_cases hkr : k = r
      · subst hkr
        obtain rfl := Option.some.inj (hslot.symm.trans hx)
        exact ⟨slot', (getElem?_set_iff hslot).2 (.inl ⟨rfl, rfl⟩), hreply reply hresponse⟩
      · exact ⟨x, (getElem?_set_iff hslot).2 (.inr ⟨hkr, hx⟩), hresponse⟩
  · intro timer htimer
    rcases List.mem_append.1 htimer with htimer | htimer
    · obtain ⟨x, hx, hcommand, hpast⟩ := h.timers timer htimer
      by_cases hkr : timer.slot = r
      · rw [hkr] at hx
        obtain rfl := Option.some.inj (hslot.symm.trans hx)
        exact ⟨slot', (getElem?_set_iff hslot).2 (.inl ⟨hkr, rfl⟩), hid.trans hcommand,
          hpassed _ hpast⟩
      · exact ⟨x, (getElem?_set_iff hslot).2 (.inr ⟨hkr, hx⟩), hcommand, hpast⟩
    · obtain ⟨htimerSlot, hcommand, hpast⟩ := hmore timer htimer
      exact ⟨slot', (getElem?_set_iff hslot).2 (.inl ⟨htimerSlot, rfl⟩), hcommand.symm, hpast⟩

/-! ## The steps -/

theorem Single.heldBy
    (h : Single ttl s)
    {index : Nat}
    {handled : Handled}
    (hindex : s.handled[index]? = some handled)
    {r : Nat}
    (hholds : handled.handling.holds = some r) :
    ∀ j h', s.handled[j]? = some h' → h'.handling.holds = some r → j = index :=
  fun j h' hj hh' => h.alone j index h' handled r hj hindex hh' hholds

theorem Single.lock
    (h : Single ttl s)
    {index : Nat}
    {handled : Handled}
    (hindex : s.handled[index]? = some handled)
    {r : Nat}
    (hwaiting : handled.handling = .waiting r)
    {slot : CachedReply}
    (hslot : s.heap[r]? = some slot)
    (hfree : slot.locked = false) :
    Single ttl (s.lock index handled r slot) := by
  have hok := h.slots slot (List.mem_of_getElem? hslot)
  have hnobody : ∀ j h', s.handled[j]? = some h' → h'.handling.holds = some r → j = index := by
    intro j h' hj hholds
    obtain ⟨slot', hslot', hlocked, -⟩ := (h.held h' (List.mem_of_getElem? hj) r hholds).locked
    obtain rfl := Option.some.inj (hslot.symm.trans hslot')
    rw [hfree] at hlocked
    cases hlocked
  have hhandling : handled.handling.slot = some r := by
    rw [hwaiting]
    rfl
  unfold ReplyState.lock
  split
  · rename_i reply hresponse
    have hnext := h.goesOn hindex hhandling hslot (.replaying r) rfl { slot with locked := true } []
      rfl ⟨by simpa [hresponse] using hok.executions, hok.ended, hok.made⟩
      (fun _ hp => hp) (fun _ hr => hr) hnobody
      (fun _ => ⟨rfl, fun heq => (by cases heq), fun _ => by simp [hresponse]⟩)
      (fun _ heq => by cases heq) (fun _ hm => by cases hm)
    rw [List.append_nil] at hnext
    exact hnext
  · rename_i hresponse
    have hnext := h.goesOn hindex hhandling hslot (.executing r) rfl
      { slot with locked := true, executions := slot.executions + 1 } [] rfl
      ⟨by simpa [hresponse, hfree] using hok.executions, hok.ended, hok.made⟩
      (fun _ hp => hp) (fun _ hr => hr) hnobody
      (fun _ => ⟨rfl, fun _ => hresponse, fun heq => (by cases heq)⟩)
      (fun _ heq => by cases heq) (fun _ hm => by cases hm)
    rw [List.append_nil] at hnext
    exact hnext

theorem Single.finish
    (h : Single ttl s)
    {index : Nat}
    {handled : Handled}
    (hindex : s.handled[index]? = some handled)
    {r : Nat}
    (hexecuting : handled.handling = .executing r)
    {slot : CachedReply}
    (hslot : s.heap[r]? = some slot)
    {reply : Option Bytes}
    (hcaptured : handled.delivery.hasReply = true ∧ reply.isSome = true) :
    Single ttl (s.finish ttl index handled r slot reply) := by
  have hmem := List.mem_of_getElem? hindex
  have hok := h.slots slot (List.mem_of_getElem? hslot)
  have hholds : handled.handling.holds = some r := by
    rw [hexecuting]
    rfl
  have hhandling : handled.handling.slot = some r := by
    rw [hexecuting]
    rfl
  obtain ⟨slot₀, hslot₀, hlocked, hunfilled, -⟩ := (h.held handled hmem r hholds).locked
  obtain rfl := Option.some.inj (hslot.symm.trans hslot₀)
  have hnone := hunfilled hexecuting
  have hnever : slot.ended = none := by
    have hended := hok.ended
    rw [hnone] at hended
    simpa using hended
  obtain ⟨hreply, hsome⟩ := hcaptured
  obtain ⟨bytes, rfl⟩ := Option.isSome_iff_exists.1 hsome
  -- The slot belongs to the id of the delivery.
  have hid : handled.delivery.commandId = slot.commandId := by
    have hplaced := h.placed handled hmem
    cases hlookup : handled.lookedUp with
    | none =>
        simp only [Placed, hlookup] at hplaced
        rw [hplaced.1] at hhandling
        cases hhandling
    | some lookup =>
        simp only [Placed, hlookup] at hplaced
        obtain ⟨key, r', ⟨t, n, -, -, -, hkey, hcommand, -⟩, hplace⟩ := hplaced
        split at hplace
        · obtain rfl : r = r' := Option.some.inj (hhandling.symm.trans hplace)
          rw [keys_getElem? hslot] at hkey
          obtain rfl := Option.some.inj hkey
          exact hcommand.symm
        · rw [hexecuting] at hplace
          cases hplace
  have hnext := h.goesOn hindex hhandling hslot (.executed r) rfl
    { slot with response := some bytes, locked := false, ended := some s.clock }
    [⟨handled.delivery.commandId, r, s.clock + ttl⟩] rfl
    ⟨by simpa [hlocked, hnone] using hok.executions, rfl, hok.made⟩
    (fun _ ⟨ended, hended, _⟩ => by rw [hnever] at hended; cases hended)
    (fun _ hr => by rw [hnone] at hr; cases hr)
    (h.heldBy hindex hholds)
    (fun heq => by cases heq) (fun _ heq => by cases heq)
    (fun timer htimer => by
      obtain rfl := List.mem_singleton.1 htimer
      exact ⟨rfl, hid, s.clock, rfl, le_refl _⟩)
  unfold ReplyState.finish
  rw [if_pos hreply]
  exact hnext

theorem Single.respond
    (h : Single ttl s)
    {index : Nat}
    {handled : Handled}
    (hindex : s.handled[index]? = some handled)
    {r : Nat}
    (hreplaying : handled.handling = .replaying r)
    {slot : CachedReply}
    (hslot : s.heap[r]? = some slot)
    {reply : Bytes}
    (hreply : slot.response = some reply) :
    Single ttl (s.respond index handled r slot reply) := by
  have hok := h.slots slot (List.mem_of_getElem? hslot)
  have hholds : handled.handling.holds = some r := by
    rw [hreplaying]
    rfl
  have hhandling : handled.handling.slot = some r := by
    rw [hreplaying]
    rfl
  have hnext := h.goesOn hindex hhandling hslot (.replayed r reply) rfl
    { slot with locked := false } [] rfl
    ⟨by simpa [hreply] using hok.executions, hok.ended, hok.made⟩
    (fun _ hp => hp) (fun _ hr => hr) (h.heldBy hindex hholds)
    (fun heq => by cases heq)
    (fun bytes heq => by
      cases heq
      exact hreply)
    (fun _ hm => by cases hm)
  unfold ReplyState.respond
  rw [List.append_nil] at hnext
  exact hnext

/-- The record of a delivery changes, and it holds no mutex. -/
theorem Single.withHandled
    (h : Single ttl s)
    {index : Nat}
    {handled : Handled}
    (hindex : s.handled[index]? = some handled)
    {handled' : Handled}
    (hplaced : Placed s.keys handled')
    (hholds : handled'.handling.holds = none)
    (hreplayed : ∀ r reply, handled'.handling ≠ .replayed r reply) :
    Single ttl { s with handled := s.handled.set index handled' } := by
  refine ⟨h.slots, h.current, h.retired, h.order, ?_, ?_, ?_, ?_, h.timers⟩
  · intro x hx
    rcases List.mem_or_eq_of_mem_set hx with hx | rfl
    · exact h.placed x hx
    · exact hplaced
  · intro x hx r hr
    rcases List.mem_or_eq_of_mem_set hx with hx | rfl
    · exact ⟨(h.held x hx r hr).locked⟩
    · rw [hholds] at hr
      cases hr
  · intro i j a b r ha hb hra hrb
    rcases (getElem?_set_iff hindex).1 ha with ⟨-, rfl⟩ | ⟨-, hold⟩
    · rw [hholds] at hra
      cases hra
    rcases (getElem?_set_iff hindex).1 hb with ⟨-, rfl⟩ | ⟨-, hold'⟩
    · rw [hholds] at hrb
      cases hrb
    exact h.alone i j a b r hold hold' hra hrb
  · intro x hx r reply hrep
    rcases List.mem_or_eq_of_mem_set hx with hx | rfl
    · exact h.replayed x hx r reply hrep
    · exact absurd hrep (hreplayed r reply)

/-- A new slot takes over an id whose slots are all past their lifetime. -/
theorem Single.make
    (h : Single ttl s)
    {slot : CachedReply}
    (hmade : slot.made = s.clock)
    (hnew : slot.response = none ∧ slot.locked = false ∧ slot.executions = 0 ∧ slot.ended = none)
    (hpassed : ∀ (r : Nat) (old : CachedReply), s.heap[r]? = some old →
      old.commandId = slot.commandId →
      Passed ttl old s.clock) :
    Single ttl
      { s with
        slots := Function.update s.slots slot.commandId (some s.heap.length)
        heap := s.heap ++ [slot] } := by
  obtain ⟨hresponse, hlocked, hexecutions, hended⟩ := hnew
  have hget : ∀ {k : Nat} {x : CachedReply}, (s.heap ++ [slot])[k]? = some x →
      s.heap[k]? = some x ∧ k < s.heap.length ∨ k = s.heap.length ∧ x = slot := by
    intro k x hx
    rcases Nat.lt_trichotomy k s.heap.length with hlt | rfl | hgt
    · rw [List.getElem?_append_left hlt] at hx
      exact .inl ⟨hx, hlt⟩
    · rw [List.getElem?_concat_length] at hx
      exact .inr ⟨rfl, (Option.some.inj hx).symm⟩
    · rw [List.getElem?_eq_none (by simp; omega)] at hx
      cases hx
  have hold : ∀ {k : Nat} {x : CachedReply}, s.heap[k]? = some x → (s.heap ++ [slot])[k]? = some x := by
    intro k x hx
    rw [List.getElem?_append_left (List.getElem?_eq_some_iff.1 hx).1]
    exact hx
  refine ⟨?_, ?_, ?_, ?_, ?_, ?_, h.alone, ?_, ?_⟩
  · intro x hx
    rcases List.mem_append.1 hx with hx | hx
    · exact h.slots x hx
    · obtain rfl := List.mem_singleton.1 hx
      exact ⟨by simp [hresponse, hlocked, hexecutions], by simp [hended, hresponse], hmade.le⟩
  · intro id r hr
    by_cases hid : id = slot.commandId
    · subst hid
      dsimp only at hr
      rw [Function.update_self] at hr
      obtain rfl := Option.some.inj hr
      refine ⟨slot.key, by simp [keys], rfl, fun r' key' hkey' _ => ?_⟩
      have hlt := (List.getElem?_eq_some_iff.1 hkey').1
      simp only [keys, List.length_map, List.length_append, List.length_singleton] at hlt
      omega
    · dsimp only at hr
      rw [Function.update_of_ne hid] at hr
      obtain ⟨key, hkey, hkeyId, hnewest⟩ := h.current id r hr
      obtain ⟨x, hx, rfl⟩ := heap_of_keys hkey
      refine ⟨x.key, ?_, hkeyId, ?_⟩
      · simp only [keys, List.getElem?_map]
        rw [hold hx]
        rfl
      · intro r' key' hkey' hid'
        obtain ⟨y, hy, rfl⟩ := heap_of_keys hkey'
        rcases hget hy with ⟨hy, -⟩ | ⟨-, rfl⟩
        · exact hnewest r' y.key (keys_getElem? hy) hid'
        · exact absurd hid'.symm hid
  · intro k x hx
    rcases hget hx with ⟨hx, -⟩ | ⟨rfl, rfl⟩
    · by_cases hid : x.commandId = slot.commandId
      · exact .inr (hpassed k x hx hid)
      · dsimp only
        rw [Function.update_of_ne hid]
        exact h.retired k x hx
    · exact .inl (Function.update_self _ _ _)
  · intro k k' x x' hlt hx hx' hsame
    rcases hget hx with ⟨hfirst, -⟩ | ⟨rfl, rfl⟩
    · rcases hget hx' with ⟨hsecond, -⟩ | ⟨rfl, rfl⟩
      · exact h.order k k' x x' hlt hfirst hsecond hsame
      · rw [hmade]
        exact hpassed k x hfirst hsame
    · rcases hget hx' with ⟨-, hlt'⟩ | ⟨rfl, -⟩ <;> omega
  · intro x hx
    have hplaced := (h.placed x hx).append [slot.key]
    simpa [keys] using hplaced
  · intro x hx r hr
    obtain ⟨y, hy, hrest⟩ := (h.held x hx r hr).locked
    exact ⟨y, hold hy, hrest⟩
  · intro x hx r reply hrep
    obtain ⟨y, hy, hresponse⟩ := h.replayed x hx r reply hrep
    exact ⟨y, hold hy, hresponse⟩
  · intro timer htimer
    obtain ⟨y, hy, hrest⟩ := h.timers timer htimer
    exact ⟨y, hold hy, hrest⟩

theorem Single.lookup
    (h : Single ttl s)
    {index : Nat}
    {handled : Handled}
    (hindex : s.handled[index]? = some handled)
    (hreceived : handled.handling = .received)
    (hsteady : s.Steady ttl (.lookup index)) :
    Single ttl (s.lookup ttl index handled) := by
  have hmem := List.mem_of_getElem? hindex
  have hnot : handled.lookedUp = none := by
    have hplaced := h.placed handled hmem
    cases hlookup : handled.lookedUp with
    | none =>
        rfl
    | some lookup =>
        simp only [Placed, hlookup] at hplaced
        obtain ⟨key, r, -, hplace⟩ := hplaced
        split at hplace <;> rw [hreceived] at hplace <;> cases hplace
  have hmade : ∀ (r : Nat) (key : SlotKey), s.keys[r]? = some key → key.made ≤ s.clock := by
    intro r key hkey
    obtain ⟨x, hx, rfl⟩ := heap_of_keys hkey
    exact (h.slots x (List.mem_of_getElem? hx)).made
  unfold ReplyState.lookup
  split
  · refine h.withHandled hindex ?_ rfl (fun _ _ heq => by cases heq)
    simp only [Placed, hnot]
    exact ⟨rfl, fun heq => by cases heq⟩
  split
  · -- The slot of the id is joined, or refuses the request.
    rename_i r hjoins
    obtain ⟨hcurrent, -⟩ := Option.filter_eq_some_iff.1 hjoins
    obtain ⟨key, hkey, hid, hnewest⟩ := h.current _ r hcurrent
    obtain ⟨slot, hslot, rfl⟩ := heap_of_keys hkey
    have hlooked : LookedUp s.keys
        { handled with lookedUp := some (s.clock, s.heap.length) } slot.key r := by
      refine ⟨s.clock, s.heap.length, rfl, by simp [keys], ?_, hkey, hid, ?_⟩
      · exact (List.getElem?_eq_some_iff.1 hslot).1
      · exact fun r' key' _ hkey' => ⟨hmade r' key' hkey', hnewest r' key' hkey'⟩
    refine h.withHandled hindex ?_ ?_ ?_
    · refine ⟨slot.key, r, hlooked, ?_⟩
      by_cases hsame : slot.request = handled.delivery.request
      · simp [CachedReply.key, hsame, hslot, Handling.slot]
      · simp [CachedReply.key, hsame, hslot]
    · dsimp only
      split <;> rfl
    · intro r' reply
      dsimp only
      split <;> exact fun heq => by cases heq
  · -- The slots of the id are past their lifetime: a new one is made.
    rename_i hjoins
    have hpassed : ∀ (r : Nat) (old : CachedReply), s.heap[r]? = some old →
        old.commandId = handled.delivery.commandId → Passed ttl old s.clock := by
      intro r old hold hid
      rcases h.retired r old hold with hcurrent | hpast
      · rw [hid] at hcurrent
        have hrest : ¬ (s.clock < old.expiresAt) ∧ old.inFlight = false := by
          simp only [joins, hcurrent, Option.filter_eq_none_iff] at hjoins
          simpa [hold] using hjoins
        have hfilled : old.response.isSome = true := by
          have hflight := hrest.2
          simp only [CachedReply.inFlight, Bool.or_eq_false_iff] at hflight
          simpa using hflight.2
        have hended := (h.slots old (List.mem_of_getElem? hold)).ended
        rw [hfilled] at hended
        obtain ⟨ended, hsome⟩ := Option.isSome_iff_exists.1 hended
        exact ⟨ended, hsome, hsteady handled hindex r old hcurrent hold (by omega) hrest.2 ended hsome⟩
      · exact hpast
    let slot : CachedReply :=
      { request := handled.delivery.request
        response := none
        locked := false
        expiresAt := s.clock + ttl
        commandId := handled.delivery.commandId
        made := s.clock
        executions := 0
        ended := none }
    have hnew := h.make (show slot.made = s.clock from rfl) ⟨rfl, rfl, rfl, rfl⟩ hpassed
    refine hnew.withHandled hindex ?_ rfl (fun _ _ heq => by cases heq)
    refine ⟨_, s.heap.length, ⟨s.clock, s.heap.length + 1, rfl, by simp [keys],
      Nat.lt_succ_self _, by simp [keys]; rfl, rfl, ?_⟩, ?_⟩
    · intro r' key' hlt hkey'
      refine ⟨?_, fun _ => by omega⟩
      obtain ⟨x, hx, rfl⟩ := heap_of_keys hkey'
      exact (hnew.slots x (List.mem_of_getElem? hx)).made
    · have hsame : slot.key.request = handled.delivery.request := rfl
      rw [if_pos hsame]
      rfl

theorem Passed.mono
    {slot : CachedReply}
    {time time' : Nat}
    (h : Passed ttl slot time)
    (hle : time ≤ time') :
    Passed ttl slot time' := by
  obtain ⟨ended, hended, hpast⟩ := h
  exact ⟨ended, hended, by omega⟩

theorem Single.advance
    (h : Single ttl s)
    (by' : Nat) :
    Single ttl { s with clock := s.clock + by' } where
  slots := fun slot hslot =>
    let hok := h.slots slot hslot
    ⟨hok.executions, hok.ended, Nat.le_add_right_of_le hok.made⟩
  current := h.current
  retired := fun r slot hslot =>
    (h.retired r slot hslot).imp_right fun hpast => hpast.mono (Nat.le_add_right _ _)
  order := h.order
  placed := h.placed
  held := fun x hx r hr => ⟨(h.held x hx r hr).locked⟩
  alone := h.alone
  replayed := h.replayed
  timers := h.timers

theorem Single.deliver
    (h : Single ttl s)
    (delivery : Delivery) :
    Single ttl { s with handled := s.handled ++ [⟨delivery, .received, none⟩] } := by
  have hget : ∀ (i : Nat) (x : Handled),
      (s.handled ++ [(⟨delivery, .received, none⟩ : Handled)])[i]? = some x →
        s.handled[i]? = some x ∨ x = ⟨delivery, .received, none⟩ := by
    intro i x hx
    rcases Nat.lt_or_ge i s.handled.length with hlt | hge
    · rw [List.getElem?_append_left hlt] at hx
      exact .inl hx
    · rw [List.getElem?_append_right hge, List.getElem?_singleton] at hx
      split at hx
      · exact .inr (Option.some.inj hx).symm
      · cases hx
  refine ⟨h.slots, h.current, h.retired, h.order, ?_, ?_, ?_, ?_, h.timers⟩
  · intro x hx
    rcases List.mem_append.1 hx with hx | hx
    · exact h.placed x hx
    · obtain rfl := List.mem_singleton.1 hx
      exact ⟨rfl, fun heq => by cases heq⟩
  · intro x hx r hr
    rcases List.mem_append.1 hx with hx | hx
    · exact ⟨(h.held x hx r hr).locked⟩
    · obtain rfl := List.mem_singleton.1 hx
      cases hr
  · intro i j a b r ha hb hra hrb
    rcases hget i a ha with hold | rfl
    · rcases hget j b hb with hold' | rfl
      · exact h.alone i j a b r hold hold' hra hrb
      · cases hrb
    · cases hra
  · intro x hx r reply hrep
    rcases List.mem_append.1 hx with hx | hx
    · exact h.replayed x hx r reply hrep
    · obtain rfl := List.mem_singleton.1 hx
      cases hrep

/-- A timer that is due removes a slot whose lifetime has passed. -/
theorem Single.retire
    (h : Single ttl s)
    {index : Nat}
    {timer : Retirement}
    (htimer : s.timers[index]? = some timer)
    (hdue : timer.due ≤ s.clock) :
    Single ttl (s.retire index timer) := by
  obtain ⟨slot, hslot, hid, hpast⟩ := h.timers timer (List.mem_of_getElem? htimer)
  have htimers : ∀ t ∈ s.timers.eraseIdx index, ∃ slot, s.heap[t.slot]? = some slot ∧
      slot.commandId = t.commandId ∧ Passed ttl slot t.due := fun t ht =>
    h.timers t (List.mem_of_mem_eraseIdx ht)
  unfold ReplyState.retire
  split
  · rename_i hcurrent
    refine ⟨h.slots, ?_, ?_, h.order, h.placed, fun x hx r hr => ⟨(h.held x hx r hr).locked⟩,
      h.alone, h.replayed, htimers⟩
    · intro id r hr
      dsimp only at hr
      by_cases hthis : id = timer.commandId
      · rw [hthis, Function.update_self] at hr
        cases hr
      · rw [Function.update_of_ne hthis] at hr
        exact h.current id r hr
    · intro r x hx
      dsimp only
      rcases h.retired r x hx with hstill | hgone
      · by_cases hthis : x.commandId = timer.commandId
        · rw [hthis, hcurrent] at hstill
          obtain rfl := Option.some.inj hstill
          obtain rfl := Option.some.inj (hslot.symm.trans hx)
          exact .inr (hpast.mono hdue)
        · rw [Function.update_of_ne hthis]
          exact .inl hstill
      · exact .inr hgone
  · exact ⟨h.slots, h.current, h.retired, h.order, h.placed,
      fun x hx r hr => ⟨(h.held x hx r hr).locked⟩, h.alone, h.replayed, htimers⟩

theorem Single.step
    (h : Single ttl s)
    (op : ReplyStep)
    (hsteady : s.Steady ttl op) :
    Single ttl (s.step ttl op) := by
  cases op with
  | advance by' =>
      exact h.advance by'
  | deliver delivery =>
      exact h.deliver delivery
  | lookup index =>
      simp only [ReplyState.step]
      split
      · rename_i handled hindex
        split
        · rename_i hreceived
          exact h.lookup hindex hreceived hsteady
        · exact h
      · exact h
  | lock index =>
      simp only [ReplyState.step]
      split
      · rename_i handled hindex
        split
        · rename_i r hwaiting
          split
          · rename_i slot hslot
            split
            · exact h
            · rename_i hfree
              exact h.lock hindex hwaiting hslot (Bool.not_eq_true _ ▸ hfree)
          · exact h
        · exact h
      · exact h
  | finish index reply =>
      simp only [ReplyState.step]
      split
      · rename_i handled hindex
        split
        · rename_i r hexecuting
          split
          · rename_i slot hslot
            exact h.finish hindex hexecuting hslot (hsteady handled hindex)
          · exact h
        · exact h
      · exact h
  | respond index =>
      simp only [ReplyState.step]
      split
      · rename_i handled hindex
        split
        · rename_i r hreplaying
          split
          · rename_i slot hslot
            split
            · rename_i reply hreply
              exact h.respond hindex hreplaying hslot hreply
            · exact h
          · exact h
        · exact h
      · exact h
  | retire index =>
      simp only [ReplyState.step]
      split
      · rename_i timer htimer
        split
        · rename_i hdue
          exact h.retire htimer hdue
        · exact h
      · exact h

theorem single_start : Single ttl start where
  slots := fun _ hx => by cases hx
  current := fun _ _ hr => by cases hr
  retired := fun _ _ hx => by simp [start] at hx
  order := fun _ _ _ _ _ hx => by simp [start] at hx
  placed := fun _ hx => by cases hx
  held := fun _ hx => by cases hx
  alone := fun _ _ _ _ _ hx => by simp [start] at hx
  replayed := fun _ hx => by cases hx
  timers := fun _ hx => by cases hx

/-! ## Run once, answered alike -/

/-- The slot answers for its id at that time: its lifetime behind the command is not over. -/
def Answers (ttl : Nat) (slot : CachedReply) (time : Nat) : Prop :=
  ∀ ended, slot.ended = some ended → time < ended + ttl

/-- A delivery that was looked up while a slot answered for its id got that slot's reply, or
waits for it, or was refused for its request. -/
theorem Single.answered
    (h : Single ttl s)
    {handled : Handled}
    (hmem : handled ∈ s.handled)
    {t n : Nat}
    (hlookup : handled.lookedUp = some (t, n))
    {r : Nat}
    {slot : CachedReply}
    (hr : r < n)
    (hslot : s.heap[r]? = some slot)
    (hid : slot.commandId = handled.delivery.commandId)
    (hanswers : Answers ttl slot t) :
    if slot.request = handled.delivery.request then
      handled.handling.slot = some r ∧
        ∀ reply, handled.handling = .replayed r reply → slot.response = some reply
    else
      handled.handling = .refused := by
  have hplaced := h.placed handled hmem
  simp only [Placed, hlookup] at hplaced
  obtain ⟨key, r', ⟨t', n', hat, -, hr', hkey, hkeyId, hnewest⟩, hplace⟩ := hplaced
  obtain ⟨rfl, rfl⟩ := Prod.mk.inj (Option.some.inj (hlookup.symm.trans hat))
  obtain ⟨slot', hslot', rfl⟩ := heap_of_keys hkey
  -- A newer slot was made only when this one had ceased to answer.
  have hsame : r' = r := by
    have hle := (hnewest r slot.key hr (keys_getElem? hslot)).2 hid
    rcases Nat.lt_or_eq_of_le hle with hlt | heq
    · obtain ⟨ended, hended, hpast⟩ :=
        h.order r r' slot slot' hlt hslot hslot' (hid.trans hkeyId.symm)
      have hmade := (hnewest r' slot'.key hr' hkey).1
      have hstill := hanswers ended hended
      simp only [CachedReply.key] at hmade
      omega
    · exact heq.symm
  subst hsame
  obtain rfl := Option.some.inj (hslot.symm.trans hslot')
  by_cases hrequest : slot.request = handled.delivery.request
  · rw [if_pos hrequest]
    rw [if_pos (show slot.key.request = handled.delivery.request from hrequest)] at hplace
    refine ⟨hplace, fun reply hreplayed => ?_⟩
    obtain ⟨x, hx, hresponse⟩ := h.replayed handled hmem _ reply hreplayed
    obtain rfl := Option.some.inj (hslot.symm.trans hx)
    exact hresponse
  · rw [if_neg hrequest]
    rwa [if_neg (show ¬ slot.key.request = handled.delivery.request from hrequest)] at hplace

/--
On runs of steady steps a slot is executed at most once, a newer slot of its id is made only
when the lifetime has passed since its command ended, a delivery looked up before that gets
its reply or is refused, and until then it stays in the table.
-/
theorem command_runs_once
    (ttl : Nat)
    (ops : List ReplyStep)
    (hsteady : Machine.Guarded (step ttl) (Steady ttl) start ops) :
    (∀ slot ∈ (Machine.run (step ttl) start ops).heap, slot.executions ≤ 1) ∧
      (∀ (r r' : Nat) (slot slot' : CachedReply), r < r' →
        (Machine.run (step ttl) start ops).heap[r]? = some slot →
        (Machine.run (step ttl) start ops).heap[r']? = some slot' →
        slot.commandId = slot'.commandId →
          ∃ ended, slot.ended = some ended ∧ ended + ttl ≤ slot'.made) ∧
      (∀ handled ∈ (Machine.run (step ttl) start ops).handled, ∀ t n,
        handled.lookedUp = some (t, n) → ∀ (r : Nat) (slot : CachedReply), r < n →
        (Machine.run (step ttl) start ops).heap[r]? = some slot →
        slot.commandId = handled.delivery.commandId → Answers ttl slot t →
          if slot.request = handled.delivery.request then
            handled.handling.slot = some r ∧
              ∀ reply, handled.handling = .replayed r reply → slot.response = some reply
          else
            handled.handling = .refused) ∧
      ∀ (r : Nat) (slot : CachedReply),
        (Machine.run (step ttl) start ops).heap[r]? = some slot →
        Answers ttl slot (Machine.run (step ttl) start ops).clock →
          (Machine.run (step ttl) start ops).slots slot.commandId = some r := by
  have hsingle : Single ttl (Machine.run (step ttl) start ops) :=
    hsteady.invariant (fun _ op hs hop => hs.step op hop) single_start
  refine ⟨?_, hsingle.order, ?_, ?_⟩
  · intro slot hslot
    rw [(hsingle.slots slot hslot).executions]
    split <;> omega
  · intro handled hmem t n hlookup r slot hr hslot hid hanswers
    exact hsingle.answered hmem hlookup hr hslot hid hanswers
  · intro r slot hslot hanswers
    rcases hsingle.retired r slot hslot with hcurrent | ⟨ended, hended, hpast⟩
    · exact hcurrent
    · have hstill := hanswers ended hended
      omega

/-! ## A command as long as its lifetime -/

def promptDelivery : Delivery where
  commandId := "prompt-1"
  cmdType := "prompt"
  request := .obj [("id", .str "prompt-1"), ("type", .str "prompt")]
  hasReply := true

/-- A prompt that takes so long, and is sent again. -/
def promptSteps (duration : Nat) : List ReplyStep :=
  [.deliver promptDelivery, .lookup 0, .lock 0, .advance duration, .finish 0 (some [1]),
    .deliver promptDelivery, .lookup 1, .lock 1, .respond 1]

/-- Ten minutes of work, ten minutes of lifetime: the retry executes the prompt again. -/
theorem long_prompt_runs_twice :
    ∃ slot slot', (Machine.run (step 600) start (promptSteps 600)).heap[0]? = some slot ∧
      (Machine.run (step 600) start (promptSteps 600)).heap[1]? = some slot' ∧
        slot.commandId = slot'.commandId ∧ slot.executions = 1 ∧ slot'.executions = 1 ∧
          ¬ ∃ ended, slot.ended = some ended ∧ ended + 600 ≤ slot'.made := by
  refine ⟨_, _, rfl, rfl, rfl, rfl, rfl, ?_⟩
  rintro ⟨ended, hended, hpast⟩
  obtain rfl : 600 = ended := Option.some.inj hended
  exact absurd hpast (by decide)

/-- No slot of the table is past its expiry. -/
theorem steady_lookup
    {index : Nat}
    (h : ∀ slot ∈ s.heap, s.clock < slot.expiresAt) :
    s.Steady ttl (.lookup index) := by
  intro handled _ r slot _ hslot hexpired
  exact absurd (h slot (List.mem_of_getElem? hslot)) (by omega)

/-- After a minute the retry gets the bytes of the first reply. -/
theorem command_runs_once_prompt :
    ((Machine.run (step 600) start (promptSteps 60)).heap.all
      fun slot => slot.executions ≤ 1) = true :=
  List.all_eq_true.2 fun slot hslot => decide_eq_true <|
    (command_runs_once 600 (promptSteps 60)
      ⟨trivial, steady_lookup (by decide), trivial, trivial,
        fun _ hhandled => (by cases hhandled; exact ⟨rfl, rfl⟩), trivial,
        steady_lookup (by decide), trivial, trivial, trivial⟩).1 slot hslot

end ReplyState

end Remote
end FutureOs
