import FutureOs.Threads.ContentLane

/-!
# Order and loss in the content event lane

Delivered, held by the pump and queued, the events stand in the order of their enqueue calls
(`Inv`), since the pump is the only one and nothing is delivered past it.  An event that
is none of these was followed by a `recover` call, or the lane was disposed.
-/

namespace FutureOs
namespace ContentLane

/-! ## What is where -/

/-- The event a pump holds. -/
def Pump.held : Pump → List Numbered
  | .parsing held _ _ | .reading held _ _ | .delivering held _ _ => [held]
  | _ => []

/-- The event a pump holds and may still deliver. -/
def Pump.live (version : Nat) : Pump → List Numbered
  | .parsing held captured _ | .reading held captured _ | .delivering held captured _ =>
      if captured = version then [held] else []
  | _ => []

def Lane.held (s : Lane) : List Numbered :=
  s.pumps.flatMap Pump.held

def Lane.live (s : Lane) : List Numbered :=
  s.pumps.flatMap (Pump.live s.version)

def Lane.waiting (s : Lane) : List Numbered :=
  s.queue.map (·.1)

/-- Delivered, held, waiting: the order in which events pass the lane. -/
def Lane.sequence (s : Lane) : List Numbered :=
  s.delivered ++ s.held ++ s.waiting

/-- The numbers of the events that were delivered or may still be. -/
def Lane.kept (s : Lane) : List Nat :=
  (s.delivered ++ s.live ++ s.waiting).map (·.number)

/-- The same call, with another payload at most. -/
def Numbered.SameWire (x y : Numbered) : Prop :=
  x.number = y.number ∧ x.event.type = y.event.type ∧ x.event.data = y.event.data

/-- The event is the one of its call. -/
def Lane.Knows (s : Lane) (x : Numbered) : Prop :=
  ∃ event, s.enqueued[x.number]? = some event ∧ x.SameWire ⟨x.number, event⟩

/-- A call of `recover` followed the enqueue call, or the lane was disposed. -/
def Lane.Settled (s : Lane) (number : Nat) : Prop :=
  (∃ n ∈ s.recovered, number < n) ∨ s.disposed = true

structure Inv (s : Lane) : Prop where
  /-- At most one pump. -/
  pumps : s.pumps.length = if s.running then 1 else 0
  ordered : (s.sequence.map (·.number)).Pairwise (· < ·)
  known : ∀ x ∈ s.sequence, s.Knows x
  /-- A queue without a pump is empty. -/
  idle : s.running = false → s.queue = []
  closed : s.disposed = true → s.queue = []
  covered : ∀ number < s.enqueued.length, number ∈ s.kept ∨ s.Settled number
  bytes : s.bytes = (s.queue.map (·.2)).sum

section Basic

variable {s s' : Lane}

@[simp] theorem held_loop (count : Nat) : (Pump.loop count).held = [] := rfl

@[simp] theorem held_leaving : Pump.leaving.held = [] := rfl

@[simp] theorem live_loop (version count : Nat) : (Pump.loop count).live version = [] := rfl

theorem inv_new : Inv Lane.new where
  pumps := rfl
  ordered := List.Pairwise.nil
  known := fun _ hx => absurd hx List.not_mem_nil
  idle := fun _ => rfl
  closed := fun h => absurd h (by decide)
  covered := fun _ h => absurd h (Nat.not_lt_zero _)
  bytes := rfl

/-- The pump of a running lane; there is no other. -/
theorem Inv.pumps_cases (h : Inv s) :
    s.running = false ∧ s.pumps = [] ∨ ∃ pump, s.running = true ∧ s.pumps = [pump] := by
  have hlength := h.pumps
  cases hrunning : s.running with
  | false =>
      rw [hrunning] at hlength
      exact .inl ⟨rfl, List.length_eq_zero_iff.1 hlength⟩
  | true =>
      rw [hrunning] at hlength
      obtain ⟨pump, hpump⟩ := List.length_eq_one_iff.1 hlength
      exact .inr ⟨pump, rfl, hpump⟩

theorem Lane.Knows.lt
    {x : Numbered}
    (h : s.Knows x) :
    x.number < s.enqueued.length := by
  obtain ⟨event, hevent, -⟩ := h
  exact (List.getElem?_eq_some_iff.1 hevent).1

/-- What is known stays known when more is enqueued. -/
theorem Lane.Knows.mono
    {x y : Numbered}
    (hy : s.Knows y)
    (hxy : x.SameWire y)
    (henqueued : s.enqueued <+: s'.enqueued) :
    s'.Knows x := by
  obtain ⟨event, hevent, -, htype, hdata⟩ := hy
  obtain ⟨hnumber, htype', hdata'⟩ := hxy
  refine ⟨event, ?_, rfl, htype'.trans htype, hdata'.trans hdata⟩
  rw [hnumber]
  obtain ⟨more, hmore⟩ := henqueued
  have hlt := (List.getElem?_eq_some_iff.1 hevent).1
  rw [← hmore, List.getElem?_append_left hlt]
  exact hevent

/-- The invariant of a lane whose sequence lost events, or changed payloads, at most. -/
theorem Inv.shrink
    (h : Inv s)
    (hpumps : s'.pumps.length = if s'.running then 1 else 0)
    (hnumbers : (s'.sequence.map (·.number)).Sublist (s.sequence.map (·.number)))
    (hwire : ∀ x ∈ s'.sequence, ∃ y ∈ s.sequence, x.SameWire y)
    (henqueued : s.enqueued <+: s'.enqueued)
    (hidle : s'.running = false → s'.queue = [])
    (hclosed : s'.disposed = true → s'.queue = [])
    (hcovered : ∀ number < s'.enqueued.length, number ∈ s'.kept ∨ s'.Settled number)
    (hbytes : s'.bytes = (s'.queue.map (·.2)).sum) :
    Inv s' where
  pumps := hpumps
  ordered := h.ordered.sublist hnumbers
  known := by
    intro x hx
    obtain ⟨y, hy, hxy⟩ := hwire x hx
    exact (h.known y hy).mono hxy henqueued
  idle := hidle
  closed := hclosed
  covered := hcovered
  bytes := hbytes

end Basic

/-! ## Failing and disposing -/

section Fail

variable {s : Lane}

/-- After `fail` every call so far is settled. -/
theorem settled_fail
    {number : Nat}
    (h : number < s.enqueued.length) :
    s.fail.Settled number := by
  cases hdisposed : s.disposed with
  | true =>
      exact .inr hdisposed
  | false =>
      left
      refine ⟨s.enqueued.length, ?_, h⟩
      have hvalid : s.valid = true := by
        rw [Lane.valid, hdisposed]
        rfl
      simp only [Lane.fail, hvalid, if_true]
      exact List.mem_append_right _ List.mem_cons_self

theorem sequence_fail (s : Lane) : s.fail.sequence = s.delivered ++ s.held := by
  simp [Lane.sequence, Lane.held, Lane.waiting, Lane.fail]

theorem sequence_dispose (s : Lane) : s.dispose.sequence = s.delivered ++ s.held := by
  simp [Lane.sequence, Lane.held, Lane.waiting, Lane.dispose]

theorem sublist_sequence (s : Lane) : (s.delivered ++ s.held).Sublist s.sequence :=
  List.sublist_append_left _ _

theorem inv_dispose (h : Inv s) : Inv s.dispose := by
  refine h.shrink h.pumps ?_ ?_ List.prefix_rfl (fun _ => rfl) (fun _ => rfl) ?_ rfl
  · rw [sequence_dispose]
    exact (sublist_sequence s).map _
  · intro x hx
    rw [sequence_dispose] at hx
    exact ⟨x, (sublist_sequence s).subset hx, rfl, rfl, rfl⟩
  · intro number _
    exact .inr (.inr rfl)

/-- The lane fails: inside an enqueue call, or where its pump awaited something. -/
theorem inv_fail
    (h : Inv s)
    {s' : Lane}
    (hpumps : s'.pumps = s.pumps)
    (hrunning : s'.running = s.running)
    (hdelivered : s'.delivered = s.delivered)
    (henqueued : s.enqueued <+: s'.enqueued) :
    Inv s'.fail := by
  have hsequence : s'.fail.sequence = s.delivered ++ s.held := by
    rw [sequence_fail, Lane.held, hpumps, hdelivered]
    rfl
  have hcount : s'.pumps.length = if s'.running then 1 else 0 := by
    rw [hpumps, hrunning]
    exact h.pumps
  refine h.shrink hcount ?_ ?_ henqueued (fun _ => rfl) (fun _ => rfl) ?_ rfl
  · rw [hsequence]
    exact (sublist_sequence s).map _
  · intro x hx
    rw [hsequence] at hx
    exact ⟨x, (sublist_sequence s).subset hx, rfl, rfl, rfl⟩
  · intro number hnumber
    exact .inr (settled_fail hnumber)

end Fail

/-! ## Enqueueing -/

section Enqueue

variable {s s' : Lane}

/-- One more event, at the end. -/
theorem Inv.concat
    (h : Inv s)
    (event : LaneEvent)
    (hpumps : s'.pumps.length = if s'.running then 1 else 0)
    (hsequence : s'.sequence = s.sequence ++ [⟨s.enqueued.length, event⟩])
    (henqueued : s'.enqueued = s.enqueued ++ [event])
    (hidle : s'.running = false → s'.queue = [])
    (hclosed : s'.disposed = true → s'.queue = [])
    (hkept : s'.kept = s.kept ++ [s.enqueued.length])
    (hsettled : ∀ number, s.Settled number → s'.Settled number)
    (hbytes : s'.bytes = (s'.queue.map (·.2)).sum) :
    Inv s' where
  pumps := hpumps
  ordered := by
    rw [hsequence, List.map_append, List.pairwise_append]
    refine ⟨h.ordered, List.pairwise_singleton _ _, ?_⟩
    intro number hnumber last hlast
    obtain ⟨x, hx, rfl⟩ := List.mem_map.1 hnumber
    rw [List.map_singleton, List.mem_singleton] at hlast
    rw [hlast]
    exact (h.known x hx).lt
  known := by
    intro x hx
    rw [hsequence] at hx
    rcases List.mem_append.1 hx with hx | hx
    · refine (h.known x hx).mono ⟨rfl, rfl, rfl⟩ ?_
      rw [henqueued]
      exact List.prefix_append _ _
    · rw [List.mem_singleton.1 hx]
      exact ⟨event, by simp [henqueued], rfl, rfl, rfl⟩
  idle := hidle
  closed := hclosed
  covered := by
    intro number hnumber
    rw [henqueued, List.length_append, List.length_singleton] at hnumber
    rw [hkept]
    rcases Nat.lt_succ_iff_lt_or_eq.1 hnumber with hlt | rfl
    · rcases h.covered number hlt with hold | hold
      · exact .inl (List.mem_append_left _ hold)
      · exact .inr (hsettled number hold)
    · exact .inl (List.mem_append_right _ List.mem_cons_self)
  bytes := hbytes

theorem inv_enqueue
    (h : Inv s)
    (maxQueuedBytes : Nat)
    (event : LaneEvent) :
    Inv (s.enqueue maxQueuedBytes event) := by
  unfold Lane.enqueue
  dsimp only
  by_cases hdisposed : s.disposed = true
  · rw [if_pos (by simp [Lane.valid, hdisposed])]
    refine h.shrink h.pumps (List.Sublist.refl _) (fun x hx => ⟨x, hx, rfl, rfl, rfl⟩)
      (List.prefix_append _ _) h.idle h.closed ?_ h.bytes
    intro number _
    exact .inr (.inr hdisposed)
  · have hopen : s.disposed = false := by
      simpa using hdisposed
    rw [if_neg (by simp [Lane.valid, hopen])]
    by_cases hfast : (!s.running && s.queue.isEmpty && event.inline) = true
    · -- Nothing is before the event, so it may be delivered at once.
      rw [if_pos hfast]
      simp only [Bool.and_eq_true, Bool.not_eq_true', List.isEmpty_iff] at hfast
      obtain ⟨⟨hrunning, hqueue⟩, -⟩ := hfast
      have hpumps : s.pumps = [] := by
        rcases h.pumps_cases with hno | ⟨pump, hyes, -⟩
        · exact hno.2
        · rw [hrunning] at hyes
          cases hyes
      refine h.concat event h.pumps ?_ rfl (fun _ => hqueue) h.closed ?_
        (fun _ hsettled => hsettled) h.bytes
      · simp [Lane.sequence, Lane.held, Lane.waiting, Lane.note, hpumps, hqueue]
      · simp [Lane.kept, Lane.live, Lane.waiting, Lane.note, hpumps, hqueue]
    · rw [if_neg hfast]
      split
      · exact inv_fail h rfl rfl rfl (List.prefix_append _ _)
      · unfold Lane.startPump
        by_cases hrunning : s.running = true
        · rw [if_pos (by simp [Lane.note, hrunning])]
          refine h.concat event h.pumps ?_ rfl ?_ ?_ ?_ (fun _ hsettled => hsettled) ?_
          · simp [Lane.sequence, Lane.held, Lane.waiting, Lane.note]
          · exact fun hidle => absurd hrunning (by simpa [Lane.note] using hidle)
          · exact fun hclosed => absurd hclosed hdisposed
          · simp [Lane.kept, Lane.live, Lane.waiting, Lane.note]
          · simp [h.bytes]
        · have hstopped : s.running = false := by
            simpa using hrunning
          have hpumps : s.pumps = [] := by
            rcases h.pumps_cases with hno | ⟨pump, hyes, -⟩
            · exact hno.2
            · exact absurd hyes hrunning
          rw [if_neg (by simp [Lane.note, Lane.valid, hstopped, hopen])]
          refine h.concat event ?_ ?_ rfl ?_ ?_ ?_ (fun _ hsettled => hsettled) ?_
          · simp [Lane.note, hpumps]
          · simp [Lane.sequence, Lane.held, Lane.waiting, Lane.note, hpumps]
          · exact fun hidle => absurd hidle (by simp)
          · exact fun hclosed => absurd hclosed hdisposed
          · simp [Lane.kept, Lane.live, Lane.waiting, Lane.note, hpumps]
          · simp [h.bytes]

end Enqueue

/-! ## The pump -/

section Resume

variable {s : Lane}
variable {pump : Pump}

/-- The pump goes on with the event it holds, or without it. -/
theorem inv_goTo
    (h : Inv s)
    (hpumps : s.pumps = [pump])
    {next : Pump}
    (hnumbers : (next.held.map (·.number)).Sublist (pump.held.map (·.number)))
    (hwire : ∀ x ∈ next.held, ∃ y ∈ pump.held, x.SameWire y)
    (hlive : ∀ x ∈ pump.live s.version,
      x.number ∈ (next.live s.version).map (·.number) ∨ s.Settled x.number) :
    Inv (s.goTo 0 next) := by
  have hnext : (s.goTo 0 next).pumps = [next] := by
    simp [Lane.goTo, hpumps]
  have hheld : s.held = pump.held := by
    simp [Lane.held, hpumps]
  have hheld' : (s.goTo 0 next).held = next.held := by
    simp [Lane.held, hnext]
  have hlive' : (s.goTo 0 next).live = next.live s.version := by
    simp [Lane.live, hnext]
    rfl
  have hcount : (s.goTo 0 next).pumps.length = if s.running then 1 else 0 := by
    rw [hnext, ← h.pumps, hpumps]
    rfl
  refine h.shrink hcount ?_ ?_ List.prefix_rfl h.idle h.closed ?_ h.bytes
  · simp only [Lane.sequence, hheld, hheld', List.map_append]
    exact (List.Sublist.append (List.Sublist.refl _) hnumbers).append (List.Sublist.refl _)
  · intro x hx
    simp only [Lane.sequence, hheld', List.mem_append] at hx
    rcases hx with (hx | hx) | hx
    · exact ⟨x, List.mem_append_left _ (List.mem_append_left _ hx), rfl, rfl, rfl⟩
    · obtain ⟨y, hy, hxy⟩ := hwire x hx
      exact ⟨y, by simp [Lane.sequence, hheld, hy], hxy⟩
    · exact ⟨x, List.mem_append_right _ hx, rfl, rfl, rfl⟩
  · intro number hnumber
    rcases h.covered number hnumber with hkept | hsettled
    · simp only [Lane.kept, hlive', List.map_append, List.mem_append] at hkept ⊢
      have hold : s.live = pump.live s.version := by
        simp [Lane.live, hpumps]
      rw [hold] at hkept
      rcases hkept with (hkept | hkept) | hkept
      · exact .inl (.inl (.inl hkept))
      · obtain ⟨x, hx, rfl⟩ := List.mem_map.1 hkept
        rcases hlive x hx with hstill | hsettled
        · exact .inl (.inl (.inr hstill))
        · exact .inr hsettled
      · exact .inl (.inr hkept)
    · exact .inr hsettled

/-- The pump goes on without an event. -/
theorem inv_release
    (h : Inv s)
    (hpumps : s.pumps = [pump])
    {next : Pump}
    (hnext : next.held = [])
    (hlive : ∀ x ∈ pump.live s.version, s.Settled x.number) :
    Inv (s.goTo 0 next) := by
  refine inv_goTo h hpumps ?_ ?_ fun x hx => .inr (hlive x hx)
  · rw [hnext]
    exact List.nil_sublist _
  · rw [hnext]
    exact fun x hx => absurd hx List.not_mem_nil

/-- What is no longer current is settled, if it can no longer be told by its version. -/
theorem live_of_not_current
    {held : Numbered}
    {captured count : Nat}
    (hstale : s.isCurrent captured = false)
    {x : Numbered}
    (hx : x ∈ (Pump.reading held captured count).live s.version) :
    s.Settled x.number := by
  simp only [Pump.live] at hx
  split at hx
  · rename_i hversion
    simp only [Lane.isCurrent, Lane.valid, hversion, decide_true, Bool.and_true,
      Bool.not_eq_false'] at hstale
    exact .inr hstale
  · simp at hx

theorem inv_throw
    (h : Inv s)
    (hpumps : s.pumps = [pump]) :
    Inv (s.throw 0) := by
  have hnext : (s.throw 0).pumps = [.leaving] := by
    simp [Lane.throw, Lane.goTo, Lane.fail, hpumps]
  have hsequence : (s.throw 0).sequence = s.delivered := by
    rw [Lane.sequence, Lane.held, hnext]
    simp [Lane.waiting, Lane.throw, Lane.goTo, Lane.fail]
  have hcount : (s.throw 0).pumps.length = if s.running then 1 else 0 := by
    rw [hnext, ← h.pumps, hpumps]
    rfl
  have hsublist : s.delivered.Sublist s.sequence := by
    rw [Lane.sequence, List.append_assoc]
    exact List.sublist_append_left _ _
  refine h.shrink hcount ?_ ?_ List.prefix_rfl (fun _ => rfl) (fun _ => rfl) ?_ rfl
  · rw [hsequence]
    exact hsublist.map _
  · intro x hx
    rw [hsequence] at hx
    exact ⟨x, hsublist.subset hx, rfl, rfl, rfl⟩
  · intro number hnumber
    exact .inr (settled_fail hnumber)

/-- The next event of the queue goes to the pump. -/
theorem inv_takeNext
    (h : Inv s)
    {count : Nat}
    (hpumps : s.pumps = [.loop count]) :
    Inv (s.takeNext 0 count) := by
  have hleave : Inv (s.goTo 0 .leaving) :=
    inv_release h hpumps rfl fun x hx => absurd hx List.not_mem_nil
  unfold Lane.takeNext
  split
  · exact hleave
  · rename_i next size rest hqueue
    split
    · exact hleave
    · -- Whatever the pump does with it, it holds the event now, read at this version.
      rename_i hvalid
      generalize hpump : (if next.event.inline then
        Pump.delivering next s.version count else Pump.parsing next s.version count) = p
      have hheld : p.held = [next] := by
        rw [← hpump]
        split <;> rfl
      have hlive : p.live s.version = [next] := by
        rw [← hpump]
        split <;> simp [Pump.live]
      refine h.shrink ?_ ?_ ?_ List.prefix_rfl ?_ ?_ ?_ ?_
      · have hcount := h.pumps
        rw [hpumps] at hcount
        simpa [Lane.goTo, hpumps] using hcount
      · simp [Lane.sequence, Lane.held, Lane.waiting, Lane.goTo, hpumps, hheld, hqueue]
      · intro x hx
        refine ⟨x, ?_, rfl, rfl, rfl⟩
        simpa [Lane.sequence, Lane.held, Lane.waiting, Lane.goTo, hpumps, hheld, hqueue] using hx
      · intro hrunning
        have hempty := h.idle hrunning
        rw [hqueue] at hempty
        cases hempty
      · intro hdisposed
        have hempty := h.closed hdisposed
        rw [hqueue] at hempty
        cases hempty
      · intro number hnumber
        rcases h.covered number hnumber with hkept | hsettled
        · left
          simpa [Lane.kept, Lane.live, Lane.waiting, Lane.goTo, hpumps, hlive, hqueue] using hkept
        · exact .inr hsettled
      · have hbytes := h.bytes
        rw [hqueue] at hbytes
        simp only [List.map_cons, List.sum_cons] at hbytes
        simp only [Lane.goTo]
        omega

/-- The event that is held is delivered, with nothing before it. -/
theorem inv_deliver
    (h : Inv s)
    {held : Numbered}
    {captured count : Nat}
    (hpumps : s.pumps = [.delivering held captured count]) :
    Inv (s.deliver 0 held captured count) := by
  unfold Lane.deliver
  split
  · rename_i hcurrent
    have hversion : captured = s.version := by
      simp only [Lane.isCurrent, Bool.and_eq_true, decide_eq_true_eq] at hcurrent
      exact hcurrent.2
    have hsequence : ({ s with delivered := s.delivered ++ [held] }.goTo 0
        (.counting count)).sequence = s.sequence := by
      simp [Lane.sequence, Lane.held, Lane.waiting, Lane.goTo, hpumps, Pump.held]
    have hkept : ({ s with delivered := s.delivered ++ [held] }.goTo 0
        (.counting count)).kept = s.kept := by
      simp [Lane.kept, Lane.live, Lane.waiting, Lane.goTo, hpumps, Pump.live, hversion]
    refine h.shrink ?_ ?_ ?_ List.prefix_rfl h.idle h.closed ?_ h.bytes
    · have hcount := h.pumps
      rw [hpumps] at hcount
      simpa [Lane.goTo, hpumps] using hcount
    · rw [hsequence]
    · rw [hsequence]
      exact fun x hx => ⟨x, hx, rfl, rfl, rfl⟩
    · rw [hkept]
      exact h.covered
  · rename_i hstale
    refine inv_release h hpumps rfl fun x hx => ?_
    have hreading : x ∈ (Pump.reading held captured count).live s.version := hx
    exact live_of_not_current (by simpa using hstale) hreading

theorem leave_eq
    (hpumps : s.pumps = [.leaving]) :
    s.leave 0 =
      if !s.queue.isEmpty && s.valid then
        { s with running := true, pumps := [.loop 0] }
      else
        { s with running := false, pumps := [] } := by
  obtain ⟨queue, bytes, running, disposed, version, pumps, enqueued, delivered, recovered⟩ := s
  dsimp only at hpumps
  subst hpumps
  cases disposed <;> cases queue <;> rfl

/-- The pump ends, or the next one starts, if events came in while it failed. -/
theorem inv_leave
    (h : Inv s)
    (hpumps : s.pumps = [.leaving]) :
    Inv (s.leave 0) := by
  have hkept : s.kept = (s.delivered ++ s.waiting).map (·.number) := by
    simp [Lane.kept, Lane.live, hpumps, Pump.live]
  have hsequence : s.sequence = s.delivered ++ s.waiting := by
    simp [Lane.sequence, Lane.held, hpumps]
  rw [leave_eq hpumps]
  split
  · refine h.shrink rfl ?_ ?_ List.prefix_rfl nofun h.closed ?_ h.bytes
    · rw [hsequence]
      simp [Lane.sequence, Lane.held, Lane.waiting]
    · intro x hx
      refine ⟨x, ?_, rfl, rfl, rfl⟩
      rw [hsequence]
      simpa [Lane.sequence, Lane.held, Lane.waiting] using hx
    · intro number hnumber
      have hcovered := h.covered number hnumber
      rw [hkept] at hcovered
      refine hcovered.imp (fun hstill => ?_) id
      simpa [Lane.kept, Lane.live, Lane.waiting] using hstill
  · rename_i hempty
    have hqueue : s.queue = [] := by
      cases hdisposed : s.disposed with
      | true =>
          exact h.closed hdisposed
      | false =>
          simpa [Lane.valid, hdisposed] using hempty
    refine h.shrink rfl ?_ ?_ List.prefix_rfl (fun _ => hqueue) h.closed ?_ h.bytes
    · rw [hsequence]
      simp [Lane.sequence, Lane.held, Lane.waiting]
    · intro x hx
      refine ⟨x, ?_, rfl, rfl, rfl⟩
      rw [hsequence]
      simpa [Lane.sequence, Lane.held, Lane.waiting] using hx
    · intro number hnumber
      have hcovered := h.covered number hnumber
      rw [hkept] at hcovered
      refine hcovered.imp (fun hstill => ?_) id
      simpa [Lane.kept, Lane.live, Lane.waiting] using hstill

theorem inv_resume
    (h : Inv s)
    (i : Nat)
    (result : Option Json) :
    Inv (s.resume i result) := by
  rcases h.pumps_cases with ⟨-, hpumps⟩ | ⟨pump, -, hpumps⟩
  · simp only [Lane.resume, hpumps, List.getElem?_nil]
    exact h
  · cases i with
    | succ i =>
        simp only [Lane.resume, hpumps, List.getElem?_cons_succ, List.getElem?_nil]
        exact h
    | zero =>
        simp only [Lane.resume, hpumps, List.getElem?_cons_zero]
        cases pump with
        | loop count =>
            exact inv_takeNext h hpumps
        | parsing held captured count =>
            cases result with
            | none =>
                exact inv_throw h hpumps
            | some value =>
                exact inv_goTo h hpumps (List.Sublist.refl _)
                  (fun x hx => ⟨x, hx, rfl, rfl, rfl⟩) fun x hx => .inl (List.mem_map_of_mem hx)
        | reading held captured count =>
            dsimp only
            split
            · rename_i hstale
              refine inv_release h hpumps rfl fun x hx => ?_
              exact live_of_not_current (by simpa using hstale) hx
            · cases result with
              | none =>
                  exact inv_throw h hpumps
              | some hydrated =>
                  refine inv_goTo h hpumps (List.Sublist.refl _) ?_ ?_
                  · intro x hx
                    rw [Pump.held, List.mem_singleton] at hx
                    rw [hx]
                    exact ⟨held, List.mem_cons_self, rfl, rfl, rfl⟩
                  · intro x hx
                    left
                    simp only [Pump.live] at hx ⊢
                    split at hx
                    · rename_i hversion
                      rw [List.mem_singleton.1 hx, if_pos hversion]
                      exact List.mem_cons_self
                    · simp at hx
        | delivering held captured count =>
            exact inv_deliver h hpumps
        | counting count =>
            dsimp only
            split
            · exact inv_release h hpumps rfl fun x hx => absurd hx List.not_mem_nil
            · exact inv_release h hpumps rfl fun x hx => absurd hx List.not_mem_nil
        | paused =>
            exact inv_release h hpumps rfl fun x hx => absurd hx List.not_mem_nil
        | leaving =>
            exact inv_leave h hpumps

end Resume

/-! ## Coming to rest -/

section Rest

/-- How many steps the pump takes at most until the next round of its loop. -/
def Pump.rank (more : Bool) : Pump → Nat
  | .parsing _ _ _ => 9
  | .reading _ _ _ => 8
  | .delivering _ _ _ => 7
  | .counting _ => 6
  | .paused => 5
  | .loop _ => 4
  | .leaving => if more then 5 else 1

/-- How many steps the lane takes at most, once what it awaits has ended each time. -/
def Lane.toFinish (s : Lane) : Nat :=
  match s.pumps with
  | [] => 0
  | pump :: _ => 10 * s.queue.length + pump.rank (!s.queue.isEmpty && s.valid)

variable {s : Lane}
variable {pump : Pump}

theorem toFinish_goTo
    (hpumps : s.pumps = [pump])
    (next : Pump) :
    (s.goTo 0 next).toFinish =
      10 * s.queue.length + next.rank (!s.queue.isEmpty && s.valid) := by
  have hnext : (s.goTo 0 next).pumps = [next] := by
    simp [Lane.goTo, hpumps]
  unfold Lane.toFinish
  rw [hnext]
  rfl

theorem toFinish_eq
    (hpumps : s.pumps = [pump]) :
    s.toFinish = 10 * s.queue.length + pump.rank (!s.queue.isEmpty && s.valid) := by
  unfold Lane.toFinish
  rw [hpumps]

theorem toFinish_throw
    (hpumps : s.pumps = [pump]) :
    (s.throw 0).toFinish = 1 := by
  have hfail : s.fail.pumps = [pump] := hpumps
  rw [Lane.throw, toFinish_goTo hfail]
  rfl

theorem toFinish_takeNext
    {count : Nat}
    (hpumps : s.pumps = [.loop count]) :
    (s.takeNext 0 count).toFinish <
      10 * s.queue.length + (Pump.loop count).rank (!s.queue.isEmpty && s.valid) := by
  unfold Lane.takeNext
  split
  · rename_i hqueue
    rw [toFinish_goTo hpumps, hqueue]
    simp [Pump.rank]
  · rename_i next size rest hqueue
    split
    · rename_i hinvalid
      rw [toFinish_goTo hpumps]
      simp only [Bool.not_eq_true'] at hinvalid
      simp [Pump.rank, hinvalid]
    · have hpumps' : { s with queue := rest, bytes := s.bytes - size }.pumps =
          [.loop count] := hpumps
      rw [toFinish_goTo hpumps', hqueue]
      have hrank : Pump.rank (!rest.isEmpty && s.valid) (if next.event.inline then
          Pump.delivering next s.version count else Pump.parsing next s.version count) ≤ 9 := by
        split <;> simp [Pump.rank]
      rw [List.length_cons]
      calc 10 * rest.length + _ ≤ 10 * rest.length + 9 := Nat.add_le_add_left hrank _
        _ < 10 * (rest.length + 1) + 4 := by omega

/-- Each step of the pump brings the lane nearer to its rest. -/
theorem toFinish_resume
    (hpumps : s.pumps = [pump])
    (result : Option Json) :
    (s.resume 0 result).toFinish < s.toFinish := by
  rw [toFinish_eq hpumps]
  simp only [Lane.resume, hpumps, List.getElem?_cons_zero]
  cases pump with
  | loop count =>
      exact toFinish_takeNext hpumps
  | parsing held captured count =>
      cases result with
      | none =>
          rw [toFinish_throw hpumps]
          simp only [Pump.rank]
          omega
      | some value =>
          rw [toFinish_goTo hpumps]
          simp [Pump.rank]
  | reading held captured count =>
      dsimp only
      split
      · rw [toFinish_goTo hpumps]
        simp [Pump.rank]
      · cases result with
        | none =>
            rw [toFinish_throw hpumps]
            simp only [Pump.rank]
            omega
        | some hydrated =>
            rw [toFinish_goTo hpumps]
            simp [Pump.rank]
  | delivering held captured count =>
      dsimp only
      unfold Lane.deliver
      split
      · have hpumps' : { s with delivered := s.delivered ++ [held] }.pumps =
            [.delivering held captured count] := hpumps
        rw [toFinish_goTo hpumps']
        simp [Pump.rank]
      · rw [toFinish_goTo hpumps]
        simp [Pump.rank]
  | counting count =>
      dsimp only
      split
      · rw [toFinish_goTo hpumps]
        simp [Pump.rank]
      · rw [toFinish_goTo hpumps]
        simp [Pump.rank]
  | paused =>
      rw [toFinish_goTo hpumps]
      simp [Pump.rank]
  | leaving =>
      dsimp only
      rw [leave_eq hpumps]
      split
      · rename_i hmore
        simp [Lane.toFinish, Pump.rank, hmore]
      · simp only [Lane.toFinish, Pump.rank]
        split <;> omega

/-- What is awaited ends each time, one way or the other, and the lane comes to rest. -/
theorem pumps_finish
    (maxQueuedBytes : Nat)
    (h : Inv s)
    {results : List (Option Json)}
    (hlength : s.toFinish ≤ results.length) :
    (Machine.run (Lane.step maxQueuedBytes) s (results.map (.resume 0 ·))).pumps = [] := by
  induction results generalizing s with
  | nil =>
      rcases h.pumps_cases with ⟨-, hpumps⟩ | ⟨pump, -, hpumps⟩
      · exact hpumps
      · rw [toFinish_eq hpumps] at hlength
        cases pump <;> simp [Pump.rank] at hlength
        split at hlength <;> omega
  | cons result results ih =>
      rw [List.map_cons, Machine.run_cons]
      have hnext : Inv (s.resume 0 result) := inv_resume h 0 result
      apply ih hnext
      rcases h.pumps_cases with ⟨-, hpumps⟩ | ⟨pump, -, hpumps⟩
      · have hsame : s.resume 0 result = s := by
          simp [Lane.resume, hpumps]
        change (s.resume 0 result).toFinish ≤ _
        rw [hsame, Lane.toFinish, hpumps]
        exact Nat.zero_le _
      · have hdecrease := toFinish_resume hpumps result
        rw [List.length_cons] at hlength
        change (s.resume 0 result).toFinish ≤ _
        omega

end Rest

section Order

variable (maxQueuedBytes : Nat)

theorem inv_step
    {s : Lane}
    (h : Inv s)
    (action : Action) :
    Inv (s.step maxQueuedBytes action) := by
  cases action with
  | enqueue event =>
      exact inv_enqueue h maxQueuedBytes event
  | dispose =>
      exact inv_dispose h
  | resume i result =>
      exact inv_resume h i result

theorem inv_run (actions : List Action) :
    Inv (Machine.run (Lane.step maxQueuedBytes) Lane.new actions) := by
  have hstep : ∀ s action, Inv s → Inv (Lane.step maxQueuedBytes s action) :=
    fun _ action h => inv_step maxQueuedBytes h action
  exact Machine.run_invariant hstep inv_new actions

/-- Without a pump an event was delivered, or `recover` was called after it, or all is over. -/
theorem delivered_of_idle
    {s : Lane}
    (h : Inv s)
    (hidle : s.pumps = [])
    {number : Nat}
    (hnumber : number < s.enqueued.length) :
    number ∈ s.delivered.map (·.number) ∨ s.Settled number := by
  have hrunning : s.running = false := by
    have hcount := h.pumps
    rw [hidle] at hcount
    cases hrunning : s.running with
    | false =>
        rfl
    | true =>
        rw [hrunning] at hcount
        cases hcount
  have hcovered := h.covered number hnumber
  simpa [Lane.kept, Lane.live, Lane.waiting, hidle, h.idle hrunning] using hcovered

/--
Whatever is enqueued, ends or fails, and whenever: the events delivered stand in the order of
their enqueue calls, each at most once; there is one pump at most; and once what the pump
awaits has ended, every event was delivered, or `recover` was called at or after its enqueue
call, or the lane was disposed.
-/
theorem lane_keeps_order (actions : List Action) :
    let s := Machine.run (Lane.step maxQueuedBytes) Lane.new actions
    (s.delivered.map (·.number)).Pairwise (· < ·) ∧
      (∀ x ∈ s.delivered, s.Knows x) ∧
      s.pumps.length ≤ 1 ∧
      (s.pumps = [] → ∀ number < s.enqueued.length,
        number ∈ s.delivered.map (·.number) ∨ s.Settled number) ∧
      ∀ results : List (Option Json), s.toFinish ≤ results.length →
        (Machine.run (Lane.step maxQueuedBytes) s (results.map (.resume 0 ·))).pumps = [] := by
  intro s
  have h : Inv s := inv_run maxQueuedBytes actions
  have hdelivered : s.delivered.Sublist s.sequence := by
    rw [Lane.sequence, List.append_assoc]
    exact List.sublist_append_left _ _
  refine ⟨h.ordered.sublist (hdelivered.map _), ?_, ?_, ?_, ?_⟩
  · exact fun x hx => h.known x (hdelivered.subset hx)
  · rw [h.pumps]
    split <;> omega
  · exact fun hidle number hnumber => delivered_of_idle h hidle hnumber
  · exact fun results hlength => pumps_finish maxQueuedBytes h hlength

/-- An event that is read before it is delivered holds up the one behind it. -/
example :
    let read : LaneEvent := ⟨"user_message", "\"content_refs\"", none⟩
    let inline : LaneEvent := ⟨"text_chunk", "later", none⟩
    let s := Machine.run (Lane.step (8 * 1024 * 1024)) Lane.new
      ([.enqueue read, .resume 0 none, .enqueue inline] ++
        List.replicate 12 (.resume 0 (some .null)))
    s.delivered.map (·.number) = [0, 1] ∧ s.pumps = [] := by
  decide +kernel

end Order

end ContentLane
end FutureOs
