import FutureOs.Runtime.RunQueue

/-!
# Identity and lifecycle of the runs of a queue

Every accepted run is active, waits (queued or parked), or became terminal, and
it is in one of these once.  The request map and the run id set of the queue are
the identities of the runs that are active, waiting or among the remembered
acknowledgements; remembering is bounded, and evicting an acknowledgement forgets
that run only.

* `Registry`: the map and the set are the identities of a list of runs;
* `Lifecycle`: the invariant of a queue and of the events it has answered with;
* `queue_lifecycle`: what it says along every run of calls.
-/

namespace FutureOs
namespace Runtime

/-- What identifies a run: its request, its id and its sequence number. -/
structure RunIdent where
  clientRequestId : String
  runId : String
  runSequence : Nat
deriving DecidableEq

def ScheduledRunRequest.ident (request : ScheduledRunRequest) : RunIdent :=
  ⟨request.clientRequestId, request.runId, request.runSequence⟩

def TerminalRunAck.ident (ack : TerminalRunAck) : RunIdent :=
  ⟨ack.clientRequestId, ack.runId, ack.runSequence⟩

namespace InMemoryRunQueue

@[simp] theorem terminalAck_ident
    (request : ScheduledRunRequest)
    (terminalState reason : String) :
    (terminalAck request terminalState reason).ident = request.ident := rfl

/-! ## The registry -/

/-- The request map and the run id set are the identities of these runs. -/
structure Registry
    (known : List RunIdent)
    (requests : List (String × RequestIdentity))
    (runIds : List String) : Prop where
  clientRequestIds : (known.map RunIdent.clientRequestId).Nodup
  ids : (known.map RunIdent.runId).Nodup
  runIds_nodup : runIds.Nodup
  mem_runIds : ∀ id, id ∈ runIds ↔ id ∈ known.map RunIdent.runId
  registered : ∀ run ∈ known, ∃ digest,
    Fields.lookup run.clientRequestId requests =
      some ⟨digest, run.runId, run.runSequence⟩
  known_of_lookup : ∀ key identity, Fields.lookup key requests = some identity →
    ⟨key, identity.runId, identity.runSequence⟩ ∈ known

section Registry

variable {known known' : List RunIdent}
variable {requests : List (String × RequestIdentity)}
variable {runIds : List String}

theorem Registry.perm
    (h : Registry known requests runIds)
    (hperm : known.Perm known') :
    Registry known' requests runIds where
  clientRequestIds := (hperm.map _).nodup_iff.1 h.clientRequestIds
  ids := (hperm.map _).nodup_iff.1 h.ids
  runIds_nodup := h.runIds_nodup
  mem_runIds id := (h.mem_runIds id).trans (hperm.map _).mem_iff
  registered run hrun := h.registered run (hperm.mem_iff.2 hrun)
  known_of_lookup key identity hlookup :=
    hperm.mem_iff.1 (h.known_of_lookup key identity hlookup)

/-- Registering a run whose request and id are both new. -/
theorem Registry.register
    (h : Registry known requests runIds)
    (run : RunIdent)
    (digest : String)
    (hunknown : Fields.lookup run.clientRequestId requests = none)
    (hunused : run.runId ∉ runIds) :
    Registry (run :: known)
      (Fields.insert run.clientRequestId ⟨digest, run.runId, run.runSequence⟩
        requests)
      (runIds.insert run.runId) := by
  have hnewKey : run.clientRequestId ∉ known.map RunIdent.clientRequestId := by
    intro hmem
    obtain ⟨other, hother, hkey⟩ := List.mem_map.1 hmem
    obtain ⟨_, hlookup⟩ := h.registered other hother
    rw [hkey, hunknown] at hlookup
    simp at hlookup
  have hnewId : run.runId ∉ known.map RunIdent.runId :=
    fun hmem => hunused ((h.mem_runIds _).2 hmem)
  refine ⟨?_, ?_, ?_, ?_, ?_, ?_⟩
  · exact List.nodup_cons.2 ⟨hnewKey, h.clientRequestIds⟩
  · exact List.nodup_cons.2 ⟨hnewId, h.ids⟩
  · rw [List.insert_of_not_mem hunused]
    exact List.nodup_cons.2 ⟨hunused, h.runIds_nodup⟩
  · intro id
    rw [List.mem_insert_iff, h.mem_runIds, List.map_cons, List.mem_cons]
  · intro other hother
    rcases List.mem_cons.1 hother with rfl | hother
    · exact ⟨digest, by rw [Fields.lookup_insert, if_pos rfl]⟩
    · obtain ⟨d, hlookup⟩ := h.registered other hother
      refine ⟨d, ?_⟩
      rw [Fields.lookup_insert, if_neg, hlookup]
      intro heq
      exact hnewKey (heq ▸ List.mem_map_of_mem hother)
  · intro key identity hlookup
    rw [Fields.lookup_insert] at hlookup
    split at hlookup
    · rename_i hkey
      subst hkey
      obtain rfl := Option.some.inj hlookup
      exact List.mem_cons_self
    · exact List.mem_cons_of_mem _ (h.known_of_lookup key identity hlookup)

/-- Forgetting one run forgets that run only. -/
theorem Registry.forget
    {run : RunIdent}
    (h : Registry (run :: known) requests runIds) :
    Registry known (Fields.erase run.clientRequestId requests)
      (runIds.erase run.runId) := by
  obtain ⟨hkey, hkeys⟩ := List.nodup_cons.1 h.clientRequestIds
  obtain ⟨hid, hids⟩ := List.nodup_cons.1 h.ids
  refine ⟨hkeys, hids, h.runIds_nodup.erase _, ?_, ?_, ?_⟩
  · intro id
    rw [h.runIds_nodup.mem_erase_iff, h.mem_runIds, List.map_cons,
      List.mem_cons]
    constructor
    · rintro ⟨hne, heq | hmem⟩
      · exact absurd heq hne
      · exact hmem
    · intro hmem
      exact ⟨fun heq => hid (heq ▸ hmem), Or.inr hmem⟩
  · intro other hother
    obtain ⟨digest, hlookup⟩ :=
      h.registered other (List.mem_cons_of_mem _ hother)
    refine ⟨digest, ?_⟩
    rw [Fields.lookup_erase, if_neg, hlookup]
    intro heq
    exact hkey (heq ▸ List.mem_map_of_mem hother)
  · intro key identity hlookup
    rw [Fields.lookup_erase] at hlookup
    split at hlookup
    · simp at hlookup
    · rename_i hne
      rcases List.mem_cons.1 (h.known_of_lookup key identity hlookup) with
        heq | hmem
      · exact absurd (congrArg RunIdent.clientRequestId heq) hne
      · exact hmem

end Registry

/-- The registry of a queue, were these runs the ones not yet terminal. -/
def Registers (q : InMemoryRunQueue) (live : List RunIdent) : Prop :=
  Registry (live ++ q.terminalAcks.map TerminalRunAck.ident) q.requests q.runIds

/-- Evicting keeps the newest acknowledgements and the registry of the rest. -/
theorem evict_registry
    (q : InMemoryRunQueue)
    (live : List RunIdent)
    (acks : List TerminalRunAck)
    (h : Registry (live ++ acks.map TerminalRunAck.ident) q.requests
      q.runIds) :
    (q.evict acks).Registers live ∧
    (q.evict acks).terminalAcks =
      acks.drop (acks.length - q.limits.recentAckLimit) ∧
    (∀ key identity,
      Fields.lookup key (q.evict acks).requests = some identity →
      Fields.lookup key q.requests = some identity) ∧
    ∀ id ∈ (q.evict acks).runIds, id ∈ q.runIds := by
  induction acks generalizing q with
  | nil =>
      exact ⟨h, by simp [evict], fun _ _ hlookup => hlookup, fun _ hid => hid⟩
  | cons ack rest ih =>
      unfold evict
      split
      · rename_i hlimit
        have hforget : Registry (live ++ rest.map TerminalRunAck.ident)
            (Fields.erase ack.clientRequestId q.requests)
            (q.runIds.erase ack.runId) :=
          (h.perm List.perm_middle).forget
        obtain ⟨hregistry, hacks, hsub, hids⟩ := ih { q with
          requests := Fields.erase ack.clientRequestId q.requests
          runIds := q.runIds.erase ack.runId } hforget
        refine ⟨hregistry, ?_, ?_, fun id hid =>
          List.mem_of_mem_erase (hids id hid)⟩
        · rw [hacks]
          have hdrop : (ack :: rest).length - q.limits.recentAckLimit =
              (rest.length - q.limits.recentAckLimit) + 1 := by
            simp only [List.length_cons] at hlimit ⊢
            omega
          rw [hdrop, List.drop_succ_cons]
        · intro key identity hlookup
          have hmid := hsub key identity hlookup
          simp only [Fields.lookup_erase] at hmid
          split at hmid
          · simp at hmid
          · exact hmid
      · rename_i hlimit
        refine ⟨h, ?_, fun _ _ hlookup => hlookup, fun _ hid => hid⟩
        have hdrop : (ack :: rest).length - q.limits.recentAckLimit = 0 := by
          omega
        rw [hdrop, List.drop_zero]

/-- What remembering finished requests does to the registry. -/
structure Remembered
    (q q' : InMemoryRunQueue)
    (live : List RunIdent)
    (acks : List TerminalRunAck) : Prop where
  registers : q'.Registers live
  acks : q'.terminalAcks =
    (q.terminalAcks ++ acks).drop
      ((q.terminalAcks ++ acks).length - q.limits.recentAckLimit)
  lookup : ∀ key identity,
    Fields.lookup key q'.requests = some identity →
    Fields.lookup key q.requests = some identity
  runIds : ∀ id ∈ q'.runIds, id ∈ q.runIds

theorem remembered_terminal
    (q : InMemoryRunQueue)
    (live : List RunIdent)
    (request : ScheduledRunRequest)
    (terminalState reason : String)
    (h : q.Registers (request.ident :: live)) :
    Remembered q (q.rememberTerminal request terminalState reason) live
      [terminalAck request terminalState reason] := by
  have hregistry : Registry (live ++ (q.terminalAcks ++
      [terminalAck request terminalState reason]).map TerminalRunAck.ident)
      q.requests q.runIds := by
    refine Registry.perm h ?_
    simp only [List.map_append, List.map_cons, List.map_nil, terminalAck_ident]
    rw [← List.append_assoc, List.cons_append]
    exact (List.perm_append_singleton _ _).symm
  obtain ⟨hregisters, hacks, hlookup, hids⟩ :=
    q.evict_registry live _ hregistry
  exact ⟨hregisters, hacks, hlookup, hids⟩

/-- Keeping the last `n` twice is keeping the last `n` once. -/
theorem drop_append_drop
    {α : Type}
    (n : Nat)
    (l l' : List α) :
    (l.drop (l.length - n) ++ l').drop
        ((l.drop (l.length - n) ++ l').length - n) =
      (l ++ l').drop ((l ++ l').length - n) := by
  rcases Nat.le_total l.length n with hle | hle
  · rw [Nat.sub_eq_zero_of_le hle, List.drop_zero]
  · have hsplit : l ++ l' = l.take (l.length - n) ++
        (l.drop (l.length - n) ++ l') := by
      rw [← List.append_assoc, List.take_append_drop]
    have hkept : n ≤ (l.drop (l.length - n) ++ l').length := by
      rw [List.length_append, List.length_drop]
      omega
    generalize l.drop (l.length - n) ++ l' = kept at hsplit hkept
    rw [hsplit, List.length_append, Nat.add_sub_assoc hkept,
      List.drop_length_add_append]

theorem remembered_all
    (q : InMemoryRunQueue)
    (live : List RunIdent)
    (requests : List ScheduledRunRequest)
    (terminalState reason : String)
    (h : q.Registers (requests.map ScheduledRunRequest.ident ++ live))
    (hbound : q.terminalAcks.length ≤ q.limits.recentAckLimit) :
    Remembered q (q.rememberAll requests terminalState reason) live
      (requests.map fun request =>
        terminalAck request terminalState reason) := by
  induction requests generalizing q with
  | nil =>
      refine ⟨h, ?_, fun _ _ hlookup => hlookup, fun _ hid => hid⟩
      rw [List.map_nil, List.append_nil, Nat.sub_eq_zero_of_le hbound,
        List.drop_zero]
      rfl
  | cons request rest ih =>
      have hone := q.remembered_terminal
        (rest.map ScheduledRunRequest.ident ++ live) request terminalState
        reason h
      have hframe := q.rememberTerminal_frame request terminalState reason
      have hall := ih (q.rememberTerminal request terminalState reason)
        hone.registers (by
          rw [hone.acks, hframe.limits, List.length_drop]
          omega)
      refine ⟨hall.registers, ?_, fun key identity hlookup =>
        hone.lookup key identity (hall.lookup key identity hlookup),
        fun id hid => hone.runIds id (hall.runIds id hid)⟩
      show (InMemoryRunQueue.rememberAll _ rest _ _).terminalAcks = _
      rw [hall.acks, hone.acks, hframe.limits, drop_append_drop,
        List.append_assoc]
      rfl

/-! ## Where the runs are -/

def activeIdents (q : InMemoryRunQueue) : List RunIdent :=
  q.active.toList.map fun active => active.1.ident

/-- The runs that are active or wait. -/
def live (q : InMemoryRunQueue) : List RunIdent :=
  q.activeIdents ++ q.waiting.map ScheduledRunRequest.ident

/-- The runs the queue remembers. -/
def known (q : InMemoryRunQueue) : List RunIdent :=
  q.live ++ q.terminalAcks.map TerminalRunAck.ident

theorem SameQueue.live_eq
    {q q' : InMemoryRunQueue}
    (h : SameQueue q q') :
    q'.live = q.live := by
  simp only [live, activeIdents, waiting, h.active, h.queued, h.held]

/-- The accepted runs, each with the run id its client asked for. -/
def acceptedRuns (events : List Event) :
    List (Option String × ScheduledRunRequest) :=
  events.filterMap fun
    | .accepted requestedRunId request => some (requestedRunId, request)
    | _ => none

def startedRuns (events : List Event) : List ScheduledRunRequest :=
  events.filterMap fun
    | .started request => some request
    | _ => none

def terminals (events : List Event) : List TerminalRunAck :=
  events.filterMap fun
    | .terminal ack => some ack
    | _ => none

section Events

variable (events events' : List Event)
variable (requests : List ScheduledRunRequest)
variable (toAck : ScheduledRunRequest → TerminalRunAck)

@[simp] theorem acceptedRuns_append :
    acceptedRuns (events ++ events') =
      acceptedRuns events ++ acceptedRuns events' :=
  List.filterMap_append

@[simp] theorem startedRuns_append :
    startedRuns (events ++ events') =
      startedRuns events ++ startedRuns events' :=
  List.filterMap_append

@[simp] theorem terminals_append :
    terminals (events ++ events') = terminals events ++ terminals events' :=
  List.filterMap_append

@[simp] theorem acceptedRuns_terminals :
    acceptedRuns (requests.map fun request => .terminal (toAck request)) =
      [] := by
  induction requests with
  | nil => rfl
  | cons request rest ih => simp [acceptedRuns]

@[simp] theorem startedRuns_terminals :
    startedRuns (requests.map fun request => .terminal (toAck request)) =
      [] := by
  induction requests with
  | nil => rfl
  | cons request rest ih => simp [startedRuns]

@[simp] theorem terminals_terminals :
    terminals (requests.map fun request => .terminal (toAck request)) =
      requests.map toAck := by
  induction requests with
  | nil => rfl
  | cons request rest ih => simp [terminals]

end Events

/-- What a call does to the runs of a queue, whichever call it is. -/
structure Flow
    (env : QueueEnv)
    (q q' : InMemoryRunQueue)
    (events : List Event) : Prop where
  limits : q'.limits = q.limits
  next : q'.nextSequence = q.nextSequence + (acceptedRuns events).length
  conserved :
    (q.live ++ (acceptedRuns events).map (·.2.ident)).Perm
      (q'.live ++ (terminals events).map TerminalRunAck.ident)
  registers : q'.Registers q'.live
  acks : q'.terminalAcks =
    (q.terminalAcks ++ terminals events).drop
      ((q.terminalAcks ++ terminals events).length - q.limits.recentAckLimit)
  lookup : ∀ key identity,
    Fields.lookup key q'.requests = some identity →
    Fields.lookup key q.requests = some identity ∨
    ∃ accepted ∈ acceptedRuns events,
      accepted.2.clientRequestId = key ∧
      identity = ⟨accepted.2.requestDigest, accepted.2.runId,
        accepted.2.runSequence⟩
  accepted : acceptedRuns events = [] ∨
    ∃ requestedRunId request, q.Fresh env requestedRunId request ∧
      acceptedRuns events = [(requestedRunId, request)]
  started : startedRuns events = [] ∨
    ∃ request, startedRuns events = [request] ∧
      request.ident ∈ q.waiting.map ScheduledRunRequest.ident ∧
      request.ident ∈ q'.activeIdents
  active : ∀ run ∈ q.activeIdents,
    run ∈ q'.activeIdents ∨
    run ∈ (terminals events).map TerminalRunAck.ident

/-- A call that touches neither the registry nor the acknowledgements. -/
theorem Flow.quiet
    {env : QueueEnv}
    {q q' : InMemoryRunQueue}
    {events : List Event}
    (hregisters : q.Registers q.live)
    (hbound : q.terminalAcks.length ≤ q.limits.recentAckLimit)
    (hlimits : q'.limits = q.limits)
    (hnext : q'.nextSequence = q.nextSequence)
    (hrequests : q'.requests = q.requests)
    (hrunIds : q'.runIds = q.runIds)
    (hacks : q'.terminalAcks = q.terminalAcks)
    (hlive : q.live.Perm q'.live)
    (haccepted : acceptedRuns events = [])
    (hterminals : terminals events = [])
    (hstarted : startedRuns events = [] ∨
      ∃ request, startedRuns events = [request] ∧
        request.ident ∈ q.waiting.map ScheduledRunRequest.ident ∧
        request.ident ∈ q'.activeIdents)
    (hactive : ∀ run ∈ q.activeIdents, run ∈ q'.activeIdents) :
    Flow env q q' events where
  limits := hlimits
  next := by rw [haccepted, hnext]; rfl
  conserved := by simpa [haccepted, hterminals] using hlive
  registers := by
    unfold Registers at hregisters ⊢
    rw [hrequests, hrunIds, hacks]
    exact hregisters.perm (hlive.append_right _)
  acks := by
    rw [hterminals, List.append_nil, hacks, Nat.sub_eq_zero_of_le hbound,
      List.drop_zero]
  lookup key identity hlookup := by
    rw [hrequests] at hlookup
    exact Or.inl hlookup
  accepted := Or.inl haccepted
  started := hstarted
  active run hrun := Or.inl (hactive run hrun)

/-- A call that makes some runs terminal. -/
theorem Flow.settle
    {env : QueueEnv}
    {q p q' : InMemoryRunQueue}
    {events : List Event}
    (gone : List RunIdent)
    (hlimits : p.limits = q.limits)
    (hnext : p.nextSequence = q.nextSequence)
    (hrequests : p.requests = q.requests)
    (hacks : p.terminalAcks = q.terminalAcks)
    (hframe : SameQueue p q')
    (hremembered : Remembered p q' p.live (terminals events))
    (hgone : (terminals events).map TerminalRunAck.ident = gone)
    (hlive : q.live.Perm (gone ++ p.live))
    (haccepted : acceptedRuns events = [])
    (hstarted : startedRuns events = [])
    (hactive : ∀ run ∈ q.activeIdents,
      run ∈ p.activeIdents ∨ run ∈ gone) :
    Flow env q q' events where
  limits := hframe.limits.trans hlimits
  next := by rw [haccepted, hframe.nextSequence, hnext]; rfl
  conserved := by
    rw [haccepted, List.map_nil, List.append_nil, hframe.live_eq, hgone]
    exact hlive.trans List.perm_append_comm
  registers := by
    rw [hframe.live_eq]
    exact hremembered.registers
  acks := by
    rw [hremembered.acks, hacks, hlimits]
  lookup key identity hlookup := by
    rw [← hrequests]
    exact Or.inl (hremembered.lookup key identity hlookup)
  accepted := Or.inl haccepted
  started := Or.inl hstarted
  active run hrun := by
    rw [hgone, activeIdents, hframe.active]
    exact hactive run hrun

theorem live_enqueue
    (q : InMemoryRunQueue)
    (request : ScheduledRunRequest)
    (queuedBytes : Nat) :
    (request.ident :: q.live).Perm (q.enqueue request queuedBytes).live := by
  simp only [live, activeIdents, waiting, enqueue, List.append_assoc,
    List.map_append, List.map_cons, List.singleton_append]
  rw [← List.append_assoc, ← List.append_assoc]
  exact List.perm_middle.symm

theorem Registers.enqueue
    {q : InMemoryRunQueue}
    {request : ScheduledRunRequest}
    (h : q.Registers q.live)
    (hunknown : Fields.lookup request.clientRequestId q.requests = none)
    (hunused : request.runId ∉ q.runIds)
    (queuedBytes : Nat) :
    (q.enqueue request queuedBytes).Registers
      (q.enqueue request queuedBytes).live :=
  (Registry.register h request.ident request.requestDigest hunknown
    hunused).perm ((live_enqueue q request queuedBytes).append_right _)

theorem flow_accepted
    {env : QueueEnv}
    {q : InMemoryRunQueue}
    (hregisters : q.Registers q.live)
    (hbound : q.terminalAcks.length ≤ q.limits.recentAckLimit)
    {requestedRunId : Option String}
    {request : ScheduledRunRequest}
    (hfresh : q.Fresh env requestedRunId request)
    (queuedBytes : Nat) :
    Flow env q (q.enqueue request queuedBytes)
      [.accepted requestedRunId request] where
  limits := rfl
  next := rfl
  conserved := by
    simp only [acceptedRuns, terminals, List.filterMap_cons_none,
      List.filterMap_nil, List.map_nil, List.append_nil]
    exact (List.perm_append_singleton _ _).trans
      (live_enqueue q request queuedBytes)
  registers := hregisters.enqueue hfresh.unknown hfresh.unused queuedBytes
  acks := by
    show q.terminalAcks = _
    simp [terminals, Nat.sub_eq_zero_of_le hbound]
  lookup key identity hlookup := by
    simp only [enqueue, Fields.lookup_insert] at hlookup
    split at hlookup
    · rename_i hkey
      exact Or.inr ⟨(requestedRunId, request), by simp [acceptedRuns],
        hkey.symm, (Option.some.inj hlookup).symm⟩
    · exact Or.inl hlookup
  accepted := Or.inr ⟨requestedRunId, request, hfresh, rfl⟩
  started := Or.inl rfl
  active run hrun := Or.inl hrun

/-- A flow that settles runs, followed by one that accepts a run. -/
theorem Flow.accept
    {env : QueueEnv}
    {q p : InMemoryRunQueue}
    {events : List Event}
    (h : Flow env q p events)
    (haccepted : acceptedRuns events = [])
    (hstarted : startedRuns events = [])
    {requestedRunId : Option String}
    {request : ScheduledRunRequest}
    (hfresh : q.Fresh env requestedRunId request)
    (hrunIds : ∀ id ∈ p.runIds, id ∈ q.runIds)
    (queuedBytes : Nat) :
    Flow env q (p.enqueue request queuedBytes)
      (events ++ [.accepted requestedRunId request]) := by
  have hone : acceptedRuns (events ++ [.accepted requestedRunId request]) =
      [(requestedRunId, request)] := by
    rw [acceptedRuns_append, haccepted]
    rfl
  have hsame : terminals (events ++ [.accepted requestedRunId request]) =
      terminals events := by
    simp [terminals]
  have hunknown : Fields.lookup request.clientRequestId p.requests = none := by
    cases hlookup : Fields.lookup request.clientRequestId p.requests with
    | none =>
        rfl
    | some identity =>
        rcases h.lookup _ _ hlookup with hbefore | ⟨accepted, hmem, _⟩
        · rw [hfresh.unknown] at hbefore
          simp at hbefore
        · simp [haccepted] at hmem
  exact
    { limits := h.limits
      next := by
        have hnext := h.next
        rw [haccepted] at hnext
        rw [hone]
        simp only [enqueue, hnext, List.length_nil, List.length_singleton]
      conserved := by
        have hconserved := h.conserved
        rw [haccepted, List.map_nil, List.append_nil] at hconserved
        rw [hone, hsame]
        refine (List.perm_append_singleton _ _).trans ?_
        exact (hconserved.cons request.ident).trans
          ((live_enqueue p request queuedBytes).append_right _)
      registers := h.registers.enqueue hunknown
        (fun hid => hfresh.unused (hrunIds _ hid)) queuedBytes
      acks := by
        rw [hsame]
        exact h.acks
      lookup := by
        intro key identity hlookup
        simp only [enqueue, Fields.lookup_insert] at hlookup
        split at hlookup
        · rename_i hkey
          exact Or.inr ⟨(requestedRunId, request), by simp [hone],
            hkey.symm, (Option.some.inj hlookup).symm⟩
        · rcases h.lookup key identity hlookup with hbefore | ⟨a, hmem, _⟩
          · exact Or.inl hbefore
          · simp [haccepted] at hmem
      accepted := Or.inr ⟨requestedRunId, request, hfresh, hone⟩
      started := Or.inl (by rw [startedRuns_append, hstarted]; rfl)
      active := by
        rw [hsame]
        exact h.active }

section Flows

variable {env : QueueEnv}
variable {q : InMemoryRunQueue}

/-- Dropping some waiting prompts and remembering them. -/
theorem flow_rememberAll
    (hregisters : q.Registers q.live)
    (hbound : q.terminalAcks.length ≤ q.limits.recentAckLimit)
    (queued : List ScheduledRunRequest)
    (held : List HeldRun)
    (bytes : Nat)
    (gone : List ScheduledRunRequest)
    (hwaiting : q.waiting.Perm
      (gone ++ (queued ++ held.map HeldRun.request)))
    (terminalState reason : String) :
    let p := { q with queued, held, queuedBytes := bytes }
    Flow env q (p.rememberAll gone terminalState reason)
      (gone.map fun request =>
        .terminal (terminalAck request terminalState reason)) ∧
    ∀ id ∈ (p.rememberAll gone terminalState reason).runIds,
      id ∈ q.runIds := by
  intro p
  have hlive : q.live.Perm (gone.map ScheduledRunRequest.ident ++ p.live) := by
    have hmap := hwaiting.map ScheduledRunRequest.ident
    rw [List.map_append] at hmap
    refine (hmap.append_left q.activeIdents).trans ?_
    rw [← List.append_assoc]
    refine (List.perm_append_comm.append_right _).trans ?_
    rw [List.append_assoc]
    exact .refl _
  have hremembered := p.remembered_all p.live gone terminalState reason
    (Registry.perm hregisters (by
      rw [List.append_assoc]
      have hacks := hlive.append_right
        (q.terminalAcks.map TerminalRunAck.ident)
      rwa [List.append_assoc] at hacks)) hbound
  refine ⟨?_, hremembered.runIds⟩
  refine Flow.settle (p := p) (gone.map ScheduledRunRequest.ident) rfl rfl rfl
    rfl (p.rememberAll_frame gone terminalState reason) ?_ ?_ hlive
    (acceptedRuns_terminals _ _) (startedRuns_terminals _ _)
    (fun run hrun => Or.inl hrun)
  · rw [terminals_terminals]
    exact hremembered
  · rw [terminals_terminals, List.map_map]
    rfl

theorem flow_finished
    (hregisters : q.Registers q.live)
    {run : ScheduledRunRequest}
    {epoch : Nat}
    (hactive : q.active = some (run, epoch))
    (terminalState reason : String) :
    Flow env q (({ q with active := none }).rememberTerminal run terminalState
        reason)
      [.terminal (terminalAck run terminalState reason)] := by
  have hlive : q.live =
      run.ident :: ({ q with active := none } : InMemoryRunQueue).live := by
    simp [live, activeIdents, waiting, hactive]
  have hremembered := ({ q with active := none } :
    InMemoryRunQueue).remembered_terminal _ run terminalState reason
      (show Registry _ q.requests q.runIds from hlive ▸ hregisters)
  refine Flow.settle (p := { q with active := none }) [run.ident] rfl rfl rfl
    rfl (rememberTerminal_frame _ _ _ _) hremembered rfl
    (by rw [hlive]; exact .refl _) rfl rfl ?_
  intro other hother
  exact Or.inr (by simpa [activeIdents, hactive] using hother)

theorem flow_started
    (hregisters : q.Registers q.live)
    (hbound : q.terminalAcks.length ≤ q.limits.recentAckLimit)
    {epoch bytes : Nat}
    {request : ScheduledRunRequest}
    {rest : List ScheduledRunRequest}
    (hactive : q.active = none)
    (hqueued : q.queued = request :: rest) :
    Flow env q
      { q with
        active := some (request, epoch), queued := rest, queuedBytes := bytes }
      [.started request] := by
  refine Flow.quiet hregisters hbound rfl rfl rfl rfl rfl ?_ rfl rfl ?_ ?_
  · simp [live, activeIdents, waiting, hactive, hqueued]
  · exact Or.inr ⟨request, rfl, by simp [waiting, hqueued],
      by simp [activeIdents]⟩
  · simp [activeIdents, hactive]

/-- Moving prompts between the queue and the parked ones. -/
theorem flow_rearranged
    (hregisters : q.Registers q.live)
    (hbound : q.terminalAcks.length ≤ q.limits.recentAckLimit)
    (queued : List ScheduledRunRequest)
    (held : List HeldRun)
    (hwaiting : (q.waiting.map ScheduledRunRequest.ident).Perm
      ((queued ++ held.map HeldRun.request).map ScheduledRunRequest.ident)) :
    Flow env q { q with queued, held } [] :=
  Flow.quiet hregisters hbound rfl rfl rfl rfl rfl
    (hwaiting.append_left q.activeIdents) rfl rfl (Or.inl rfl)
    fun _ hrun => hrun

theorem flow_payloadReleased
    (hregisters : q.Registers q.live)
    (hbound : q.terminalAcks.length ≤ q.limits.recentAckLimit)
    (runId : String) :
    Flow env q (q.releaseActivePayload runId) [] := by
  have hidents : (q.releaseActivePayload runId).activeIdents =
      q.activeIdents := by
    unfold activeIdents releaseActivePayload
    cases q.active with
    | none =>
        rfl
    | some active =>
        by_cases hid : active.1.runId = runId <;>
          simp [hid, ScheduledRunRequest.ident]
  refine Flow.quiet hregisters hbound rfl rfl rfl rfl rfl ?_ rfl rfl
    (Or.inl rfl) (fun run hrun => by rwa [hidents])
  show (q.activeIdents ++ _).Perm
    ((q.releaseActivePayload runId).activeIdents ++ _)
  rw [hidents]
  exact .refl _

/-- Every call has a flow. -/
theorem flow_of_move
    {g g' : GlobalQueueBudget}
    {op : QueueOp}
    {q' : InMemoryRunQueue}
    {events : List Event}
    (hmove : Move env q g op q' g' events)
    (hregisters : q.Registers q.live)
    (hbound : q.terminalAcks.length ≤ q.limits.recentAckLimit) :
    Flow env q q' events := by
  cases hmove with
  | unchanged =>
      exact Flow.quiet hregisters hbound rfl rfl rfl rfl rfl (.refl _) rfl rfl
        (Or.inl rfl) fun _ hrun => hrun
  | accepted _ requestedRunId _ _ _ _ request _ hfresh =>
      exact flow_accepted hregisters hbound hfresh _
  | started epoch request rest hactive hqueued =>
      exact flow_started hregisters hbound hactive hqueued
  | folded front folded rest hqueued =>
      refine (flow_rememberAll hregisters hbound (front :: rest) q.held _ folded
        ?_ "terminal" "merged").1
      simp only [waiting, hqueued, List.cons_append, List.append_assoc]
      exact List.perm_middle.symm
  | superseded _ requestedRunId _ _ _ request _ hfresh =>
      obtain ⟨hflow, hrunIds⟩ := @flow_rememberAll env q hregisters hbound [] q.held
        0 q.queued (.refl _) "cancelled" "superseded"
      exact hflow.accept (acceptedRuns_terminals _ _)
        (startedRuns_terminals _ _) hfresh hrunIds _
  | finished run epoch hactive =>
      exact flow_finished hregisters hactive "terminal" "settled"
  | cancelled runId reason request queued held hperm =>
      exact (flow_rememberAll hregisters hbound queued held _ [request] hperm
        "cancelled" reason.asStr).1
  | cancelledAll reason cancelled hperm =>
      refine (flow_rememberAll hregisters hbound [] [] 0 cancelled ?_
        "cancelled" reason.asStr).1
      simpa using hperm.symm
  | parked boundary now queued held hperm =>
      exact flow_rearranged hregisters hbound queued held (hperm.symm.map _)
  | released runId acceptedAt run held hperm =>
      refine flow_rearranged hregisters hbound _ held ?_
      have hinsert := (insertBySequence_perm { run.request with acceptedAt }
        q.queued).map ScheduledRunRequest.ident
      have hheld := (hperm.map HeldRun.request).map ScheduledRunRequest.ident
      simp only [waiting, List.map_append]
      refine (hheld.append_left _).trans ?_
      refine List.Perm.trans ?_ (hinsert.symm.append_right _)
      exact List.perm_middle
  | payloadReleased runId =>
      exact flow_payloadReleased hregisters hbound runId

end Flows

/-! ## Order -/

/-- Queued and parked prompts each stand in run sequence order. -/
structure Ordered (q : InMemoryRunQueue) : Prop where
  queued : q.queued.Pairwise fun a b => a.runSequence < b.runSequence
  held : q.held.Pairwise fun a b =>
    a.request.runSequence < b.request.runSequence

theorem Ordered.of_sublist
    {q q' : InMemoryRunQueue}
    (h : q.Ordered)
    (hqueued : q'.queued.Sublist q.queued)
    (hheld : q'.held.Sublist q.held) :
    q'.Ordered :=
  ⟨h.queued.sublist hqueued, h.held.sublist hheld⟩

theorem SameQueue.ordered
    {q q' : InMemoryRunQueue}
    (hframe : SameQueue q q')
    (h : q.Ordered) :
    q'.Ordered :=
  ⟨hframe.queued ▸ h.queued, hframe.held ▸ h.held⟩

theorem Ordered.enqueue
    {q : InMemoryRunQueue}
    (h : q.Ordered)
    {request : ScheduledRunRequest}
    (hlast : ∀ other ∈ q.queued, other.runSequence < request.runSequence)
    (queuedBytes : Nat) :
    (q.enqueue request queuedBytes).Ordered := by
  refine ⟨?_, h.held⟩
  refine List.pairwise_append.2 ⟨h.queued, List.pairwise_singleton _ _, ?_⟩
  intro other hother last hmem
  rw [List.mem_singleton.1 hmem]
  exact hlast other hother

theorem insertBySequence_ordered
    {request : ScheduledRunRequest}
    {queued : List ScheduledRunRequest}
    (h : queued.Pairwise fun a b => a.runSequence < b.runSequence)
    (hne : ∀ other ∈ queued, other.runSequence ≠ request.runSequence) :
    (insertBySequence request queued).Pairwise
      fun a b => a.runSequence < b.runSequence := by
  induction queued with
  | nil =>
      exact List.pairwise_singleton _ _
  | cons head rest ih =>
      obtain ⟨hhead, hrest⟩ := List.pairwise_cons.1 h
      unfold insertBySequence
      split
      · rename_i hlt
        refine List.pairwise_cons.2 ⟨?_, h⟩
        intro other hother
        rcases List.mem_cons.1 hother with rfl | hother
        · exact hlt
        · exact Nat.lt_trans hlt (hhead other hother)
      · rename_i hnlt
        have hlt : head.runSequence < request.runSequence :=
          Nat.lt_of_le_of_ne (Nat.le_of_not_lt hnlt)
            (hne head List.mem_cons_self)
        refine List.pairwise_cons.2 ⟨?_, ih hrest fun other hother =>
          hne other (List.mem_cons_of_mem _ hother)⟩
        intro other hother
        rcases List.mem_cons.1
          ((insertBySequence_perm request rest).mem_iff.1 hother) with
          rfl | hother
        · exact hlt
        · exact hhead other hother

/-- No two waiting prompts share a sequence number, and all are handed out. -/
structure Sequenced (q : InMemoryRunQueue) : Prop where
  nodup : (q.waiting.map ScheduledRunRequest.runSequence).Nodup
  next : ∀ request ∈ q.waiting, request.runSequence < q.nextSequence

theorem Ordered.move
    {env : QueueEnv}
    {q q' : InMemoryRunQueue}
    {g g' : GlobalQueueBudget}
    {op : QueueOp}
    {events : List Event}
    (h : q.Ordered)
    (hsequenced : q.Sequenced)
    (hmove : Move env q g op q' g' events) :
    q'.Ordered := by
  cases hmove with
  | unchanged => exact h
  | accepted _ requestedRunId _ _ _ _ request _ hfresh =>
      refine h.enqueue ?_ _
      intro other hother
      rw [hfresh.next]
      exact hsequenced.next other (List.mem_append_left _ hother)
  | started epoch request rest hactive hqueued =>
      exact h.of_sublist (hqueued ▸ List.sublist_cons_self _ _)
        (List.Sublist.refl _)
  | folded front folded rest hqueued =>
      refine (rememberAll_frame _ _ _ _).ordered
        (h.of_sublist ?_ (List.Sublist.refl _))
      rw [hqueued]
      exact (List.sublist_append_right folded rest).cons_cons front
  | superseded _ requestedRunId _ _ _ request _ hfresh =>
      have hframe := rememberAll_frame
        { q with queued := [], queuedBytes := 0 } q.queued "cancelled"
        "superseded"
      have hempty : (({ q with queued := [], queuedBytes := 0 }).rememberAll
          q.queued "cancelled" "superseded").queued = [] := hframe.queued
      refine Ordered.enqueue ⟨by rw [hempty]; exact .nil, ?_⟩
        (by simp [hempty]) _
      rw [hframe.held]
      exact h.held
  | finished run epoch hactive =>
      exact (rememberTerminal_frame _ _ _ _).ordered ⟨h.queued, h.held⟩
  | cancelled runId reason request queued held hperm hqueued hheld =>
      exact (rememberTerminal_frame _ _ _ _).ordered
        (h.of_sublist hqueued hheld)
  | cancelledAll reason cancelled hperm =>
      exact (rememberAll_frame _ _ _ _).ordered
        (h.of_sublist (List.nil_sublist _) (List.nil_sublist _))
  | parked boundary now queued held hperm hqueued hheld =>
      refine ⟨h.queued.sublist hqueued, ?_⟩
      have hnodup := (hperm.map ScheduledRunRequest.runSequence).nodup_iff.2
        hsequenced.nodup
      rw [List.map_append, List.map_map] at hnodup
      have hne := List.pairwise_map.1 (List.nodup_append.1 hnodup).2.1
      exact (hheld.and hne).imp fun hab => Nat.lt_of_le_of_ne hab.1 hab.2
  | released runId acceptedAt run held hperm hheld =>
      refine ⟨insertBySequence_ordered h.queued ?_, h.held.sublist hheld⟩
      intro other hother heq
      have hnodup := hsequenced.nodup
      rw [waiting, List.map_append] at hnodup
      refine (List.nodup_append.1 hnodup).2.2 _ (List.mem_map_of_mem hother) _
        (List.mem_map_of_mem (List.mem_map_of_mem
          (hperm.mem_iff.2 List.mem_cons_self))) heq
  | payloadReleased runId =>
      exact ⟨h.queued, h.held⟩

/-! ## The invariant -/

/-- A queue and the events it has answered with. -/
structure Lifecycle
    (env : QueueEnv)
    (q : InMemoryRunQueue)
    (out : List Event) : Prop where
  registers : q.Registers q.live
  ordered : q.Ordered
  conserved : ((acceptedRuns out).map (·.2.ident)).Perm
    (q.live ++ (terminals out).map TerminalRunAck.ident)
  sequence : (acceptedRuns out).Pairwise fun a b =>
    a.2.runSequence < b.2.runSequence
  next : ∀ accepted ∈ acceptedRuns out,
    accepted.2.runSequence < q.nextSequence
  acks : q.terminalAcks = (terminals out).drop
    ((terminals out).length - q.limits.recentAckLimit)
  content : ∀ accepted ∈ acceptedRuns out,
    isBlank accepted.2.clientRequestId = false ∧
    accepted.2.requestDigest = requestDigest env accepted.1
      accepted.2.busyPolicy accepted.2.payload
  lookup : ∀ key identity, Fields.lookup key q.requests = some identity →
    ∃ accepted ∈ acceptedRuns out, accepted.2.clientRequestId = key ∧
      identity = ⟨accepted.2.requestDigest, accepted.2.runId,
        accepted.2.runSequence⟩
  startedOnce : ((startedRuns out).map ScheduledRunRequest.ident).Nodup
  started : ∀ request ∈ startedRuns out,
    request.ident ∈ q.activeIdents ∨
    request.ident ∈ (terminals out).map TerminalRunAck.ident

theorem lifecycle_new
    (env : QueueEnv)
    (limits : QueueLimits)
    (nextSequence : Nat) :
    Lifecycle env (new limits nextSequence) [] where
  registers := by
    refine ⟨.nil, .nil, .nil, ?_, ?_, ?_⟩ <;> simp [new, live, activeIdents, waiting]
  ordered := ⟨.nil, .nil⟩
  conserved := .nil
  sequence := .nil
  next := by simp [acceptedRuns]
  acks := by simp [new, terminals]
  content := by simp [acceptedRuns]
  lookup := by simp [new]
  startedOnce := .nil
  started := by simp [startedRuns]

section Lifecycle

variable {env : QueueEnv}
variable {q q' : InMemoryRunQueue}
variable {out events : List Event}

theorem Lifecycle.bound (h : Lifecycle env q out) :
    q.terminalAcks.length ≤ q.limits.recentAckLimit := by
  rw [h.acks, List.length_drop]
  omega

/-- Accepted runs are told apart by their sequence numbers. -/
theorem Lifecycle.sequences_nodup (h : Lifecycle env q out) :
    (((acceptedRuns out).map (·.2.ident)).map RunIdent.runSequence).Nodup := by
  rw [List.map_map]
  exact List.pairwise_map.2 (h.sequence.imp fun hlt => Nat.ne_of_lt hlt)

theorem Lifecycle.idents_nodup (h : Lifecycle env q out) :
    (q.live ++ (terminals out).map TerminalRunAck.ident).Nodup :=
  h.conserved.nodup_iff.1 h.sequences_nodup.of_map

theorem Lifecycle.sequenced (h : Lifecycle env q out) : q.Sequenced := by
  have hnodup := (h.conserved.map RunIdent.runSequence).nodup_iff.1
    h.sequences_nodup
  rw [List.map_append, live, List.map_append, List.map_map] at hnodup
  refine ⟨(List.nodup_append.1 (List.nodup_append.1 hnodup).1).2.1, ?_⟩
  intro request hrequest
  have hmem : request.ident ∈ (acceptedRuns out).map (·.2.ident) :=
    h.conserved.mem_iff.2 (List.mem_append_left _
      (List.mem_append_right _ (List.mem_map_of_mem hrequest)))
  obtain ⟨accepted, haccepted, heq⟩ := List.mem_map.1 hmem
  have hseq : accepted.2.runSequence = request.runSequence :=
    congrArg RunIdent.runSequence heq
  rw [← hseq]
  exact h.next accepted haccepted

/-- A run that waits was not started. -/
theorem Lifecycle.not_started_of_waiting
    (h : Lifecycle env q out)
    {run : RunIdent}
    (hwaiting : run ∈ q.waiting.map ScheduledRunRequest.ident) :
    run ∉ (startedRuns out).map ScheduledRunRequest.ident := by
  intro hstarted
  obtain ⟨request, hrequest, rfl⟩ := List.mem_map.1 hstarted
  obtain ⟨hlive, _, hterminal⟩ := List.nodup_append.1 h.idents_nodup
  rcases h.started request hrequest with hactive | hdone
  · exact (List.nodup_append.1 hlive).2.2 _ hactive _ hwaiting rfl
  · exact hterminal _ (List.mem_append_right _ hwaiting) _ hdone rfl

theorem Lifecycle.flow
    (h : Lifecycle env q out)
    (hflow : Flow env q q' events)
    (hordered : q'.Ordered) :
    Lifecycle env q' (out ++ events) where
  registers := hflow.registers
  ordered := hordered
  conserved := by
    rw [acceptedRuns_append, terminals_append, List.map_append, List.map_append]
    have hbefore := h.conserved.append_right
      ((acceptedRuns events).map (·.2.ident))
    have hafter := hflow.conserved.append_right
      ((terminals out).map TerminalRunAck.ident)
    refine hbefore.trans ?_
    rw [List.append_assoc]
    refine (List.perm_append_comm.append_left _).trans ?_
    rw [← List.append_assoc]
    refine hafter.trans ?_
    rw [List.append_assoc]
    exact List.perm_append_comm.append_left _
  sequence := by
    rw [acceptedRuns_append]
    refine List.pairwise_append.2 ⟨h.sequence, ?_, ?_⟩
    · rcases hflow.accepted with hnone | ⟨_, _, _, hone⟩
      · rw [hnone]
        exact .nil
      · rw [hone]
        exact List.pairwise_singleton _ _
    · intro before hbefore after hafter
      rcases hflow.accepted with hnone | ⟨_, request, hfresh, hone⟩
      · simp [hnone] at hafter
      · rw [hone, List.mem_singleton] at hafter
        subst hafter
        rw [hfresh.next]
        exact h.next before hbefore
  next := by
    intro accepted haccepted
    rw [acceptedRuns_append] at haccepted
    rw [hflow.next]
    rcases List.mem_append.1 haccepted with hbefore | hnew
    · exact Nat.lt_add_right _ (h.next accepted hbefore)
    · rcases hflow.accepted with hnone | ⟨_, request, hfresh, hone⟩
      · simp [hnone] at hnew
      · rw [hone, List.mem_singleton] at hnew
        subst hnew
        rw [hone, hfresh.next]
        exact Nat.lt_succ_self _
  acks := by
    rw [hflow.acks, hflow.limits, terminals_append, h.acks, drop_append_drop]
  content := by
    intro accepted haccepted
    rw [acceptedRuns_append] at haccepted
    rcases List.mem_append.1 haccepted with hbefore | hnew
    · exact h.content accepted hbefore
    · rcases hflow.accepted with hnone | ⟨_, request, hfresh, hone⟩
      · simp [hnone] at hnew
      · rw [hone, List.mem_singleton] at hnew
        subst hnew
        exact ⟨hfresh.named, hfresh.digest⟩
  lookup := by
    intro key identity hlookup
    rw [acceptedRuns_append]
    rcases hflow.lookup key identity hlookup with hbefore | ⟨a, hmem, heq⟩
    · obtain ⟨a, hmem, heq⟩ := h.lookup key identity hbefore
      exact ⟨a, List.mem_append_left _ hmem, heq⟩
    · exact ⟨a, List.mem_append_right _ hmem, heq⟩
  startedOnce := by
    rw [startedRuns_append, List.map_append]
    rcases hflow.started with hnone | ⟨request, hone, hwaiting, _⟩
    · rw [hnone, List.map_nil, List.append_nil]
      exact h.startedOnce
    · rw [hone, List.map_singleton]
      refine List.nodup_append.2 ⟨h.startedOnce, List.nodup_singleton _, ?_⟩
      intro run hrun other hother heq
      rw [List.mem_singleton] at hother
      exact h.not_started_of_waiting hwaiting (hother ▸ heq ▸ hrun)
  started := by
    intro request hrequest
    rw [startedRuns_append] at hrequest
    rw [terminals_append, List.map_append, List.mem_append]
    rcases List.mem_append.1 hrequest with hbefore | hnew
    · rcases h.started request hbefore with hactive | hdone
      · rcases hflow.active _ hactive with hstill | hsettled
        · exact Or.inl hstill
        · exact Or.inr (Or.inr hsettled)
      · exact Or.inr (Or.inl hdone)
    · rcases hflow.started with hnone | ⟨started, hone, _, hactive⟩
      · simp [hnone] at hnew
      · rw [hone, List.mem_singleton] at hnew
        subst hnew
        exact Or.inl hactive

/-! ## Submitting a known request again -/

theorem requestEnvelope_injective
    {requestedRunId requestedRunId' : Option String}
    {busyPolicy busyPolicy' : BusyPolicy}
    {payload payload' : Json}
    (h : requestEnvelope requestedRunId busyPolicy payload =
      requestEnvelope requestedRunId' busyPolicy' payload') :
    requestedRunId = requestedRunId' ∧ busyPolicy = busyPolicy' ∧
      payload = payload' := by
  simp only [requestEnvelope, Json.obj.injEq, List.cons.injEq, Prod.mk.injEq,
    true_and, and_true, Json.str.injEq] at h
  obtain ⟨hpolicy, hpayload, hrun⟩ := h
  refine ⟨?_, BusyPolicy.asStr_injective hpolicy, hpayload⟩
  cases requestedRunId <;> cases requestedRunId' <;> simp_all

/-- The identity a remembered run is registered under. -/
theorem Lifecycle.lookup_known
    (h : Lifecycle env q out)
    {accepted : Option String × ScheduledRunRequest}
    (haccepted : accepted ∈ acceptedRuns out)
    (hknown : accepted.2.ident ∈ q.known) :
    Fields.lookup accepted.2.clientRequestId q.requests =
      some ⟨requestDigest env accepted.1 accepted.2.busyPolicy
        accepted.2.payload, accepted.2.runId, accepted.2.runSequence⟩ := by
  obtain ⟨digest, hlookup⟩ := h.registers.registered _ hknown
  obtain ⟨other, hother, _, hidentity⟩ := h.lookup _ _ hlookup
  simp only [RequestIdentity.mk.injEq] at hidentity
  obtain ⟨hdigest, _, hsequence⟩ := hidentity
  have hnodup := h.sequences_nodup
  rw [List.map_map] at hnodup
  obtain rfl : accepted = other :=
    List.inj_on_of_nodup_map hnodup haccepted hother hsequence
  rw [← (h.content accepted haccepted).2, ← hdigest]
  exact hlookup

theorem existingAck_identity
    (q : InMemoryRunQueue)
    (identity : RequestIdentity) :
    (q.existingAck identity).runId = identity.runId ∧
    (q.existingAck identity).runSequence = some identity.runSequence := by
  unfold existingAck
  split <;> exact ⟨rfl, rfl⟩

end Lifecycle

/-- Two different values with one digest. -/
def Collide (env : QueueEnv) (v v' : Json) : Prop :=
  v ≠ v' ∧ env.sha256 v = env.sha256 v'

/-- What a known request must answer: the run it is, or a conflict. -/
structure Resubmission
    (env : QueueEnv)
    (q : InMemoryRunQueue)
    (accepted : Option String × ScheduledRunRequest)
    (g : GlobalQueueBudget)
    (requestedRunId : Option String)
    (busyPolicy : BusyPolicy)
    (payload : Json)
    (generatedId acceptedAt : String) : Prop where
  /-- The same content is acknowledged again. -/
  acceptSame :
    requestedRunId = accepted.1 → busyPolicy = accepted.2.busyPolicy →
    payload = accepted.2.payload →
    ∃ ack, q.accept env g accepted.2.clientRequestId requestedRunId busyPolicy
        payload generatedId acceptedAt = (.ok ack, q, g) ∧
      ack.acceptedState = .existing ∧
      ack.runId = accepted.2.runId ∧
      ack.runSequence = some accepted.2.runSequence
  supersedeSame :
    requestedRunId = accepted.1 →
    BusyPolicy.supersedeSession = accepted.2.busyPolicy →
    payload = accepted.2.payload →
    ∃ ack, q.supersede env g accepted.2.clientRequestId requestedRunId payload
        generatedId acceptedAt = (.ok (ack, [], none), q, g) ∧
      ack.acceptedState = .existing ∧
      ack.runId = accepted.2.runId ∧
      ack.runSequence = some accepted.2.runSequence
  /-- Another content is refused, unless its digest collides. -/
  acceptOther :
    ¬(requestedRunId = accepted.1 ∧ busyPolicy = accepted.2.busyPolicy ∧
      payload = accepted.2.payload) →
    ¬Collide env
      (requestEnvelope accepted.1 accepted.2.busyPolicy accepted.2.payload)
      (requestEnvelope requestedRunId busyPolicy payload) →
    q.accept env g accepted.2.clientRequestId requestedRunId busyPolicy payload
        generatedId acceptedAt =
      (.error (.duplicateRequestConflict accepted.2.clientRequestId), q, g)
  supersedeOther :
    ¬(requestedRunId = accepted.1 ∧
      BusyPolicy.supersedeSession = accepted.2.busyPolicy ∧
      payload = accepted.2.payload) →
    ¬Collide env
      (requestEnvelope accepted.1 accepted.2.busyPolicy accepted.2.payload)
      (requestEnvelope requestedRunId .supersedeSession payload) →
    q.supersede env g accepted.2.clientRequestId requestedRunId payload
        generatedId acceptedAt =
      (.error (.duplicateRequestConflict accepted.2.clientRequestId), q, g)

theorem digest_ne_of_not_collide
    {env : QueueEnv}
    {requestedRunId requestedRunId' : Option String}
    {busyPolicy busyPolicy' : BusyPolicy}
    {payload payload' : Json}
    (hother : ¬(requestedRunId' = requestedRunId ∧ busyPolicy' = busyPolicy ∧
      payload' = payload))
    (hcollide : ¬Collide env
      (requestEnvelope requestedRunId busyPolicy payload)
      (requestEnvelope requestedRunId' busyPolicy' payload')) :
    requestDigest env requestedRunId busyPolicy payload ≠
      requestDigest env requestedRunId' busyPolicy' payload' := by
  intro hdigest
  refine hcollide ⟨fun heq => hother ?_, hdigest⟩
  obtain ⟨hrun, hpolicy, hpayload⟩ := requestEnvelope_injective heq
  exact ⟨hrun.symm, hpolicy.symm, hpayload.symm⟩

theorem Lifecycle.resubmission
    {env : QueueEnv}
    {q : InMemoryRunQueue}
    {out : List Event}
    (h : Lifecycle env q out)
    {accepted : Option String × ScheduledRunRequest}
    (haccepted : accepted ∈ acceptedRuns out)
    (hknown : accepted.2.ident ∈ q.known)
    (g : GlobalQueueBudget)
    (requestedRunId : Option String)
    (busyPolicy : BusyPolicy)
    (payload : Json)
    (generatedId acceptedAt : String) :
    Resubmission env q accepted g requestedRunId busyPolicy payload generatedId
      acceptedAt := by
  have hlookup := h.lookup_known haccepted hknown
  have hnamed := (h.content accepted haccepted).1
  refine ⟨?_, ?_, ?_, ?_⟩
  · rintro rfl rfl rfl
    refine ⟨q.existingAck ⟨requestDigest env accepted.1 accepted.2.busyPolicy
        accepted.2.payload, accepted.2.runId, accepted.2.runSequence⟩, ?_,
      q.existingAck_acceptedState _, q.existingAck_identity _⟩
    simp [accept, checkAccept, hnamed, hlookup]
  · rintro rfl hpolicy rfl
    refine ⟨q.existingAck ⟨requestDigest env accepted.1 accepted.2.busyPolicy
        accepted.2.payload, accepted.2.runId, accepted.2.runSequence⟩, ?_,
      q.existingAck_acceptedState _, q.existingAck_identity _⟩
    simp [supersede, checkSupersede, hnamed, hlookup, hpolicy]
  · intro hother hcollide
    have hdigest := digest_ne_of_not_collide hother hcollide
    simp [accept, checkAccept, hnamed, hlookup, hdigest]
  · intro hother hcollide
    have hdigest := digest_ne_of_not_collide hother hcollide
    simp [supersede, checkSupersede, hnamed, hlookup, hdigest]

/-! ## Runs of calls -/

/-- A call of this queue, and the budget as other sessions left it. -/
structure LocalOp where
  op : QueueOp
  budget : GlobalQueueBudget
deriving DecidableEq

def stepLocal (env : QueueEnv) (q : InMemoryRunQueue) (o : LocalOp) :
    InMemoryRunQueue :=
  (q.step env o.budget o.op).1

def emitLocal (env : QueueEnv) (q : InMemoryRunQueue) (o : LocalOp) :
    List Event :=
  q.emit env o.budget o.op

theorem lifecycle_step
    (env : QueueEnv)
    (q : InMemoryRunQueue)
    (out : List Event)
    (o : LocalOp)
    (h : Lifecycle env q out) :
    Lifecycle env (q.stepLocal env o) (out ++ q.emitLocal env o) := by
  have hmove := move_step env q o.budget o.op
  exact h.flow (flow_of_move hmove h.registers h.bound)
    (h.ordered.move h.sequenced hmove)

theorem limits_step
    (env : QueueEnv)
    (q : InMemoryRunQueue)
    (o : LocalOp) :
    (q.stepLocal env o).limits = q.limits := by
  obtain ⟨op, g⟩ := o
  have hmove := move_step env q g op
  unfold stepLocal
  generalize (q.step env g op).1 = q' at hmove ⊢
  generalize (q.step env g op).2 = g' at hmove
  generalize q.emit env g op = events at hmove
  cases hmove with
  | folded => exact (rememberAll_frame _ _ _ _).limits
  | superseded => exact (rememberAll_frame _ _ _ _).limits
  | finished => exact (rememberTerminal_frame _ _ _ _).limits
  | cancelled => exact (rememberTerminal_frame _ _ _ _).limits
  | cancelledAll => exact (rememberAll_frame _ _ _ _).limits
  | _ => rfl

/--
Request identity and lifecycle of the runs of a queue, along every run of its
calls and whatever other sessions do to the budget.
-/
theorem queue_lifecycle
    (env : QueueEnv)
    (limits : QueueLimits)
    (nextSequence : Nat)
    (ops : List LocalOp) :
    let q := Machine.run (stepLocal env) (new limits nextSequence) ops
    let out := Machine.trace (stepLocal env) (emitLocal env)
      (new limits nextSequence) ops
    -- each accepted run is in one place, once
    (((acceptedRuns out).map (·.2.ident)).Nodup ∧
      ((acceptedRuns out).map (·.2.ident)).Perm
        (q.activeIdents ++ q.queued.map ScheduledRunRequest.ident ++
          q.held.map (·.request.ident) ++
          (terminals out).map TerminalRunAck.ident) ∧
      q.terminalAcks = (terminals out).drop
        ((terminals out).length - limits.recentAckLimit)) ∧
    -- the registry is that of the runs that are not evicted
    ((∀ key, (Fields.lookup key q.requests).isSome = true ↔
        key ∈ q.known.map RunIdent.clientRequestId) ∧
      (q.known.map RunIdent.clientRequestId).Nodup ∧
      (∀ id, id ∈ q.runIds ↔ id ∈ q.known.map RunIdent.runId) ∧
      (q.known.map RunIdent.runId).Nodup ∧
      q.runIds.Nodup) ∧
    (q.queued.Pairwise fun a b => a.runSequence < b.runSequence) ∧
    (q.held.Pairwise fun a b =>
      a.request.runSequence < b.request.runSequence) ∧
    ((startedRuns out).map ScheduledRunRequest.ident).Nodup ∧
    ((terminals out).map TerminalRunAck.ident).Nodup ∧
    ∀ accepted ∈ acceptedRuns out, accepted.2.ident ∈ q.known →
      ∀ g requestedRunId busyPolicy payload generatedId acceptedAt,
        Resubmission env q accepted g requestedRunId busyPolicy payload
          generatedId acceptedAt := by
  intro q out
  have h : Lifecycle env q out :=
    Machine.run_trace_invariant (lifecycle_step env)
      (lifecycle_new env limits nextSequence) ops
  have hlimits : q.limits = limits :=
    Machine.run_invariant (I := fun q => q.limits = limits)
      (fun q o hq => (limits_step env q o).trans hq) rfl ops
  refine ⟨⟨h.sequences_nodup.of_map, ?_, hlimits ▸ h.acks⟩, ⟨?_, ?_, ?_, ?_, ?_⟩,
    h.ordered.queued, h.ordered.held, h.startedOnce,
    (List.nodup_append.1 h.idents_nodup).2.1, ?_⟩
  · have hconserved := h.conserved
    simp only [live, waiting, List.map_append, List.map_map,
      List.append_assoc] at hconserved ⊢
    exact hconserved
  · intro key
    constructor
    · intro hsome
      obtain ⟨identity, hlookup⟩ := Option.isSome_iff_exists.1 hsome
      exact List.mem_map.2 ⟨_, h.registers.known_of_lookup key identity hlookup,
        rfl⟩
    · intro hmem
      obtain ⟨run, hrun, rfl⟩ := List.mem_map.1 hmem
      obtain ⟨_, hlookup⟩ := h.registers.registered run hrun
      rw [hlookup]
      rfl
  · exact h.registers.clientRequestIds
  · exact h.registers.mem_runIds
  · exact h.registers.ids
  · exact h.registers.runIds_nodup
  · intro accepted haccepted hknown
    exact h.resubmission haccepted hknown

/-- The digests of the run below. -/
def resubmitEnv : QueueEnv where
  sha256 v :=
    if v = requestEnvelope (some "a") .enqueueIfBusy
        (.obj [("prompt", .str "one")]) then
      "48b367036ba9824940b3f0e32683a5656d6c0e4cf0c20d92a8e9867116a80601"
    else if v = requestEnvelope (some "a") .enqueueIfBusy
        (.obj [("prompt", .str "two")]) then
      "242d47db5a0d56f1c81e15fc5ddc805f0077b312726f5ab71cf6af7b13a6bb5c"
    else
      ""
  parseRfc3339 _ := none

/-- A running request is submitted again, with another prompt. -/
theorem queue_lifecycle_resubmitted :
    let limits : QueueLimits := ⟨"s", 128, 1000, 1000, 256, 600⟩
    let g := GlobalQueueBudget.new 10 1000
    let q := Machine.run (stepLocal resubmitEnv) (new limits 1)
      [⟨.accept "r1" (some "a") .enqueueIfBusy (.obj [("prompt", .str "one")])
          "" "2024-01-01T00:00:00+00:00", g⟩, ⟨.startNext 1, g⟩]
    q.accept resubmitEnv g "r1" (some "a") .enqueueIfBusy
        (.obj [("prompt", .str "two")]) "" "2024-01-01T00:01:00+00:00" =
      (.error (.duplicateRequestConflict "r1"), q, g) := by
  intro limits g q
  obtain ⟨_, _, _, _, _, _, hagain⟩ := queue_lifecycle resubmitEnv limits 1
    [⟨.accept "r1" (some "a") .enqueueIfBusy (.obj [("prompt", .str "one")])
        "" "2024-01-01T00:00:00+00:00", g⟩, ⟨.startNext 1, g⟩]
  have hone := hagain
    (some "a", ⟨"s", "a", 1, "r1",
      "48b367036ba9824940b3f0e32683a5656d6c0e4cf0c20d92a8e9867116a80601",
      .enqueueIfBusy, .obj [("prompt", .str "one")],
      "2024-01-01T00:00:00+00:00", 16⟩) (by decide) (by decide) g (some "a")
    .enqueueIfBusy (.obj [("prompt", .str "two")]) ""
    "2024-01-01T00:01:00+00:00"
  exact hone.acceptOther (by decide) fun hcollide =>
    absurd hcollide.2 (by decide)

end InMemoryRunQueue

end Runtime
end FutureOs
