import FutureOs.Lib.Json
import FutureOs.Lib.Machine
import Mathlib.Logic.Function.Basic

/-!
# The reply slots of a pairing

`handle_command_singleflight` of `commands.rs`: deliveries of one pairing, on any of its
command loops, share a table from command ids to slots.  The first delivery of an id makes a
slot and holds its mutex across the command; the others wait for the mutex and answer with
the bytes that were captured.  A slot is left at two times: a lookup replaces one that is
past its `expires_at` and not in flight, and a timer that starts when the command ends
removes it.

Deliveries, slots and timers are lists; a slot is known by its place, which stands for the
pointer of the `Arc`.  Beside a slot stand three marks that the code does not have: when it
was made, how often its command was executed, and when that ended last.  Access is never
revoked here, and a timer may also never run.
-/

namespace FutureOs
namespace Remote

/-- One message of the command subject. -/
structure Delivery where
  commandId : String
  cmdType : String
  /-- The payload, parsed. -/
  request : Json
  /-- The message has a reply subject. -/
  hasReply : Bool

/-- `CachedReply`, behind its `Arc`. -/
structure CachedReply where
  request : Json
  response : Option Bytes
  /-- The mutex of the response is held. -/
  locked : Bool
  expiresAt : Nat
  commandId : String
  made : Nat
  executions : Nat
  ended : Option Nat

/-- A held mutex or an unfilled one: the command is still executing. -/
def CachedReply.inFlight (slot : CachedReply) : Bool :=
  slot.locked || slot.response.isNone

/-- Where the handling of a delivery is. -/
inductive Handling
  | received
  /-- Handled outside of the slots. -/
  | direct
  | refused
  | waiting (slot : Nat)
  | executing (slot : Nat)
  | replaying (slot : Nat)
  | executed (slot : Nat)
  | replayed (slot : Nat) (reply : Bytes)

/-- A delivery, its handling, and when its id was looked up: the time, and how many slots
there were then. -/
structure Handled where
  delivery : Delivery
  handling : Handling
  lookedUp : Option (Nat × Nat)

/-- The timer of a slot whose command has ended. -/
structure Retirement where
  commandId : String
  slot : Nat
  due : Nat

structure ReplyState where
  clock : Nat
  /-- The table. -/
  slots : String → Option Nat
  heap : List CachedReply
  handled : List Handled
  timers : List Retirement

inductive ReplyStep
  | advance (by' : Nat)
  | deliver (delivery : Delivery)
  | lookup (index : Nat)
  | lock (index : Nat)
  /-- The handler returns, having captured a reply or not. -/
  | finish (index : Nat) (reply : Option Bytes)
  | respond (index : Nat)
  | retire (index : Nat)

namespace ReplyState

def start : ReplyState where
  clock := 0
  slots := fun _ => none
  heap := []
  handled := []
  timers := []

/-- The slot a lookup may join: not expired, or still in flight. -/
def joins (s : ReplyState) (commandId : String) : Option Nat :=
  (s.slots commandId).filter fun r =>
    (s.heap[r]?).any fun slot => s.clock < slot.expiresAt || slot.inFlight

def setHandling (s : ReplyState) (index : Nat) (h : Handled) (handling : Handling) :
    ReplyState :=
  { s with handled := s.handled.set index { h with handling := handling } }

/-- The slot of the delivery is found or made, and its request compared. -/
def lookup (ttl : Nat) (s : ReplyState) (index : Nat) (h : Handled) : ReplyState :=
  if h.delivery.cmdType = "get_read_chunk" ∨ h.delivery.commandId = "" then
    s.setHandling index h .direct
  else
    match s.joins h.delivery.commandId with
    | some r =>
        let same := (s.heap[r]?).any fun slot => slot.request == h.delivery.request
        s.setHandling index { h with lookedUp := some (s.clock, s.heap.length) }
          (if same then .waiting r else .refused)
    | none =>
        let slot : CachedReply :=
          { request := h.delivery.request
            response := none
            locked := false
            expiresAt := s.clock + ttl
            commandId := h.delivery.commandId
            made := s.clock
            executions := 0
            ended := none }
        { s.setHandling index { h with lookedUp := some (s.clock, s.heap.length + 1) }
            (.waiting s.heap.length) with
          slots := Function.update s.slots h.delivery.commandId (some s.heap.length)
          heap := s.heap ++ [slot] }

/-- The mutex is taken: the reply is there, or the command is executed under it. -/
def lock (s : ReplyState) (index : Nat) (h : Handled) (r : Nat) (slot : CachedReply) :
    ReplyState :=
  match slot.response with
  | some _ =>
      { s.setHandling index h (.replaying r) with
        heap := s.heap.set r { slot with locked := true } }
  | none =>
      { s.setHandling index h (.executing r) with
        heap := s.heap.set r { slot with locked := true, executions := slot.executions + 1 } }

/-- The command ends: what it captured is cached, and its timer starts. -/
def finish (ttl : Nat) (s : ReplyState) (index : Nat) (h : Handled) (r : Nat)
    (slot : CachedReply) (reply : Option Bytes) : ReplyState :=
  { s.setHandling index h (.executed r) with
    heap := s.heap.set r
      { slot with
        -- Without a reply subject nothing is captured.
        response := if h.delivery.hasReply then reply else none
        locked := false
        ended := some s.clock }
    timers := s.timers ++ [⟨h.delivery.commandId, r, s.clock + ttl⟩] }

def respond (s : ReplyState) (index : Nat) (h : Handled) (r : Nat) (slot : CachedReply)
    (reply : Bytes) : ReplyState :=
  { s.setHandling index h (.replayed r reply) with
    heap := s.heap.set r { slot with locked := false } }

/-- A timer removes the slot it was started for, and no other. -/
def retire (s : ReplyState) (index : Nat) (timer : Retirement) : ReplyState :=
  { s with
    slots :=
      if s.slots timer.commandId = some timer.slot then
        Function.update s.slots timer.commandId none
      else
        s.slots
    timers := s.timers.eraseIdx index }

/-- One step; a step that is not possible changes nothing. -/
def step (ttl : Nat) (s : ReplyState) : ReplyStep → ReplyState
  | .advance by' => { s with clock := s.clock + by' }
  | .deliver delivery => { s with handled := s.handled ++ [⟨delivery, .received, none⟩] }
  | .lookup index =>
      match s.handled[index]? with
      | some h =>
          match h.handling with
          | .received => s.lookup ttl index h
          | _ => s
      | none => s
  | .lock index =>
      match s.handled[index]? with
      | some h =>
          match h.handling with
          | .waiting r =>
              match s.heap[r]? with
              | some slot => if slot.locked then s else s.lock index h r slot
              | none => s
          | _ => s
      | none => s
  | .finish index reply =>
      match s.handled[index]? with
      | some h =>
          match h.handling with
          | .executing r =>
              match s.heap[r]? with
              | some slot => s.finish ttl index h r slot reply
              | none => s
          | _ => s
      | none => s
  | .respond index =>
      match s.handled[index]? with
      | some h =>
          match h.handling with
          | .replaying r =>
              match s.heap[r]? with
              | some slot =>
                  match slot.response with
                  | some reply => s.respond index h r slot reply
                  | none => s
              | none => s
          | _ => s
      | none => s
  | .retire index =>
      match s.timers[index]? with
      | some timer => if timer.due ≤ s.clock then s.retire index timer else s
      | none => s

end ReplyState

end Remote
end FutureOs
