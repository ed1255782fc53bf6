import PeerWire.Link

/-!
# Links of two queues

A link may be nothing but two queues, one for each direction, with the other end in the hands of
somebody else. What was put into a queue comes out in order, nothing fails, and with an empty queue
there is nothing to do but to wait. Main statement: such queues are a link; a message that comes
leaves the queue.
-/

namespace PeerWire

/-- Two queues of messages, and what was put into the second one. -/
structure Queues where
  /-- The messages on their way to this side, the next one first. -/
  incoming : List Message
  /-- The messages on their way to the other side, the next one first. -/
  outgoing : List Message
  /-- All messages sent to the other side, the first one first. -/
  sent : List Message
deriving DecidableEq, Repr

namespace Queues

/-- Takes the next message out of the queue, if there is one. -/
def take? (q : Queues) : Option Message × Queues :=
  match q.incoming with
  | [] => (none, q)
  | message :: rest => (some message, { q with incoming := rest })

/-- Puts messages into the queue to the other side. -/
def put (messages : List Message) (q : Queues) : Queues :=
  { q with outgoing := q.outgoing ++ messages, sent := q.sent ++ messages }

/-- Waits for the next message. -/
def receive : Activity Queues Message := do
  match ← Activity.change take? with
  | some message => pure message
  | none => Activity.never

/-- What is on its way to this side. -/
def budget (q : Queues) : Nat := q.incoming.length

/-- A message that comes leaves the queue. -/
theorem uses_receive : Activity.Uses budget receive := by
  refine Activity.costs_bind (c := fun | some _ => 1 | none => 0)
    (Activity.costs_change fun q ↦ ?_) fun message ↦ ?_
  · rw [take?]
    split
    · exact Nat.le_refl _
    · next message rest h =>
      rw [budget, budget, h]
      exact Nat.le_refl _
  · cases message with
    | some message => exact Activity.costs_pure rfl
    | none => exact Activity.costs_never

instance : Link Queues where
  receive := receive
  send := fun message ↦ Activity.modify (put [message])
  sent := sent
  budget := budget
  uses_receive := uses_receive
  keeps_send := fun _ ↦ Activity.keeps_modify fun _ ↦ Nat.le_refl _

end Queues

end PeerWire
