import PeerWire.Message
import PeerWire.Time.Activity

/-!
# Links

A link carries messages to and from a peer. Whatever it is made of, every message that it gives
uses up some of what it still has to give, so that a reader who goes on as long as messages come
is sure to stop. Both things that a link does may take time and may be broken off.
-/

namespace PeerWire

/-- What carries messages to and from a peer.

The budget is there beforehand, and sending adds nothing to it. So a channel is no link if it never
runs dry, or if it answers what is sent to it with more than was counted before; what goes on
forever over such a channel is not described. But a run that ends, like any front part of a run, has
received only so many messages. It is also a run over the same channel with a bound on how many
messages it may still give, and that is a link, with this bound as its budget. -/
class Link (σ : Type) where
  /-- Waits for the next message. -/
  receive : Activity σ Message
  /-- Sends a message. -/
  send : Message → Activity σ Unit
  /-- The messages that were sent, the first one first. -/
  sent : σ → List Message
  /-- A bound on what is still to be received. -/
  budget : σ → Nat
  /-- A message that comes uses up some of the budget. -/
  uses_receive : Activity.Uses budget receive
  /-- Sending adds nothing to the budget. -/
  keeps_send : ∀ message, Activity.Keeps budget (send message)

end PeerWire
