import PeerWire.Config
import PeerWire.Link.Framed
import PeerWire.Peer
import PeerWire.Wire.Greeting

/-!
# Connections

A connection is a link to one peer together with what is known about that peer. Every message that
comes is taken in, and every failure marks the connection as ended. Waiting for the peer to
announce its pieces, or for leave to request, goes on as long as messages come; a delivered block
has no business there. Main statements: a message that is taken in uses up some of what the link
still has to give, so that both ways of waiting come to an end, and sending adds nothing to it.
-/

namespace PeerWire

/-- A link to a peer and what is known about the peer. -/
structure Connection (σ : Type) where
  /-- Where the peer is reached. -/
  address : Address
  /-- Who the peer says it is, if it was asked. -/
  remoteId : Option PeerId
  /-- How long the peer may take to give leave to request, in milliseconds. -/
  unchokeTimeout : Nat
  /-- What is known about the peer. -/
  peer : Peer
  /-- The link. -/
  link : σ

namespace Connection

variable {σ : Type}

/-- A connection over a link on which handshakes were exchanged before. -/
def start (address : Address) (link : σ) (pieceCount unchokeTimeout : Nat) : Connection σ where
  address := address
  remoteId := none
  unchokeTimeout := unchokeTimeout
  peer := (Peer.unknown pieceCount).connect.greet
  link := link

/-- Changes what is known about the peer. -/
def withPeer (f : Peer → Peer) (c : Connection σ) : Connection σ := { c with peer := f c.peer }

/-- Does something to the link. -/
def onLink {α : Type} (x : Activity σ α) : Activity (Connection σ) α :=
  Activity.onPart link (fun c link ↦ { c with link := link }) x

/-- The connection ends with an error. -/
def endWith {α : Type} (error : Error) : Activity (Connection σ) α := do
  Activity.modify (withPeer fun peer ↦ peer.endWith error)
  Activity.fail error

/-- The connection fails with an error. -/
def failWith {α : Type} (error : Error) : Activity (Connection σ) α := do
  Activity.modify (withPeer Peer.fail)
  Activity.fail error

/-- Takes in a message. What is known about the peer is what the message has left, also when it is
rejected. -/
def takeIn (message : Message) (c : Connection σ) : Except Error Incoming × Connection σ :=
  let (result, peer) := c.peer.learn message
  (result, { c with peer := peer })

/-- A message that is rejected leaves the connection as it is. -/
theorem takeIn_eq (message : Message) (c : Connection σ) :
    c.takeIn message =
      match c.peer.apply message with
      | .ok (incoming, peer) => (.ok incoming, { c with peer := peer })
      | .error error => (.error error, c) := by
  rw [takeIn, Peer.learn_eq]
  cases c.peer.apply message <;> rfl

variable [Link σ]

/-- What the link still has to give. -/
def budget (c : Connection σ) : Nat := Link.budget c.link

/-- Waits for the next message and takes it in. -/
def receiveNext : Activity (Connection σ) Incoming := do
  match ← Activity.attempt (onLink Link.receive) with
  | .error error => endWith error
  | .ok message =>
    match ← Activity.change (takeIn message) with
    | .error error => endWith error
    | .ok incoming => pure incoming

/-- Sends a message. -/
def send (message : Message) : Activity (Connection σ) Unit := do
  match ← Activity.attempt (onLink (Link.send message)) with
  | .ok () => pure ()
  | .error error => failWith error

/-- Declares interest, from when on the peer's time to give leave runs. The moment at which it is
over has to be one that a clock can show, that is, less than `2 ^ 63` seconds; a timeout beyond that
cannot be set. -/
def sendInterested : Activity (Connection σ) Unit := do
  send .interested
  let c ← Activity.get
  let moment ← Activity.now
  Activity.modify (withPeer fun peer ↦ peer.declareInterest (moment + c.unchokeTimeout))

/-- Withdraws interest. -/
def sendNotInterested : Activity (Connection σ) Unit := do
  send .notInterested
  Activity.modify (withPeer Peer.withdrawInterest)

/-- Asks for a block. -/
def request (block : Block) : Activity (Connection σ) Unit := send (.request block)

/-- Asks for blocks, one after the other. -/
def requestAll (blocks : List Block) : Activity (Connection σ) Unit := blocks.forM request

/-- Waits for the next message, which must not deliver a block. -/
def receiveOther (awaited : Awaited) : Activity (Connection σ) Unit := do
  match ← receiveNext with
  | .block fragment => failWith (.unexpectedMessage (.fragment fragment.block) awaited)
  | _ => pure ()

/-- Ending a connection costs nothing. -/
theorem costs_endWith {α : Type} {cost : α → Nat} (error : Error) :
    Activity.Costs (budget (σ := σ)) cost (endWith error) :=
  Activity.costs_bind (Activity.keeps_modify fun _ ↦ Nat.le_refl _) fun _ ↦ Activity.costs_fail _

/-- Failing a connection costs nothing. -/
theorem costs_failWith {α : Type} {cost : α → Nat} (error : Error) :
    Activity.Costs (budget (σ := σ)) cost (failWith error) :=
  Activity.costs_bind (Activity.keeps_modify fun _ ↦ Nat.le_refl _) fun _ ↦ Activity.costs_fail _

/-- A message that is taken in uses up some of the budget. -/
theorem uses_receiveNext : Activity.Uses (budget (σ := σ)) receiveNext := by
  have hlink : Activity.Uses (budget (σ := σ)) (onLink Link.receive) :=
    Activity.costs_onPart Link.uses_receive fun _ _ _ h ↦ h
  refine Activity.costs_bind (c := fun | .ok _ => 1 | .error _ => 0)
    (Activity.costs_attempt hlink fun _ ↦ rfl) fun message ↦ ?_
  cases message with
  | error error => exact costs_endWith error
  | ok message =>
    refine Activity.costs_bind (c := fun _ ↦ 0)
      (Activity.costs_change fun c ↦ ?_) fun incoming ↦ ?_
    · rw [takeIn_eq]
      split <;> exact Nat.le_refl _
    · cases incoming with
      | error error => exact costs_endWith error
      | ok incoming => exact Activity.costs_pure rfl

/-- A message that delivers no block uses up some of the budget. -/
theorem uses_receiveOther (awaited : Awaited) :
    Activity.Uses (budget (σ := σ)) (receiveOther awaited) := by
  refine Activity.costs_bind uses_receiveNext fun incoming ↦ ?_
  split
  · exact costs_failWith _
  · exact Activity.costs_pure rfl

/-- Waits for a message unless the peer has announced pieces. -/
def descriptorRound : Activity (Connection σ) (Option Unit) := do
  let c ← Activity.get
  if c.peer.described then pure (some ())
  else
    receiveOther .availability
    pure none

/-- A round that goes on uses up some of the budget. -/
theorem advances_descriptorRound : Activity.Advances (budget (σ := σ)) descriptorRound := by
  refine Activity.costs_bind Activity.keeps_get fun c ↦ ?_
  split
  · exact Activity.costs_pure rfl
  · exact Activity.costs_bind (uses_receiveOther _) fun _ ↦ Activity.costs_pure rfl

/-- Waits until the peer has announced which pieces it has. -/
def awaitDescriptor : Activity (Connection σ) Unit :=
  Activity.repeatUntil budget descriptorRound advances_descriptorRound

/-- Fails unless the peer has announced every piece; the connection stays as it is. -/
def ensureComplete : Activity (Connection σ) Unit := do
  let c ← Activity.get
  Activity.ofExcept c.peer.ensureComplete

/-- Waits for a message up to a moment unless the peer gives leave to request. -/
def unchokeRound (moment : Nat) : Activity (Connection σ) (Option Unit) := do
  let c ← Activity.get
  if c.peer.choking then
    Activity.within moment (receiveOther .unchoke)
      (failWith (.unchokeTimeout (.ofMillis c.unchokeTimeout)))
    pure none
  else pure (some ())

/-- A round that goes on uses up some of the budget. -/
theorem advances_unchokeRound (moment : Nat) :
    Activity.Advances (budget (σ := σ)) (unchokeRound moment) := by
  refine Activity.costs_bind Activity.keeps_get fun c ↦ ?_
  split
  · exact Activity.costs_bind (Activity.costs_within (uses_receiveOther _) (costs_failWith _))
      fun _ ↦ Activity.costs_pure rfl
  · exact Activity.costs_pure rfl

/-- Waits until the peer gives leave to request, up to the moment set when interest was declared. If
none was set, the timeout counts from now on; this moment, too, has to be less than `2 ^ 63` seconds
on the clock. -/
def awaitUnchoke : Activity (Connection σ) Unit := do
  let c ← Activity.get
  let now ← Activity.now
  let moment := c.peer.deadline.getD (now + c.unchokeTimeout)
  Activity.repeatUntil budget (unchokeRound moment) (advances_unchokeRound moment)

/-- Sending adds nothing to what the peer still has to give. -/
theorem keeps_send (message : Message) : Activity.Keeps (budget (σ := σ)) (send message) := by
  refine Activity.costs_bind (c := fun _ ↦ 0)
    (Activity.costs_attempt (Activity.costs_onPart (Link.keeps_send message) fun _ _ _ h ↦ h)
      fun _ ↦ rfl) fun result ↦ ?_
  cases result with
  | ok _ => exact Activity.costs_pure rfl
  | error error => exact costs_failWith error

/-- Asking for blocks adds nothing to what the peer still has to give. -/
theorem keeps_requestAll (blocks : List Block) :
    Activity.Keeps (budget (σ := σ)) (requestAll blocks) := by
  induction blocks with
  | nil => exact Activity.costs_pure rfl
  | cons block blocks ih => exact Activity.costs_bind (keeps_send _) fun _ ↦ ih

/-- A connection over a stream that was opened, on which no handshake was exchanged. -/
def opened (config : Config) (address : Address) (pieceCount : Nat) (stream : ByteStream) :
    Connection Framed where
  address := address
  remoteId := none
  unchokeTimeout := config.unchokeTimeout
  peer := (Peer.unknown pieceCount).connect
  link := Framed.start stream (config.frameLimit pieceCount) config.readTimeout

/-- Does something to the stream beneath a connection. -/
def onStream {α : Type} (x : Activity ByteStream α) : Activity (Connection Framed) α :=
  Activity.onPart (fun c ↦ c.link.stream) (fun c stream ↦ { c with link.stream := stream }) x

/-- Notes that handshakes were exchanged. -/
def noteGreeting (remote : Handshake) (c : Connection Framed) : Connection Framed :=
  { c with remoteId := some remote.peerId, peer := c.peer.greet }

/-- Exchanges handshakes in the time allowed. -/
def greet (config : Config) (infoHash : Digest) : Activity (Connection Framed) Unit := do
  let start ← Activity.now
  let remote ← Activity.within (start + config.handshakeTimeout)
    (onStream (Handshake.exchange ⟨infoHash, config.clientId⟩))
    (Activity.fail (.connection (.timedOut .handshake (.ofMillis config.handshakeTimeout))))
  Activity.modify (noteGreeting remote)

end Connection

end PeerWire
