import PeerWire.Error
import PeerWire.Message

/-!
# What is known about a peer

Of the other side it is known how far the connection has come, which pieces it has announced,
whether it gives leave to request, and whether this side has declared interest. The first
announcement, by a bitfield or for a single piece, describes the peer; a later bitfield is
ignored. Main statements: a message that is rejected leaves what is known as it is, the check for
completeness passes exactly when no piece is missing, and a connection that failed is shown as
failed whatever else is known.
-/

namespace PeerWire

/-- How far a connection has come. -/
inductive Stance where
  /-- The transport is being set up. -/
  | connecting
  /-- Handshakes are being exchanged. -/
  | handshaking
  /-- The peer has not announced any piece. -/
  | awaitingDescriptor
  /-- This side has not declared interest. -/
  | notInterested
  /-- This side waits for leave to request. -/
  | choked
  /-- This side may request. -/
  | unchoked
  /-- The peer has ended the stream. -/
  | closed
  /-- Something went wrong. -/
  | failed
deriving DecidableEq, Repr

/-- What a stance is called. -/
def Stance.name : Stance → String
  | .connecting => "Connecting"
  | .handshaking => "Handshaking"
  | .awaitingDescriptor => "AwaitingDescriptor"
  | .notInterested => "NotInterested"
  | .choked => "Choked"
  | .unchoked => "Unchoked"
  | .closed => "Closed"
  | .failed => "Failed"

/-- Whether a connection is still in use. -/
inductive Status where
  /-- It is in use. -/
  | inUse
  /-- The peer has ended the stream. -/
  | closed
  /-- Something went wrong. -/
  | failed
deriving DecidableEq, Repr

/-- What a received message means to a download. -/
inductive Incoming where
  /-- Nothing. -/
  | consumed
  /-- Outstanding requests will not be answered. -/
  | choked
  /-- Requests will be answered. -/
  | unchoked
  /-- The peer has one more piece. -/
  | announced (piece : Nat)
  /-- A fragment. -/
  | block (fragment : Fragment)
deriving DecidableEq, Repr

/-- What is known about the other side of a connection. -/
structure Peer where
  /-- The number of pieces in the torrent. -/
  pieceCount : Nat
  /-- Whether the transport is set up. -/
  connected : Bool
  /-- Whether handshakes were exchanged. -/
  greeted : Bool
  /-- Whether the peer has announced anything. -/
  described : Bool
  /-- The pieces that the peer has announced, each once. -/
  pieces : List Nat
  /-- Whether this side has declared interest. -/
  interested : Bool
  /-- Whether the peer withholds leave to request. -/
  choking : Bool
  /-- Until when the peer may withhold it. -/
  deadline : Option Nat
  /-- Whether the connection is still in use. -/
  status : Status
deriving DecidableEq, Repr

namespace Peer

/-- A peer of which nothing is known. -/
def unknown (pieceCount : Nat) : Peer where
  pieceCount := pieceCount
  connected := false
  greeted := false
  described := false
  pieces := []
  interested := false
  choking := true
  deadline := none
  status := .inUse

/-- How far the connection has come. -/
def stance (peer : Peer) : Stance :=
  match peer.status with
  | .failed => .failed
  | .closed => .closed
  | .inUse =>
    if ¬ peer.connected then .connecting
    else if ¬ peer.greeted then .handshaking
    else if ¬ peer.described then .awaitingDescriptor
    else if ¬ peer.interested then .notInterested
    else if peer.choking then .choked
    else .unchoked

/-- The transport is set up. -/
def connect (peer : Peer) : Peer := { peer with connected := true }

/-- Handshakes were exchanged. -/
def greet (peer : Peer) : Peer := { peer with greeted := true }

/-- This side has declared interest, and a withholding peer has until a moment to give leave. -/
def declareInterest (peer : Peer) (moment : Nat) : Peer :=
  { peer with
    interested := true
    deadline := if peer.choking then some moment else peer.deadline }

/-- This side has withdrawn its interest. -/
def withdrawInterest (peer : Peer) : Peer := { peer with interested := false, deadline := none }

/-- The peer has ended the stream. -/
def close (peer : Peer) : Peer :=
  match peer.status with
  | .inUse => { peer with status := .closed }
  | _ => peer

/-- Something went wrong. -/
def fail (peer : Peer) : Peer := { peer with status := .failed }

/-- The connection has ended with an error. -/
def endWith (peer : Peer) : Error → Peer
  | .connectionClosed => peer.close
  | _ => peer.fail

/-- Whether the peer has announced a piece. -/
def hasPiece (peer : Peer) (piece : Nat) : Bool := peer.pieces.contains piece

/-- How many pieces the peer has not announced. -/
def missing (peer : Peer) : Nat := peer.pieceCount - peer.pieces.length

/-- Whether the peer has announced every piece. -/
def ensureComplete (peer : Peer) : Except Error Unit :=
  if peer.missing = 0 then .ok () else .error (.incompleteFile peer.missing peer.pieceCount)

/-- The peer announces one piece. -/
def announce (peer : Peer) (piece : Nat) : Except Error Unit × Peer :=
  if peer.pieceCount ≤ piece then
    (.error (.malformedMessage (.unknownPiece piece peer.pieceCount)), peer)
  else
    (.ok (), { peer with
      pieces := if peer.hasPiece piece then peer.pieces else peer.pieces ++ [piece]
      described := true })

/-- The peer announces its pieces. Bits past the last piece have no meaning. -/
def describe (peer : Peer) (field : Bitfield) : Except Error Unit × Peer :=
  let expected := Tiling.count peer.pieceCount 8
  let received := Tiling.count field.size 8
  if peer.described then (.ok (), peer)
  else if expected ≠ received then (.error (.bitfieldSize expected received), peer)
  else
    (.ok (), { peer with
      pieces := field.members.filter (· < peer.pieceCount)
      described := true })

/-- Learns from a message, and tells what it means to a download. What is known is given as it is
left in any case, also when the message is rejected. -/
def learn (peer : Peer) : Message → Except Error Incoming × Peer
  | .choke => (.ok .choked, { peer with choking := true })
  | .unchoke => (.ok .unchoked, { peer with choking := false, deadline := none })
  | .announce piece =>
    let (result, after) := peer.announce piece
    (result.map fun _ ↦ .announced piece, after)
  | .bitfield field =>
    let (result, after) := peer.describe field
    (result.map fun _ ↦ .consumed, after)
  | .piece fragment => (.ok (.block fragment), peer)
  | _ => (.ok .consumed, peer)

/-- Takes in a message, and tells what it means to a download, or rejects it and tells why: what
`learn` does, for those who do not go on with what is left then. -/
def apply (peer : Peer) (message : Message) : Except Error (Incoming × Peer) :=
  let (result, after) := peer.learn message
  result.map fun incoming ↦ (incoming, after)

/-- An announcement adds a piece of the torrent, and describes the peer. -/
theorem apply_announce (peer : Peer) (piece : Nat) :
    peer.apply (.announce piece) =
      if peer.pieceCount ≤ piece then
        .error (.malformedMessage (.unknownPiece piece peer.pieceCount))
      else
        .ok (.announced piece, { peer with
          pieces := if peer.hasPiece piece then peer.pieces else peer.pieces ++ [piece]
          described := true }) := by
  simp only [apply, learn, announce]
  split <;> rfl

/-- A bitfield of the right size describes a peer that was not described. -/
theorem apply_bitfield (peer : Peer) (field : Bitfield) :
    peer.apply (.bitfield field) =
      if peer.described then .ok (.consumed, peer)
      else if Tiling.count peer.pieceCount 8 ≠ Tiling.count field.size 8 then
        .error (.bitfieldSize (Tiling.count peer.pieceCount 8) (Tiling.count field.size 8))
      else
        .ok (.consumed, { peer with
          pieces := field.members.filter (· < peer.pieceCount)
          described := true }) := by
  simp only [apply, learn, describe]
  split
  · rfl
  · split <;> rfl

/-- A bitfield is ignored by a peer that was described. -/
theorem apply_bitfield_of_described {peer : Peer} (h : peer.described = true) (field : Bitfield) :
    peer.apply (.bitfield field) = .ok (.consumed, peer) := by
  rw [apply_bitfield, if_pos h]

/-- What is learned is taken in, or is rejected and changes nothing. -/
theorem learn_eq (peer : Peer) (message : Message) :
    peer.learn message =
      match peer.apply message with
      | .ok (incoming, after) => (.ok incoming, after)
      | .error error => (.error error, peer) := by
  cases message with
  | announce piece =>
    rw [apply_announce]
    simp only [learn, announce]
    split <;> rfl
  | bitfield field =>
    rw [apply_bitfield]
    simp only [learn, describe]
    split
    · rfl
    · split <;> rfl
  | _ => rfl

/-- Every piece is announced exactly when none is missing. -/
theorem ensureComplete_eq_ok_iff {peer : Peer} :
    peer.ensureComplete = .ok () ↔ peer.missing = 0 := by
  rw [ensureComplete]
  split <;> simp_all

/-- A connection that failed is shown as failed. -/
@[simp]
theorem stance_fail (peer : Peer) : peer.fail.stance = .failed := rfl

end Peer

end PeerWire
