import PeerWire.Bitfield
import PeerWire.Block

/-!
# Messages

After the handshake both sides exchange messages: leave to request and its withdrawal, interest
and its end, what pieces a peer has, requests for blocks, and the blocks themselves.
-/

namespace PeerWire

/-- What one side tells the other. -/
inductive Message where
  /-- Nothing, to keep the connection open. -/
  | keepAlive
  /-- Requests will not be answered from now on. -/
  | choke
  /-- Requests will be answered from now on. -/
  | unchoke
  /-- The sender wants to request. -/
  | interested
  /-- The sender no longer wants to request. -/
  | notInterested
  /-- The sender has this piece. -/
  | announce (piece : Nat)
  /-- The sender has these pieces. -/
  | bitfield (field : Bitfield)
  /-- A block is asked for. -/
  | request (block : Block)
  /-- A block is delivered. -/
  | piece (fragment : Fragment)
  /-- A block is no longer asked for. -/
  | cancel (block : Block)
deriving DecidableEq, Repr

/-- A message as it is shown. -/
def Message.text : Message → String
  | keepAlive => "KeepAlive"
  | choke => "Choke"
  | unchoke => "Unchoke"
  | interested => "Interested"
  | notInterested => "NotInterested"
  | announce index => "Have \x7b piece: " ++ toString index ++ " \x7d"
  | bitfield field => "Bitfield(<" ++ toString field.count ++ " pieces>)"
  | request block => "Request(" ++ block.text ++ ")"
  | piece fragment => "Piece(" ++ fragment.text ++ ")"
  | cancel block => "Cancel(" ++ block.text ++ ")"

end PeerWire
