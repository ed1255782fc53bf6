import PeerWire.Link.ByteStream
import PeerWire.Wire.Handshake

/-!
# Exchanging handshakes

The side that opened the stream sends its handshake first and then waits for the other one. A
handshake is given up after its first byte if that already shows that it cannot be understood, and
no byte behind the handshake is read.
-/

namespace PeerWire

namespace Handshake

/-- The result of a check of a handshake. -/
def checked {α : Type} (result : Except HandshakeFault α) : Activity ByteStream α :=
  Activity.ofExcept (result.mapError .protocolMismatch)

/-- Waits for the peer's handshake. -/
def receive : Activity ByteStream Handshake := do
  match ← ByteStream.readByte with
  | none => Activity.fail (.connection .noHandshake)
  | some first =>
    checked (checkLength first)
    match ← ByteStream.readExactly (size - 1) with
    | none => Activity.fail (.connection .partialHandshake)
    | some others =>
      checked (ofBytes (first :: others.val) (by rw [List.length_cons, others.property, size]))

/-- Sends a handshake. -/
def send (h : Handshake) : Activity ByteStream Unit := ByteStream.write h.toBytes

/-- Sends a handshake and waits for the peer's, which has to be for the same torrent. -/
def exchange (h : Handshake) : Activity ByteStream Handshake := do
  send h
  let remote ← receive
  checked (remote.verify h.infoHash)
  pure remote

end Handshake

end PeerWire
