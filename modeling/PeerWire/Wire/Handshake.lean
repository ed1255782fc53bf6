import PeerWire.Error
import PeerWire.PeerId

/-!
# Handshakes

Both sides open with 68 bytes: the length of the protocol's name, the name, eight reserved bytes,
the digest that names the torrent, and the sender's identity. The reserved bytes are sent as zeros
and may be anything when received. Main statements: a handshake always takes 68 bytes, and reading
what was written gives the handshake back.
-/

namespace PeerWire

/-- What each side opens with. -/
structure Handshake where
  /-- The torrent that the sender wants to talk about. -/
  infoHash : Digest
  /-- The sender. -/
  peerId : PeerId
deriving DecidableEq

namespace Handshake

/-- The name of the protocol. -/
def protocolName : Bytes := "BitTorrent protocol".toUTF8.toList

/-- The number of bytes in the name of the protocol. -/
def nameLength : Nat := 19

/-- The number of bytes in a handshake. -/
def size : Nat := 68

/-- The handshake as bytes. -/
def toBytes (h : Handshake) : Bytes :=
  UInt8.ofNat nameLength :: (protocolName ++ List.replicate 8 0 ++ h.infoHash.bytes
    ++ h.peerId.bytes)

/-- Whether a first byte gives the length of the protocol's name. -/
def checkLength (first : UInt8) : Except HandshakeFault Unit :=
  if first.toNat = nameLength then .ok () else .error (.nameLength first.toNat)

/-- The handshake that 68 bytes spell. -/
def ofBytes (bytes : Bytes) (hsize : bytes.length = size) : Except HandshakeFault Handshake :=
  let name := (bytes.drop 1).take nameLength
  match checkLength (bytes.headD 0) with
  | .error fault => .error fault
  | .ok () =>
    if name ≠ protocolName then .error (.name name)
    else .ok {
      infoHash := ⟨(bytes.drop 28).take 20, by simp [hsize, size]⟩
      peerId := ⟨bytes.drop 48, by simp [hsize, size]⟩ }

/-- Whether a handshake is for the expected torrent. -/
def verify (h : Handshake) (expected : Digest) : Except HandshakeFault Unit :=
  if h.infoHash = expected then .ok () else .error (.infoHash expected h.infoHash)

/-- The name of the protocol has the length that is sent. -/
theorem length_protocolName : protocolName.length = nameLength := by decide +kernel

/-- A handshake takes 68 bytes. -/
@[simp]
theorem length_toBytes (h : Handshake) : h.toBytes.length = size := by
  simp [toBytes, length_protocolName, nameLength, h.infoHash.length_bytes, h.peerId.length_bytes,
    size]

/-- Reading a written handshake gives it back. -/
theorem ofBytes_toBytes (h : Handshake) : ofBytes h.toBytes (length_toBytes h) = .ok h := by
  have hname : (h.toBytes.drop 1).take nameLength = protocolName := by
    rw [toBytes, List.drop_one, List.tail_cons, List.append_assoc, List.append_assoc,
      List.take_append_of_le_length (Nat.le_of_eq length_protocolName.symm),
      List.take_of_length_le (Nat.le_of_eq length_protocolName)]
  have hhash : (h.toBytes.drop 28).take 20 = h.infoHash.bytes := by
    have hfront : (UInt8.ofNat nameLength :: (protocolName ++ List.replicate 8 0)).length = 28 := by
      simp [length_protocolName, nameLength]
    have hsplit : h.toBytes = (UInt8.ofNat nameLength :: (protocolName ++ List.replicate 8 0))
        ++ (h.infoHash.bytes ++ h.peerId.bytes) := by simp [toBytes]
    rw [hsplit, List.drop_left' hfront, List.take_left' h.infoHash.length_bytes]
  have hid : h.toBytes.drop 48 = h.peerId.bytes := by
    have hfront : (UInt8.ofNat nameLength :: (protocolName ++ List.replicate 8 0
        ++ h.infoHash.bytes)).length = 48 := by
      simp [length_protocolName, nameLength, h.infoHash.length_bytes]
    have hsplit : h.toBytes = (UInt8.ofNat nameLength :: (protocolName ++ List.replicate 8 0
        ++ h.infoHash.bytes)) ++ h.peerId.bytes := by simp [toBytes]
    rw [hsplit, List.drop_left' hfront]
  have hfirst : checkLength (h.toBytes.headD 0) = .ok () := rfl
  simp only [ofBytes, hfirst, hname, hhash, hid, ne_eq, not_true_eq_false, ite_false]

end Handshake

end PeerWire
