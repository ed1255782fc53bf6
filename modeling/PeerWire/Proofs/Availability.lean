import Mathlib.Data.List.Sort
import PeerWire.Proofs.Bounds
import PeerWire.Proofs.Grammar

/-!
# What a bitfield says

A bitfield travels as a payload of bytes, of which each has the bits of eight pieces, the first of
them in the highest bit. Main statement: the payload of a frame describes a new peer exactly when
it has a byte for each eight pieces and one for the rest, the pieces of the peer are then those
whose bits are set, and the spare bits in the last byte have no meaning; a bitfield with one bit for
each piece arrives with the members that it had.
-/

namespace PeerWire

/-- The bit at a position, eight bits to a byte and the highest first; past the end none is set. -/
def Bytes.bit (bytes : Bytes) (i : Nat) : Bool := (bytes.getD (i / 8) 0).toNat.testBit (7 - i % 8)

/-- The tiles of eight cover a length that is rounded up to eights. -/
theorem Tiling.count_eight (n : Nat) : count n 8 = (n + 7) / 8 := by
  rw [count]
  split <;> omega

/-! ### Bits and members -/

namespace Bitfield

/-- The bits of a byte go down from the highest. -/
theorem bitsOfByte_eq_map (b : UInt8) :
    bitsOfByte b = (List.range 8).map fun i ↦ b.toNat.testBit (7 - i) := rfl

/-- A bit is set exactly when it is set in the payload. -/
theorem getElem?_bits_ofBytes {payload : Bytes} {i : Nat} :
    (ofBytes payload).bits[i]? = some true ↔ payload.bit i = true := by
  induction payload generalizing i with
  | nil => simp [ofBytes, Bytes.bit]
  | cons b payload ih =>
    have hcons : (ofBytes (b :: payload)).bits = bitsOfByte b ++ (ofBytes payload).bits := rfl
    rw [hcons]
    by_cases h : i < 8
    · rw [List.getElem?_append_left h, bitsOfByte_eq_map, List.getElem?_map,
        List.getElem?_range h, Bytes.bit, Nat.div_eq_of_lt h, Nat.mod_eq_of_lt h]
      simp
    · have hdiv : i / 8 = (i - 8) / 8 + 1 := by omega
      have hmod : i % 8 = (i - 8) % 8 := by omega
      rw [List.getElem?_append_right (Nat.le_of_not_lt h)]
      show (ofBytes payload).bits[i - 8]? = some true ↔ _
      rw [ih, Bytes.bit, Bytes.bit, hdiv, hmod, List.getD_cons_succ]

/-- The members below a bound are the set positions below it. -/
theorem filter_members (field : Bitfield) (n : Nat) :
    field.members.filter (· < n) = (List.range n).filter fun i ↦ field.bits[i]? = some true := by
  have hmembers : (field.members.filter (· < n)).Pairwise (· < ·) :=
    (pairwise_membersFrom 0 field.bits).filter _
  refine hmembers.eq_of_mem_iff (List.pairwise_lt_range.filter _) fun i ↦ ?_
  simp [mem_members, and_comm]

/-- A member is one of the bits. -/
theorem lt_size_of_mem_members {field : Bitfield} {i : Nat} (h : i ∈ field.members) :
    i < field.size := (List.getElem?_eq_some_iff.mp (mem_members.mp h)).1

end Bitfield

/-! ### Taking in a bitfield -/

namespace Peer

variable {peer : Peer} {has other : Nat → Bool}

/-- The peer as described to have just these of its pieces. -/
def having (peer : Peer) (has : Nat → Bool) : Peer :=
  { peer with pieces := (List.range peer.pieceCount).filter has, described := true }

/-- It has the pieces of the torrent that it is described to have. -/
theorem hasPiece_having {piece : Nat} :
    (peer.having has).hasPiece piece = true ↔ piece < peer.pieceCount ∧ has piece = true := by
  simp [hasPiece, having]

/-- It lacks the others. -/
theorem missing_having :
    (peer.having has).missing = ((List.range peer.pieceCount).filter fun i ↦ !has i).length := by
  have hsplit := List.length_eq_length_filter_add (l := List.range peer.pieceCount) has
  rw [List.length_range] at hsplit
  show peer.pieceCount - ((List.range peer.pieceCount).filter has).length = _
  omega

/-- What is said of pieces past the last one does not matter. -/
theorem having_congr (h : ∀ i < peer.pieceCount, has i = other i) :
    peer.having has = peer.having other := by
  have hfilter : (List.range peer.pieceCount).filter has =
      (List.range peer.pieceCount).filter other :=
    List.filter_congr fun i hi ↦ h i (List.mem_range.mp hi)
  rw [having, having, hfilter]

/-- A bitfield describes a new peer if it takes as many bytes as there are pieces to tell of, and is
refused otherwise. -/
theorem apply_bitfield_of_new (hnew : peer.described = false) (field : Bitfield) :
    peer.apply (.bitfield field) =
      if (peer.pieceCount + 7) / 8 = (field.size + 7) / 8 then
        .ok (.consumed, peer.having fun i ↦ field.bits[i]? = some true)
      else .error (.bitfieldSize ((peer.pieceCount + 7) / 8) ((field.size + 7) / 8)) := by
  rw [apply_bitfield, Tiling.count_eight, Tiling.count_eight, hnew, Bitfield.filter_members]
  by_cases hsize : (peer.pieceCount + 7) / 8 = (field.size + 7) / 8
  · simp [hsize, having]
  · simp [hsize]

/-- The same for a bitfield that arrives as a payload. -/
theorem apply_bitfield_ofBytes (hnew : peer.described = false) (payload : Bytes) :
    peer.apply (.bitfield (.ofBytes payload)) =
      if (peer.pieceCount + 7) / 8 = payload.length then .ok (.consumed, peer.having payload.bit)
      else .error (.bitfieldSize ((peer.pieceCount + 7) / 8) payload.length) := by
  have hlength : (8 * payload.length + 7) / 8 = payload.length := by omega
  have hbits : peer.having (fun i ↦ (Bitfield.ofBytes payload).bits[i]? = some true) =
      peer.having payload.bit :=
    having_congr fun i _ ↦ by simp [Bitfield.getElem?_bits_ofBytes]
  rw [apply_bitfield_of_new hnew, Bitfield.size_ofBytes, hlength, hbits]

/-- A bitfield with one bit for each piece arrives with its members. -/
theorem apply_bitfield_padded (hnew : peer.described = false) {field : Bitfield}
    (hsize : field.size = peer.pieceCount) :
    peer.apply (.bitfield field.padded) =
      .ok (.consumed, { peer with pieces := field.members, described := true }) := by
  have hmembers : field.members.filter (· < peer.pieceCount) = field.members :=
    List.filter_eq_self.mpr fun i hi ↦ by simpa [← hsize] using Bitfield.lt_size_of_mem_members hi
  have hpadded : (peer.pieceCount + 7) / 8 = (field.padded.size + 7) / 8 := by
    simp only [Bitfield.padded, Bitfield.size, List.length_append, List.length_replicate] at *
    omega
  rw [apply_bitfield_of_new hnew, if_pos hpadded, having, ← Bitfield.filter_members,
    Bitfield.members_padded, hmembers]

end Peer

/-! ### Reading a bitfield -/

/-- A whole frame with a bitfield is read when it is not too long, and only the frame is used up. -/
theorem Decoder.next_bitfield {limit : Nat} {payload : Bytes}
    (hlength : 1 + payload.length < Bytes.wordBound) (hlimit : 1 + payload.length ≤ limit)
    (behind : Bytes) :
    next ⟨limit, 0, (Frame.body 5 payload).bytes ++ behind⟩ =
      (.ok (some (.bitfield (.ofBytes payload))), ⟨limit, 0, behind⟩) := by
  let d : Decoder := ⟨limit, 0, (Frame.body 5 payload).bytes ++ behind⟩
  have hdiscard : d.discard = d := discard_of_skip_eq_zero rfl
  have hframe : (Frame.body 5 payload).Acceptable d.limit :=
    ⟨hlength, .inr ⟨hlimit, by simp [Frame.fitsKind, Frame.length]⟩⟩
  have hmessage : (Frame.body 5 payload).message? = some (.bitfield (.ofBytes payload)) := rfl
  refine next_of_message (d := d) (by rw [hdiscard]; exact Nat.lt_irrefl 0) ?_
  rw [hdiscard]
  rcases front_of_acceptable hframe rfl with ⟨message, hfound, hfront⟩ | ⟨hnone, -⟩
  · cases hmessage.symm.trans hfound
    exact hfront
  · cases hmessage.symm.trans hnone

namespace Peer

/-- A frame with a bitfield that is not too long is read, and describes a new peer exactly when its
payload has a byte for each eight pieces and one for the rest; otherwise it is refused with both
numbers of bytes. The peer has then a piece of the torrent exactly when the bit of the piece is set,
what is missing are the bits that are not set, and payloads that differ in spare bits alone have the
same effect. A bitfield with one bit for each piece, written and read, gives the pieces that are its
members. -/
theorem apply_of_bitfield_frame {peer : Peer} (hnew : peer.described = false) :
    let n := peer.pieceCount
    let expected := (n + 7) / 8
    (∀ (limit : Nat) (payload behind : Bytes), 1 + payload.length < Bytes.wordBound →
      1 + payload.length ≤ limit →
        Decoder.next ⟨limit, 0, (Frame.body 5 payload).bytes ++ behind⟩ =
          (.ok (some (.bitfield (.ofBytes payload))), ⟨limit, 0, behind⟩)) ∧
    (∀ payload : Bytes, payload.length ≠ expected →
      peer.apply (.bitfield (.ofBytes payload)) =
        .error (.bitfieldSize expected payload.length)) ∧
    (∀ payload : Bytes, payload.length = expected →
      ∃ after, peer.apply (.bitfield (.ofBytes payload)) = .ok (.consumed, after) ∧
        (∀ i, after.hasPiece i = true ↔ i < n ∧ payload.bit i = true) ∧
        after.missing = ((List.range n).filter fun i ↦ !payload.bit i).length ∧
        ∀ other : Bytes, other.length = expected → (∀ i < n, other.bit i = payload.bit i) →
          peer.apply (.bitfield (.ofBytes other)) = .ok (.consumed, after)) ∧
    ∀ (limit : Nat) (field : Bitfield) (behind : Bytes), field.size = n →
      1 + expected < Bytes.wordBound → 1 + expected ≤ limit →
        Decoder.next ⟨limit, 0, (Message.bitfield field).encode ++ behind⟩ =
          (.ok (some (.bitfield field.padded)), ⟨limit, 0, behind⟩) ∧
        ∃ after, peer.apply (.bitfield field.padded) = .ok (.consumed, after) ∧
          after.pieces = field.members ∧
          ∀ i, after.hasPiece i = true ↔ field.bits[i]? = some true := by
  intro n expected
  refine ⟨fun limit payload behind hlength hlimit ↦ Decoder.next_bitfield hlength hlimit behind,
    fun payload hsize ↦ ?_, fun payload hsize ↦ ?_,
    fun limit field behind hsize hlength hlimit ↦ ?_⟩
  · rw [apply_bitfield_ofBytes hnew, if_neg (Ne.symm hsize)]
  · refine ⟨peer.having payload.bit, ?_, fun i ↦ hasPiece_having, missing_having,
      fun other hother hbits ↦ ?_⟩
    · rw [apply_bitfield_ofBytes hnew, if_pos hsize.symm]
    · rw [apply_bitfield_ofBytes hnew, if_pos hother.symm, having_congr hbits]
  · have hbytes : field.toBytes.length = expected := by
      rw [Bitfield.length_toBytes, hsize, Tiling.count_eight]
    constructor
    · rw [← hbytes] at hlength hlimit
      have hnext := Decoder.next_bitfield hlength hlimit behind
      rwa [Bitfield.ofBytes_toBytes_eq_padded] at hnext
    · refine ⟨_, apply_bitfield_padded hnew hsize, rfl, fun i ↦ ?_⟩
      rw [← Bitfield.mem_members]
      exact List.contains_iff_mem

/-- Ten pieces, of which the third and the last are there, with a spare bit set. -/
theorem apply_of_bitfield_frame_tenPieces :
    (unknown 10).described = false ∧
      Decoder.next ⟨3, 0, [0, 0, 0, 3, 5, 0x20, 0x60, 9]⟩ =
        (.ok (some (.bitfield (.ofBytes [0x20, 0x60]))), ⟨3, 0, [9]⟩) ∧
      ∃ after, (unknown 10).apply (.bitfield (.ofBytes [0x20, 0x60])) = .ok (.consumed, after) ∧
        after.hasPiece 2 = true ∧ after.hasPiece 9 = true ∧ after.hasPiece 10 = false ∧
        after.missing = 8 := by
  obtain ⟨hread, -, htaken, -⟩ := @apply_of_bitfield_frame (unknown 10) rfl
  obtain ⟨after, hafter, hpieces, hmissing, -⟩ := htaken [0x20, 0x60] rfl
  refine ⟨rfl, hread 3 [0x20, 0x60] [9] (by decide) (by decide), after, hafter,
    (hpieces 2).mpr (by decide), (hpieces 9).mpr (by decide), ?_, hmissing.trans (by decide)⟩
  exact Bool.eq_false_iff.mpr fun h ↦ absurd ((hpieces 10).mp h) (by decide)

end Peer

end PeerWire
