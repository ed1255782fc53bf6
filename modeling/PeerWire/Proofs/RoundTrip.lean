import Mathlib.Data.List.Basic
import PeerWire.Proofs.Grammar

/-!
# Reading what was written

Messages and frames of unknown kinds are written one behind the other. Each of them is an allowed
frame, and the message that is read from the frame of a message is what is left of it on the wire.
Main statement: writing adds as many bytes as a message takes and leaves those before it alone, and
reading everything that was written gives the messages in order and leaves nothing.
-/

namespace PeerWire

namespace Parcel

/-- Writes a parcel at the end of a buffer. -/
def put (buffer : Bytes) (parcel : Parcel) : Bytes := buffer ++ parcel.bytes

/-- What was written stands behind what was there. -/
theorem foldl_put (buffer : Bytes) (parcels : List Parcel) :
    parcels.foldl put buffer = buffer ++ parcels.flatMap bytes := by
  induction parcels generalizing buffer with
  | nil => simp
  | cons parcel parcels ih => simp [ih, put, List.append_assoc]

variable {limit : Nat} {parcel : Parcel}

/-- The frame of a parcel is the message that arrives, or none. -/
theorem Fits.message?_frame (h : parcel.Fits limit) : parcel.frame.message? = parcel.arrival? := by
  obtain ⟨-, hkind⟩ := h
  cases parcel with
  | keepAlive => rfl
  | unknown id payload => exact Message.ofBody?_of_unknown hkind payload
  | message said =>
    obtain ⟨-, hdelivers⟩ := hkind
    show said.frame.message? = some said.onWire
    cases hframe : said.frame with
    | empty =>
      obtain rfl : said = .keepAlive := by cases said <;> cases hframe; rfl
      rfl
    | body id payload => exact Message.ofBody?_frame hframe hdelivers

/-- The frame of a parcel is allowed. -/
theorem Fits.acceptable (h : parcel.Fits limit) : parcel.frame.Acceptable limit := by
  have hmessage := h.message?_frame
  obtain ⟨hlength, hkind⟩ := h
  cases parcel with
  | keepAlive => exact ⟨hlength, trivial⟩
  | unknown id payload => exact ⟨hlength, .inl hkind⟩
  | message said => exact Frame.acceptable_of_message hlength hkind.1 hmessage

end Parcel

namespace Decoder

/-- Writing a message adds as many bytes as it takes and leaves those before it alone. When messages
and frames of unknown kinds that a decoder allows are written one behind the other and all is read,
the messages come in order, with their numbers cut to 32 bits and their bitfields filled up with
zeros to whole bytes, which adds no pieces; there is no fault, and nothing is left. -/
theorem exhaust_foldl_put {limit : Nat} {parcels : List Parcel}
    (h : ∀ parcel ∈ parcels, parcel.Fits limit) :
    (∀ (buffer : Bytes) (message : Message),
        buffer <+: Parcel.put buffer (.message message) ∧
          (Parcel.put buffer (.message message)).length = buffer.length + message.wireSize ∧
          message.frame.length = message.wireSize - 4) ∧
      ((start limit).feed (parcels.foldl Parcel.put [])).exhaust true =
        ⟨parcels.filterMap Parcel.arrival?, none, start limit⟩ ∧
      ∀ field : Bitfield, (Message.bitfield field).onWire = .bitfield field.padded ∧
        field.padded.members = field.members := by
  refine ⟨?_, ?_, ?_⟩
  · intro buffer message
    have hsize : message.encode.length = message.wireSize := message.length_encode
    have hframe : message.encode.length = 4 + message.frame.length := Frame.length_bytes _
    refine ⟨List.prefix_append _ _, ?_, by omega⟩
    show (buffer ++ message.encode).length = _
    rw [List.length_append, hsize]
  · have hframes : ∀ frame ∈ parcels.map Parcel.frame, frame.Acceptable limit := by
      intro frame hframe
      obtain ⟨parcel, hparcel, rfl⟩ := List.mem_map.mp hframe
      exact (h parcel hparcel).acceptable
    have hbytes : ((start limit).feed (parcels.foldl Parcel.put [])).buffer =
        (parcels.map Parcel.frame).flatMap Frame.bytes ++ [] := by
      rw [Parcel.foldl_put, List.flatMap_map, List.append_nil]
      rfl
    have hmessages : (parcels.map Parcel.frame).filterMap Frame.message? =
        parcels.filterMap Parcel.arrival? := by
      rw [List.filterMap_map]
      exact List.filterMap_congr fun parcel hparcel ↦ (h parcel hparcel).message?_frame
    rw [exhaust_of_frames rfl hframes hbytes, hmessages]
    show ((start limit).exhaust true).behind _ = _
    rw [exhaust_start, Reading.behind, List.append_nil]
  · intro field
    exact ⟨congrArg Message.bitfield field.ofBytes_toBytes_eq_padded, field.members_padded⟩

/-- A number of more than 32 bits, a frame of an unknown kind that is longer than the limit, three
bits, and a fragment. -/
theorem exhaust_foldl_put_mixed :
    let parcels : List Parcel := [.message (.announce 4294967301),
      .unknown 20 (List.replicate 20 7), .message (.bitfield ⟨[true, false, true]⟩),
      .message (.piece ⟨1, 2, [3]⟩)]
    (∀ parcel ∈ parcels, parcel.Fits 16) ∧
      ((start 16).feed (parcels.foldl Parcel.put [])).exhaust true =
        ⟨[.announce 5, .bitfield ⟨[true, false, true, false, false, false, false, false]⟩,
          .piece ⟨1, 2, [3]⟩], none, start 16⟩ := by
  have hfits : ∀ parcel ∈ ([.message (.announce 4294967301), .unknown 20 (List.replicate 20 7),
      .message (.bitfield ⟨[true, false, true]⟩), .message (.piece ⟨1, 2, [3]⟩)] : List Parcel),
      parcel.Fits 16 := by decide
  exact ⟨hfits, (exhaust_foldl_put hfits).2.1⟩

end Decoder

end PeerWire
