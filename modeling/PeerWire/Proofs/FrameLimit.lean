import PeerWire.Proofs.FileOrder
import PeerWire.Proofs.Integrity
import PeerWire.Proofs.RoundTrip

/-!
# Room for the answers

The limit on frames and the blocks that are asked for are both computed from the settings. A block
has at least one byte, also when the settings give blocks no length, but the limit does not count
that byte. Main statement: a decoder with the limit reads everything from a peer that sends nothing
but what it was asked for, unless blocks have no length and nothing else raises the limit; then the
first block that arrives is refused.
-/

namespace PeerWire

namespace Config

variable {config : Config} {pieceCount : Nat}

/-- Blocks have no length, and neither the settings nor the bitfield make up for the byte that they
have nonetheless. -/
def Cramped (config : Config) (pieceCount : Nat) : Prop :=
  config.blockLength = 0 ∧ config.maxMessageLength < 10 ∧ pieceCount ≤ 64

instance (config : Config) (pieceCount : Nat) : Decidable (config.Cramped pieceCount) :=
  inferInstanceAs (Decidable (_ ∧ _ ∧ _))

/-- The frame of a bitfield for more than 64 pieces has room for a byte of a block. -/
theorem ten_le_bitfieldFrame_iff (pieceCount : Nat) :
    10 ≤ bitfieldFrame pieceCount ↔ 64 < pieceCount := by
  rw [bitfieldFrame, Tiling.count]
  split <;> omega

/-- A cramped limit leaves room for the numbers of a block only. -/
theorem Cramped.frameLimit_eq (h : config.Cramped pieceCount) :
    config.frameLimit pieceCount = 9 := by
  obtain ⟨hblock, hmax, hcount⟩ := h
  have hfield : ¬10 ≤ bitfieldFrame pieceCount := fun hten ↦ by
    have := (ten_le_bitfieldFrame_iff pieceCount).mp hten
    omega
  rw [frameLimit, pieceFrame, hblock]
  omega

/-- A block of any length that is asked for is within the limit exactly when that is not cramped. -/
theorem blockFrame_le_frameLimit_iff :
    9 + max config.blockLength 1 ≤ config.frameLimit pieceCount ↔ ¬config.Cramped pieceCount := by
  have hfield := ten_le_bitfieldFrame_iff pieceCount
  rw [frameLimit, pieceFrame, Cramped]
  omega

end Config

namespace Torrent

variable {torrent : Torrent} {config : Config}

/-- What a peer may say that was asked for the blocks of a torrent: which pieces it has, whether it
gives leave to request, and exactly the blocks. -/
def Answers (torrent : Torrent) (config : Config) : Message → Prop
  | .piece fragment => fragment.block ∈ (Blocks.ofTorrent torrent config.blockLength).toList
  | .bitfield field => field.toBytes.length = Tiling.count torrent.pieceCount 8
  | .announce _ | .choke | .unchoke => True
  | _ => False

/-- A frame of such a peer: its length fits into four bytes, and it is such a message, a sign of
life or of a kind without a meaning. -/
def Expects (torrent : Torrent) (config : Config) (parcel : Parcel) : Prop :=
  parcel.frame.length < Bytes.wordBound ∧
    match parcel with
    | .message said => torrent.Answers config said
    | .keepAlive => True
    | .unknown id _ => Frame.lastKnown < id

/-- A block that is asked for has a byte, and no more than the settings give it. -/
theorem length_of_mem_ofTorrent {block : Block}
    (h : block ∈ (Blocks.ofTorrent torrent config.blockLength).toList) :
    0 < block.length ∧ block.length ≤ max config.blockLength 1 := by
  rw [Blocks.toList_ofTorrent] at h
  obtain ⟨hpos, hle, -⟩ := length_of_mem_blocks h
  exact ⟨hpos, hle⟩

/-- A fragment that answers a request has the length of the block that was asked for. -/
theorem length_of_answers {fragment : Fragment} (h : torrent.Answers config (.piece fragment)) :
    0 < fragment.data.length ∧ fragment.data.length ≤ max config.blockLength 1 := by
  have hmem : fragment.block ∈ (Blocks.ofTorrent torrent config.blockLength).toList := h
  exact length_of_mem_ofTorrent hmem

/-- The frame of a fragment takes nine bytes more than its data. -/
theorem length_frame_piece (fragment : Fragment) :
    (Message.piece fragment).frame.length = 9 + fragment.data.length := by
  simp only [Message.frame, Frame.length, List.length_append, Bytes.length_ofWord]
  omega

/-- A decoder allows every frame of such a peer that delivers no block, and if the limit is not
cramped it allows those that do. -/
theorem Expects.fits {parcel : Parcel} (h : torrent.Expects config parcel)
    (hroom : config.Cramped torrent.pieceCount →
      ∀ fragment, parcel ≠ .message (.piece fragment)) :
    parcel.Fits (config.frameLimit torrent.pieceCount) := by
  obtain ⟨hlength, hkind⟩ := h
  refine ⟨hlength, ?_⟩
  have hfield := Config.bitfieldFrame_le_frameLimit config torrent.pieceCount
  have hpiece := Config.pieceFrame_le_frameLimit config torrent.pieceCount
  rw [Config.pieceFrame] at hpiece
  cases parcel with
  | keepAlive => exact trivial
  | unknown id payload => exact hkind
  | message said =>
    cases said with
    | piece fragment =>
      have hcramped : ¬config.Cramped torrent.pieceCount := fun h ↦ hroom h fragment rfl
      have hlimit := Config.blockFrame_le_frameLimit_iff.mpr hcramped
      obtain ⟨hpos, hmax⟩ := length_of_answers hkind
      refine ⟨?_, List.ne_nil_of_length_pos hpos⟩
      rw [length_frame_piece]
      omega
    | bitfield field =>
      have hbytes : field.toBytes.length = Tiling.count torrent.pieceCount 8 := hkind
      refine ⟨?_, trivial⟩
      rw [Message.frame, Frame.length, hbytes]
      exact hfield
    | announce index =>
      refine ⟨?_, trivial⟩
      rw [Message.frame, Frame.length, Bytes.length_ofWord]
      omega
    | choke | unchoke =>
      refine ⟨?_, trivial⟩
      rw [Message.frame, Frame.length, List.length_nil]
      omega
    | keepAlive | interested | notInterested | request _ | cancel _ => exact hkind.elim

end Torrent

namespace Decoder

variable {torrent : Torrent} {config : Config}

/-- With nothing there nothing is read. -/
theorem exhaust_start_open (limit : Nat) :
    (start limit).exhaust false = ⟨[], none, start limit⟩ := by
  have hlook : (start limit).look false = (.ok none, start limit) := by
    rw [look, if_neg Bool.false_ne_true, next_eq]
    rfl
  rw [exhaust_eq, hlook]

/-- A frame of a known kind that is longer than the limit is refused. -/
theorem next_of_tooLong {d : Decoder} {message : Message} {behind : Bytes} (hskip : d.skip = 0)
    (hbuffer : d.buffer = message.encode ++ behind)
    (hlength : message.frame.length < Bytes.wordBound) (hlimit : d.limit < message.frame.length) :
    d.next = (.error (.tooLong message.frame.length d.limit), d) := by
  have hdiscard := discard_of_skip_eq_zero hskip
  rw [next_eq, hdiscard, if_neg (by omega)]
  rw [Message.encode] at hbuffer
  cases hframe : message.frame with
  | empty =>
    rw [hframe] at hlimit
    exact absurd hlimit (Nat.not_lt_zero _)
  | body id payload =>
    rw [hframe] at hbuffer hlength hlimit
    have hfront : d.front = .tooLong (1 + payload.length) := by
      rw [← List.append_nil d.buffer] at hbuffer
      rcases front_of_body hlength hbuffer with ⟨behind', hfront, -⟩ | ⟨-, hnil⟩
      · rw [hfront, if_neg (Message.known_of_frame hframe)]
        exact if_pos hlimit
      · exact absurd rfl hnil
    rw [hfront]
    rfl

/-- Frames that a decoder allows are read however they are cut, up to anything that is refused. -/
theorem alike_of_fits {limit : Nat} {parcels : List Parcel} {handlings : List Handling}
    (behind : Bytes) (hfits : ∀ parcel ∈ parcels, parcel.Fits limit)
    (hbytes : handlings.flatMap Handling.bytes = parcels.flatMap Parcel.bytes ++ behind) :
    ((start limit).handle handlings).Alike
      (((⟨limit, 0, behind⟩ : Decoder).exhaust false).behind
        (parcels.filterMap Parcel.arrival?)) := by
  have hall := alike_exhaust_handle (start limit) handlings
  have hframes : ∀ frame ∈ parcels.map Parcel.frame, frame.Acceptable limit := by
    intro frame hframe
    obtain ⟨parcel, hparcel, rfl⟩ := List.mem_map.mp hframe
    exact (hfits parcel hparcel).acceptable
  have hmessages : (parcels.map Parcel.frame).filterMap Frame.message? =
      parcels.filterMap Parcel.arrival? := by
    rw [List.filterMap_map]
    exact List.filterMap_congr fun parcel hparcel ↦ (hfits parcel hparcel).message?_frame
  have hbuffer : ((start limit).feed (handlings.flatMap Handling.bytes)).buffer =
      (parcels.map Parcel.frame).flatMap Frame.bytes ++ behind := by
    rw [buffer_feed, hbytes, List.flatMap_map]
    rfl
  rw [exhaust_of_frames rfl hframes hbuffer, hmessages] at hall
  exact hall

/-- With a cramped limit a block is refused. -/
theorem exhaust_of_cramped {fragment : Fragment} (hcramped : config.Cramped torrent.pieceCount)
    (hexpects : torrent.Expects config (.message (.piece fragment))) (behind : Bytes) :
    ∃ rest, (⟨config.frameLimit torrent.pieceCount, 0,
        (Parcel.message (.piece fragment)).bytes ++ behind⟩ : Decoder).exhaust false =
      ⟨[], some (.tooLong 10 9), rest⟩ := by
  obtain ⟨hlength, hanswer⟩ := hexpects
  obtain ⟨hpos, hmax⟩ := Torrent.length_of_answers hanswer
  have hten : (Message.piece fragment).frame.length = 10 := by
    rw [hcramped.1] at hmax
    rw [Torrent.length_frame_piece]
    omega
  rw [hcramped.frameLimit_eq]
  have hnext := next_of_tooLong (d := ⟨9, 0, (Message.piece fragment).encode ++ behind⟩) rfl rfl
    hlength (show 9 < (Message.piece fragment).frame.length by omega)
  rw [hten] at hnext
  exact ⟨_, exhaust_of_fault hnext⟩

/-- A peer was asked for the blocks of a torrent and sends nothing but exact answers, among signs of
life and frames of unknown kinds. Unless the limit is cramped and a block is among them, a decoder
with the limit reads every message, however the frames are cut, meets no fault and is left with
nothing. If the limit is cramped, the messages in front of the first block are read, and that block
is refused as a frame of ten bytes where nine are allowed. -/
theorem handle_expected {parcels : List Parcel} {handlings : List Handling}
    (hparcels : ∀ parcel ∈ parcels, torrent.Expects config parcel)
    (hbytes : handlings.flatMap Handling.bytes = parcels.flatMap Parcel.bytes) :
    let limit := config.frameLimit torrent.pieceCount
    let r := (start limit).handle handlings
    ((config.Cramped torrent.pieceCount →
          ∀ fragment, Parcel.message (.piece fragment) ∉ parcels) →
        r = ⟨parcels.filterMap Parcel.arrival?, none, start limit⟩) ∧
      ∀ front fragment behind, parcels = front ++ .message (.piece fragment) :: behind →
        config.Cramped torrent.pieceCount →
          (∀ fragment, Parcel.message (.piece fragment) ∉ front) →
            r.messages = front.filterMap Parcel.arrival? ∧ r.fault? = some (.tooLong 10 9) := by
  intro limit r
  constructor
  · intro hroom
    have hfits : ∀ parcel ∈ parcels, parcel.Fits limit := by
      intro parcel hparcel
      refine (hparcels parcel hparcel).fits fun hcramped fragment heq ↦ ?_
      exact hroom hcramped fragment (heq ▸ hparcel)
    have hread : r.Alike _ := alike_of_fits [] hfits (by rw [hbytes, List.append_nil])
    have hnothing : (⟨limit, 0, []⟩ : Decoder).exhaust false = ⟨[], none, start limit⟩ :=
      exhaust_start_open limit
    rw [hnothing, Reading.behind, List.append_nil] at hread
    obtain ⟨messages, fault?, decoder⟩ := r
    obtain ⟨rfl, rfl, hdecoder⟩ := hread
    rw [show decoder = start limit from hdecoder rfl]
  · rintro front fragment behind rfl hcramped hfront
    have hfits : ∀ parcel ∈ front, parcel.Fits limit := by
      intro parcel hparcel
      refine (hparcels parcel (List.mem_append_left _ hparcel)).fits fun _ fragment heq ↦ ?_
      exact hfront fragment (heq ▸ hparcel)
    have hread : r.Alike _ := alike_of_fits _ hfits (by
      rw [hbytes, List.flatMap_append, List.flatMap_cons])
    obtain ⟨rest, hrefused⟩ := exhaust_of_cramped hcramped
      (hparcels (.message (.piece fragment)) (by simp)) (behind.flatMap Parcel.bytes)
    rw [hrefused] at hread
    exact ⟨hread.messages.trans (List.append_nil _), hread.fault⟩

/-- The first byte of a file of three is asked for, and its exact answer is refused. -/
theorem refused_firstByte :
    let config := { Job.threeBytes.config with blockSize := 0, maxMessageLength := 9 }
    let torrent := Job.threeBytes.torrent
    let answer : Fragment := ⟨0, 0, [7]⟩
    answer.block ∈ (Blocks.ofTorrent torrent config.blockLength).toList ∧
      ((start (config.frameLimit torrent.pieceCount)).feed (Message.piece answer).encode).next.1 =
        .error (.tooLong 10 9) := by
  intro config torrent answer
  constructor
  · rw [Blocks.toList_ofTorrent]
    decide
  · decide +kernel

/-- Of a peer that answers for a file of three bytes everything is read if ten bytes are allowed,
and if blocks have no length and nine bytes are allowed, what it says in front of
the first block. -/
theorem handle_expected_threeBytes :
    let cramped := { Job.threeBytes.config with blockSize := 0, maxMessageLength := 9 }
    let roomy := { Job.threeBytes.config with blockSize := 0, maxMessageLength := 10 }
    let parcels : List Parcel := [.message (.bitfield (Bitfield.ofBytes [192])),
      .unknown 20 (List.replicate 20 7), .message .unchoke, .message (.piece ⟨0, 1, [8]⟩),
      .keepAlive]
    let bytes := parcels.flatMap Parcel.bytes
    let handlings : List Handling := [.feed (bytes.take 8), .ask, .feed (bytes.drop 8), .ask]
    ((start (cramped.frameLimit 2)).handle handlings).fault? = some (.tooLong 10 9) ∧
      (start (roomy.frameLimit 2)).handle handlings =
        ⟨[.bitfield (Bitfield.ofBytes [192]), .unchoke, .piece ⟨0, 1, [8]⟩, .keepAlive], none,
          start 10⟩ := by
  intro cramped roomy parcels bytes handlings
  have hanswer : (⟨0, 1, 1⟩ : Block) ∈ (Blocks.ofTorrent Job.threeBytes.torrent 0).toList := by
    rw [Blocks.toList_ofTorrent]
    decide
  have hexpects (config : Config) (hconfig : config.blockLength = 0) :
      ∀ parcel ∈ parcels, Job.threeBytes.torrent.Expects config parcel := by
    intro parcel hparcel
    simp only [parcels, List.mem_cons, List.not_mem_nil, or_false] at hparcel
    rcases hparcel with rfl | rfl | rfl | rfl | rfl
    · exact ⟨by decide, show (Bitfield.ofBytes [192]).toBytes.length = Tiling.count 2 8 by decide⟩
    · exact ⟨by decide, show Frame.lastKnown < 20 by decide⟩
    · exact ⟨by decide, trivial⟩
    · exact ⟨by decide, hconfig ▸ hanswer⟩
    · exact ⟨by decide, trivial⟩
  have hbytes : handlings.flatMap Handling.bytes = parcels.flatMap Parcel.bytes := by decide
  constructor
  · obtain ⟨-, hcramped⟩ := handle_expected (hexpects cramped rfl) hbytes
    exact (hcramped (parcels.take 3) ⟨0, 1, [8]⟩ [.keepAlive] rfl (by decide) (by simp [parcels])).2
  · obtain ⟨hroomy, -⟩ := handle_expected (hexpects roomy rfl) hbytes
    exact hroomy fun h ↦ absurd h (by decide)

end Decoder

end PeerWire
