import PeerWire.Error
import PeerWire.Message

/-!
# Frames

A frame is the length of what follows as a number of four bytes, then nothing, or a byte for the
kind of the message and its payload. Every message is one frame, and the payload of a frame of a
known kind spells at most one message. Main statements: the size of a message's frame, and that
the payload of a message spells it back, with its numbers cut to 32 bits and its bitfield filled
up to whole bytes; an exact message is one that loses nothing by this.
-/

namespace PeerWire

/-- What stands between two length numbers. -/
inductive Frame where
  /-- Nothing. -/
  | empty
  /-- A kind and a payload. -/
  | body (id : UInt8) (payload : Bytes)
deriving DecidableEq, Repr

namespace Frame

/-- The highest kind that has a meaning. -/
def lastKnown : UInt8 := 8

/-- The number of bytes that the length number counts. -/
def length : Frame → Nat
  | empty => 0
  | body _ payload => 1 + payload.length

/-- The frame as bytes. -/
def bytes : Frame → Bytes
  | empty => Bytes.ofWord 0
  | body id payload => Bytes.ofWord (1 + payload.length) ++ id :: payload

/-- A frame takes four bytes more than its length number counts. -/
theorem length_bytes (frame : Frame) : frame.bytes.length = 4 + frame.length := by
  cases frame with
  | empty => rfl
  | body id payload =>
    simp only [bytes, length, List.length_append, Bytes.length_ofWord, List.length_cons]
    omega

end Frame

namespace Message

/-- The payload that names a block. -/
def blockPayload (block : Block) : Bytes :=
  Bytes.ofWord block.piece ++ Bytes.ofWord block.offset ++ Bytes.ofWord block.length

/-- The frame of a message. -/
def frame : Message → Frame
  | keepAlive => .empty
  | choke => .body 0 []
  | unchoke => .body 1 []
  | interested => .body 2 []
  | notInterested => .body 3 []
  | announce index => .body 4 (Bytes.ofWord index)
  | bitfield field => .body 5 field.toBytes
  | request block => .body 6 (blockPayload block)
  | piece fragment =>
    .body 7 (Bytes.ofWord fragment.piece ++ Bytes.ofWord fragment.offset ++ fragment.data)
  | cancel block => .body 8 (blockPayload block)

/-- A message as bytes. -/
def encode (message : Message) : Bytes := message.frame.bytes

/-- How many bytes it takes to send a message. -/
def wireSize : Message → Nat
  | keepAlive => 4
  | choke | unchoke | interested | notInterested => 5
  | announce _ => 9
  | bitfield field => 5 + Tiling.count field.size 8
  | request _ | cancel _ => 17
  | piece fragment => 13 + fragment.data.length

/-- A message takes exactly its size. -/
@[simp]
theorem length_encode (message : Message) : message.encode.length = message.wireSize := by
  rw [encode, Frame.length_bytes]
  cases message <;>
    simp only [frame, Frame.length, blockPayload, wireSize, List.length_append, List.length_nil,
      Bytes.length_ofWord, Bitfield.length_toBytes] <;> omega

/-- Reads a payload that has to be empty. -/
def ofNothing (message : Message) : Bytes → Option Message
  | [] => some message
  | _ => none

/-- Reads a payload that is one number. -/
def ofNumber (make : Nat → Message) : Bytes → Option Message
  | [a, b, c, d] => some (make (Bytes.word a b c d))
  | _ => none

/-- Reads a payload that names a block. -/
def ofBlock (make : Block → Message) : Bytes → Option Message
  | [a, b, c, d, e, f, g, h, i, j, k, l] =>
    some (make ⟨Bytes.word a b c d, Bytes.word e f g h, Bytes.word i j k l⟩)
  | _ => none

/-- Reads a payload that delivers at least one byte of a block. -/
def ofFragment : Bytes → Option Message
  | a :: b :: c :: d :: e :: f :: g :: h :: first :: rest =>
    some (piece ⟨Bytes.word a b c d, Bytes.word e f g h, first :: rest⟩)
  | _ => none

/-- The message that a payload of a known kind spells, if it has the size that the kind asks. -/
def ofBody? (id : UInt8) (payload : Bytes) : Option Message :=
  match id.toNat with
  | 0 => ofNothing choke payload
  | 1 => ofNothing unchoke payload
  | 2 => ofNothing interested payload
  | 3 => ofNothing notInterested payload
  | 4 => ofNumber announce payload
  | 5 => some (bitfield (Bitfield.ofBytes payload))
  | 6 => ofBlock request payload
  | 7 => ofFragment payload
  | 8 => ofBlock cancel payload
  | _ => none

/-- What is left of a block on the wire: its numbers modulo `2 ^ 32`. -/
def onWireBlock (block : Block) : Block :=
  ⟨block.piece % Bytes.wordBound, block.offset % Bytes.wordBound, block.length % Bytes.wordBound⟩

/-- What is left of a message on the wire: its numbers modulo `2 ^ 32`, and its bitfield filled up
with zeros to whole bytes. -/
def onWire : Message → Message
  | announce index => announce (index % Bytes.wordBound)
  | bitfield field => bitfield (Bitfield.ofBytes field.toBytes)
  | request block => request (onWireBlock block)
  | piece fragment =>
    piece ⟨fragment.piece % Bytes.wordBound, fragment.offset % Bytes.wordBound, fragment.data⟩
  | cancel block => cancel (onWireBlock block)
  | message => message

/-- A block of which nothing is lost on the wire. -/
def ExactBlock (block : Block) : Prop :=
  block.piece < Bytes.wordBound ∧ block.offset < Bytes.wordBound ∧ block.length < Bytes.wordBound

instance (block : Block) : Decidable (ExactBlock block) :=
  inferInstanceAs (Decidable (_ ∧ _ ∧ _))

/-- A message of which nothing is lost on the wire: numbers below `2 ^ 32`, whole bytes of bits. -/
def Exact : Message → Prop
  | announce index => index < Bytes.wordBound
  | bitfield field => field.size % 8 = 0
  | request block | cancel block => ExactBlock block
  | piece fragment => fragment.piece < Bytes.wordBound ∧ fragment.offset < Bytes.wordBound
  | _ => True

instance (message : Message) : Decidable message.Exact :=
  match message with
  | announce index => inferInstanceAs (Decidable (index < Bytes.wordBound))
  | bitfield field => inferInstanceAs (Decidable (field.size % 8 = 0))
  | request block | cancel block => inferInstanceAs (Decidable (ExactBlock block))
  | piece fragment =>
    inferInstanceAs
      (Decidable (fragment.piece < Bytes.wordBound ∧ fragment.offset < Bytes.wordBound))
  | keepAlive | choke | unchoke | interested | notInterested => .isTrue trivial

/-- If a message delivers a block, it delivers at least one byte of it. -/
def Delivers : Message → Prop
  | piece fragment => fragment.data ≠ []
  | _ => True

instance (message : Message) : Decidable message.Delivers :=
  match message with
  | piece fragment => inferInstanceAs (Decidable (fragment.data ≠ []))
  | keepAlive | choke | unchoke | interested | notInterested => .isTrue trivial
  | announce _ | bitfield _ | request _ | cancel _ => .isTrue trivial

/-- A block of which nothing is lost is the same on the wire. -/
theorem onWireBlock_of_exact {block : Block} (h : ExactBlock block) :
    onWireBlock block = block := by
  obtain ⟨hpiece, hoffset, hlength⟩ := h
  rw [onWireBlock, Nat.mod_eq_of_lt hpiece, Nat.mod_eq_of_lt hoffset, Nat.mod_eq_of_lt hlength]

/-- A message of which nothing is lost is the same on the wire. -/
theorem onWire_of_exact {message : Message} (h : message.Exact) : message.onWire = message := by
  cases message with
  | announce index => exact congrArg announce (Nat.mod_eq_of_lt h)
  | bitfield field => exact congrArg bitfield (Bitfield.ofBytes_toBytes h)
  | request block => exact congrArg request (onWireBlock_of_exact h)
  | cancel block => exact congrArg cancel (onWireBlock_of_exact h)
  | piece fragment =>
    obtain ⟨hpiece, hoffset⟩ := h
    rw [onWire, Nat.mod_eq_of_lt hpiece, Nat.mod_eq_of_lt hoffset]
  | _ => rfl

/-- The kind of a message has a meaning. -/
theorem known_of_frame {message : Message} {id : UInt8} {payload : Bytes}
    (h : message.frame = .body id payload) : ¬Frame.lastKnown < id := by
  cases message <;> cases h <;> decide

/-- The payload of a message spells what is left of it on the wire, unless it delivers nothing. -/
theorem ofBody?_frame {message : Message} {id : UInt8} {payload : Bytes}
    (hframe : message.frame = .body id payload)
    (hdelivers : message.Delivers) :
    ofBody? id payload = some message.onWire := by
  cases message with
  | keepAlive => cases hframe
  | piece fragment =>
    cases hframe
    obtain ⟨index, offset, data⟩ := fragment
    cases data with
    | nil => exact absurd rfl hdelivers
    | cons first rest =>
      simp [ofBody?, ofFragment, Bytes.ofWord, onWire, Bytes.word_ofWord]
  | _ =>
    cases hframe
    simp [ofBody?, ofNothing, ofNumber, ofBlock, blockPayload, onWireBlock, Bytes.ofWord, onWire,
      Bytes.word_ofWord]

/-- Only an empty payload is read as nothing. -/
theorem ofNothing_eq_some_iff {message made : Message} {payload : Bytes} :
    ofNothing message payload = some made ↔ payload = [] ∧ message = made := by
  cases payload <;> simp [ofNothing]

/-- A payload that is one number is the bytes of that number. -/
theorem payload_of_ofNumber {make : Nat → Message} {payload : Bytes} {made : Message}
    (h : ofNumber make payload = some made) :
    ∃ n < Bytes.wordBound, made = make n ∧ payload = Bytes.ofWord n := by
  rw [ofNumber.eq_def] at h
  split at h
  · cases h
    exact ⟨_, Bytes.word_lt _ _ _ _, rfl, (Bytes.ofWord_word _ _ _ _).symm⟩
  · cases h

/-- A payload that names a block is the payload of that block. -/
theorem payload_of_ofBlock {make : Block → Message} {payload : Bytes} {made : Message}
    (h : ofBlock make payload = some made) :
    ∃ block, ExactBlock block ∧ made = make block ∧ payload = blockPayload block := by
  rw [ofBlock.eq_def] at h
  split at h
  · cases h
    refine ⟨_, ⟨Bytes.word_lt _ _ _ _, Bytes.word_lt _ _ _ _, Bytes.word_lt _ _ _ _⟩, rfl, ?_⟩
    simp [blockPayload, Bytes.ofWord_word]
  · cases h

/-- A payload that delivers a block is the payload of the fragment. -/
theorem payload_of_ofFragment {payload : Bytes} {made : Message}
    (h : ofFragment payload = some made) :
    ∃ fragment, made = piece fragment ∧ (piece fragment).Exact ∧ (piece fragment).Delivers ∧
      payload = Bytes.ofWord fragment.piece ++ Bytes.ofWord fragment.offset ++ fragment.data := by
  rw [ofFragment.eq_def] at h
  split at h
  · cases h
    refine ⟨_, rfl, ⟨Bytes.word_lt _ _ _ _, Bytes.word_lt _ _ _ _⟩, List.cons_ne_nil _ _, ?_⟩
    simp [Bytes.ofWord_word]
  · cases h

/-- A payload that spells a message is the payload of that message, of which nothing is lost. -/
theorem frame_of_ofBody? {message : Message} {id : UInt8} {payload : Bytes}
    (h : ofBody? id payload = some message) :
    message.frame = .body id payload ∧ message.Exact ∧ message.Delivers := by
  have hid {n : Nat} (hn : id.toNat = n) : id = UInt8.ofNat n := by rw [← hn, UInt8.ofNat_toNat]
  rw [ofBody?] at h
  split at h
  · next hn =>
    obtain ⟨rfl, rfl⟩ := ofNothing_eq_some_iff.mp h
    rw [hid hn]
    exact ⟨rfl, trivial, trivial⟩
  · next hn =>
    obtain ⟨rfl, rfl⟩ := ofNothing_eq_some_iff.mp h
    rw [hid hn]
    exact ⟨rfl, trivial, trivial⟩
  · next hn =>
    obtain ⟨rfl, rfl⟩ := ofNothing_eq_some_iff.mp h
    rw [hid hn]
    exact ⟨rfl, trivial, trivial⟩
  · next hn =>
    obtain ⟨rfl, rfl⟩ := ofNothing_eq_some_iff.mp h
    rw [hid hn]
    exact ⟨rfl, trivial, trivial⟩
  · next hn =>
    obtain ⟨n, hbound, rfl, rfl⟩ := payload_of_ofNumber h
    rw [hid hn]
    exact ⟨rfl, hbound, trivial⟩
  · next hn =>
    cases h
    rw [hid hn, frame, Bitfield.toBytes_ofBytes]
    refine ⟨rfl, ?_, trivial⟩
    rw [Exact, Bitfield.size_ofBytes]
    omega
  · next hn =>
    obtain ⟨block, hexact, rfl, rfl⟩ := payload_of_ofBlock h
    rw [hid hn]
    exact ⟨rfl, hexact, trivial⟩
  · next hn =>
    obtain ⟨fragment, rfl, hexact, hdelivers, rfl⟩ := payload_of_ofFragment h
    rw [hid hn]
    exact ⟨rfl, hexact, hdelivers⟩
  · next hn =>
    obtain ⟨block, hexact, rfl, rfl⟩ := payload_of_ofBlock h
    rw [hid hn]
    exact ⟨rfl, hexact, trivial⟩
  · cases h

/-- A payload spells a message exactly when it is the payload of that message and nothing

is lost. -/
theorem ofBody?_eq_some_iff {message : Message} {id : UInt8} {payload : Bytes} :
    ofBody? id payload = some message ↔
      message.frame = .body id payload ∧ message.Exact ∧ message.Delivers := by
  constructor
  · exact frame_of_ofBody?
  · rintro ⟨hframe, hexact, hdelivers⟩
    rw [ofBody?_frame hframe hdelivers, onWire_of_exact hexact]

end Message

end PeerWire
