import PeerWire.Bytes
import PeerWire.Tiling

/-!
# Bitfields

A bitfield tells for each piece, in order, whether a peer has it. On the wire eight pieces share a
byte, the first in its highest bit, and spare bits at the end are zero. Main statements: bytes
survive the way to bits and back, as do bits that make up whole bytes, a bitfield takes a byte for
each eight pieces, and its members are the positions of its set bits.
-/

namespace PeerWire

/-- One bit for each piece. -/
structure Bitfield where
  /-- The bits, the first piece first. -/
  bits : List Bool
deriving DecidableEq, Repr

namespace Bitfield

/-- The eight bits of a byte, the highest first. -/
def bitsOfByte (b : UInt8) : List Bool :=
  [b.toNat.testBit 7, b.toNat.testBit 6, b.toNat.testBit 5, b.toNat.testBit 4,
    b.toNat.testBit 3, b.toNat.testBit 2, b.toNat.testBit 1, b.toNat.testBit 0]

/-- The number that bits spell, the highest first, after a number read so far. -/
def number (soFar : Nat) : List Bool → Nat
  | [] => soFar
  | bit :: bits => number (2 * soFar + bit.toNat) bits

/-- The bits of a byte string. -/
def ofBytes (bytes : Bytes) : Bitfield := ⟨bytes.flatMap bitsOfByte⟩

/-- Bits packed into bytes, the last one filled up with zeros. -/
def pack : List Bool → Bytes
  | [] => []
  | a :: b :: c :: d :: e :: f :: g :: h :: bits =>
    UInt8.ofNat (number 0 [a, b, c, d, e, f, g, h]) :: pack bits
  | bits => [UInt8.ofNat (number 0 (bits ++ List.replicate (8 - bits.length) false))]

/-- The bitfield as bytes. -/
def toBytes (field : Bitfield) : Bytes := pack field.bits

/-- The number of bits. -/
def size (field : Bitfield) : Nat := field.bits.length

/-- The bitfield, filled up with zeros to whole bytes. -/
def padded (field : Bitfield) : Bitfield :=
  ⟨field.bits ++ List.replicate ((8 - field.size % 8) % 8) false⟩

/-- The number of pieces that the peer has. -/
def count (field : Bitfield) : Nat := field.bits.count true

/-- The positions of set bits, where the first bit has the given position. -/
def membersFrom (position : Nat) : List Bool → List Nat
  | [] => []
  | bit :: bits =>
    if bit then position :: membersFrom (position + 1) bits else membersFrom (position + 1) bits

/-- The pieces that the peer has, in ascending order. -/
def members (field : Bitfield) : List Nat := membersFrom 0 field.bits

/-- The bitfield of a number of pieces of which the given ones are there. -/
def ofMembers (size : Nat) (members : List Nat) : Bitfield :=
  ⟨(List.range size).map fun i ↦ members.contains i⟩

/-- Every byte has eight bits. -/
@[simp]
theorem size_ofBytes (bytes : Bytes) : (ofBytes bytes).size = 8 * bytes.length := by
  induction bytes with
  | nil => rfl
  | cons b bytes ih =>
    simp only [size, ofBytes, List.flatMap_cons, List.length_append, List.length_cons] at *
    simp only [bitsOfByte, List.length_cons, List.length_nil]
    omega

/-- The bits of a byte spell it. -/
theorem number_bitsOfByte (b : UInt8) : UInt8.ofNat (number 0 (bitsOfByte b)) = b := by
  have all : ∀ n : Fin 256, number 0 (bitsOfByte (UInt8.ofNat n)) = n := by decide +kernel
  have := all ⟨b.toNat, b.toNat_lt⟩
  simp only [UInt8.ofNat_toNat] at this
  rw [this, UInt8.ofNat_toNat]

/-- Bytes survive the way to bits and back. -/
@[simp]
theorem toBytes_ofBytes (bytes : Bytes) : (ofBytes bytes).toBytes = bytes := by
  induction bytes with
  | nil => rfl
  | cons b bytes ih =>
    simp only [toBytes, ofBytes, List.flatMap_cons] at *
    have hcons : bitsOfByte b ++ bytes.flatMap bitsOfByte =
        b.toNat.testBit 7 :: b.toNat.testBit 6 :: b.toNat.testBit 5 :: b.toNat.testBit 4 ::
          b.toNat.testBit 3 :: b.toNat.testBit 2 :: b.toNat.testBit 1 :: b.toNat.testBit 0 ::
          bytes.flatMap bitsOfByte := rfl
    rw [hcons, pack, ih]
    exact congrArg (· :: bytes) (number_bitsOfByte b)

/-- The byte that eight bits spell has those bits. -/
theorem bitsOfByte_number (a b c d e f g h : Bool) :
    bitsOfByte (UInt8.ofNat (number 0 [a, b, c, d, e, f, g, h])) = [a, b, c, d, e, f, g, h] := by
  revert a b c d e f g h
  decide +kernel

/-- Bits that do not begin with a whole byte are fewer than eight. -/
theorem length_lt_of_not_byte {bits : List Bool}
    (h : ∀ a b c d e f g h rest, bits = a :: b :: c :: d :: e :: f :: g :: h :: rest → False) :
    bits.length < 8 := by
  rcases bits with _ | ⟨a, _ | ⟨b, _ | ⟨c, _ | ⟨d, _ | ⟨e, _ | ⟨f, _ | ⟨g, _ | ⟨h', rest⟩⟩⟩⟩⟩⟩⟩⟩
  case cons.cons.cons.cons.cons.cons.cons.cons => exact (h a b c d e f g h' rest rfl).elim
  all_goals simp

/-- The bits of a byte that eight bits spell are those bits. -/
theorem bitsOfByte_number_of_length {bits : List Bool} (h : bits.length = 8) :
    bitsOfByte (UInt8.ofNat (number 0 bits)) = bits := by
  rcases bits with _ | ⟨a, _ | ⟨b, _ | ⟨c, _ | ⟨d, _ | ⟨e, _ | ⟨f, _ | ⟨g, _ |
    ⟨h', _ | ⟨_, _⟩⟩⟩⟩⟩⟩⟩⟩⟩
  case cons.cons.cons.cons.cons.cons.cons.cons.nil => exact bitsOfByte_number a b c d e f g h'
  all_goals simp at h

/-- On the way to bytes and back bits are filled up with zeros to whole bytes. -/
theorem ofBytes_toBytes_eq_padded (field : Bitfield) : ofBytes field.toBytes = field.padded := by
  obtain ⟨bits⟩ := field
  simp only [ofBytes, toBytes, padded, size, mk.injEq]
  fun_induction pack bits with
  | case1 => rfl
  | case2 a b c d e f g h' bits ih =>
    rw [List.flatMap_cons, bitsOfByte_number, ih]
    simp only [List.length_cons, List.cons_append, List.nil_append]
    congr 10
    omega
  | case3 bits hne hshort =>
    have hlt : bits.length < 8 := length_lt_of_not_byte hshort
    have hpos : 0 < bits.length := List.length_pos_iff.mpr hne
    rw [List.flatMap_singleton, bitsOfByte_number_of_length]
    · congr 2
      omega
    · rw [List.length_append, List.length_replicate]
      omega

/-- Whole bytes of bits survive the way to bytes and back. -/
theorem ofBytes_toBytes {field : Bitfield} (h : field.size % 8 = 0) :
    ofBytes field.toBytes = field := by
  rw [ofBytes_toBytes_eq_padded, padded, h]
  simp

/-- Packed bits take a byte for each eight of them, and one more for the rest. -/
theorem length_pack (bits : List Bool) : (pack bits).length = Tiling.count bits.length 8 := by
  fun_induction pack bits with
  | case1 => rfl
  | case2 a b c d e f g h bits ih =>
    simp only [List.length_cons, ih, Tiling.count]
    split <;> split <;> omega
  | case3 bits hne hshort =>
    have hlt : bits.length < 8 := length_lt_of_not_byte hshort
    have hpos : 0 < bits.length := List.length_pos_iff.mpr hne
    simp only [List.length_singleton, Tiling.count]
    split <;> omega

/-- The packed form has a byte for each eight pieces, and one more for the rest. -/
@[simp]
theorem length_toBytes (field : Bitfield) :
    field.toBytes.length = Tiling.count field.size 8 := length_pack field.bits

/-- Zeros at the end add no members. -/
theorem membersFrom_append_replicate (position n : Nat) (bits : List Bool) :
    membersFrom position (bits ++ List.replicate n false) = membersFrom position bits := by
  induction bits generalizing position with
  | nil =>
    induction n generalizing position with
    | zero => rfl
    | succ n ih => exact ih (position + 1)
  | cons bit bits ih => simp only [List.cons_append, membersFrom, ih]

/-- Filling up adds no members. -/
@[simp]
theorem members_padded (field : Bitfield) : field.padded.members = field.members :=
  membersFrom_append_replicate 0 _ field.bits

/-- A member is the position of a set bit. -/
theorem mem_membersFrom {position i : Nat} {bits : List Bool} :
    i ∈ membersFrom position bits ↔ position ≤ i ∧ bits[i - position]? = some true := by
  induction bits generalizing position with
  | nil => simp [membersFrom]
  | cons bit bits ih =>
    have htail : i ∈ membersFrom (position + 1) bits ↔
        position < i ∧ (bit :: bits)[i - position]? = some true := by
      rw [ih]
      constructor
      · rintro ⟨hle, hget⟩
        refine ⟨by omega, ?_⟩
        rw [show i - position = i - (position + 1) + 1 by omega, List.getElem?_cons_succ]
        exact hget
      · rintro ⟨hlt, hget⟩
        refine ⟨by omega, ?_⟩
        rw [show i - position = i - (position + 1) + 1 by omega, List.getElem?_cons_succ] at hget
        exact hget
    rw [membersFrom]
    by_cases heq : i = position
    · subst heq
      cases bit <;> simp [htail]
    · cases bit <;> simp [htail, heq] <;> omega

/-- The members are the positions of the set bits. -/
theorem mem_members {field : Bitfield} {i : Nat} :
    i ∈ field.members ↔ field.bits[i]? = some true := by
  simp [members, mem_membersFrom]

end Bitfield

end PeerWire
