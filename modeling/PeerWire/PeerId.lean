import PeerWire.Text.Hex

/-!
# Peer identities

Every client announces twenty bytes by which others tell it apart. This client's start with a
fixed tag and end in chance. Main statement: a chosen identity always carries the tag.
-/

namespace PeerWire

/-- The identity a client announces. -/
@[ext]
structure PeerId where
  /-- The bytes, in order. -/
  bytes : Bytes
  /-- There are twenty of them. -/
  length_bytes : bytes.length = 20

instance : DecidableEq PeerId := fun a b ↦
  decidable_of_decidable_of_iff (p := a.bytes = b.bytes) ⟨PeerId.ext, congrArg PeerId.bytes⟩

namespace PeerId

/-- The tag of this client and its version. -/
def tag : Bytes := "-PT0100-".toUTF8.toList

/-- The number of bytes of chance after the tag. -/
def chanceSize : Nat := 12

/-- Bytes drawn one after the other from a source of chance. -/
def draw {γ : Type} [RandomGen γ] : Nat → γ → Bytes × γ
  | 0, source => ([], source)
  | n + 1, source =>
    let (value, source) := randNat source 0 255
    let (bytes, source) := draw n source
    (UInt8.ofNat value :: bytes, source)

/-- As many bytes are drawn as were asked for. -/
theorem length_draw {γ : Type} [RandomGen γ] (n : Nat) (source : γ) :
    (draw n source).1.length = n := by
  induction n generalizing source with
  | zero => rfl
  | succ n ih => simp [draw, ih]

/-- The tag has eight bytes. -/
theorem length_tag : tag.length = 8 := by decide +kernel

/-- A new identity for this client, and the rest of the source of chance. -/
def choose {γ : Type} [RandomGen γ] (source : γ) : PeerId × γ :=
  (⟨tag ++ (draw chanceSize source).1, by
      rw [List.length_append, length_tag, length_draw, chanceSize]⟩,
    (draw chanceSize source).2)

/-- Whether a byte is an ASCII character with ink. -/
def isInk (b : UInt8) : Bool := 0x21 ≤ b && b ≤ 0x7e

/-- The identity as it is shown: as text if all of it can be seen, else in hexadecimal. -/
def text (id : PeerId) : String :=
  let inner :=
    if id.bytes.all isInk then String.ofList (id.bytes.map fun b ↦ Char.ofNat b.toNat)
    else Text.Hex.encode id.bytes
  "PeerId(" ++ inner ++ ")"

/-- A chosen identity starts with the tag. -/
theorem take_choose {γ : Type} [RandomGen γ] (source : γ) :
    (choose source).1.bytes.take 8 = tag := by
  rw [choose, List.take_append_of_le_length (Nat.le_of_eq length_tag.symm),
    List.take_of_length_le (Nat.le_of_eq length_tag)]

end PeerId

end PeerWire
