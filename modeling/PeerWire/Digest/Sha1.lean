import PeerWire.Digest

/-!
# The SHA-1 digest

The message is closed with one set bit, zeros and its length in bits, so that it fills blocks of
64 bytes. Each block is spread over eighty words and mixed into five running words in eighty
rounds. Main statement: the closed message is a whole number of blocks.
-/

namespace PeerWire.Digest.Sha1

/-- The five running words. -/
structure State where
  /-- The first word. -/
  a : UInt32
  /-- The second word. -/
  b : UInt32
  /-- The third word. -/
  c : UInt32
  /-- The fourth word. -/
  d : UInt32
  /-- The fifth word. -/
  e : UInt32

/-- The running words before the first block. -/
def State.initial : State := ⟨0x67452301, 0xefcdab89, 0x98badcfe, 0x10325476, 0xc3d2e1f0⟩

/-- A word turned left by a number of bits. -/
def rotate (w : UInt32) (n : UInt32) : UInt32 := (w <<< n) ||| (w >>> (32 - n))

/-- The running words with another block's result added word by word. -/
def State.add (s t : State) : State := ⟨s.a + t.a, s.b + t.b, s.c + t.c, s.d + t.d, s.e + t.e⟩

/-- The number of zeros between the closing bit's byte and the length. -/
def zeros (length : Nat) : Nat := (119 - length % 64) % 64

/-- The message closed by one set bit, zeros and its length in bits as eight bytes. -/
def close (message : Bytes) : Bytes :=
  message ++ 0x80 :: List.replicate (zeros message.length) 0
    ++ Bytes.ofWord (8 * message.length / Bytes.wordBound) ++ Bytes.ofWord (8 * message.length)

/-- Four bytes of a block as a word. -/
def words : Bytes → List UInt32
  | a :: b :: c :: d :: rest => UInt32.ofNat (Bytes.word a b c d) :: words rest
  | _ => []

/-- The sixteen words of a block spread over eighty. -/
def spread (block : Bytes) : Array UInt32 :=
  (List.range 64).foldl
    (fun w i ↦
      let mixed := w.getD (i + 13) 0 ^^^ w.getD (i + 8) 0 ^^^ w.getD (i + 2) 0 ^^^ w.getD i 0
      w.push (rotate mixed 1))
    (words block).toArray

/-- The mixing function and the constant of a round. -/
def mix (round : Nat) (b c d : UInt32) : UInt32 × UInt32 :=
  if round < 20 then ((b &&& c) ||| (~~~b &&& d), 0x5a827999)
  else if round < 40 then (b ^^^ c ^^^ d, 0x6ed9eba1)
  else if round < 60 then ((b &&& c) ||| (b &&& d) ||| (c &&& d), 0x8f1bbcdc)
  else (b ^^^ c ^^^ d, 0xca62c1d6)

/-- One round with its word. -/
def State.round (s : State) (number : Nat) (word : UInt32) : State :=
  let (f, k) := mix number s.b s.c s.d
  ⟨rotate s.a 5 + f + s.e + k + word, s.a, rotate s.b 30, s.c, s.d⟩

/-- The running words after a block. -/
def State.absorb (s : State) (block : Bytes) : State :=
  let w := spread block
  s.add ((List.range 80).foldl (fun t i ↦ t.round i (w.getD i 0)) s)

/-- The running words after all blocks of a closed message. -/
def absorbAll (s : State) (message : Bytes) : State :=
  match _h : Bytes.split? 64 message with
  | none => s
  | some (block, rest) => absorbAll (s.absorb block) rest
termination_by message.length
decreasing_by
  obtain ⟨rfl, hblock⟩ := Bytes.split?_eq_some_iff.mp _h
  simp only [List.length_append, hblock]
  omega

/-- The running words as bytes. -/
def State.bytes (s : State) : Bytes :=
  [s.a, s.b, s.c, s.d, s.e].flatMap fun w ↦ Bytes.ofWord w.toNat

/-- A closed message fills whole blocks. -/
theorem length_close (message : Bytes) : (close message).length % 64 = 0 := by
  simp only [close, zeros, List.length_append, List.length_cons, List.length_replicate,
    Bytes.length_ofWord]
  omega

end Sha1

/-- The SHA-1 digest of a message. -/
def sha1 (message : Bytes) : Digest :=
  ⟨(Sha1.absorbAll Sha1.State.initial (Sha1.close message)).bytes, rfl⟩

end PeerWire.Digest
