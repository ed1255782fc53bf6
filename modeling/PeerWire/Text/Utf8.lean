import PeerWire.Bytes

/-!
# Reading bytes as UTF-8 text

Well-formed sequences become their characters. A byte that starts no sequence, and the longest
start of a sequence that is then broken off, each become one replacement character. Main
statement: bytes below 0x80 are read one by one.
-/

namespace PeerWire.Text.Utf8

/-- The character that stands for bytes which spell none. -/
def replacement : Char := Char.ofNat 0xfffd

/-- Whether a byte can continue a sequence. -/
def isContinuation (b : UInt8) : Bool := 0x80 ≤ b && b ≤ 0xbf

/-- How many bytes a sequence with this first byte has, and the range of its second byte; nothing
if no sequence starts so. The range excludes overlong forms, surrogates and code points past the
last one. -/
def lead? (b : UInt8) : Option (Nat × UInt8 × UInt8) :=
  if 0xc2 ≤ b ∧ b ≤ 0xdf then some (2, 0x80, 0xbf)
  else if b = 0xe0 then some (3, 0xa0, 0xbf)
  else if b = 0xed then some (3, 0x80, 0x9f)
  else if 0xe1 ≤ b ∧ b ≤ 0xef then some (3, 0x80, 0xbf)
  else if b = 0xf0 then some (4, 0x90, 0xbf)
  else if 0xf1 ≤ b ∧ b ≤ 0xf3 then some (4, 0x80, 0xbf)
  else if b = 0xf4 then some (4, 0x80, 0x8f)
  else none

/-- The payload bits of a continuation byte. -/
def tailBits (b : UInt8) : Nat := b.toNat % 64

/-- The first character of a non-empty text and the number of bytes after its first byte that
belong to it. -/
def first (b : UInt8) (rest : Bytes) : Char × Nat :=
  if b < 0x80 then (Char.ofNat b.toNat, 0)
  else
    match lead? b, rest with
    | none, _ => (replacement, 0)
    | some _, [] => (replacement, 0)
    | some (size, low, high), c :: rest =>
      if ¬ (low ≤ c ∧ c ≤ high) then (replacement, 0)
      else if size = 2 then (Char.ofNat (b.toNat % 32 * 64 + tailBits c), 1)
      else
        match rest with
        | [] => (replacement, 1)
        | d :: rest =>
          if ¬ isContinuation d then (replacement, 1)
          else if size = 3 then
            (Char.ofNat (b.toNat % 16 * 4096 + tailBits c * 64 + tailBits d), 2)
          else
            match rest with
            | [] => (replacement, 2)
            | e :: _ =>
              if ¬ isContinuation e then (replacement, 2)
              else (Char.ofNat (b.toNat % 8 * 262144 + tailBits c * 4096 + tailBits d * 64 +
                tailBits e), 3)

/-- The characters that a byte string spells, with replacements where it spells none. -/
def decode : Bytes → List Char
  | [] => []
  | b :: rest => (first b rest).1 :: decode (rest.drop (first b rest).2)
termination_by bytes => bytes.length
decreasing_by
  simp only [List.length_drop, List.length_cons]
  omega

/-- An ASCII byte is read as the character with its number. -/
theorem decode_cons_of_ascii {b : UInt8} (h : b < 0x80) (rest : Bytes) :
    decode (b :: rest) = Char.ofNat b.toNat :: decode rest := by
  rw [decode]
  simp [first, h]

end PeerWire.Text.Utf8
