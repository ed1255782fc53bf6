import PeerWire.Bytes

/-!
# Hexadecimal text

Bytes are written as two lower-case digits each and read in either case. A text is read in a
fixed order of checks: an even number of bytes of text, the expected length, then the digits
from left to right. Main statement: a text that is read successfully spells as many bytes as were
expected.
-/

namespace PeerWire.Text.Hex

/-- The lower-case digit for a value below sixteen. -/
def digit (n : Nat) : Char :=
  if n < 10 then Char.ofNat (48 + n) else Char.ofNat (87 + n)

/-- The digits of a byte, high half first. -/
def ofByte (b : UInt8) : List Char := [digit (b.toNat / 16), digit (b.toNat % 16)]

/-- The digits of a byte string. -/
def encode (bytes : Bytes) : String := String.ofList (bytes.flatMap ofByte)

/-- The value of a digit, in either case. -/
def value? (b : UInt8) : Option Nat :=
  let n := b.toNat
  if 48 ≤ n ∧ n ≤ 57 then some (n - 48)
  else if 65 ≤ n ∧ n ≤ 70 then some (n - 55)
  else if 97 ≤ n ∧ n ≤ 102 then some (n - 87)
  else none

/-- What can be wrong with hexadecimal text. -/
inductive Fault where
  /-- The text has an odd number of bytes. -/
  | oddLength
  /-- The text spells another number of bytes than expected. -/
  | wrongLength
  /-- A byte of the text at the given position is not a digit. -/
  | notDigit (byte : UInt8) (position : Nat)
deriving DecidableEq, Repr

/-- The bytes spelled by pairs of digits, where the first pair stands at the given position. -/
def decodePairs (position : Nat) : Bytes → Except Fault Bytes
  | high :: low :: rest =>
    match value? high, value? low with
    | none, _ => .error (.notDigit high position)
    | some _, none => .error (.notDigit low (position + 1))
    | some h, some l => (decodePairs (position + 2) rest).map (UInt8.ofNat (16 * h + l) :: ·)
  | _ => .ok []

/-- The `size` bytes that a text spells, the text given as its own bytes. -/
def decode (size : Nat) (text : Bytes) : Except Fault Bytes :=
  if text.length % 2 ≠ 0 then .error .oddLength
  else if text.length / 2 ≠ size then .error .wrongLength
  else decodePairs 0 text

/-- Pairs that are read successfully spell half as many bytes. -/
theorem length_decodePairs {position : Nat} {text bytes : Bytes}
    (h : decodePairs position text = .ok bytes) : bytes.length = text.length / 2 := by
  match text with
  | [] =>
    cases h
    rfl
  | [_] =>
    cases h
    simp
  | high :: low :: rest =>
    rw [decodePairs] at h
    split at h
    · cases h
    · cases h
    · cases hrest : decodePairs (position + 2) rest with
      | error e =>
        rw [hrest] at h
        cases h
      | ok tail =>
        rw [hrest] at h
        cases h
        simp only [List.length_cons, length_decodePairs hrest]
        omega

/-- A text that is read successfully spells the expected number of bytes. -/
theorem length_decode {size : Nat} {text bytes : Bytes} (h : decode size text = .ok bytes) :
    bytes.length = size := by
  rw [decode] at h
  split at h
  · cases h
  · split at h
    · cases h
    · next hsize =>
      rw [length_decodePairs h]
      omega

end PeerWire.Text.Hex
