import PeerWire.Text.Hex

/-!
# Digests

A digest is twenty bytes. It names a torrent, or a piece by its content, and is written as forty
hexadecimal digits. Digests are stored one after the other without separators. Main statements:
stored digests take twenty bytes each, and a stored list is read back whole.
-/

namespace PeerWire

/-- A digest of twenty bytes. -/
structure Digest where
  /-- The bytes, in order. -/
  bytes : Bytes
  /-- There are twenty of them. -/
  length_bytes : bytes.length = 20
deriving DecidableEq

namespace Digest

/-- The number of bytes in a digest. -/
def size : Nat := 20

/-- The digest of zeros. -/
def zero : Digest := ⟨List.replicate 20 0, List.length_replicate⟩

/-- Forty hexadecimal digits. -/
def hex (d : Digest) : String := Text.Hex.encode d.bytes

/-- The digest that a text of forty hexadecimal digits spells. -/
def ofHex (text : String) : Except Text.Hex.Fault Digest :=
  match h : Text.Hex.decode size text.toUTF8.toList with
  | .ok bytes => .ok ⟨bytes, Text.Hex.length_decode h⟩
  | .error fault => .error fault

/-- The digests stored one after the other, as long as twenty bytes are left. -/
def cut (bytes : Bytes) : List Digest :=
  match h : Bytes.split? size bytes with
  | none => []
  | some (front, rest) => ⟨front, (Bytes.split?_eq_some_iff.mp h).2⟩ :: cut rest
termination_by bytes.length
decreasing_by
  obtain ⟨rfl, hfront⟩ := Bytes.split?_eq_some_iff.mp h
  simp only [List.length_append, hfront, size]
  omega

/-- The digests stored one after the other, or nothing if the last one is incomplete. -/
def split? (bytes : Bytes) : Option (List Digest) :=
  if bytes.length % size = 0 then some (cut bytes) else none

/-- Digests stored one after the other. -/
def join (digests : List Digest) : Bytes := digests.flatMap bytes

/-- Cutting stored digests gives them back. -/
@[simp]
theorem cut_join (digests : List Digest) : cut (join digests) = digests := by
  induction digests with
  | nil =>
    rw [join, cut]
    rfl
  | cons d digests ih =>
    have hsplit : Bytes.split? size (d.bytes ++ join digests) = some (d.bytes, join digests) :=
      Bytes.split?_eq_some_iff.mpr ⟨rfl, d.length_bytes⟩
    have hjoin : join (d :: digests) = d.bytes ++ join digests := rfl
    rw [hjoin, cut]
    split
    · next h => simp [hsplit] at h
    · next front rest h =>
      rw [hsplit] at h
      cases h
      rw [ih]

/-- Stored digests take twenty bytes each. -/
theorem length_join (digests : List Digest) : (join digests).length = size * digests.length := by
  induction digests with
  | nil => rfl
  | cons d digests ih =>
    have hjoin : join (d :: digests) = d.bytes ++ join digests := rfl
    rw [hjoin, List.length_append, ih, d.length_bytes, List.length_cons, size]
    omega

/-- A stored list of digests is read back whole. -/
theorem split?_join (digests : List Digest) : split? (join digests) = some digests := by
  rw [split?, length_join, if_pos (Nat.mul_mod_right _ _), cut_join]

end Digest

end PeerWire
