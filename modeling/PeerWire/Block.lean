import PeerWire.Bytes

/-!
# Blocks and fragments

A block names a range of bytes within a piece, and is what one peer asks another for. A fragment
is such a range together with its bytes, and is what comes back.
-/

namespace PeerWire

/-- A range of bytes within a piece. -/
structure Block where
  /-- The index of the piece. -/
  piece : Nat
  /-- Where the range starts within the piece. -/
  offset : Nat
  /-- How many bytes it has. -/
  length : Nat
deriving DecidableEq, Repr

/-- The bytes of a range within a piece. -/
structure Fragment where
  /-- The index of the piece. -/
  piece : Nat
  /-- Where the range starts within the piece. -/
  offset : Nat
  /-- The bytes. -/
  data : Bytes
deriving DecidableEq, Repr

/-- The range that a fragment fills. -/
def Fragment.block (f : Fragment) : Block := ⟨f.piece, f.offset, f.data.length⟩

/-- A block as it is shown. -/
def Block.text (b : Block) : String :=
  "Block \x7b piece: " ++ toString b.piece ++ ", offset: " ++ toString b.offset ++ ", length: "
    ++ toString b.length ++ " \x7d"

/-- A fragment as it is shown: its bytes are only counted. -/
def Fragment.text (f : Fragment) : String :=
  "BlockData \x7b piece: " ++ toString f.piece ++ ", offset: " ++ toString f.offset ++ ", data: <"
    ++ toString f.data.length ++ " bytes> \x7d"

end PeerWire
