import PeerWire.Block
import PeerWire.Torrent

/-!
# The blocks of a file

Every piece is cut into blocks of one size, the last of which may be shorter, and the blocks are
yielded in the order of the file: piece 0 from its start, then piece 1, and so on. The number of
blocks still to come is known from the beginning. Main statements: each step yields one block and
leaves one less to come, and the list of blocks is as long as the number still to come.
-/

namespace PeerWire

/-- A position in the blocks of a file. -/
structure Blocks where
  /-- The length of every piece but the last. -/
  pieceLength : Nat
  /-- The length of the file. -/
  totalLength : Nat
  /-- The length of every block but the last of its piece. -/
  blockSize : Nat
  /-- The piece of the next block. -/
  piece : Nat
  /-- Where the next block starts within its piece. -/
  offset : Nat
  /-- How many blocks are still to come. -/
  remaining : Nat
deriving DecidableEq, Repr

namespace Blocks

/-- The start of a torrent's blocks; a block has at least one byte. -/
def ofTorrent (torrent : Torrent) (blockSize : Nat) : Blocks where
  pieceLength := torrent.pieceLength
  totalLength := torrent.totalLength
  blockSize := max blockSize 1
  piece := 0
  offset := 0
  remaining := (torrent.pieces.map fun p ↦ Tiling.count p.length (max blockSize 1)).foldr (· + ·) 0

/-- The length of the piece of the next block. -/
def pieceEnd (blocks : Blocks) : Nat :=
  Tiling.length blocks.totalLength blocks.pieceLength blocks.piece

/-- The next block. -/
def head (blocks : Blocks) : Block where
  piece := blocks.piece
  offset := blocks.offset
  length := min blocks.blockSize (blocks.pieceEnd - blocks.offset)

/-- The position after the next block. -/
def tail (blocks : Blocks) : Blocks :=
  let reached := blocks.offset + blocks.head.length
  if reached = blocks.pieceEnd then
    { blocks with piece := blocks.piece + 1, offset := 0, remaining := blocks.remaining - 1 }
  else { blocks with offset := reached, remaining := blocks.remaining - 1 }

/-- The next block and the position after it, if there is one. -/
def next? (blocks : Blocks) : Option (Block × Blocks) :=
  if blocks.remaining = 0 then none else some (blocks.head, blocks.tail)

/-- Moving on leaves one block less to come. -/
@[simp]
theorem remaining_tail (blocks : Blocks) : blocks.tail.remaining = blocks.remaining - 1 := by
  rw [tail]
  split <;> rfl

/-- All the blocks still to come. -/
def toList (blocks : Blocks) : List Block :=
  if _h : blocks.remaining = 0 then [] else blocks.head :: toList blocks.tail
termination_by blocks.remaining
decreasing_by
  rw [remaining_tail]
  omega

/-- There is no next block exactly when none is still to come. -/
theorem next?_eq_none_iff {blocks : Blocks} : blocks.next? = none ↔ blocks.remaining = 0 := by
  rw [next?]
  split <;> simp_all

/-- The blocks still to come start with the next one. -/
theorem toList_of_next? {blocks rest : Blocks} {block : Block}
    (h : blocks.next? = some (block, rest)) : blocks.toList = block :: rest.toList := by
  rw [next?] at h
  split at h
  · cases h
  · next hpos =>
    cases h
    rw [toList, dif_neg hpos]

/-- When no block is left the list is empty. -/
theorem toList_of_next?_eq_none {blocks : Blocks} (h : blocks.next? = none) :
    blocks.toList = [] := by
  rw [toList, dif_pos (next?_eq_none_iff.mp h)]

/-- There are as many blocks as are counted. -/
@[simp]
theorem length_toList (blocks : Blocks) : blocks.toList.length = blocks.remaining := by
  fun_induction toList blocks with
  | case1 blocks h => simp [h]
  | case2 blocks h ih =>
    rw [List.length_cons, ih, remaining_tail]
    omega

end Blocks

end PeerWire
