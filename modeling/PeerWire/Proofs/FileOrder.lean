import Mathlib.Data.List.Nodup
import PeerWire.Blocks

/-!
# The blocks of a file in its order

The blocks of a file are named without walking through it: each piece is cut into blocks as a
length is cut into tiles. Main statements: a walk through the file yields exactly these blocks in
this order, each of them once, and each of them lies within its piece.
-/

namespace PeerWire

namespace Torrent

variable (torrent : Torrent) (blockSize : Nat)

/-- The number of blocks in a piece; a block has at least one byte. -/
def blockCount (index : Nat) : Nat := Tiling.count (torrent.pieceSize index) (max blockSize 1)

/-- The block at a position in a piece. -/
def blockAt (index position : Nat) : Block where
  piece := index
  offset := Tiling.start (max blockSize 1) position
  length := Tiling.length (torrent.pieceSize index) (max blockSize 1) position

/-- The blocks of a piece, in order. -/
def pieceBlocks (index : Nat) : List Block :=
  (List.range (torrent.blockCount blockSize index)).map (torrent.blockAt blockSize index)

/-- The blocks of the file, in order. -/
def blocks : List Block := (List.range torrent.pieceCount).flatMap (torrent.pieceBlocks blockSize)

/-- The number of blocks in a piece and those behind it. -/
def blocksFrom (index : Nat) : Nat :=
  ((List.range' index (torrent.pieceCount - index)).map (torrent.blockCount blockSize)).foldr
    (· + ·) 0

/-- Where a walk through the file may be: before a block, or at the end. -/
def IsPosition (index position : Nat) : Prop :=
  index < torrent.pieceCount ∧ position < torrent.blockCount blockSize index ∨
    index = torrent.pieceCount ∧ position = 0

variable {torrent blockSize}

/-- A block may have a byte at least. -/
theorem blockSize_pos : 0 < max blockSize 1 := by omega

/-- No piece is empty. -/
theorem pieceSize_pos {index : Nat} (h : index < torrent.pieceCount) :
    0 < torrent.pieceSize index := by
  apply Tiling.length_pos torrent.pieceLength_pos
  rw [← pieceCount_eq]
  exact h

/-- Every piece has a block. -/
theorem blockCount_pos {index : Nat} (h : index < torrent.pieceCount) :
    0 < torrent.blockCount blockSize index := by
  rw [blockCount, Tiling.lt_count_iff blockSize_pos]
  exact pieceSize_pos h

/-- The blocks of a piece come before those behind it. -/
theorem blocksFrom_of_lt {index : Nat} (h : index < torrent.pieceCount) :
    torrent.blocksFrom blockSize index =
      torrent.blockCount blockSize index + torrent.blocksFrom blockSize (index + 1) := by
  have hcount : torrent.pieceCount - index = torrent.pieceCount - (index + 1) + 1 := by omega
  rw [blocksFrom, hcount, List.range'_succ, List.map_cons, List.foldr_cons, blocksFrom]

/-- Behind the last piece there are no blocks. -/
theorem blocksFrom_pieceCount : torrent.blocksFrom blockSize torrent.pieceCount = 0 := by
  simp [blocksFrom]

/-- The piece behind a piece starts at a position of the walk. -/
theorem isPosition_next {index : Nat} (h : index < torrent.pieceCount) :
    torrent.IsPosition blockSize (index + 1) 0 := by
  by_cases hlast : index + 1 = torrent.pieceCount
  · exact .inr ⟨hlast, rfl⟩
  · have hlt : index + 1 < torrent.pieceCount := by omega
    exact .inl ⟨hlt, blockCount_pos hlt⟩

/-- The start of the file is a position of the walk. -/
theorem isPosition_start : torrent.IsPosition blockSize 0 0 := by
  by_cases hnone : torrent.pieceCount = 0
  · exact .inr ⟨hnone.symm, rfl⟩
  · have hpos : 0 < torrent.pieceCount := by omega
    exact .inl ⟨hpos, blockCount_pos hpos⟩

/-- A block of the file is a block of one of its pieces. -/
theorem mem_blocks_iff {block : Block} :
    block ∈ torrent.blocks blockSize ↔ ∃ index < torrent.pieceCount,
      ∃ position < torrent.blockCount blockSize index,
        torrent.blockAt blockSize index position = block := by
  simp only [blocks, pieceBlocks, List.mem_flatMap, List.mem_map, List.mem_range]

/-- A block of a piece starts where those before it end, and ends within the piece. -/
theorem offset_add_length_blockAt {index position : Nat}
    (h : position < torrent.blockCount blockSize index) :
    (torrent.blockAt blockSize index position).offset
        + (torrent.blockAt blockSize index position).length =
      min (Tiling.start (max blockSize 1) (position + 1)) (torrent.pieceSize index) :=
  Tiling.start_add_length blockSize_pos h

/-- A block of the file belongs to a piece and lies within it. -/
theorem within_of_mem_blocks {block : Block} (h : block ∈ torrent.blocks blockSize) :
    block.piece < torrent.pieceCount ∧
      block.offset + block.length ≤ torrent.pieceSize block.piece := by
  obtain ⟨index, hindex, position, hposition, rfl⟩ := mem_blocks_iff.mp h
  refine ⟨hindex, ?_⟩
  rw [offset_add_length_blockAt hposition]
  exact Nat.min_le_right _ _

/-- A block has a byte at least, and is as long as blocks are unless it ends where its piece
does. -/
theorem length_of_mem_blocks {block : Block} (h : block ∈ torrent.blocks blockSize) :
    0 < block.length ∧ block.length ≤ max blockSize 1 ∧ (block.length = max blockSize 1 ∨
      block.offset + block.length = torrent.pieceSize block.piece) := by
  obtain ⟨index, -, position, hposition, rfl⟩ := mem_blocks_iff.mp h
  refine ⟨Tiling.length_pos blockSize_pos hposition, Tiling.length_le _ _ _, ?_⟩
  have hend := offset_add_length_blockAt hposition
  have hnext : Tiling.start (max blockSize 1) (position + 1) =
      (torrent.blockAt blockSize index position).offset + max blockSize 1 := Nat.mul_succ _ _
  have hpiece : (torrent.blockAt blockSize index position).piece = index := rfl
  rw [hpiece]
  omega

/-- Blocks of a piece at different positions differ. -/
theorem position_eq_of_blockAt_eq {index i j : Nat}
    (h : torrent.blockAt blockSize index i = torrent.blockAt blockSize index j) : i = j := by
  have hoffset : Tiling.start (max blockSize 1) i = Tiling.start (max blockSize 1) j :=
    congrArg Block.offset h
  rw [Tiling.start, Tiling.start] at hoffset
  exact Nat.eq_of_mul_eq_mul_left blockSize_pos hoffset

/-- Each block of the file is there once. -/
theorem nodup_blocks : (torrent.blocks blockSize).Nodup := by
  rw [blocks, List.nodup_flatMap]
  constructor
  · intro index _
    exact List.nodup_range.map fun _ _ h ↦ position_eq_of_blockAt_eq h
  · refine List.pairwise_lt_range.imp fun {i j} hlt ↦ ?_
    intro block hi hj
    obtain ⟨_, _, rfl⟩ := List.mem_map.mp hi
    obtain ⟨_, _, heq⟩ := List.mem_map.mp hj
    have hpiece : j = i := congrArg Block.piece heq
    omega

end Torrent

namespace Blocks

open Torrent

variable (torrent : Torrent) (blockSize : Nat)

/-- A walk through the file that has come to a block of a piece. -/
def reached (index position : Nat) : Blocks where
  pieceLength := torrent.pieceLength
  totalLength := torrent.totalLength
  blockSize := max blockSize 1
  piece := index
  offset := Tiling.start (max blockSize 1) position
  remaining := torrent.blocksFrom blockSize index - position

variable {torrent blockSize}

/-- A walk starts before the first block of the first piece. -/
theorem ofTorrent_eq : ofTorrent torrent blockSize = reached torrent blockSize 0 0 := by
  have hlengths : torrent.pieces.map PieceInfo.length =
      (List.range torrent.pieceCount).map torrent.pieceSize := by
    apply List.ext_getElem
    · simp [Torrent.pieces, Torrent.pieceCount]
    · intro i hi hj
      simp [Torrent.pieces]
  have hcounts : torrent.pieces.map (fun p ↦ Tiling.count p.length (max blockSize 1)) =
      (List.range' 0 torrent.pieceCount).map (torrent.blockCount blockSize) := by
    have hmap := congrArg (List.map fun n ↦ Tiling.count n (max blockSize 1)) hlengths
    rw [List.map_map, List.map_map, List.range_eq_range'] at hmap
    exact hmap
  simp only [ofTorrent, reached, hcounts, blocksFrom, Tiling.start, Nat.mul_zero, Nat.sub_zero]

/-- The next block of a walk is the one it has come to. -/
theorem head_reached (index position : Nat) :
    (reached torrent blockSize index position).head =
      torrent.blockAt blockSize index position := by
  simp only [head, reached, pieceEnd, blockAt, Tiling.length, Torrent.pieceSize, Block.mk.injEq,
    true_and]
  omega

/-- Within a piece a walk goes on to the next block. -/
theorem tail_reached_of_lt {index position : Nat}
    (h : position + 1 < torrent.blockCount blockSize index) :
    (reached torrent blockSize index position).tail =
      reached torrent blockSize index (position + 1) := by
  have hend := offset_add_length_blockAt (Nat.lt_of_succ_lt h)
  have hinside := (Tiling.lt_count_iff blockSize_pos).mp h
  rw [Nat.min_eq_left (Nat.le_of_lt hinside)] at hend
  have hreached : (reached torrent blockSize index position).offset
      + (reached torrent blockSize index position).head.length =
        Tiling.start (max blockSize 1) (position + 1) := by
    rw [head_reached]
    exact hend
  have hne : Tiling.start (max blockSize 1) (position + 1) ≠
      (reached torrent blockSize index position).pieceEnd := Nat.ne_of_lt hinside
  rw [tail, hreached, if_neg hne]
  simp only [reached, Blocks.mk.injEq, true_and]
  omega

/-- Behind the last block of a piece a walk goes on to the next piece. -/
theorem tail_reached_of_eq {index position : Nat} (hindex : index < torrent.pieceCount)
    (h : position + 1 = torrent.blockCount blockSize index) :
    (reached torrent blockSize index position).tail =
      reached torrent blockSize (index + 1) 0 := by
  have hend := offset_add_length_blockAt (Nat.lt_of_succ_le (Nat.le_of_eq h))
  have houtside : torrent.pieceSize index ≤ Tiling.start (max blockSize 1) (position + 1) := by
    rw [h]
    exact Tiling.le_start_count _ blockSize_pos
  rw [Nat.min_eq_right houtside] at hend
  have hreached : (reached torrent blockSize index position).offset
      + (reached torrent blockSize index position).head.length =
        (reached torrent blockSize index position).pieceEnd := by
    rw [head_reached]
    exact hend
  have hfrom : torrent.blocksFrom blockSize index = _ := blocksFrom_of_lt hindex
  rw [tail, if_pos hreached]
  simp only [reached, Blocks.mk.injEq, true_and, Tiling.start, Nat.mul_zero, Nat.sub_zero]
  omega

/-- At the end of the file no block is left. -/
theorem remaining_reached_end :
    (reached torrent blockSize torrent.pieceCount 0).remaining = 0 := by
  simp [reached, blocksFrom_pieceCount]

/-- Before a block there is one left. -/
theorem remaining_reached_pos {index position : Nat} (hindex : index < torrent.pieceCount)
    (hposition : position < torrent.blockCount blockSize index) :
    0 < (reached torrent blockSize index position).remaining := by
  have hfrom : torrent.blocksFrom blockSize index = _ := blocksFrom_of_lt hindex
  simp only [reached]
  omega

/-- Before a block a walk yields it, and goes on to a position. -/
theorem toList_reached_of_lt {index position : Nat} (hindex : index < torrent.pieceCount)
    (hposition : position < torrent.blockCount blockSize index) :
    (reached torrent blockSize index position).toList =
      torrent.blockAt blockSize index position ::
        (reached torrent blockSize index position).tail.toList := by
  have hpos := remaining_reached_pos hindex hposition
  rw [toList, dif_neg (by omega), head_reached]

/-- A walk yields what is left of a piece and then the pieces behind it. -/
theorem toList_reached_piece {index position : Nat} (hindex : index < torrent.pieceCount)
    (hposition : position < torrent.blockCount blockSize index) :
    (reached torrent blockSize index position).toList =
      (List.range' position (torrent.blockCount blockSize index - position)).map
          (torrent.blockAt blockSize index)
        ++ (reached torrent blockSize (index + 1) 0).toList := by
  induction hleft : torrent.blockCount blockSize index - (position + 1)
    generalizing position with
  | zero =>
    have hlast : position + 1 = torrent.blockCount blockSize index := by omega
    have hone : torrent.blockCount blockSize index - position = 1 := by omega
    rw [toList_reached_of_lt hindex hposition, tail_reached_of_eq hindex hlast, hone]
    rfl
  | succ n ih =>
    have hmore : position + 1 < torrent.blockCount blockSize index := by omega
    have hsucc : torrent.blockCount blockSize index - position =
        torrent.blockCount blockSize index - (position + 1) + 1 := by omega
    rw [toList_reached_of_lt hindex hposition, tail_reached_of_lt hmore, ih hmore (by omega),
      hsucc, List.range'_succ, List.map_cons, List.cons_append]

/-- From the start of a piece a walk yields the blocks of all pieces from there on. -/
theorem toList_reached_start {index : Nat} (h : index ≤ torrent.pieceCount) :
    (reached torrent blockSize index 0).toList =
      (List.range' index (torrent.pieceCount - index)).flatMap (torrent.pieceBlocks blockSize) := by
  induction hleft : torrent.pieceCount - index generalizing index with
  | zero =>
    have hend : index = torrent.pieceCount := by omega
    subst hend
    rw [toList, dif_pos remaining_reached_end]
    rfl
  | succ n ih =>
    have hlt : index < torrent.pieceCount := by omega
    rw [toList_reached_piece hlt (blockCount_pos hlt), ih (by omega) (by omega), List.range'_succ,
      List.flatMap_cons, pieceBlocks, List.range_eq_range', Nat.sub_zero]

/-- A walk through the file yields its blocks in order. -/
theorem toList_ofTorrent : (ofTorrent torrent blockSize).toList = torrent.blocks blockSize := by
  rw [ofTorrent_eq, toList_reached_start (Nat.zero_le _), Nat.sub_zero, blocks,
    List.range_eq_range']

end Blocks

end PeerWire
