import PeerWire.Proofs.Safety

/-!
# Pieces and blocks cover the file

A span is a range of positions. Spans tile a length when none of them is empty, each of them starts
where the one before ends, and together they have every position of the length and no other. Main
statement: the pieces of a file tile it, and so do the blocks that a walk through it yields, none of
which crosses the end of a piece. A walk always knows how many blocks are still to come, and if the
length of the file and that of a piece together fit into a word, so does all that is computed on the
way.
-/

namespace PeerWire

/-! ### Spans -/

/-- A range of positions. -/
structure Span where
  /-- The first position. -/
  start : Nat
  /-- How many positions there are. -/
  length : Nat
deriving DecidableEq, Repr

namespace Span

/-- The position behind the last one. -/
def stop (span : Span) : Nat := span.start + span.length

/-- A position is one of the span. -/
def Has (span : Span) (position : Nat) : Prop := span.start ≤ position ∧ position < span.stop

/-- Spans tile a length. -/
structure Tile (total : Nat) (spans : List Span) : Prop where
  /-- None of them is empty. -/
  nonempty : ∀ span ∈ spans, 0 < span.length
  /-- Each of them starts where the one before ends. -/
  adjacent : spans.IsChain fun span next ↦ span.stop = next.start
  /-- They are in ascending order and do not overlap. -/
  ascending : spans.Pairwise fun span later ↦ span.stop ≤ later.start
  /-- They have the positions below the length, and no others. -/
  covers : ∀ position, (∃ span ∈ spans, span.Has position) ↔ position < total

/-- Spans that are not empty lie one behind the other, from one position up to another. -/
inductive Row : Nat → List Span → Nat → Prop where
  /-- Between a position and itself there are none. -/
  | nil (position : Nat) : Row position [] position
  /-- The first one starts at the position, and the others lie behind it. -/
  | cons {first last : Nat} {span : Span} {spans : List Span} (start : span.start = first)
      (nonempty : 0 < span.length) (behind : Row span.stop spans last) :
      Row first (span :: spans) last

variable {first middle last total : Nat} {span : Span} {spans others : List Span}

/-- Rows are put one behind the other. -/
theorem Row.append (h : Row first spans middle) (hothers : Row middle others last) :
    Row first (spans ++ others) last := by
  induction h with
  | nil => exact hothers
  | cons start nonempty _ ih => exact .cons start nonempty (ih hothers)

/-- A span is put behind a row. -/
theorem Row.concat (h : Row first spans span.start) (hspan : 0 < span.length) :
    Row first (spans ++ [span]) span.stop :=
  h.append (.cons rfl hspan (.nil span.stop))

/-- A row has at least as many positions as spans. -/
theorem Row.add_length_le (h : Row first spans last) : first + spans.length ≤ last := by
  induction h with
  | nil => exact Nat.le_refl _
  | @cons first last span spans start nonempty _ ih =>
    rw [List.length_cons]
    rw [stop] at ih
    omega

/-- Every span of a row lies within it, and is not empty. -/
theorem Row.within (h : Row first spans last) :
    ∀ span ∈ spans, first ≤ span.start ∧ span.stop ≤ last ∧ 0 < span.length := by
  induction h with
  | nil => simp
  | @cons first last span spans start nonempty behind ih =>
    intro other hother
    obtain rfl | hother := List.mem_cons.mp hother
    · have hrest := behind.add_length_le
      exact ⟨Nat.le_of_eq start.symm, by omega, nonempty⟩
    · obtain ⟨hstart, hstop, hpos⟩ := ih other hother
      rw [stop] at hstart
      exact ⟨by omega, hstop, hpos⟩

/-- A row has every position from the first one up to the last. -/
theorem Row.exists_has (h : Row first spans last) {position : Nat} (hfirst : first ≤ position)
    (hlast : position < last) : ∃ span ∈ spans, span.Has position := by
  induction h with
  | nil => omega
  | @cons first last span spans start _ _ ih =>
    by_cases hbehind : span.stop ≤ position
    · obtain ⟨other, hother, hhas⟩ := ih hbehind hlast
      exact ⟨other, List.mem_cons_of_mem _ hother, hhas⟩
    · exact ⟨span, List.mem_cons_self, by omega, by omega⟩

/-- In a row each span starts where the one before ends. -/
theorem Row.isChain (h : Row first spans last) :
    spans.IsChain fun span next ↦ span.stop = next.start := by
  induction h with
  | nil => exact .nil
  | cons _ _ behind ih =>
    cases behind with
    | nil => exact .singleton _
    | cons start _ _ => exact .cons_cons start.symm ih

/-- In a row every span ends before the later ones. -/
theorem Row.pairwise (h : Row first spans last) :
    spans.Pairwise fun span later ↦ span.stop ≤ later.start := by
  induction h with
  | nil => exact .nil
  | cons _ _ behind ih => exact .cons (fun later hlater ↦ (behind.within later hlater).1) ih

/-- A row from zero tiles the length that it comes to. -/
theorem Row.tile (h : Row 0 spans total) : Tile total spans where
  nonempty span hspan := (h.within span hspan).2.2
  adjacent := h.isChain
  ascending := h.pairwise
  covers position := by
    constructor
    · rintro ⟨span, hspan, -, hlast⟩
      exact Nat.lt_of_lt_of_le hlast (h.within span hspan).2.1
    · intro hlast
      exact h.exists_has (Nat.zero_le _) hlast

/-- The first tiles of a length, moved by some distance, are a row. -/
theorem row_tiles (base : Nat) {size n : Nat} (hsize : 0 < size) (h : n ≤ Tiling.count total size) :
    Row base
      ((List.range n).map fun i ↦ ⟨base + Tiling.start size i, Tiling.length total size i⟩)
      (base + min (Tiling.start size n) total) := by
  induction n with
  | zero =>
    have hzero : base + min (Tiling.start size 0) total = base := by simp [Tiling.start]
    rw [hzero]
    exact .nil base
  | succ n ih =>
    -- as long as there is a next tile, those before it end where it starts
    have hstart := (Tiling.lt_count_iff hsize).mp h
    have hrow := ih (Nat.le_of_succ_le h)
    rw [Nat.min_eq_left (Nat.le_of_lt hstart)] at hrow
    rw [List.range_succ, List.map_append, ← Tiling.start_add_length hsize h, ← Nat.add_assoc]
    exact hrow.concat (Tiling.length_pos hsize h)

/-- The tiles of a length, moved by some distance, are a row as long as it. -/
theorem row_tiles_count (base total : Nat) {size : Nat} (hsize : 0 < size) :
    Row base
      ((List.range (Tiling.count total size)).map fun i ↦
        ⟨base + Tiling.start size i, Tiling.length total size i⟩)
      (base + total) := by
  have hrow := row_tiles base hsize (Nat.le_refl (Tiling.count total size))
  rwa [Nat.min_eq_right (Tiling.le_start_count total hsize)] at hrow

end Span

/-! ### Pieces and blocks -/

namespace Torrent

variable (torrent : Torrent) (blockSize : Nat)

/-- Where a piece lies in the file. -/
def pieceSpan (index : Nat) : Span := ⟨torrent.pieceOffset index, torrent.pieceSize index⟩

/-- Where a block lies in the file. -/
def blockSpan (block : Block) : Span :=
  ⟨torrent.pieceOffset block.piece + block.offset, block.length⟩

/-- Adds the number of blocks in a piece to a number, if all that is needed for it can be formed. -/
def checkedAddBlocks (sum index : Nat) : Option Nat := do
  match ← torrent.checkedPiece index with
  | none => some sum
  | some info => Word.add? sum (Tiling.count info.length (max blockSize 1))

variable {torrent blockSize}

/-- The pieces are a row from the start of the file to its end. -/
theorem row_pieces :
    Span.Row 0 ((List.range torrent.pieceCount).map torrent.pieceSpan) torrent.totalLength := by
  have hrow := Span.row_tiles_count 0 torrent.totalLength torrent.pieceLength_pos
  simp only [Nat.zero_add] at hrow
  rw [pieceCount_eq]
  exact hrow

/-- The blocks of a piece are a row from its start to its end. -/
theorem row_pieceBlocks (index : Nat) :
    Span.Row (torrent.pieceOffset index)
      ((torrent.pieceBlocks blockSize index).map torrent.blockSpan)
      (torrent.pieceOffset index + torrent.pieceSize index) := by
  rw [pieceBlocks, List.map_map]
  exact Span.row_tiles_count (torrent.pieceOffset index) (torrent.pieceSize index) blockSize_pos

/-- The blocks of the first pieces are a row from the start of the file to where those end. -/
theorem row_blocks {n : Nat} (h : n ≤ torrent.pieceCount) :
    Span.Row 0 (((List.range n).flatMap (torrent.pieceBlocks blockSize)).map torrent.blockSpan)
      (torrent.lengthBefore n) := by
  induction n with
  | zero =>
    have hzero : torrent.lengthBefore 0 = 0 := Nat.zero_min _
    rw [hzero]
    exact .nil 0
  | succ n ih =>
    have hrow := ih (Nat.le_of_succ_le h)
    rw [lengthBefore_of_lt h] at hrow
    rw [List.range_succ, List.flatMap_append, List.map_append, List.flatMap_singleton,
      ← pieceOffset_add_pieceSize h]
    exact hrow.append (row_pieceBlocks n)

/-- In the first pieces there are no more blocks than the file has bytes. -/
theorem length_flatMap_pieceBlocks_le {n : Nat} (h : n ≤ torrent.pieceCount) :
    ((List.range n).flatMap (torrent.pieceBlocks blockSize)).length ≤ torrent.totalLength := by
  have hrow : Span.Row 0 (((List.range n).flatMap (torrent.pieceBlocks blockSize)).map
      torrent.blockSpan) (torrent.lengthBefore n) := row_blocks h
  have hlength := hrow.add_length_le
  have hbefore : torrent.lengthBefore n ≤ torrent.totalLength := Nat.min_le_right _ _
  rw [List.length_map] at hlength
  omega

end Torrent

namespace Blocks

variable {torrent : Torrent} {blockSize : Nat} {blocks : Blocks}

/-- A position after so many further steps; behind the last block it stays. -/
def after (blocks : Blocks) : Nat → Blocks
  | 0 => blocks
  | n + 1 => ((blocks.after n).next?.map Prod.snd).getD (blocks.after n)

/-- The start of a torrent's blocks, if all that is needed to count them can be formed. -/
def checkedOfTorrent (torrent : Torrent) (blockSize : Nat) : Option Blocks := do
  let remaining ← (List.range torrent.pieceCount).foldlM (torrent.checkedAddBlocks blockSize) 0
  some { ofTorrent torrent blockSize with remaining := remaining }

/-- The next block is the first one still to come. -/
theorem map_fst_next? (blocks : Blocks) : blocks.next?.map Prod.fst = blocks.toList.head? := by
  cases hnext : blocks.next? with
  | none =>
    rw [toList_of_next?_eq_none hnext]
    rfl
  | some result =>
    rw [toList_of_next? hnext]
    rfl

/-- After some steps the blocks behind those that they yielded are still to come. -/
theorem toList_after (blocks : Blocks) (n : Nat) :
    (blocks.after n).toList = blocks.toList.drop n := by
  induction n with
  | zero => rfl
  | succ n ih =>
    rw [← List.drop_drop, ← ih, after]
    cases hnext : (blocks.after n).next? with
    | none =>
      have hnone := toList_of_next?_eq_none hnext
      simp [hnone]
    | some result => simp [toList_of_next? hnext]

/-- A walk through a file is always at one of its positions. -/
theorem exists_after_eq_reached (torrent : Torrent) (blockSize n : Nat) :
    ∃ index position, torrent.IsPosition blockSize index position ∧
      (ofTorrent torrent blockSize).after n = reached torrent blockSize index position := by
  induction n with
  | zero => exact ⟨0, 0, Torrent.isPosition_start, ofTorrent_eq⟩
  | succ n ih =>
    obtain ⟨index, position, hposition, hreached⟩ := ih
    rw [after, hreached]
    cases hnext : (reached torrent blockSize index position).next? with
    | none => exact ⟨index, position, hposition, rfl⟩
    | some result => exact exists_of_next?_reached hposition hnext

section Checked

variable (hbound : torrent.totalLength + torrent.pieceLength < Word.bound)
include hbound

/-- The blocks of the first pieces can be counted. -/
theorem foldlM_checkedAddBlocks {n : Nat} (h : n ≤ torrent.pieceCount) :
    (List.range n).foldlM (torrent.checkedAddBlocks blockSize) 0 =
      some ((List.range n).flatMap (torrent.pieceBlocks blockSize)).length := by
  induction n with
  | zero => rfl
  | succ n ih =>
    obtain ⟨digest, -, hpiece⟩ := Torrent.piece?_of_lt h
    have hlength : ((List.range (n + 1)).flatMap (torrent.pieceBlocks blockSize)).length ≤
        torrent.totalLength := Torrent.length_flatMap_pieceBlocks_le h
    have hcount : (torrent.pieceBlocks blockSize n).length =
        Tiling.count (torrent.pieceSize n) (max blockSize 1) := by
      rw [Torrent.pieceBlocks, List.length_map, List.length_range, Torrent.blockCount]
    rw [List.range_succ, List.flatMap_append, List.flatMap_singleton, List.length_append] at hlength
    have hadd := Word.add?_of_lt (Nat.lt_of_le_of_lt hlength (by omega))
    rw [List.range_succ, List.foldlM_append, ih (Nat.le_of_succ_le h), List.flatMap_append,
      List.flatMap_singleton, List.length_append, ← hadd, hcount]
    simp only [Option.bind_eq_bind, Option.bind_some, List.foldlM_cons, List.foldlM_nil,
      Torrent.checkedAddBlocks, Torrent.checkedPiece_eq hbound, hpiece, Option.pure_def,
      Option.bind_fun_some]

/-- A walk through a file can be started. -/
theorem checkedOfTorrent_eq :
    checkedOfTorrent torrent blockSize = some (ofTorrent torrent blockSize) := by
  have hremaining : (torrent.blocks blockSize).length =
      (ofTorrent torrent blockSize).remaining := by
    rw [← toList_ofTorrent, length_toList]
  rw [checkedOfTorrent, foldlM_checkedAddBlocks hbound (Nat.le_refl _)]
  exact congrArg (fun n ↦ some { ofTorrent torrent blockSize with remaining := n }) hremaining

/-- Wherever a walk through a file is, it can go on. -/
theorem checkedNext_after (n : Nat) :
    ((ofTorrent torrent blockSize).after n).checkedNext =
      some ((ofTorrent torrent blockSize).after n).next? := by
  obtain ⟨index, position, hposition, hreached⟩ := exists_after_eq_reached torrent blockSize n
  rw [hreached]
  exact checkedNext_eq_of_inside (inside_reached hbound hposition)

end Checked

end Blocks

namespace Torrent

variable {torrent : Torrent} {blockSize : Nat}

/-- If the length of a file and that of a piece together fit into a word, the pieces tile the file,
and so do the blocks that a walk through it yields. All that is computed for them fits into a word:
the lengths of the pieces, which are zero past the last one, the number of blocks, and each step of
the walk. No block goes past the end of its piece, and each is as long as blocks are unless it ends
there. After any number of steps as many blocks are counted as are still to come. -/
theorem tile_pieces_and_blocks (torrent : Torrent) (blockSize : Nat)
    (hbound : torrent.totalLength + torrent.pieceLength < Word.bound) :
    let walk := Blocks.ofTorrent torrent blockSize
    Span.Tile torrent.totalLength ((List.range torrent.pieceCount).map torrent.pieceSpan) ∧
      (∀ index < torrent.pieceCount,
        torrent.checkedSize index = some (torrent.pieceSize index)) ∧
      (∀ index, torrent.pieceCount ≤ index →
        torrent.pieceOffset index + torrent.pieceLength < Word.bound →
        torrent.checkedSize index = some 0) ∧
      Blocks.checkedOfTorrent torrent blockSize = some walk ∧
      Span.Tile torrent.totalLength (walk.toList.map torrent.blockSpan) ∧
      (∀ block ∈ walk.toList, block.piece < torrent.pieceCount ∧
        block.offset + block.length ≤ torrent.pieceSize block.piece ∧
        block.length ≤ max blockSize 1 ∧
        (block.length = max blockSize 1 ∨
          block.offset + block.length = torrent.pieceSize block.piece)) ∧
      ∀ n, (walk.after n).checkedNext = some (walk.after n).next? ∧
        (walk.after n).next?.map Prod.fst = walk.toList[n]? ∧
        (walk.after n).remaining = (walk.toList.drop n).length := by
  intro walk
  have hlist : walk.toList = torrent.blocks blockSize := Blocks.toList_ofTorrent
  refine ⟨row_pieces.tile, fun index hindex ↦ checkedSize_of_lt hbound hindex, ?_,
    Blocks.checkedOfTorrent_eq hbound, ?_, ?_, ?_⟩
  · intro index houtside hfits
    rw [checkedSize_eq hfits, pieceSize]
    rw [pieceCount_eq] at houtside
    exact congrArg some (Tiling.length_eq_zero torrent.pieceLength_pos houtside)
  · have hrow : Span.Row 0 ((torrent.blocks blockSize).map torrent.blockSpan)
        (torrent.lengthBefore torrent.pieceCount) := row_blocks (Nat.le_refl _)
    rw [lengthBefore_pieceCount] at hrow
    rw [hlist]
    exact hrow.tile
  · intro block hblock
    rw [hlist] at hblock
    obtain ⟨hpiece, hwithin⟩ := within_of_mem_blocks hblock
    exact ⟨hpiece, hwithin, (length_of_mem_blocks hblock).2⟩
  · intro n
    refine ⟨Blocks.checkedNext_after hbound n, ?_, ?_⟩
    · rw [Blocks.map_fst_next?, Blocks.toList_after, List.head?_drop]
    · rw [← Blocks.toList_after, Blocks.length_toList]

/-- Twelve bytes in pieces of five. -/
def twelveBytes : Torrent := ⟨.zero, 5, 12, List.replicate 3 .zero, by decide, rfl⟩

/-- Blocks of two cut each of these pieces anew, and behind three of them four are left. -/
theorem tile_twelveBytes :
    twelveBytes.totalLength + twelveBytes.pieceLength < Word.bound ∧
      Span.Tile 12 [⟨0, 5⟩, ⟨5, 5⟩, ⟨10, 2⟩] ∧
      Span.Tile 12 [⟨0, 2⟩, ⟨2, 2⟩, ⟨4, 1⟩, ⟨5, 2⟩, ⟨7, 2⟩, ⟨9, 1⟩, ⟨10, 2⟩] ∧
      twelveBytes.checkedSize 3 = some 0 ∧
      ((Blocks.ofTorrent twelveBytes 2).after 3).remaining = 4 := by
  have hbound : twelveBytes.totalLength + twelveBytes.pieceLength < Word.bound := by decide
  obtain ⟨hpieces, -, hpast, -, hblocks, -, hafter⟩ := tile_pieces_and_blocks twelveBytes 2 hbound
  obtain ⟨-, -, hleft⟩ := hafter 3
  rw [Blocks.toList_ofTorrent] at hblocks hleft
  exact ⟨hbound, hpieces, hblocks, hpast 3 (Nat.le_refl 3) (by decide), hleft⟩

end Torrent

end PeerWire
