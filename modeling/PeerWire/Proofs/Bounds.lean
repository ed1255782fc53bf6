import Mathlib.Data.List.Perm.Subperm
import PeerWire.Connection
import PeerWire.Proofs.Domains
import PeerWire.Proofs.Ledger
import PeerWire.Proofs.Progress

/-!
# What keeps a count within bounds

A subtraction has its number to subtract from because of what is known elsewhere: a peer's pieces
are distinct and below the number of pieces, a tally has no entry of zero, and a walk through a
file is before one of its blocks as long as one is left. Main statements: the pieces a peer lacks
can always be counted, a late answer can always be taken off, and a walk can always go on, whatever
is done to the peer, the tally and the window.
-/

namespace PeerWire

/-! ### Pieces that a peer lacks -/

namespace Bitfield

/-- The members are in ascending order. -/
theorem pairwise_membersFrom (position : Nat) (bits : List Bool) :
    (membersFrom position bits).Pairwise (· < ·) := by
  induction bits generalizing position with
  | nil => exact .nil
  | cons bit bits ih =>
    rw [membersFrom]
    split
    · exact List.pairwise_cons.mpr ⟨fun i hi ↦ (mem_membersFrom.mp hi).1, ih (position + 1)⟩
    · exact ih (position + 1)

/-- Each of them is there once. -/
theorem nodup_membersFrom (position : Nat) (bits : List Bool) :
    (membersFrom position bits).Nodup := (pairwise_membersFrom position bits).imp Nat.ne_of_lt

end Bitfield

namespace Peer

variable {peer after : Peer}

/-- How many pieces the peer has not announced, if it has not announced more than there are. -/
def checkedMissing (peer : Peer) : Option Nat := Word.sub? peer.pieceCount peer.pieces.length

/-- The pieces that a peer has announced are distinct pieces of the torrent. -/
structure Sound (peer : Peer) : Prop where
  /-- They are distinct. -/
  nodup : peer.pieces.Nodup
  /-- They are pieces of the torrent. -/
  lt_pieceCount : ∀ piece ∈ peer.pieces, piece < peer.pieceCount

/-- A peer cannot announce more pieces than there are. -/
theorem Sound.length_le (h : peer.Sound) : peer.pieces.length ≤ peer.pieceCount := by
  have hsubset : peer.pieces ⊆ List.range peer.pieceCount := fun piece hpiece ↦
    List.mem_range.mpr (h.lt_pieceCount piece hpiece)
  have hlength := (h.nodup.subperm hsubset).length_le
  rwa [List.length_range] at hlength

/-- What a peer lacks can be counted. -/
theorem Sound.checkedMissing_eq (h : peer.Sound) : peer.checkedMissing = some peer.missing :=
  Word.sub?_of_le h.length_le

/-- A peer that has announced nothing has announced nothing else. -/
theorem sound_of_eq_nil (h : peer.pieces = []) : peer.Sound where
  nodup := h ▸ List.nodup_nil
  lt_pieceCount := by simp [h]

/-- A piece is announced once, and only if the torrent has it. -/
theorem Sound.announce (h : peer.Sound) (piece : Nat) : (peer.announce piece).2.Sound := by
  rw [Peer.announce]
  split
  · exact h
  · next hlt =>
    by_cases hhas : peer.hasPiece piece = true
    · simp only [hhas, if_true]
      exact ⟨h.nodup, h.lt_pieceCount⟩
    · have hnew : piece ∉ peer.pieces := fun hmem ↦ hhas (List.contains_iff_mem.mpr hmem)
      rw [Bool.not_eq_true] at hhas
      simp only [hhas, Bool.false_eq_true, if_false]
      constructor
      · exact List.nodup_append.mpr ⟨h.nodup, List.nodup_singleton piece, by
          rintro _ hmem _ hsingle rfl
          exact hnew (List.mem_singleton.mp hsingle ▸ hmem)⟩
      · intro other hother
        rcases List.mem_append.mp hother with hmem | hmem
        · exact h.lt_pieceCount other hmem
        · rw [List.mem_singleton.mp hmem]
          exact Nat.lt_of_not_le hlt

/-- Bits past the last piece announce nothing. -/
theorem Sound.describe (h : peer.Sound) (field : Bitfield) : (peer.describe field).2.Sound := by
  simp only [Peer.describe]
  split
  · exact h
  · split
    · exact h
    · constructor
      · exact (Bitfield.nodup_membersFrom 0 field.bits).filter _
      · intro piece hpiece
        exact of_decide_eq_true (List.mem_filter.mp hpiece).2

/-- Whatever a peer says, the pieces that it has announced are distinct pieces of the torrent. -/
theorem Sound.learn (h : peer.Sound) (message : Message) : (peer.learn message).2.Sound := by
  cases message with
  | announce piece => exact h.announce piece
  | bitfield field => exact h.describe field
  | _ => exact ⟨h.nodup, h.lt_pieceCount⟩

/-- The end of a connection announces nothing. -/
theorem Sound.endWith (h : peer.Sound) (error : Error) : (peer.endWith error).Sound := by
  cases error with
  | connectionClosed =>
    simp only [Peer.endWith, close]
    split <;> exact ⟨h.nodup, h.lt_pieceCount⟩
  | _ => exact ⟨h.nodup, h.lt_pieceCount⟩

end Peer

namespace Connection

variable {σ : Type}

/-- What is known about the peer of a connection is sound. -/
def Sound (c : Connection σ) : Prop := c.peer.Sound

/-- A connection that ends stays sound. -/
theorem maintains_endWith {α : Type} (error : Error) :
    Activity.Maintains (Sound (σ := σ)) (endWith error : Activity (Connection σ) α) := by
  have hend : Activity.Maintains (Sound (σ := σ))
      (Activity.modify (withPeer fun peer ↦ peer.endWith error)) :=
    fun _ _ _ h ↦ Peer.Sound.endWith h error
  exact Activity.maintains_bind hend fun _ ↦ Activity.maintains_fail error

/-- A connection that fails stays sound. -/
theorem maintains_failWith {α : Type} (error : Error) :
    Activity.Maintains (Sound (σ := σ)) (failWith error : Activity (Connection σ) α) := by
  have hfail : Activity.Maintains (Sound (σ := σ)) (Activity.modify (withPeer Peer.fail)) :=
    fun _ _ _ h ↦ ⟨h.nodup, h.lt_pieceCount⟩
  exact Activity.maintains_bind hfail fun _ ↦ Activity.maintains_fail error

/-- A connection stays sound whatever message is taken in. -/
theorem Sound.takeIn {c : Connection σ} (h : c.Sound) (message : Message) :
    (c.takeIn message).2.Sound := Peer.Sound.learn h message

variable [Link σ]

/-- A connection stays sound whatever comes next. -/
theorem maintains_receiveNext : Activity.Maintains (Sound (σ := σ)) receiveNext := by
  have hlink : Activity.Maintains (Sound (σ := σ)) (onLink Link.receive) := fun _ _ _ h ↦ h
  refine Activity.maintains_bind (Activity.maintains_attempt hlink) fun received ↦ ?_
  cases received with
  | error error => exact maintains_endWith error
  | ok message =>
    refine Activity.maintains_bind (Activity.maintains_change fun _ h ↦ h.takeIn message)
      fun taken ↦ ?_
    cases taken with
    | error error => exact maintains_endWith error
    | ok incoming => exact Activity.maintains_pure incoming

/-- A connection stays sound while the peer's announcement is waited for. -/
theorem maintains_descriptorRound : Activity.Maintains (Sound (σ := σ)) descriptorRound := by
  have hother : Activity.Maintains (Sound (σ := σ)) (receiveOther .availability) := by
    refine Activity.maintains_bind maintains_receiveNext fun incoming ↦ ?_
    cases incoming with
    | block fragment => exact maintains_failWith _
    | _ => exact Activity.maintains_pure ()
  have hget : Activity.Maintains (Sound (σ := σ)) Activity.get := fun _ _ _ h ↦ h
  refine Activity.maintains_bind hget fun c ↦ ?_
  split
  · exact Activity.maintains_pure _
  · exact Activity.maintains_bind hother fun _ ↦ Activity.maintains_pure none

/-- Whatever a peer sends, when it has announced its pieces those that it lacks can be counted. -/
theorem checkedMissing_of_awaitDescriptor (scope : Scope) (clock : Clock) {c : Connection σ}
    (h : c.peer.pieces = []) :
    (awaitDescriptor scope clock c).state.peer.checkedMissing =
      some (awaitDescriptor scope clock c).state.peer.missing := by
  have hawait : Activity.Maintains (Sound (σ := σ)) awaitDescriptor :=
    Activity.maintains_repeatUntil maintains_descriptorRound
  exact (hawait scope clock c (Peer.sound_of_eq_nil h)).checkedMissing_eq

end Connection

/-! ### Late answers -/

namespace Tally

/-- Entries with one less for a block, which goes when none is left; nothing without an entry. The
number is made one less before it is seen whether one is left. -/
def checkedTakeFrom (block : Block) :
    List (Block × Nat) → Option (Option (List (Block × Nat)))
  | [] => some none
  | (other, n) :: rest =>
    if other = block then do
      let left ← Word.sub? n 1
      some (some (if left = 0 then rest else (other, left) :: rest))
    else (checkedTakeFrom block rest).map fun taken ↦ taken.map ((other, n) :: ·)

/-- One less for a block, or nothing if there is none. -/
def checkedTake (tally : Tally) (block : Block) : Option (Option Tally) :=
  (checkedTakeFrom block tally.entries).map fun taken ↦ taken.map mk

/-- One is taken from an entry that is not zero. -/
theorem checkedTakeFrom_eq {block : Block} {entries : List (Block × Nat)}
    (h : ∀ entry ∈ entries, 0 < entry.2) :
    checkedTakeFrom block entries = some (takeFrom? block entries) := by
  induction entries with
  | nil => rfl
  | cons entry rest ih =>
    obtain ⟨other, n⟩ := entry
    have hpos : 1 ≤ n := h (other, n) List.mem_cons_self
    rw [checkedTakeFrom, takeFrom?]
    by_cases hother : other = block
    · have hzero : (n - 1 = 0) = (n = 1) := propext (by omega)
      rw [if_pos hother, if_pos hother, Word.sub?_of_le hpos]
      simp only [Option.bind_eq_bind, Option.bind_some, hzero]
    · rw [if_neg hother, if_neg hother, ih fun entry hentry ↦ h entry (.tail _ hentry)]
      rfl

/-- A late answer can be taken off a tidy tally. -/
theorem Tidy.checkedTake_eq {tally : Tally} (h : tally.Tidy) (block : Block) :
    tally.checkedTake block = some (tally.take? block) := by
  rw [checkedTake, checkedTakeFrom_eq h.pos]
  rfl

end Tally

/-! ### Walks through a file -/

namespace Blocks

/-- The length of the piece of the next block, if it can be formed. -/
def checkedPieceEnd (blocks : Blocks) : Option Nat := do
  let start ← Word.mul? blocks.pieceLength blocks.piece
  let stop ← Word.add? start blocks.pieceLength
  Word.sub? (min stop blocks.totalLength) start

/-- The position after the next block, which ends where it is given. -/
def checkedTail (blocks : Blocks) (reached stop : Nat) : Option Blocks := do
  let fewer ← Word.sub? blocks.remaining 1
  if reached = stop then
    let piece ← Word.add? blocks.piece 1
    some { blocks with piece := piece, offset := 0, remaining := fewer }
  else some { blocks with offset := reached, remaining := fewer }

/-- The next block and the position after it, if there is one. -/
def checkedNext (blocks : Blocks) : Option (Option (Block × Blocks)) :=
  if blocks.remaining = 0 then some none
  else do
    let stop ← blocks.checkedPieceEnd
    let left ← Word.sub? stop blocks.offset
    let length := min blocks.blockSize left
    let reached ← Word.add? blocks.offset length
    let rest ← blocks.checkedTail reached stop
    some (some (⟨blocks.piece, blocks.offset, length⟩, rest))

/-- A walk that is before a block is within a piece, and the file is short enough for the sums that
are formed. -/
structure Inside (blocks : Blocks) : Prop where
  /-- The piece begins within the file. -/
  start_lt : blocks.pieceLength * blocks.piece < blocks.totalLength
  /-- The block begins within the piece. -/
  offset_le : blocks.offset ≤ blocks.pieceEnd
  /-- The end of any piece fits into a word. -/
  bound : blocks.totalLength + blocks.pieceLength < Word.bound
  /-- Pieces have a length. -/
  pieceLength_pos : 0 < blocks.pieceLength

/-- The length of a piece that begins within the file can be formed. -/
theorem Inside.checkedPieceEnd_eq {blocks : Blocks} (h : blocks.Inside) :
    blocks.checkedPieceEnd = some blocks.pieceEnd := by
  have hstart := h.start_lt
  have hbound := h.bound
  have hmul : Word.mul? blocks.pieceLength blocks.piece =
      some (blocks.pieceLength * blocks.piece) := Word.mul?_of_lt (by omega)
  have hadd : Word.add? (blocks.pieceLength * blocks.piece) blocks.pieceLength =
      some (blocks.pieceLength * blocks.piece + blocks.pieceLength) := Word.add?_of_lt (by omega)
  simp only [checkedPieceEnd, hmul, hadd, Option.bind_eq_bind, Option.bind_some]
  exact Word.sub?_of_le (by omega)

/-- A piece whose end does not fit into a word has no length that can be formed. -/
example : checkedPieceEnd ⟨2 ^ 63, 2 ^ 64 - 1, 16384, 1, 0, 1⟩ = none := by decide

/-- A walk that is before a block goes on. -/
theorem checkedNext_eq_of_inside {blocks : Blocks} (h : 0 < blocks.remaining → blocks.Inside) :
    blocks.checkedNext = some blocks.next? := by
  rw [checkedNext, next?]
  by_cases hnone : blocks.remaining = 0
  · rw [if_pos hnone, if_pos hnone]
  · have hinside := h (Nat.pos_of_ne_zero hnone)
    have hoffset := hinside.offset_le
    have hbound := hinside.bound
    have hend : blocks.pieceEnd ≤ blocks.pieceLength := Tiling.length_le _ _ _
    have hpiece : blocks.piece < blocks.totalLength :=
      Nat.lt_of_le_of_lt (Nat.le_mul_of_pos_left _ hinside.pieceLength_pos) hinside.start_lt
    have hleft : Word.sub? blocks.pieceEnd blocks.offset =
        some (blocks.pieceEnd - blocks.offset) := Word.sub?_of_le hoffset
    have hreached : Word.add? blocks.offset blocks.head.length =
        some (blocks.offset + blocks.head.length) := by
      have hlength : blocks.head.length ≤ blocks.pieceEnd - blocks.offset := Nat.min_le_right _ _
      exact Word.add?_of_lt (by omega)
    have htail : blocks.checkedTail (blocks.offset + blocks.head.length) blocks.pieceEnd =
        some blocks.tail := by
      rw [checkedTail, Word.sub?_of_le (by omega), Word.add?_of_lt (by omega), tail]
      exact (apply_ite some _ _ _).symm
    rw [if_neg hnone, if_neg hnone, hinside.checkedPieceEnd_eq]
    simp only [Option.bind_eq_bind, Option.bind_some, hleft]
    simp only [head] at hreached htail ⊢
    rw [hreached, Option.bind_some, htail]
    rfl

/-- A walk through a file that has come to a position is within a piece as long as a block is
left. -/
theorem inside_reached {torrent : Torrent} {blockSize index position : Nat}
    (hbound : torrent.totalLength + torrent.pieceLength < Word.bound)
    (hposition : torrent.IsPosition blockSize index position)
    (hleft : 0 < (reached torrent blockSize index position).remaining) :
    (reached torrent blockSize index position).Inside := by
  obtain ⟨hindex, hcount⟩ | ⟨rfl, rfl⟩ := hposition
  · have hinside := (Tiling.lt_count_iff Torrent.blockSize_pos).mp hcount
    exact {
      start_lt := Torrent.pieceOffset_lt hindex
      offset_le := Nat.le_of_lt hinside
      bound := hbound
      pieceLength_pos := torrent.pieceLength_pos }
  · rw [remaining_reached_end] at hleft
    exact absurd hleft (Nat.lt_irrefl 0)

/-- A walk that goes on from a position comes to one. -/
theorem exists_of_next?_reached {torrent : Torrent} {blockSize index position : Nat} {block : Block}
    {rest : Blocks} (hposition : torrent.IsPosition blockSize index position)
    (hnext : (reached torrent blockSize index position).next? = some (block, rest)) :
    ∃ index position, torrent.IsPosition blockSize index position ∧
      rest = reached torrent blockSize index position := by
  rw [next?] at hnext
  split at hnext
  · cases hnext
  · next hleft =>
    cases hnext
    obtain ⟨hindex, hcount⟩ | ⟨rfl, rfl⟩ := hposition
    · by_cases hmore : position + 1 < torrent.blockCount blockSize index
      · exact ⟨index, position + 1, .inl ⟨hindex, hmore⟩, tail_reached_of_lt hmore⟩
      · exact ⟨index + 1, 0, Torrent.isPosition_next hindex,
          tail_reached_of_eq hindex (by omega)⟩
    · exact absurd remaining_reached_end hleft

end Blocks

/-! ### Windows -/

namespace Window

/-- The next block to ask for, and the window without it. -/
def checkedNextBlock (w : Window) : Option (Option (Block × Window)) :=
  match w.requeued with
  | block :: rest => some (some (block, { w with requeued := rest }))
  | [] => w.fresh.checkedNext.map fun next ↦
      next.map fun (block, rest) ↦ (block, { w with fresh := rest })

/-- Asks for the next block, if one is left. -/
def checkedAsk (w : Window) : Option (Option Block × Window) := do
  match ← w.checkedNextBlock with
  | some (block, rest) => some (some block, { rest with inFlight := rest.inFlight ++ [block] })
  | none => some (none, w)

/-- Asks for up to so many blocks. -/
def checkedAskUpTo : Nat → Window → Option (List Block × Window)
  | 0, w => some ([], w)
  | n + 1, w => do
    match ← w.checkedAsk with
    | (none, w) => some ([], w)
    | (some block, w) =>
      let (blocks, w) ← checkedAskUpTo n w
      some (block :: blocks, w)

/-- Asks for as many blocks as there is room for. -/
def checkedFill (w : Window) : Option (List Block × Window) :=
  checkedAskUpTo (w.depth - w.inFlight.length) w

/-- Takes in a block that does not answer the oldest request: it has to answer a void one. -/
def checkedArriveLate (w : Window) (block : Block) (violation : Violation) :
    Option (Except Violation (Arrival × Window)) := do
  match ← w.voided.checkedTake block with
  | some voided => some (.ok (.stale, { w with voided := voided }))
  | none => some (.error violation)

/-- Takes in an arrived block: it has to answer the oldest request or a void one. -/
def checkedArrive (w : Window) (block : Block) :
    Option (Except Violation (Arrival × Window)) :=
  match w.inFlight with
  | oldest :: rest =>
    if oldest = block then do
      let (backfill, w) ← checkedAsk { w with inFlight := rest }
      some (.ok (.accepted backfill, w))
    else w.checkedArriveLate block (.unexpectedBlock oldest block)
  | [] => w.checkedArriveLate block (.unsolicited block)

/-- The walk of a window is at a position of a file, and its tally is tidy. -/
structure Sound (torrent : Torrent) (blockSize : Nat) (w : Window) : Prop where
  /-- The walk is at a position. -/
  fresh : ∃ index position, torrent.IsPosition blockSize index position ∧
    w.fresh = Blocks.reached torrent blockSize index position
  /-- The tally is tidy. -/
  voided : w.voided.Tidy

variable {torrent : Torrent} {blockSize : Nat} {w : Window}

/-- A window over the blocks of a file is sound. -/
theorem sound_start (torrent : Torrent) (blockSize depth : Nat) :
    (start (Blocks.ofTorrent torrent blockSize) depth).Sound torrent blockSize where
  fresh := ⟨0, 0, Torrent.isPosition_start, Blocks.ofTorrent_eq⟩
  voided := Tally.tidy_empty

/-- Taking the next block leaves a sound window. -/
theorem Sound.nextBlock (h : w.Sound torrent blockSize) {block : Block} {rest : Window}
    (hnext : w.nextBlock? = some (block, rest)) : rest.Sound torrent blockSize := by
  obtain ⟨index, position, hposition, hfresh⟩ := h.fresh
  rw [nextBlock?] at hnext
  split at hnext
  · cases hnext
    exact ⟨h.fresh, h.voided⟩
  · obtain ⟨⟨_, after⟩, hafter, hrest⟩ := Option.map_eq_some_iff.mp hnext
    cases hrest
    exact ⟨Blocks.exists_of_next?_reached hposition (hfresh ▸ hafter), h.voided⟩

/-- Asking for a block leaves a sound window. -/
theorem Sound.ask (h : w.Sound torrent blockSize) : w.ask.2.Sound torrent blockSize := by
  rw [Window.ask]
  split
  · next block rest hnext =>
    have hrest := h.nextBlock hnext
    exact ⟨hrest.fresh, hrest.voided⟩
  · exact h

/-- Asking for blocks leaves a sound window. -/
theorem Sound.askUpTo (h : w.Sound torrent blockSize) (n : Nat) :
    (askUpTo n w).2.Sound torrent blockSize := by
  induction n generalizing w with
  | zero => exact h
  | succ n ih =>
    have hask := h.ask
    rw [Window.askUpTo]
    split
    · next rest heq =>
      rw [heq] at hask
      exact hask
    · next block rest heq =>
      rw [heq] at hask
      exact ih hask

/-- Filling leaves a sound window. -/
theorem Sound.fill (h : w.Sound torrent blockSize) : w.fill.2.Sound torrent blockSize :=
  h.askUpTo _

/-- Voiding leaves a sound window. -/
theorem Sound.void (h : w.Sound torrent blockSize) : w.void.Sound torrent blockSize :=
  ⟨h.fresh, h.voided.addAll w.inFlight⟩

/-- An arrived block leaves a sound window. -/
theorem Sound.arrive (h : w.Sound torrent blockSize) {block : Block} {arrival : Arrival}
    {after : Window} (harrive : w.arrive block = .ok (arrival, after)) :
    after.Sound torrent blockSize := by
  by_cases holdest : w.inFlight.head? = some block
  · obtain ⟨rest, hflight⟩ := List.head?_eq_some_iff.mp holdest
    rw [arrive_of_oldest hflight] at harrive
    cases harrive
    exact Sound.ask ⟨h.fresh, h.voided⟩
  · rw [arrive_of_other holdest] at harrive
    split at harrive
    · next htake =>
      cases harrive
      exact ⟨h.fresh, h.voided.take htake⟩
    · cases harrive

/-- A block that does not answer the oldest request can be taken in. -/
theorem checkedArriveLate_eq (h : w.voided.Tidy) (block : Block) (violation : Violation) :
    w.checkedArriveLate block violation =
      some (match w.voided.take? block with
        | some voided => .ok (.stale, { w with voided := voided })
        | none => .error violation) := by
  rw [checkedArriveLate, h.checkedTake_eq]
  cases w.voided.take? block <;> rfl

section Checked

variable (hbound : torrent.totalLength + torrent.pieceLength < Word.bound)
include hbound

/-- The next block can be taken off a sound window. -/
theorem Sound.checkedNextBlock_eq (h : w.Sound torrent blockSize) :
    w.checkedNextBlock = some w.nextBlock? := by
  obtain ⟨index, position, hposition, hfresh⟩ := h.fresh
  have hchecked : w.fresh.checkedNext = some w.fresh.next? := by
    rw [hfresh]
    exact Blocks.checkedNext_eq_of_inside (Blocks.inside_reached hbound hposition)
  rw [checkedNextBlock, nextBlock?]
  cases w.requeued with
  | cons first others => rfl
  | nil => simp only [hchecked, Option.map_some]

/-- A block can be asked for. -/
theorem Sound.checkedAsk_eq (h : w.Sound torrent blockSize) : w.checkedAsk = some w.ask := by
  rw [checkedAsk, h.checkedNextBlock_eq hbound, Window.ask]
  cases w.nextBlock? <;> rfl

/-- Blocks can be asked for. -/
theorem Sound.checkedAskUpTo_eq (h : w.Sound torrent blockSize) (n : Nat) :
    checkedAskUpTo n w = some (Window.askUpTo n w) := by
  induction n generalizing w with
  | zero => rfl
  | succ n ih =>
    have hask := h.ask
    rw [checkedAskUpTo, h.checkedAsk_eq hbound, Window.askUpTo]
    generalize w.ask = asked at hask
    obtain ⟨found, rest⟩ := asked
    cases found with
    | none => rfl
    | some block =>
      have hrest : checkedAskUpTo n rest = some (Window.askUpTo n rest) := ih hask
      simp only [Option.bind_eq_bind, Option.bind_some, hrest]

/-- A sound window can be filled. -/
theorem Sound.checkedFill_eq (h : w.Sound torrent blockSize) : w.checkedFill = some w.fill :=
  h.checkedAskUpTo_eq hbound _

/-- An arrived block can be taken in. -/
theorem Sound.checkedArrive_eq (h : w.Sound torrent blockSize) (block : Block) :
    w.checkedArrive block = some (w.arrive block) := by
  obtain ⟨depth, fresh, requeued, inFlight, voided⟩ := w
  cases inFlight with
  | nil =>
    rw [arrive_of_other (by simp)]
    exact checkedArriveLate_eq h.voided block _
  | cons oldest rest =>
    have hrest : Sound torrent blockSize ⟨depth, fresh, requeued, rest, voided⟩ :=
      ⟨h.fresh, h.voided⟩
    by_cases holdest : oldest = block
    · subst holdest
      rw [arrive_of_oldest rfl]
      simp only [checkedArrive, if_true, hrest.checkedAsk_eq hbound]
      rfl
    · rw [arrive_of_other (by simpa using holdest)]
      simp only [checkedArrive, if_neg holdest]
      exact checkedArriveLate_eq h.voided block _

end Checked

end Window

end PeerWire
