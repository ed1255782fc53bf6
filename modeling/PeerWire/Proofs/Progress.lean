import PeerWire.Proofs.Window
import PeerWire.Transfer

/-!
# How far a download has come

The bytes of the accepted blocks, one after the other, are the text of a download, and everything
that a download keeps about bytes is a part of its text: the pieces that were checked are the front
of the text, and the piece being put together is the rest. Main statements: the first block due
always continues the text, and is refused only if it completes a piece that does not have its
digest; no other reaction changes the text.
-/

namespace PeerWire

namespace Torrent

variable (torrent : Torrent) (hash : Bytes → Digest)

/-- The part of a content that a piece is. -/
def slice (content : Bytes) (index : Nat) : Bytes :=
  (content.drop (torrent.pieceOffset index)).take (torrent.pieceSize index)

/-- A piece of a content has the digest that the torrent gives. -/
def Vouches (content : Bytes) (index : Nat) : Prop :=
  torrent.hashes[index]? = some (hash (torrent.slice content index))

/-- The number of bytes in the pieces before one. -/
def lengthBefore (index : Nat) : Nat := min (torrent.pieceOffset index) torrent.totalLength

variable {torrent hash}

/-- A piece starts inside the file. -/
theorem pieceOffset_lt {index : Nat} (h : index < torrent.pieceCount) :
    torrent.pieceOffset index < torrent.totalLength := by
  rw [pieceCount_eq] at h
  exact (Tiling.lt_count_iff torrent.pieceLength_pos).mp h

/-- Before a piece there are as many bytes as its start tells. -/
theorem lengthBefore_of_lt {index : Nat} (h : index < torrent.pieceCount) :
    torrent.lengthBefore index = torrent.pieceOffset index :=
  Nat.min_eq_left (Nat.le_of_lt (pieceOffset_lt h))

/-- A piece ends where the next one starts, or at the end of the file. -/
theorem pieceOffset_add_pieceSize {index : Nat} (h : index < torrent.pieceCount) :
    torrent.pieceOffset index + torrent.pieceSize index = torrent.lengthBefore (index + 1) := by
  rw [pieceCount_eq] at h
  exact Tiling.start_add_length torrent.pieceLength_pos h

/-- Behind the last piece the whole file has come. -/
theorem lengthBefore_pieceCount :
    torrent.lengthBefore torrent.pieceCount = torrent.totalLength := by
  rw [lengthBefore, pieceCount_eq]
  exact Nat.min_eq_right (Tiling.le_start_count _ torrent.pieceLength_pos)

/-- A piece that ends within the front part of a content is a part of that. -/
theorem slice_append {front rest : Bytes} {index : Nat} (h : index < torrent.pieceCount)
    (hlength : torrent.lengthBefore (index + 1) ≤ front.length) :
    torrent.slice (front ++ rest) index = torrent.slice front index := by
  rw [← pieceOffset_add_pieceSize h] at hlength
  have hsize := pieceSize_pos h
  rw [slice, slice, List.drop_append_of_le_length (by omega),
    List.take_append_of_le_length (by rw [List.length_drop]; omega)]

/-- A piece has a description exactly when its digest is given. -/
theorem piece?_of_lt {index : Nat} (h : index < torrent.pieceCount) :
    ∃ digest, torrent.hashes[index]? = some digest ∧
      torrent.piece? index = some ⟨index, torrent.pieceSize index, digest⟩ := by
  have hget : torrent.hashes[index]? = some torrent.hashes[index] := List.getElem?_eq_getElem h
  exact ⟨_, hget, by rw [piece?, hget]; rfl⟩

/-- The number of bytes before a piece does not shrink with its index. -/
theorem lengthBefore_mono {i j : Nat} (h : i ≤ j) :
    torrent.lengthBefore i ≤ torrent.lengthBefore j := by
  have hmul : torrent.pieceLength * i ≤ torrent.pieceLength * j := Nat.mul_le_mul_left _ h
  simp only [lengthBefore, pieceOffset, Tiling.start]
  omega

end Torrent

namespace Assembly

variable {a : Assembly} {fragment : Fragment} {blockSize position : Nat}

/-- A block that continues a piece ends where the next one starts, or at the end of the piece. -/
theorem length_received_append (hposition : position < a.torrent.blockCount blockSize a.index)
    (hreceived : a.received.length = Tiling.start (max blockSize 1) position)
    (hblock : fragment.block = a.torrent.blockAt blockSize a.index position) :
    (a.received ++ fragment.data).length =
      min (Tiling.start (max blockSize 1) (position + 1)) (a.torrent.pieceSize a.index) := by
  have hlength : fragment.data.length =
      (a.torrent.blockAt blockSize a.index position).length := congrArg Block.length hblock
  have hoffset : (a.torrent.blockAt blockSize a.index position).offset =
      Tiling.start (max blockSize 1) position := rfl
  rw [List.length_append, hreceived, hlength, ← Torrent.offset_add_length_blockAt hposition,
    hoffset]

/-- A fragment of the current piece is put to it. -/
theorem append_eq_extend {info : PieceInfo} (hinfo : a.torrent.piece? a.index = some info)
    (hpiece : fragment.piece = a.index) : a.append fragment = a.extend info fragment := by
  rw [append, if_neg (not_not_intro hpiece), hinfo]

/-- A block that continues the current piece, and is not its last one, is put to it. -/
theorem append_of_lt (hindex : a.index < a.torrent.pieceCount)
    (hposition : position + 1 < a.torrent.blockCount blockSize a.index)
    (hreceived : a.received.length = Tiling.start (max blockSize 1) position)
    (hblock : fragment.block = a.torrent.blockAt blockSize a.index position) :
    a.append fragment = .ok (none, { a with received := a.received ++ fragment.data }) := by
  obtain ⟨digest, _, hinfo⟩ := Torrent.piece?_of_lt hindex
  have hlength := length_received_append (Nat.lt_of_succ_lt hposition) hreceived hblock
  have hinside := (Tiling.lt_count_iff Torrent.blockSize_pos).mp hposition
  have hoffset : fragment.offset = a.received.length :=
    (congrArg Block.offset hblock).trans hreceived.symm
  rw [Nat.min_eq_left (Nat.le_of_lt hinside)] at hlength
  rw [append_eq_extend hinfo (congrArg Block.piece hblock)]
  simp only [extend, hlength]
  rw [if_neg (not_not_intro hoffset), if_neg (Nat.lt_asymm hinside), if_neg (Nat.ne_of_lt hinside)]

/-- The last block of the current piece completes it. -/
theorem append_of_eq {digest : Digest} (hindex : a.index < a.torrent.pieceCount)
    (hdigest : a.torrent.hashes[a.index]? = some digest)
    (hposition : position + 1 = a.torrent.blockCount blockSize a.index)
    (hreceived : a.received.length = Tiling.start (max blockSize 1) position)
    (hblock : fragment.block = a.torrent.blockAt blockSize a.index position) :
    (a.received ++ fragment.data).length = a.torrent.pieceSize a.index ∧
      a.append fragment =
        .ok (some ⟨⟨a.index, a.torrent.pieceSize a.index, digest⟩, a.received ++ fragment.data⟩,
          { a with index := a.index + 1, received := [] }) := by
  obtain ⟨_, hget, hinfo⟩ := Torrent.piece?_of_lt hindex
  cases hget.symm.trans hdigest
  have hlength := length_received_append (Nat.lt_of_succ_le (Nat.le_of_eq hposition)) hreceived
    hblock
  have houtside : a.torrent.pieceSize a.index ≤
      Tiling.start (max blockSize 1) (position + 1) := by
    rw [hposition]
    exact Tiling.le_start_count _ Torrent.blockSize_pos
  have hoffset : fragment.offset = a.received.length :=
    (congrArg Block.offset hblock).trans hreceived.symm
  rw [Nat.min_eq_right houtside] at hlength
  refine ⟨hlength, ?_⟩
  rw [append_eq_extend hinfo (congrArg Block.piece hblock)]
  simp only [extend, hlength]
  rw [if_neg (not_not_intro hoffset), if_neg (Nat.lt_irrefl _), if_pos True.intro]

end Assembly

/-- Writing behind what is there, over zeros, puts the bytes to it. -/
theorem Bytes.writeAt_append_replicate {front others : Bytes} {n : Nat} (h : others.length ≤ n) :
    writeAt front.length others (front ++ List.replicate n 0) =
      (front ++ others) ++ List.replicate (n - others.length) 0 := by
  rw [writeAt, List.take_left, List.drop_append, List.drop_of_length_le (by omega),
    List.nil_append, List.drop_replicate]
  congr 2
  omega

namespace Transfer

/-- Everything that a download keeps about bytes is a part of its text, and the blocks due continue
the text. -/
structure Progress (torrent : Torrent) (hash : Bytes → Digest) (blockSize : Nat) (text : Bytes)
    (t : Transfer) : Prop where
  /-- The pieces put together are those of the torrent. -/
  torrent_eq : t.assembly.torrent = torrent
  /-- Every piece before the current one was checked. -/
  verified : t.verified = t.assembly.index
  /-- Their bytes are counted. -/
  downloaded : t.downloaded = torrent.lengthBefore t.assembly.index
  /-- The blocks due are those from some position on, up to which the current piece has come. -/
  position : ∃ position, torrent.IsPosition blockSize t.assembly.index position ∧
    t.assembly.received.length = Tiling.start (max blockSize 1) position ∧
    t.window.due = (Blocks.reached torrent blockSize t.assembly.index position).toList
  /-- The text is as long as the checked pieces and the current one together. -/
  length_text : text.length = torrent.lengthBefore t.assembly.index + t.assembly.received.length
  /-- The current piece is the end of the text. -/
  received : t.assembly.received = text.drop (torrent.lengthBefore t.assembly.index)
  /-- The checked pieces are the front of the text, and the file has zeros behind them. -/
  content : t.content = text.take (torrent.lengthBefore t.assembly.index)
    ++ List.replicate (torrent.totalLength - torrent.lengthBefore t.assembly.index) 0
  /-- The checked pieces have their digests. -/
  vouches : ∀ index < t.assembly.index, torrent.Vouches hash text index

/-- At the start nothing has come. -/
theorem progress_start (torrent : Torrent) (hash : Bytes → Digest) (blockSize depth : Nat) :
    Progress torrent hash blockSize [] (start torrent blockSize depth) where
  torrent_eq := rfl
  verified := rfl
  downloaded := (Nat.zero_min torrent.totalLength).symm
  position := by
    refine ⟨0, Torrent.isPosition_start, rfl, ?_⟩
    exact congrArg Blocks.toList Blocks.ofTorrent_eq
  length_text := (Nat.zero_min torrent.totalLength).symm
  received := rfl
  content := by
    have hzero : torrent.lengthBefore 0 = 0 := Nat.zero_min _
    simp only [start, Assembly.start, hzero, Nat.sub_zero, List.take_nil, List.nil_append]
  vouches := fun index h ↦ absurd h (Nat.not_lt_zero index)

variable {torrent : Torrent} {hash : Bytes → Digest} {blockSize : Nat} {text : Bytes}
  {t : Transfer}

/-- Another window with the same blocks due changes nothing. -/
theorem Progress.withWindow (h : Progress torrent hash blockSize text t) {window : Window}
    (hdue : window.due = t.window.due) :
    Progress torrent hash blockSize text { t with window := window } where
  torrent_eq := h.torrent_eq
  verified := h.verified
  downloaded := h.downloaded
  position := by
    obtain ⟨position, hposition, hlength, hwalk⟩ := h.position
    exact ⟨position, hposition, hlength, hdue.trans hwalk⟩
  length_text := h.length_text
  received := h.received
  content := h.content
  vouches := h.vouches

/-- A download whose pieces were all checked has the whole text as its content. -/
theorem Progress.content_of_index_eq (h : Progress torrent hash blockSize text t)
    (hindex : t.assembly.index = torrent.pieceCount) :
    t.content = text ∧ text.length = torrent.totalLength ∧ t.window.due = [] := by
  obtain ⟨position, hposition, hreceived, hdue⟩ := h.position
  have hzero : position = 0 := by
    obtain ⟨hlt, _⟩ | ⟨_, hzero⟩ := hposition
    · omega
    · exact hzero
  have hlength := h.length_text
  subst hzero
  rw [hreceived, hindex, Torrent.lengthBefore_pieceCount, Tiling.start, Nat.mul_zero,
    Nat.add_zero] at hlength
  refine ⟨?_, hlength, ?_⟩
  · rw [h.content, hindex, Torrent.lengthBefore_pieceCount, Nat.sub_self, List.replicate_zero,
      List.append_nil, ← hlength, List.take_length]
  · rw [hdue, hindex, Blocks.toList, dif_pos Blocks.remaining_reached_end]

/-- The current piece is a piece of the torrent, or all were checked. -/
theorem Progress.index_le (h : Progress torrent hash blockSize text t) :
    t.assembly.index ≤ torrent.pieceCount := by
  obtain ⟨position, ⟨hlt, _⟩ | ⟨heq, _⟩, _⟩ := h.position
  · exact Nat.le_of_lt hlt
  · exact Nat.le_of_eq heq

/-- A download is complete exactly when no piece is left. -/
theorem Progress.isComplete_iff (h : Progress torrent hash blockSize text t) :
    t.isComplete = true ↔ t.assembly.index = torrent.pieceCount := by
  have hle := h.index_le
  rw [isComplete, decide_eq_true_iff, h.torrent_eq, h.verified]
  omega

/-- When no block is due every piece was checked. -/
theorem Progress.index_eq_of_due (h : Progress torrent hash blockSize text t)
    (hdue : t.window.due = []) : t.assembly.index = torrent.pieceCount := by
  obtain ⟨position, ⟨hlt, hposition⟩ | ⟨heq, _⟩, _, hwalk⟩ := h.position
  · rw [hdue, Blocks.toList_reached_of_lt hlt hposition] at hwalk
    cases hwalk
  · exact heq

/-- The first block due is the one at the position up to which the current piece has come. -/
theorem Progress.first_due (h : Progress torrent hash blockSize text t) {block : Block}
    {rest : List Block} (hdue : t.window.due = block :: rest) :
    t.assembly.index < torrent.pieceCount ∧
      ∃ position < torrent.blockCount blockSize t.assembly.index,
        t.assembly.received.length = Tiling.start (max blockSize 1) position ∧
        block = torrent.blockAt blockSize t.assembly.index position ∧
        rest = (Blocks.reached torrent blockSize t.assembly.index position).tail.toList := by
  obtain ⟨position, ⟨hlt, hposition⟩ | ⟨heq, rfl⟩, hreceived, hwalk⟩ := h.position
  · rw [hdue, Blocks.toList_reached_of_lt hlt hposition] at hwalk
    cases hwalk
    exact ⟨hlt, position, hposition, hreceived, rfl, rfl⟩
  · rw [hdue, heq, Blocks.toList, dif_pos Blocks.remaining_reached_end] at hwalk
    cases hwalk

/-- The checked pieces keep their digests when the text goes on. -/
theorem Progress.vouches_append (h : Progress torrent hash blockSize text t) (data : Bytes) :
    ∀ index < t.assembly.index, torrent.Vouches hash (text ++ data) index := by
  intro index hindex
  have hcome : torrent.lengthBefore (index + 1) ≤ text.length := by
    have hmono : torrent.lengthBefore (index + 1) ≤ torrent.lengthBefore t.assembly.index :=
      Torrent.lengthBefore_mono hindex
    have hlength := h.length_text
    omega
  have hlt : index < torrent.pieceCount := Nat.lt_of_lt_of_le hindex h.index_le
  rw [Torrent.Vouches, Torrent.slice_append hlt hcome]
  exact h.vouches index hindex

/-- A block that continues the current piece, and is not its last one, continues the text. -/
theorem Progress.extend (h : Progress torrent hash blockSize text t) {window : Window}
    {data : Bytes} {position : Nat} (hindex : t.assembly.index < torrent.pieceCount)
    (hposition : position + 1 < torrent.blockCount blockSize t.assembly.index)
    (hreceived : (t.assembly.received ++ data).length =
      Tiling.start (max blockSize 1) (position + 1))
    (hdue : window.due = (Blocks.reached torrent blockSize t.assembly.index position).tail.toList) :
    Progress torrent hash blockSize (text ++ data)
      { t with
        window := window
        assembly := { t.assembly with received := t.assembly.received ++ data } } := by
  have hlength := h.length_text
  have hle : torrent.lengthBefore t.assembly.index ≤ text.length := by omega
  refine ⟨h.torrent_eq, h.verified, h.downloaded, ?_, ?_, ?_, ?_, h.vouches_append data⟩
  · refine ⟨position + 1, .inl ⟨hindex, hposition⟩, hreceived, ?_⟩
    rw [hdue, Blocks.tail_reached_of_lt hposition]
  · change (text ++ data).length =
      torrent.lengthBefore t.assembly.index + (t.assembly.received ++ data).length
    rw [List.length_append, List.length_append]
    omega
  · rw [List.drop_append_of_le_length hle, ← h.received]
  · rw [List.take_append_of_le_length hle]
    exact h.content

/-- A block that completes the current piece continues the text, if the piece has its digest. -/
theorem Progress.complete (h : Progress torrent hash blockSize text t) {window : Window}
    {data : Bytes} {position : Nat} {info : PieceInfo}
    (hindex : t.assembly.index < torrent.pieceCount)
    (hposition : position + 1 = torrent.blockCount blockSize t.assembly.index)
    (hlast : (t.assembly.received ++ data).length = torrent.pieceSize t.assembly.index)
    (hinfo : info.index = t.assembly.index)
    (hvouches : torrent.Vouches hash (text ++ data) t.assembly.index)
    (hdue : window.due = (Blocks.reached torrent blockSize t.assembly.index position).tail.toList) :
    Progress torrent hash blockSize (text ++ data)
      (keep ⟨info, t.assembly.received ++ data⟩
        { t with
          window := window
          assembly := { t.assembly with index := t.assembly.index + 1, received := [] } }) := by
  have hlength := h.length_text
  have hbefore := Torrent.lengthBefore_of_lt hindex
  have hend := Torrent.pieceOffset_add_pieceSize hindex
  have htotal : torrent.lengthBefore (t.assembly.index + 1) ≤ torrent.totalLength :=
    Nat.min_le_right _ _
  have hlengths : (text ++ data).length = torrent.lengthBefore (t.assembly.index + 1) := by
    rw [List.length_append] at hlast ⊢
    omega
  have hfront : (text.take (torrent.lengthBefore t.assembly.index)).length =
      torrent.pieceOffset t.assembly.index := by
    rw [List.length_take]
    omega
  refine ⟨h.torrent_eq, congrArg (· + 1) h.verified, ?_, ?_, ?_, ?_, ?_, ?_⟩
  · have hdownloaded := h.downloaded
    simp only [keep, hlast, hdownloaded]
    omega
  · refine ⟨0, Torrent.isPosition_next hindex, rfl, ?_⟩
    exact hdue.trans (congrArg Blocks.toList (Blocks.tail_reached_of_eq hindex hposition))
  · exact hlengths
  · exact (List.drop_of_length_le (Nat.le_of_eq hlengths)).symm
  · -- the zeros behind the checked pieces make room for the new one
    have hroom : (t.assembly.received ++ data).length ≤
        torrent.totalLength - torrent.lengthBefore t.assembly.index := by omega
    have hwritten : Bytes.writeAt (text.take (torrent.lengthBefore t.assembly.index)).length _ _ =
        _ := Bytes.writeAt_append_replicate hroom
    have htext : text.take (torrent.lengthBefore t.assembly.index)
        ++ (t.assembly.received ++ data) = text ++ data := by
      rw [h.received, ← List.append_assoc, List.take_append_drop]
    have hzeros : torrent.totalLength - torrent.lengthBefore t.assembly.index
        - (t.assembly.received ++ data).length =
          torrent.totalLength - torrent.lengthBefore (t.assembly.index + 1) := by omega
    simp only [keep, h.torrent_eq, hinfo, h.content]
    rw [← hfront, hwritten, htext, hzeros, List.take_of_length_le (Nat.le_of_eq hlengths)]
  · intro index hlt
    by_cases hcurrent : index = t.assembly.index
    · rw [hcurrent]
      exact hvouches
    · have hbelow : index < t.assembly.index :=
        Nat.lt_of_le_of_ne (Nat.le_of_lt_succ hlt) hcurrent
      exact h.vouches_append data index hbelow

/-- A piece that has its digest is kept. -/
theorem check_of_eq {piece : Piece} (h : hash piece.data = piece.info.hash) :
    check hash piece t = .ok (t.keep piece, some (.verified piece.info.index
      (t.keep piece).downloaded t.assembly.torrent.totalLength)) :=
  if_pos (decide_eq_true h)

/-- A piece that does not have its digest is the end of the download. -/
theorem check_of_ne {piece : Piece} (h : hash piece.data ≠ piece.info.hash) :
    check hash piece t = .error (.hashMismatch piece.info.index) :=
  if_neg fun hchecks ↦ h (of_decide_eq_true hchecks)

/-- Putting a fragment to the others does not touch the window. -/
theorem window_of_append {fragment : Fragment} {next : Transfer} {notice : Option Notice}
    (h : append hash fragment t = .ok (next, notice)) : next.window = t.window := by
  rw [append] at h
  split at h
  · cases h
  · cases h
    rfl
  · rw [check] at h
    split at h
    · cases h
      rfl
    · cases h

/-- What becomes of a fragment that answers the first block due. -/
inductive Taken (torrent : Torrent) (hash : Bytes → Digest) (blockSize : Nat) (text : Bytes)
    (fragment : Fragment) (window : Window) : Except Error (Transfer × Option Notice) → Prop where
  /-- It continues the text. -/
  | kept {after : Transfer} {notice : Option Notice} (window_eq : after.window = window)
      (progress : Progress torrent hash blockSize (text ++ fragment.data) after) :
      Taken torrent hash blockSize text fragment window (.ok (after, notice))
  /-- It completes a piece that does not have its digest. -/
  | mismatch (piece : fragment.piece < torrent.pieceCount)
      (length : (text ++ fragment.data).length = torrent.lengthBefore (fragment.piece + 1))
      (refuted : ¬ torrent.Vouches hash (text ++ fragment.data) fragment.piece) :
      Taken torrent hash blockSize text fragment window (.error (.hashMismatch fragment.piece))

/-- A fragment that answers the first block due continues the text, or completes a piece that does
not have its digest. -/
theorem Progress.append (h : Progress torrent hash blockSize text t) {fragment : Fragment}
    {window : Window} (hdue : t.window.due = fragment.block :: window.due) :
    Taken torrent hash blockSize text fragment window
      (Transfer.append hash fragment { t with window := window }) := by
  obtain ⟨hindex, position, hposition, hreceived, hblock, hrest⟩ := h.first_due hdue
  have htorrent := h.torrent_eq
  have hpiece : fragment.piece = t.assembly.index := congrArg Block.piece hblock
  subst htorrent
  by_cases hmore : position + 1 < t.assembly.torrent.blockCount blockSize t.assembly.index
  · have hlength := Assembly.length_received_append hposition hreceived hblock
    have hinside := (Tiling.lt_count_iff Torrent.blockSize_pos).mp hmore
    rw [Nat.min_eq_left (Nat.le_of_lt hinside)] at hlength
    simp only [Transfer.append, Assembly.append_of_lt hindex hmore hreceived hblock]
    exact .kept rfl (h.extend hindex hmore hlength hrest)
  · have hlast : position + 1 = t.assembly.torrent.blockCount blockSize t.assembly.index := by omega
    obtain ⟨digest, hdigest, _⟩ := Torrent.piece?_of_lt hindex
    obtain ⟨hlength, happend⟩ :=
      Assembly.append_of_eq hindex hdigest hlast hreceived hblock
    have hbefore := Torrent.lengthBefore_of_lt hindex
    have htext := h.length_text
    have hslice : t.assembly.torrent.slice (text ++ fragment.data) t.assembly.index =
        t.assembly.received ++ fragment.data := by
      rw [Torrent.slice, ← hbefore, List.drop_append_of_le_length (by omega), ← h.received,
        List.take_of_length_le (Nat.le_of_eq hlength)]
    have hvouches : t.assembly.torrent.Vouches hash (text ++ fragment.data) t.assembly.index ↔
        hash (t.assembly.received ++ fragment.data) = digest := by
      rw [Torrent.Vouches, hslice, hdigest, Option.some.injEq, eq_comm]
    simp only [Transfer.append, happend]
    by_cases hhash : hash (t.assembly.received ++ fragment.data) = digest
    · rw [check_of_eq hhash]
      exact .kept rfl (h.complete hindex hlast hlength rfl (hvouches.mpr hhash) hrest)
    · rw [check_of_ne hhash, ← hpiece]
      refine .mismatch (hpiece ▸ hindex) ?_ (hpiece ▸ mt hvouches.mp hhash)
      have hend := Torrent.pieceOffset_add_pieceSize hindex
      rw [List.length_append] at hlength ⊢
      rw [hpiece]
      omega

end Transfer

end PeerWire
