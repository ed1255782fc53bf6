import PeerWire.Proofs.Bounds
import PeerWire.Proofs.Integrity

/-!
# No operation is applied outside its domain

What a download does about a message is written out with operations that give nothing outside their
domains: blocks are copied into the buffer of their piece, and pieces into the content, where there
is room for them. That there always is rests on how far the download has come. Main statement: if
the length of the file and that of a piece together fit into a word, then whatever bytes arrive, in
whatever parts, nothing on the way from the wire to the content is applied outside its domain.
-/

namespace PeerWire

namespace Torrent

variable {torrent : Torrent} {index : Nat}

/-- The length of a piece, if its end can be formed; it is zero past the last one. -/
def checkedSize (torrent : Torrent) (index : Nat) : Option Nat := do
  let start ← Word.mul? torrent.pieceLength index
  let stop ← Word.add? start torrent.pieceLength
  some (min stop torrent.totalLength - start)

/-- The description of a piece, if there is one with this index. -/
def checkedPiece (torrent : Torrent) (index : Nat) : Option (Option PieceInfo) :=
  match torrent.hashes[index]? with
  | none => some none
  | some hash => (torrent.checkedSize index).map fun size ↦ some ⟨index, size, hash⟩

/-- A file has no more pieces than bytes. -/
theorem pieceCount_le : torrent.pieceCount ≤ torrent.totalLength := by
  apply Nat.le_of_not_lt
  intro hlt
  have hstart : torrent.pieceLength * torrent.totalLength < torrent.totalLength :=
    pieceOffset_lt hlt
  exact Nat.not_lt_of_le (Nat.le_mul_of_pos_left _ torrent.pieceLength_pos) hstart

/-- A piece of the file ends within it. -/
theorem pieceOffset_add_pieceSize_le (h : index < torrent.pieceCount) :
    torrent.pieceOffset index + torrent.pieceSize index ≤ torrent.totalLength := by
  rw [pieceOffset_add_pieceSize h]
  exact Nat.min_le_right _ _

/-- A piece has a length that can be formed if its end fits into a word. -/
theorem checkedSize_eq (h : torrent.pieceOffset index + torrent.pieceLength < Word.bound) :
    torrent.checkedSize index = some (torrent.pieceSize index) := by
  have hmul : Word.mul? torrent.pieceLength index = some (torrent.pieceOffset index) :=
    Word.mul?_of_lt (Nat.lt_of_le_of_lt (Nat.le_add_right _ _) h)
  have hadd : Word.add? (torrent.pieceOffset index) torrent.pieceLength =
      some (torrent.pieceOffset index + torrent.pieceLength) := Word.add?_of_lt h
  simp only [checkedSize, hmul, hadd, Option.bind_eq_bind, Option.bind_some]
  rfl

/-- A piece of the file has a length that can be formed. -/
theorem checkedSize_of_lt (hbound : torrent.totalLength + torrent.pieceLength < Word.bound)
    (h : index < torrent.pieceCount) :
    torrent.checkedSize index = some (torrent.pieceSize index) := by
  have hstart := pieceOffset_lt h
  exact checkedSize_eq (by omega)

/-- A piece can be described. -/
theorem checkedPiece_eq (hbound : torrent.totalLength + torrent.pieceLength < Word.bound)
    (index : Nat) : torrent.checkedPiece index = some (torrent.piece? index) := by
  rw [checkedPiece, piece?]
  cases hhash : torrent.hashes[index]? with
  | none => rfl
  | some hash =>
    obtain ⟨hindex, _⟩ := List.getElem?_eq_some_iff.mp hhash
    simp only [checkedSize_of_lt hbound hindex, Option.map_some]

end Torrent

/-! ### Blocks into a piece -/

namespace Assembly

variable {a : Assembly} {info : PieceInfo} {fragment : Fragment}

/-- The buffer of a piece: the bytes so far, and zeros for those to come. -/
def buffer (a : Assembly) (info : PieceInfo) : Bytes :=
  a.received ++ List.replicate (info.length - a.received.length) 0

/-- Adds a fragment that starts where the bytes so far end, and ends as given. -/
def checkedWrite (a : Assembly) (info : PieceInfo) (fragment : Fragment) (reached : Nat) :
    Option (Option Piece × Assembly) := do
  let buffer ← Bytes.copyInto? fragment.offset reached fragment.data (a.buffer info)
  if reached = info.length then
    let index ← Word.add? a.index 1
    some (some ⟨info, buffer⟩, { a with index := index, received := [] })
  else some (none, { a with received := buffer.take reached })

/-- Adds a fragment to the current piece, whose description is given. -/
def checkedExtend (a : Assembly) (info : PieceInfo) (fragment : Fragment) :
    Option (Except Violation (Option Piece × Assembly)) :=
  if fragment.offset ≠ a.received.length then
    some (.error (.offset info.index a.received.length fragment.offset))
  else do
    let reached ← Word.add? fragment.offset fragment.data.length
    if info.length < reached then some (.error (.overrun info.index reached info.length))
    else (a.checkedWrite info fragment reached).map .ok

/-- Adds a fragment, and gives the piece if it is done. -/
def checkedAppend (a : Assembly) (fragment : Fragment) :
    Option (Except Violation (Option Piece × Assembly)) :=
  if fragment.piece ≠ a.index then some (.error (.pieceIndex a.index fragment.piece))
  else do
    match ← a.torrent.checkedPiece a.index with
    | none => some (.error (.pieceIndex a.torrent.pieceCount fragment.piece))
    | some info => a.checkedExtend info fragment

/-- A piece with all its bytes has no zeros behind them. -/
theorem buffer_of_full (h : a.received.length = info.length) : a.buffer info = a.received := by
  rw [buffer, h, Nat.sub_self, List.replicate_zero, List.append_nil]

/-- A fragment that continues the piece and does not run past its end is copied over zeros. -/
theorem writeAt_buffer (hoffset : fragment.offset = a.received.length)
    (hfits : fragment.offset + fragment.data.length ≤ info.length) :
    Bytes.writeAt fragment.offset fragment.data (a.buffer info) =
      ({ a with received := a.received ++ fragment.data } : Assembly).buffer info := by
  have hzeros : info.length - (a.received ++ fragment.data).length =
      info.length - a.received.length - fragment.data.length := by
    rw [List.length_append]
    omega
  rw [buffer, buffer, hoffset, hzeros]
  exact Bytes.writeAt_append_replicate (by omega)

/-- There is room for it. -/
theorem copyInto?_buffer (hoffset : fragment.offset = a.received.length)
    (hfits : fragment.offset + fragment.data.length ≤ info.length) :
    Bytes.copyInto? fragment.offset (fragment.offset + fragment.data.length) fragment.data
        (a.buffer info) =
      some (({ a with received := a.received ++ fragment.data } : Assembly).buffer info) := by
  have hlength : (a.buffer info).length = info.length := by
    rw [buffer, List.length_append, List.length_replicate]
    omega
  rw [Bytes.copyInto?_of_le rfl (hlength.symm ▸ hfits), writeAt_buffer hoffset hfits]

/-- A fragment is added within the buffer of its piece. -/
theorem checkedExtend_eq
    (hreached : fragment.offset + fragment.data.length < Word.bound)
    (hindex : a.index + 1 < Word.bound) :
    a.checkedExtend info fragment = some (a.extend info fragment) := by
  rw [checkedExtend]
  simp only [extend]
  by_cases hoffset : fragment.offset = a.received.length
  · have hlength : (a.received ++ fragment.data).length =
        fragment.offset + fragment.data.length := by rw [List.length_append, hoffset]
    rw [if_neg (not_not_intro hoffset), if_neg (not_not_intro hoffset), Word.add?_of_lt hreached,
      hlength]
    simp only [Option.bind_eq_bind, Option.bind_some]
    by_cases hover : info.length < fragment.offset + fragment.data.length
    · rw [if_pos hover, if_pos hover]
    · have hcopy := copyInto?_buffer hoffset (Nat.le_of_not_lt hover)
      rw [if_neg hover, if_neg hover, checkedWrite, hcopy]
      simp only [Option.bind_eq_bind, Option.bind_some]
      by_cases hdone : fragment.offset + fragment.data.length = info.length
      · rw [if_pos hdone, if_pos hdone, Word.add?_of_lt hindex,
          buffer_of_full (hlength.trans hdone)]
        rfl
      · have hfront : (({ a with received := a.received ++ fragment.data } : Assembly).buffer
            info).take (a.received ++ fragment.data).length = a.received ++ fragment.data :=
          List.take_left
        rw [if_neg hdone, if_neg hdone, ← hlength, hfront]
        rfl
  · rw [if_pos hoffset, if_pos hoffset]

/-- A fragment is added within the buffer of its piece, if there is such a piece. -/
theorem checkedAppend_eq
    (hbound : a.torrent.totalLength + a.torrent.pieceLength < Word.bound)
    (hreached : fragment.offset + fragment.data.length < Word.bound) :
    a.checkedAppend fragment = some (a.append fragment) := by
  rw [checkedAppend, append]
  by_cases hpiece : fragment.piece = a.index
  · rw [if_neg (not_not_intro hpiece), if_neg (not_not_intro hpiece),
      Torrent.checkedPiece_eq hbound]
    cases hinfo : a.torrent.piece? a.index with
    | none => rfl
    | some info =>
      have hindex := (Torrent.of_piece?_eq_some hinfo).1
      have hcount : a.torrent.pieceCount ≤ a.torrent.totalLength := Torrent.pieceCount_le
      exact checkedExtend_eq hreached (by omega)
  · rw [if_pos hpiece, if_pos hpiece]

/-- A piece that is done is the current one, and has all its bytes. -/
theorem piece_of_append {piece : Piece} {after : Assembly}
    (h : a.append fragment = .ok (some piece, after)) :
    piece.info.index = a.index ∧ a.index < a.torrent.pieceCount ∧
      piece.data.length = a.torrent.pieceSize a.index ∧ after.torrent = a.torrent := by
  have happended := appended a fragment
  rw [h] at happended
  cases happended with
  | completed fits full =>
    obtain ⟨hindex, hsame, hlength⟩ := Torrent.of_piece?_eq_some fits.described
    exact ⟨hsame, hindex, full.trans hlength, rfl⟩

end Assembly

/-! ### Pieces into the content -/

namespace Transfer

/-- A piece was checked: its bytes are copied to its place in the file. -/
def checkedKeep (piece : Piece) (t : Transfer) : Option Transfer := do
  let offset ← Word.mul? t.assembly.torrent.pieceLength piece.info.index
  let reached ← Word.add? offset piece.data.length
  let content ← Bytes.copyInto? offset reached piece.data t.content
  let verified ← Word.add? t.verified 1
  let downloaded ← Word.add? t.downloaded piece.data.length
  some { t with content := content, verified := verified, downloaded := downloaded }

/-- Checks a piece that was put together. -/
def checkedCheck (hash : Bytes → Digest) (piece : Piece) (t : Transfer) :
    Option (Except Error (Transfer × Option Notice)) :=
  if checks hash piece.data piece.info.hash then do
    let t ← t.checkedKeep piece
    some (.ok (t, some (.verified piece.info.index t.downloaded t.assembly.torrent.totalLength)))
  else some (.error (.hashMismatch piece.info.index))

/-- Puts a block together with those before it, and checks the piece if it is done. -/
def checkedAppend (hash : Bytes → Digest) (fragment : Fragment) (t : Transfer) :
    Option (Except Error (Transfer × Option Notice)) := do
  match ← t.assembly.checkedAppend fragment with
  | .error violation => some (.error (.orderingViolation violation))
  | .ok (none, assembly) => some (.ok ({ t with assembly := assembly }, none))
  | .ok (some piece, assembly) => checkedCheck hash piece { t with assembly := assembly }

/-- Asks for as many blocks as there is room for. -/
def checkedFill (t : Transfer) : Option Reaction := do
  let (requests, window) ← t.window.checkedFill
  some ⟨requests, .ok ({ t with window := window }, none)⟩

/-- Reacts to a delivered block. -/
def checkedDeliver (hash : Bytes → Digest) (fragment : Fragment) (t : Transfer) :
    Option Reaction := do
  match ← t.window.checkedArrive fragment.block with
  | .error violation => some ⟨[], .error (.orderingViolation violation)⟩
  | .ok (.stale, window) => some ⟨[], .ok ({ t with window := window }, none)⟩
  | .ok (.accepted backfill, window) =>
    let verdict ← checkedAppend hash fragment { t with window := window }
    some ⟨backfill.toList, verdict⟩

/-- Reacts to what a message means. -/
def checkedReact (hash : Bytes → Digest) (t : Transfer) : Incoming → Option Reaction
  | .block fragment => checkedDeliver hash fragment t
  | .choked => some ⟨[], .ok ({ t with window := t.window.void }, none)⟩
  | .unchoked => t.checkedFill
  | .announced _ => some ⟨[], .ok (t, none)⟩
  | .consumed => some ⟨[], .ok (t, none)⟩

/-- The pieces before a piece have been checked, and the content has its full length. -/
structure Room (t : Transfer) (index : Nat) : Prop where
  /-- The file is short enough for the sums that are formed. -/
  bound : t.assembly.torrent.totalLength + t.assembly.torrent.pieceLength < Word.bound
  /-- The content is as long as the file. -/
  content : t.content.length = t.assembly.torrent.totalLength
  /-- The pieces before are counted. -/
  verified : t.verified = index
  /-- Their bytes are counted. -/
  downloaded : t.downloaded = t.assembly.torrent.lengthBefore index

/-- A piece with all its bytes is copied to where there is room for it. -/
theorem Room.checkedKeep_eq {t : Transfer} {piece : Piece} (h : t.Room piece.info.index)
    (hindex : piece.info.index < t.assembly.torrent.pieceCount)
    (hlength : piece.data.length = t.assembly.torrent.pieceSize piece.info.index) :
    t.checkedKeep piece = some (t.keep piece) := by
  have hbound := h.bound
  have hdownloaded := h.downloaded
  have hcount : t.assembly.torrent.pieceCount ≤ t.assembly.torrent.totalLength :=
    Torrent.pieceCount_le
  have hstart := Torrent.pieceOffset_lt hindex
  have hend := Torrent.pieceOffset_add_pieceSize_le hindex
  rw [Torrent.lengthBefore_of_lt hindex] at hdownloaded
  have hmul : Word.mul? t.assembly.torrent.pieceLength piece.info.index =
      some (t.assembly.torrent.pieceOffset piece.info.index) :=
    Word.mul?_of_lt (Nat.lt_trans hstart (by omega))
  have hcopy : Bytes.copyInto? (t.assembly.torrent.pieceOffset piece.info.index)
      (t.assembly.torrent.pieceOffset piece.info.index + piece.data.length) piece.data t.content =
        some (Bytes.writeAt (t.assembly.torrent.pieceOffset piece.info.index) piece.data
          t.content) := by
    apply Bytes.copyInto?_of_le rfl
    rw [h.content, hlength]
    exact hend
  have hreached : Word.add? (t.assembly.torrent.pieceOffset piece.info.index) piece.data.length =
      some (t.assembly.torrent.pieceOffset piece.info.index + piece.data.length) :=
    Word.add?_of_lt (by omega)
  have hverified : Word.add? t.verified 1 = some (t.verified + 1) := by
    rw [h.verified]
    exact Word.add?_of_lt (by omega)
  have hsum : Word.add? t.downloaded piece.data.length =
      some (t.downloaded + piece.data.length) := Word.add?_of_lt (by omega)
  simp only [checkedKeep, hmul, hreached, hcopy, hverified, hsum, Option.bind_eq_bind,
    Option.bind_some]
  rfl

/-- A piece with all its bytes is checked. -/
theorem Room.checkedCheck_eq {t : Transfer} {piece : Piece} (h : t.Room piece.info.index)
    (hindex : piece.info.index < t.assembly.torrent.pieceCount)
    (hlength : piece.data.length = t.assembly.torrent.pieceSize piece.info.index)
    (hash : Bytes → Digest) : checkedCheck hash piece t = some (check hash piece t) := by
  rw [checkedCheck, check, h.checkedKeep_eq hindex hlength]
  exact (apply_ite some _ _ _).symm

variable {torrent : Torrent} {hash : Bytes → Digest} {blockSize : Nat} {text : Bytes}
  {t : Transfer}

/-- The content is always as long as the file. -/
theorem Progress.length_content (h : Progress torrent hash blockSize text t) :
    t.content.length = torrent.totalLength := by
  have hlength := h.length_text
  have hbefore : torrent.lengthBefore t.assembly.index ≤ torrent.totalLength := Nat.min_le_right _ _
  rw [h.content, List.length_append, List.length_take, List.length_replicate]
  omega

/-- The first block due ends within its piece. -/
theorem Progress.offset_add_length_le (h : Progress torrent hash blockSize text t) {block : Block}
    {rest : List Block} (hdue : t.window.due = block :: rest) :
    block.offset + block.length ≤ torrent.totalLength := by
  obtain ⟨hindex, position, hposition, _, rfl, _⟩ := h.first_due hdue
  have hend := Torrent.pieceOffset_add_pieceSize_le hindex
  rw [Torrent.offset_add_length_blockAt hposition]
  omega

/-- A fragment that answers the first block due is put together with those before it within the
buffer and the content. -/
theorem Progress.checkedAppend_eq (h : Progress torrent hash blockSize text t)
    (hbound : torrent.totalLength + torrent.pieceLength < Word.bound) {fragment : Fragment}
    {window : Window} (hdue : t.window.due = fragment.block :: window.due) :
    checkedAppend hash fragment { t with window := window } =
      some (Transfer.append hash fragment { t with window := window }) := by
  have hreached : fragment.offset + fragment.data.length ≤ torrent.totalLength :=
    h.offset_add_length_le hdue
  have hcontent := h.length_content
  have hverified := h.verified
  have hdownloaded := h.downloaded
  have htorrent := h.torrent_eq
  subst htorrent
  rw [checkedAppend, Assembly.checkedAppend_eq hbound (by omega), Transfer.append]
  simp only [Option.bind_eq_bind, Option.bind_some]
  cases happend : t.assembly.append fragment with
  | error violation => rfl
  | ok result =>
    obtain ⟨done, assembly⟩ := result
    cases done with
    | none => rfl
    | some piece =>
      obtain ⟨hinfo, hindex, hlength, hsame⟩ := Assembly.piece_of_append happend
      have hroom : Room { t with window := window, assembly := assembly } piece.info.index := by
        rw [hinfo]
        constructor <;> simp only [hsame]
        · exact hbound
        · exact hcontent
        · exact hverified
        · exact hdownloaded
      apply hroom.checkedCheck_eq
      · simp only [hinfo, hsame]
        exact hindex
      · simp only [hinfo, hsame]
        exact hlength

/-- Everything that a download keeps about bytes is a part of some text, and its window is sound. -/
structure Sound (torrent : Torrent) (hash : Bytes → Digest) (blockSize : Nat) (t : Transfer) :
    Prop where
  /-- The download has come up to the end of some text. -/
  progress : ∃ text, Progress torrent hash blockSize text t
  /-- The window is sound. -/
  window : t.window.Sound torrent blockSize

/-- A download of which nothing has happened is sound. -/
theorem sound_start (torrent : Torrent) (hash : Bytes → Digest) (blockSize depth : Nat) :
    (start torrent blockSize depth).Sound torrent hash blockSize where
  progress := ⟨[], progress_start torrent hash blockSize depth⟩
  window := Window.sound_start torrent blockSize depth

/-- Where the download goes on after a delivered block its window is sound. -/
theorem Sound.window_of_deliver (h : t.Sound torrent hash blockSize) {fragment : Fragment}
    {next : Transfer} {notice : Option Notice}
    (hverdict : (deliver hash fragment t).verdict = .ok (next, notice)) :
    next.window.Sound torrent blockSize := by
  rw [deliver] at hverdict
  split at hverdict
  · cases hverdict
  · next harrive =>
    cases hverdict
    exact h.window.arrive harrive
  · next harrive =>
    rw [window_of_append hverdict]
    exact h.window.arrive harrive

/-- Where the download goes on after a message it is sound. -/
theorem Sound.react (h : t.Sound torrent hash blockSize) {incoming : Incoming} {next : Transfer}
    {notice : Option Notice} (hverdict : (t.react hash incoming).verdict = .ok (next, notice)) :
    next.Sound torrent hash blockSize := by
  obtain ⟨text, hprogress⟩ := h.progress
  have hreacted := hprogress.react incoming
  rw [hverdict] at hreacted
  have hafter : ∃ text, Progress torrent hash blockSize text next := by
    cases hreacted with
    | goesOn _ hprogress => exact ⟨_, hprogress⟩
  refine ⟨hafter, ?_⟩
  cases incoming with
  | block fragment => exact h.window_of_deliver hverdict
  | choked =>
    cases hverdict
    exact h.window.void
  | unchoked =>
    cases hverdict
    exact h.window.fill
  | _ =>
    cases hverdict
    exact h.window

section Checked

variable (hbound : torrent.totalLength + torrent.pieceLength < Word.bound)
include hbound

/-- The blocks that there is room for are asked for. -/
theorem Sound.checkedFill_eq (h : t.Sound torrent hash blockSize) :
    t.checkedFill = some t.fill := by
  rw [checkedFill, h.window.checkedFill_eq hbound]
  rfl

/-- Whatever block is delivered, nothing is applied outside its domain. -/
theorem Sound.checkedDeliver_eq (h : t.Sound torrent hash blockSize) (fragment : Fragment) :
    checkedDeliver hash fragment t = some (deliver hash fragment t) := by
  obtain ⟨text, hprogress⟩ := h.progress
  rw [checkedDeliver, h.window.checkedArrive_eq hbound, deliver]
  simp only [Option.bind_eq_bind, Option.bind_some]
  cases harrive : t.window.arrive fragment.block with
  | error violation => rfl
  | ok result =>
    obtain ⟨arrival, window⟩ := result
    cases arrival with
    | stale => rfl
    | accepted backfill =>
      have hdue := Window.due_of_accepted harrive
      simp only [hprogress.checkedAppend_eq hbound hdue, Option.bind_some]

/-- Whatever message comes, nothing is applied outside its domain. -/
theorem Sound.checkedReact_eq (h : t.Sound torrent hash blockSize) (incoming : Incoming) :
    t.checkedReact hash incoming = some (t.react hash incoming) := by
  cases incoming with
  | block fragment => exact h.checkedDeliver_eq hbound fragment
  | unchoked => exact h.checkedFill_eq hbound
  | _ => rfl

end Checked

end Transfer

namespace Job

variable {σ : Type} [Link σ] {job : Job} {scope : Scope} {clock after : Clock}
  {s s' : Session σ × Transfer} {torrent : Torrent} {blockSize : Nat}

/-- While a download reacts to messages it stays sound. -/
theorem Reacts.sound {incomings : List Incoming}
    (hreacts : Reacts job scope clock s incomings after s')
    (h : s.2.Sound torrent job.hash blockSize) : s'.2.Sound torrent job.hash blockSize := by
  induction hreacts with
  | nothing => exact h
  | next _ _ hcarry _ ih =>
    obtain ⟨notice, hverdict⟩ := verdict_of_carryOut hcarry
    exact ih (h.react hverdict)

/-- Asking for the first blocks leaves a sound download. -/
theorem sound_of_askFirst (hask : askFirst scope clock s = ⟨.done (), after, s'⟩)
    (h : s.2.Sound torrent job.hash blockSize) : s'.2.Sound torrent job.hash blockSize := by
  obtain ⟨text, hprogress⟩ := h.progress
  refine ⟨⟨text, (progress_of_askFirst hask hprogress).1⟩, ?_⟩
  obtain hsame | hfilled := transfer_of_askFirst hask
  · rw [hsame]
    exact h.window
  · rw [hfilled]
    exact h.window.fill

/-- If the length of the file and that of a piece together fit into a word, a peer cannot have
anything applied outside its domain. Whatever bytes have arrived, and whatever the limit on a frame
is, a message is read or refused, also at the end of the stream. Whatever a new peer sends, the
pieces that it lacks can be counted when it has announced those that it has. And whatever messages
have come in a download, it can be filled at the start and can react to any other message. -/
theorem within_domains (job : Job)
    (hbound : job.torrent.totalLength + job.torrent.pieceLength < Word.bound) :
    (∀ d : Decoder, d.checkedNext = some d.next ∧ d.checkedNextAtEnd = some d.nextAtEnd) ∧
      (∀ (scope : Scope) (clock : Clock) (c : Connection σ), c.peer.pieces = [] →
        (Connection.awaitDescriptor scope clock c).state.peer.checkedMissing =
          some (Connection.awaitDescriptor scope clock c).state.peer.missing) ∧
      ∀ (scope : Scope) (clock : Clock) (s : Session σ),
        let t := Transfer.start job.torrent job.config.blockLength job.config.queueDepth
        t.checkedFill = some t.fill ∧
          ∀ (start after : Clock) (first last : Session σ × Transfer) (incomings : List Incoming),
            askFirst scope clock (s, t) = ⟨.done (), start, first⟩ →
            Reacts job scope start first incomings after last →
            ∀ incoming, last.2.checkedReact job.hash incoming =
              some (last.2.react job.hash incoming) := by
  have hstart := Transfer.sound_start job.torrent job.hash job.config.blockLength
    job.config.queueDepth
  refine ⟨fun d ↦ ⟨d.checkedNext_eq, d.checkedNextAtEnd_eq⟩, ?_, ?_⟩
  · intro scope clock c hnew
    exact Connection.checkedMissing_of_awaitDescriptor scope clock hnew
  · intro scope clock s t
    refine ⟨hstart.checkedFill_eq hbound, ?_⟩
    intro start after first last incomings hask hreacts incoming
    have hlast := hreacts.sound (sound_of_askFirst hask hstart)
    exact hlast.checkedReact_eq hbound incoming

/-- The three bytes and a piece of two fit into a word, so that nothing is applied outside its
domain: the front of a frame of an unknown kind is dropped, the pieces that the wavering peer lacks
are counted, and when that peer has sent everything a block can still be reacted to. -/
theorem within_domains_waveringPeer :
    threeBytes.torrent.totalLength + threeBytes.torrent.pieceLength < Word.bound ∧
      ((Decoder.start 9).feed [0, 0, 0, 3, 9, 1]).checkedNext = some (.ok none, ⟨9, 1, []⟩) ∧
      (Connection.awaitDescriptor Scope.open Clock.zero
        waveringPeer.connection).state.peer.checkedMissing = some 2 ∧
      ∃ incomings after last,
        Reacts threeBytes Scope.open Clock.zero
          (waveringPeer, Transfer.start threeBytes.torrent threeBytes.config.blockLength
            threeBytes.config.queueDepth) incomings after last ∧
        last.2.isComplete = true ∧
        last.2.checkedReact threeBytes.hash (.block ⟨0, 0, [7]⟩) =
          some (last.2.react threeBytes.hash (.block ⟨0, 0, [7]⟩)) := by
  have hbound : threeBytes.torrent.totalLength + threeBytes.torrent.pieceLength < Word.bound := by
    decide
  have hrun : ∃ after last, threeBytes.transferRest Scope.open Clock.zero
      (waveringPeer, Transfer.start threeBytes.torrent threeBytes.config.blockLength
        threeBytes.config.queueDepth) = ⟨.done [7, 8, 9], after, last⟩ :=
    ⟨_, _, by with_unfolding_all rfl⟩
  obtain ⟨after, last, hdone⟩ := hrun
  obtain ⟨incomings, hreacts, hcomplete, _⟩ := reacts_of_transferRest hdone
  obtain ⟨hread, hcount, hreact⟩ := within_domains (σ := Script) threeBytes hbound
  refine ⟨hbound, ?_, ?_, incomings, after, last, hreacts, hcomplete, ?_⟩
  · rw [(hread _).1]
    with_unfolding_all rfl
  · rw [hcount _ _ _ rfl]
    with_unfolding_all rfl
  · exact (hreact Scope.open Clock.zero waveringPeer).2 _ _ _ _ _ rfl hreacts _

end Job

end PeerWire
