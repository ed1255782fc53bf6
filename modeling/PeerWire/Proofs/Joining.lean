import PeerWire.Proofs.Ledger
import PeerWire.Proofs.LinkFailures

/-!
# Where the window and the assembly meet

The blocks of a file, the window over them and the assembly of pieces each have their own notion of
what comes next. Whatever messages come, these never part: what the window accepts is exactly what
the assembly goes on with. Main statement: every block that the window accepts is put to the current
piece, it completes the piece exactly when it is the last of its blocks, the pieces are completed
in order, and a download fails because of an order only when the window refuses a block.
-/

namespace PeerWire

/-- A block is the last one of its piece among the blocks that are still to come. -/
def Blocks.IsLastOfPiece (blocks : Blocks) (block : Block) : Prop :=
  (blocks.toList.filter fun other ↦ other.piece = block.piece).getLast? = some block

namespace Torrent

variable {torrent : Torrent} {blockSize : Nat}

/-- The blocks of one piece among those of the first pieces. -/
theorem filter_flatMap_pieceBlocks (index n : Nat) :
    ((List.range n).flatMap (torrent.pieceBlocks blockSize)).filter
        (fun block ↦ block.piece = index) =
      if index < n then torrent.pieceBlocks blockSize index else [] := by
  have hpiece (i : Nat) : ∀ block ∈ torrent.pieceBlocks blockSize i, block.piece = i := by
    intro block hblock
    obtain ⟨_, _, rfl⟩ := List.mem_map.mp hblock
    rfl
  induction n with
  | zero => rfl
  | succ n ih =>
    rw [List.range_succ, List.flatMap_append, List.filter_append, ih, List.flatMap_singleton]
    by_cases heq : index = n
    · have hall : (torrent.pieceBlocks blockSize n).filter (fun block ↦ block.piece = index) =
          torrent.pieceBlocks blockSize n := by
        apply List.filter_eq_self.mpr
        intro block hblock
        simpa [heq] using hpiece n block hblock
      rw [hall, if_neg (by omega), if_pos (by omega), heq, List.nil_append]
    · have hnone : (torrent.pieceBlocks blockSize n).filter (fun block ↦ block.piece = index) =
          [] := by
        apply List.filter_eq_nil_iff.mpr
        intro block hblock
        simpa [hpiece n block hblock] using Ne.symm heq
      rw [hnone, List.append_nil]
      by_cases hlt : index < n
      · rw [if_pos hlt, if_pos (by omega)]
      · rw [if_neg hlt, if_neg (by omega)]

/-- The block at a position in a piece is the last one of the piece exactly when there is no
further position. -/
theorem isLastOfPiece_blockAt_iff {index position : Nat} (hindex : index < torrent.pieceCount)
    (hposition : position < torrent.blockCount blockSize index) :
    (Blocks.ofTorrent torrent blockSize).IsLastOfPiece (torrent.blockAt blockSize index position) ↔
      position + 1 = torrent.blockCount blockSize index := by
  have hpiece : (torrent.blockAt blockSize index position).piece = index := rfl
  have hlast : (torrent.pieceBlocks blockSize index).getLast? =
      some (torrent.blockAt blockSize index (torrent.blockCount blockSize index - 1)) := by
    obtain ⟨n, hn⟩ : ∃ n, torrent.blockCount blockSize index = n + 1 :=
      ⟨torrent.blockCount blockSize index - 1, by omega⟩
    rw [pieceBlocks, hn, List.range_succ, List.map_append, List.map_singleton,
      List.getLast?_concat, Nat.add_sub_cancel]
  rw [Blocks.IsLastOfPiece, Blocks.toList_ofTorrent, hpiece, blocks, filter_flatMap_pieceBlocks,
    if_pos hindex, hlast, Option.some.injEq]
  constructor
  · intro h
    have := position_eq_of_blockAt_eq h
    omega
  · intro h
    rw [← h, Nat.add_sub_cancel]

end Torrent

namespace Transfer

/-- A fragment that the window accepted, and what came of putting it to those before it. -/
structure Joint where
  /-- The fragment. -/
  fragment : Fragment
  /-- What came of it. -/
  result : Except Violation (Option Piece × Assembly)

/-- The piece that was completed, if one was. -/
def Joint.piece? (joint : Joint) : Option Piece := joint.result.toOption.bind Prod.fst

/-- What comes of putting together what the window accepts as messages come, until the download
ends. -/
def joints (hash : Bytes → Digest) : Transfer → List Incoming → List Joint
  | _, [] => []
  | t, incoming :: rest =>
    (t.accepted? incoming).toList.map (fun fragment ↦ ⟨fragment, t.assembly.append fragment⟩) ++
      match (t.react hash incoming).verdict with
      | .ok (next, _) => joints hash next rest
      | .error _ => []

/-- The index of that piece. -/
def Joint.index? (joint : Joint) : Option Nat := joint.piece?.map fun piece ↦ piece.info.index

/-- The fragment was taken, and completed a piece exactly when it is the last one of its piece. -/
structure Joint.Fits (torrent : Torrent) (blockSize : Nat) (joint : Joint) : Prop where
  /-- The fragment was taken. -/
  taken : ∃ result, joint.result = .ok result
  /-- It completed a piece exactly when it is the last one of its piece. -/
  completes : joint.piece?.isSome = true ↔
    (Blocks.ofTorrent torrent blockSize).IsLastOfPiece joint.fragment.block

variable {torrent : Torrent} {hash : Bytes → Digest} {blockSize : Nat} {text : Bytes}
  {t : Transfer}

/-- A fragment that answers the first block due fits the current piece. If it completes that, the
assembly goes on with the next one. -/
theorem Progress.fits (h : Progress torrent hash blockSize text t) {fragment : Fragment}
    {rest : List Block} (hdue : t.window.due = fragment.block :: rest) :
    ∃ piece? assembly, t.assembly.append fragment = .ok (piece?, assembly) ∧
      Joint.Fits torrent blockSize ⟨fragment, t.assembly.append fragment⟩ ∧
      (piece?.map fun piece ↦ piece.info.index).toList =
        List.range' t.assembly.index piece?.toList.length ∧
      assembly.index = t.assembly.index + piece?.toList.length := by
  obtain ⟨hindex, position, hposition, hreceived, hblock, -⟩ := h.first_due hdue
  have htorrent := h.torrent_eq
  subst htorrent
  have hlast := Torrent.isLastOfPiece_blockAt_iff hindex hposition
  rw [← hblock] at hlast
  by_cases hmore : position + 1 < t.assembly.torrent.blockCount blockSize t.assembly.index
  · have happend := Assembly.append_of_lt hindex hmore hreceived hblock
    refine ⟨_, _, happend, ⟨⟨_, happend⟩, ?_⟩, rfl, rfl⟩
    rw [hlast, happend]
    constructor
    · nofun
    · intro heq
      omega
  · have heq : position + 1 = t.assembly.torrent.blockCount blockSize t.assembly.index := by omega
    obtain ⟨digest, hdigest, -⟩ := Torrent.piece?_of_lt hindex
    obtain ⟨-, happend⟩ := Assembly.append_of_eq hindex hdigest heq hreceived hblock
    refine ⟨_, _, happend, ⟨⟨_, happend⟩, ?_⟩, rfl, rfl⟩
    rw [hlast, happend]
    exact ⟨fun _ ↦ heq, fun _ ↦ rfl⟩

/-- Whether a completed piece has its digest makes no difference to the assembly. -/
theorem assembly_of_append {fragment : Fragment} {piece? : Option Piece} {assembly : Assembly}
    {next : Transfer} {notice : Option Notice}
    (happend : t.assembly.append fragment = .ok (piece?, assembly))
    (hnext : append hash fragment t = .ok (next, notice)) : next.assembly = assembly := by
  rw [append, happend] at hnext
  cases piece? with
  | none =>
    cases hnext
    rfl
  | some piece =>
    simp only [check] at hnext
    split at hnext
    · cases hnext
      rfl
    · cases hnext

/-- A message with which the window accepts nothing leaves the assembly as it is. -/
theorem assembly_of_accepted?_eq_none {incoming : Incoming} {next : Transfer}
    {notice : Option Notice} (hnone : t.accepted? incoming = none)
    (hnext : (t.react hash incoming).verdict = .ok (next, notice)) :
    next.assembly = t.assembly := by
  cases incoming with
  | block fragment =>
    simp only [react, deliver, accepted?] at hnext hnone
    split at hnext
    · cases hnext
    · cases hnext
      rfl
    · next backfill window harrive =>
      rw [harrive] at hnone
      cases hnone
  | choked =>
    cases hnext
    rfl
  | unchoked =>
    cases hnext
    rfl
  | announced piece =>
    cases hnext
    rfl
  | consumed =>
    cases hnext
    rfl

/-- A fragment that the window accepts was delivered, answers the first block due, and is put to
the current piece. -/
theorem deliver_of_accepted? (hash : Bytes → Digest) {incoming : Incoming} {fragment : Fragment}
    (haccepted : t.accepted? incoming = some fragment) :
    ∃ window : Window, t.window.due = fragment.block :: window.due ∧
      (t.react hash incoming).verdict = append hash fragment { t with window := window } := by
  cases incoming with
  | block delivered =>
    simp only [accepted?] at haccepted
    split at haccepted
    · next backfill window harrive =>
      cases haccepted
      refine ⟨window, Window.due_of_accepted harrive, ?_⟩
      simp only [react, deliver, harrive]
    · cases haccepted
  | _ => cases haccepted

/-- With one message what the window accepts fits the current piece, and the assembly goes on with
the piece behind those that were completed. -/
theorem Progress.joints_step (h : Progress torrent hash blockSize text t) (incoming : Incoming) :
    let joints := (t.accepted? incoming).toList.map fun fragment ↦
      (⟨fragment, t.assembly.append fragment⟩ : Joint)
    (∀ joint ∈ joints, joint.Fits torrent blockSize) ∧
      joints.filterMap Joint.index? =
        List.range' t.assembly.index (joints.filterMap Joint.index?).length ∧
      ∀ next notice, (t.react hash incoming).verdict = .ok (next, notice) →
        next.assembly.index = t.assembly.index + (joints.filterMap Joint.index?).length := by
  intro joints
  cases haccepted : t.accepted? incoming with
  | none =>
    have hjoints : joints = [] := by simp [joints, haccepted]
    rw [hjoints]
    refine ⟨nofun, rfl, ?_⟩
    intro next notice hnext
    rw [assembly_of_accepted?_eq_none haccepted hnext]
    rfl
  | some fragment =>
    have hjoints : joints = [⟨fragment, t.assembly.append fragment⟩] := by simp [joints, haccepted]
    obtain ⟨window, hdue, hverdict⟩ := deliver_of_accepted? hash haccepted
    obtain ⟨piece?, assembly, happend, hfits, hindices, hnext⟩ := h.fits hdue
    have hindex : [(⟨fragment, t.assembly.append fragment⟩ : Joint)].filterMap Joint.index? =
        (piece?.map fun piece ↦ piece.info.index).toList := by
      rw [happend]
      cases piece? <;> rfl
    have hlength : (piece?.map fun piece ↦ piece.info.index).toList.length =
        piece?.toList.length := by
      cases piece? <;> rfl
    rw [hjoints, hindex, hlength]
    refine ⟨?_, hindices, ?_⟩
    · intro joint hjoint
      rw [List.mem_singleton] at hjoint
      exact hjoint ▸ hfits
    · intro next notice hok
      rw [hverdict] at hok
      rw [assembly_of_append (t := { t with window := window }) happend hok, hnext]

/-- Whatever messages come, what the window accepts fits, and the pieces are completed one after
the other. -/
theorem Progress.joints_run (h : Progress torrent hash blockSize text t)
    (incomings : List Incoming) :
    (∀ joint ∈ t.joints hash incomings, joint.Fits torrent blockSize) ∧
      (t.joints hash incomings).filterMap Joint.index? = List.range' t.assembly.index
        ((t.joints hash incomings).filterMap Joint.index?).length := by
  induction incomings generalizing t text with
  | nil => exact ⟨nofun, rfl⟩
  | cons incoming rest ih =>
    obtain ⟨hfirst, hindices, hnext⟩ := h.joints_step incoming
    have hreacted := h.react incoming
    rw [joints]
    cases hverdict : (t.react hash incoming).verdict with
    | error error =>
      rw [List.append_nil]
      exact ⟨hfirst, hindices⟩
    | ok result =>
      obtain ⟨next, notice⟩ := result
      rw [hverdict] at hreacted
      cases hreacted with
      | goesOn hdue hprogress =>
        obtain ⟨hrest, hbehind⟩ := ih hprogress
        constructor
        · intro joint hjoint
          rcases List.mem_append.mp hjoint with hjoint | hjoint
          · exact hfirst joint hjoint
          · exact hrest joint hjoint
        · rw [hnext next notice hverdict] at hbehind
          rw [List.filterMap_append, List.length_append, ← List.range'_append_1, ← hindices,
            ← hbehind]

end Transfer

/-- A block that a window refuses is not the one that is expected, or none is. -/
theorem Window.violation_of_arrive {w : Window} {block : Block} {violation : Violation}
    (h : w.arrive block = .error violation) :
    (∃ expected, violation = .unexpectedBlock expected block) ∨
      violation = .unsolicited block := by
  have harrived := w.arrived block
  rw [h] at harrived
  cases harrived with
  | refused hother huntaken =>
    have hrefusal := w.arrive_of_untaken hother huntaken
    rw [h] at hrefusal
    injection hrefusal with hrefusal
    rw [hrefusal, refusal]
    split
    · next oldest _ => exact .inl ⟨oldest, rfl⟩
    · exact .inr rfl

namespace Job

/-- A failure that is not about order, or says that the window refused a block. -/
def RefusedByWindow (error : Error) : Prop :=
  ∀ violation, error = .orderingViolation violation →
    (∃ expected actual, violation = .unexpectedBlock expected actual) ∨
      ∃ block, violation = .unsolicited block

/-- Where a download fails of itself because of an order, the window refused a block. -/
theorem coversDownload_refusedByWindow : CoversDownload RefusedByWindow where
  senseless := by
    rintro peer message _ h violation rfl
    obtain ⟨fault, h⟩ | ⟨expected, received, h⟩ := Peer.error_of_apply h
    · cases h
    · cases h
  refused := by
    rintro w block violation h _ ⟨⟩
    obtain ⟨expected, rfl⟩ | rfl := Window.violation_of_arrive h
    · exact .inl ⟨expected, block, rfl⟩
    · exact .inr ⟨block, rfl⟩
  mismatch := by
    rintro piece violation ⟨⟩

/-- Whatever messages come, and wherever the blocks are cut, each fragment that the window accepts
is taken by the assembly. It completes a piece exactly when its block is the last one of its piece
in the order of the blocks, and the completed pieces are 0, 1, 2 and so on. (To be unchoked first of
all is to ask for the first blocks.) So over a link that does not complain about an order itself, a
download fails because of an order only in the two ways in which the window refuses a block. -/
theorem fits_of_accepted (job : Job) {σ : Type} [Link σ] {I : σ → Prop} :
    (∀ incomings : List Incoming,
      let blocks := Blocks.ofTorrent job.torrent job.config.blockLength
      let joints := (Transfer.start job.torrent job.config.blockLength
        job.config.queueDepth).joints job.hash incomings
      (∀ joint ∈ joints, (∃ taken, joint.result = .ok taken) ∧
        (joint.piece?.isSome = true ↔ blocks.IsLastOfPiece joint.fragment.block)) ∧
      ∃ n, joints.filterMap Transfer.Joint.index? = List.range n) ∧
    (LinkFailsOnly (σ := σ) (fun error ↦ ∀ violation, error ≠ .orderingViolation violation) I →
      ∀ scope clock after (s s' : Session σ) violation, I s.connection.link →
        job.downloadFrom scope clock s = ⟨.failed (.orderingViolation violation), after, s'⟩ →
        (∃ expected actual, violation = .unexpectedBlock expected actual) ∨
          ∃ block, violation = .unsolicited block) := by
  constructor
  · intro incomings blocks joints
    have hstart := Transfer.progress_start job.torrent job.hash job.config.blockLength
      job.config.queueDepth
    obtain ⟨hfits, hindices⟩ := hstart.joints_run incomings
    refine ⟨fun joint hjoint ↦ ?_, (joints.filterMap Transfer.Joint.index?).length, ?_⟩
    · exact ⟨(hfits joint hjoint).taken, (hfits joint hjoint).completes⟩
    · rw [List.range_eq_range']
      exact hindices
  · intro hlink scope clock after s s' violation hs hrun
    have hweaker : LinkFailsOnly RefusedByWindow I := by
      apply hlink.mono
      intro error herror violation heq
      exact absurd heq (herror violation)
    obtain hrefused | hcancelled :=
      failed_of_downloadFrom coversDownload_refusedByWindow hweaker hs hrun
    · exact hrefused violation rfl
    · cases hcancelled

/-- A peer that gives leave and delivers the block that is due second. -/
def hastyPeer : Session Queues where
  connection :=
    Connection.start ⟨.octets 127 0 0 1, 6881⟩ ⟨[.unchoke, .piece ⟨0, 1, [8]⟩], [], []⟩ 2 30000
  outbox := Outbox.start .absent

/-- A peer that gives leave, delivers the first piece, and then one of its blocks again. -/
def repeatingPeer : Session Queues where
  connection :=
    let messages : List Message :=
      [.unchoke, .piece ⟨0, 0, [7]⟩, .piece ⟨0, 1, [8]⟩, .piece ⟨0, 1, [8]⟩]
    Connection.start ⟨.octets 127 0 0 1, 6881⟩ ⟨messages, [], []⟩ 2 30000
  outbox := Outbox.start .unbounded

/-- Leave to request, and the three bytes in order. -/
def orderlyIncomings : List Incoming :=
  [.unchoked, .block ⟨0, 0, [7]⟩, .block ⟨0, 1, [8]⟩, .block ⟨1, 0, [9]⟩]

/-- What comes in order is accepted, and put together to both pieces. From the peer that repeats
itself the first piece is fetched and checked before the window refuses a block; from the hasty one
nothing is. -/
theorem fits_of_accepted_hastyPeer :
    (let blocks := Blocks.ofTorrent threeBytes.torrent threeBytes.config.blockLength
      let joints := (Transfer.start threeBytes.torrent threeBytes.config.blockLength
        threeBytes.config.queueDepth).joints threeBytes.hash orderlyIncomings
      joints.map Transfer.Joint.fragment = [⟨0, 0, [7]⟩, ⟨0, 1, [8]⟩, ⟨1, 0, [9]⟩] ∧
        joints.filterMap Transfer.Joint.index? = [0, 1] ∧
        ∀ joint ∈ joints, (∃ taken, joint.result = .ok taken) ∧
          (joint.piece?.isSome = true ↔ blocks.IsLastOfPiece joint.fragment.block)) ∧
    (∃ after s' violation,
      threeBytes.downloadFrom Scope.open Clock.zero repeatingPeer =
          ⟨.failed (.orderingViolation violation), after, s'⟩ ∧
        s'.outbox.waiting = [.verified 0 2 3] ∧
        ((∃ expected actual, violation = .unexpectedBlock expected actual) ∨
          ∃ block, violation = .unsolicited block)) ∧
    ∃ after s' violation,
      threeBytes.downloadFrom Scope.open Clock.zero hastyPeer =
          ⟨.failed (.orderingViolation violation), after, s'⟩ ∧
        ((∃ expected actual, violation = .unexpectedBlock expected actual) ∨
          ∃ block, violation = .unsolicited block) := by
  obtain ⟨hjoints, hfailures⟩ := fits_of_accepted threeBytes (σ := Queues) (I := fun _ ↦ True)
  refine ⟨⟨by decide +kernel, by decide +kernel, (hjoints orderlyIncomings).1⟩, ?_, ?_⟩
  · have hrun : ∃ after s', threeBytes.downloadFrom Scope.open Clock.zero repeatingPeer =
          ⟨.failed (.orderingViolation (.unexpectedBlock ⟨1, 0, 1⟩ ⟨0, 1, 1⟩)), after, s'⟩ ∧
        s'.outbox.waiting = [.verified 0 2 3] :=
      ⟨_, _, by with_unfolding_all rfl, by with_unfolding_all rfl⟩
    obtain ⟨after, s', hfailed, hwaiting⟩ := hrun
    exact ⟨after, s', _, hfailed, hwaiting,
      hfailures Queues.linkFailsOnly _ _ _ _ _ _ trivial hfailed⟩
  · have hrun : ∃ after s', threeBytes.downloadFrom Scope.open Clock.zero hastyPeer =
        ⟨.failed (.orderingViolation (.unexpectedBlock ⟨0, 0, 1⟩ ⟨0, 1, 1⟩)), after, s'⟩ :=
      ⟨_, _, by with_unfolding_all rfl⟩
    obtain ⟨after, s', hfailed⟩ := hrun
    exact ⟨after, s', _, hfailed, hfailures Queues.linkFailsOnly _ _ _ _ _ _ trivial hfailed⟩

end Job

end PeerWire
