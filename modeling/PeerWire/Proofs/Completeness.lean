import PeerWire.Proofs.Exchange

/-!
# A download from an honest peer comes to its end

Whatever the order in which a download and an honest peer take their steps, the peer's answers fit
what the download waits for, and they make up the file. Main statement: no round of the download
fails, it has no other content than the file, and when nothing is on its way and the peer gives
leave then the download has come to its end.
-/

namespace PeerWire

namespace Torrent

variable {torrent : Torrent} {file text : Bytes} {blockSize : Nat}

/-- The answer to a request for a block of the file fills the block. -/
theorem block_answer (hlength : file.length = torrent.totalLength) {block : Block}
    (h : block ∈ torrent.blocks blockSize) : (torrent.answer file block).block = block := by
  obtain ⟨hpiece, hwithin⟩ := within_of_mem_blocks h
  have hend := pieceOffset_add_pieceSize hpiece
  have htotal : torrent.lengthBefore (block.piece + 1) ≤ torrent.totalLength :=
    Nat.min_le_right _ _
  have hdata : (torrent.answer file block).data.length = block.length := by
    rw [answer, List.length_take, List.length_drop]
    omega
  obtain ⟨piece, offset, length⟩ := block
  exact congrArg (Block.mk piece offset) hdata

/-- A piece of the front part of a file has the digest that it has in the file. -/
theorem vouches_of_prefix {hash : Bytes → Digest} {index : Nat} (hfile : text <+: file)
    (hindex : index < torrent.pieceCount) (hlength : torrent.lengthBefore (index + 1) ≤ text.length)
    (h : torrent.Vouches hash file index) : torrent.Vouches hash text index := by
  obtain ⟨rest, rfl⟩ := hfile
  rw [Vouches, slice_append hindex hlength] at h
  exact h

end Torrent

namespace Transfer

variable {torrent : Torrent} {hash : Bytes → Digest} {blockSize : Nat} {text file : Bytes}
  {t : Transfer}

/-- The answer to the request for the first block due continues the front part of the file. -/
theorem Progress.prefix_answer (h : Progress torrent hash blockSize text t) (hfile : text <+: file)
    {block : Block} {rest : List Block} (hdue : t.window.due = block :: rest) :
    text ++ (torrent.answer file block).data <+: file := by
  obtain ⟨hindex, position, _, hreceived, rfl, _⟩ := h.first_due hdue
  have hbefore := Torrent.lengthBefore_of_lt hindex
  have hlength := h.length_text
  have hstart : torrent.pieceOffset (torrent.blockAt blockSize t.assembly.index position).piece
      + (torrent.blockAt blockSize t.assembly.index position).offset = text.length := by
    rw [hlength, hbefore, hreceived]
    rfl
  obtain ⟨behind, rfl⟩ := hfile
  rw [Torrent.answer, hstart, List.drop_left, List.prefix_append_right_inj]
  exact List.take_prefix _ _

/-- When a block is not refused, the window is what it makes of it, and the block for which there
is room then is asked for. -/
theorem window_of_deliver {fragment : Fragment} {arrival : Arrival} {after : Window}
    (h : t.window.arrive fragment.block = .ok (arrival, after)) :
    (deliver hash fragment t).requests = arrival.asked ∧
      ∀ {next : Transfer} {notice : Option Notice},
        (deliver hash fragment t).verdict = .ok (next, notice) → next.window = after := by
  cases arrival with
  | stale =>
    simp only [deliver, h]
    refine ⟨rfl, ?_⟩
    intro next notice hverdict
    cases hverdict
    rfl
  | accepted backfill =>
    simp only [deliver, h]
    refine ⟨rfl, ?_⟩
    intro next notice hverdict
    exact window_of_append hverdict

/-- Only blocks that are due are asked for. -/
theorem mem_due_of_mem_requests {incoming : Incoming} {block : Block}
    (h : block ∈ (t.react hash incoming).requests) : block ∈ t.window.due := by
  apply List.mem_append_right
  cases incoming with
  | block fragment =>
    have harrived := Window.arrived t.window fragment.block
    cases hresult : t.window.arrive fragment.block with
    | error violation =>
      simp only [react, deliver, hresult] at h
      cases h
    | ok result =>
      obtain ⟨arrival, after⟩ := result
      rw [hresult] at harrived
      have hrequests : (deliver hash fragment t).requests = arrival.asked :=
        (window_of_deliver hresult).1
      rw [react, hrequests] at h
      cases harrived with
      | stale => cases h
      | accepted => exact List.mem_of_mem_head? (Option.mem_toList.mp h)
  | unchoked =>
    have htake := (Window.asked_fill t.window).2
    have hmem : block ∈ t.window.fill.1 := h
    rw [htake] at hmem
    exact List.mem_of_mem_take hmem
  | choked => cases h
  | announced piece => cases h
  | consumed => cases h

/-- Only a delivered fragment is accepted. -/
theorem eq_block_of_accepted? {incoming : Incoming} {fragment : Fragment}
    (h : t.accepted? incoming = some fragment) : incoming = .block fragment := by
  cases incoming with
  | block other =>
    simp only [accepted?] at h
    split at h
    · cases h
      rfl
    · cases h
  | _ => cases h

end Transfer

/-- Requests behind other messages ask for their blocks. -/
theorem requested_append_map (messages : List Message) (blocks : List Block) :
    requested (messages ++ blocks.map .request) = requested messages ++ blocks := by
  rw [requested, List.filterMap_append, List.filterMap_map]
  exact congrArg (requested messages ++ ·) List.filterMap_some

namespace Exchange

/-- The requests that the peer has not answered, the oldest first. -/
def unanswered (e : Exchange) : List Block := e.stored ++ requested e.outgoing

/-- What a peer that has a file sends. -/
inductive Genuine (torrent : Torrent) (file : Bytes) (blockSize : Nat) : Message → Prop where
  /-- It withdraws its leave. -/
  | choke : Genuine torrent file blockSize .choke
  /-- It gives leave. -/
  | unchoke : Genuine torrent file blockSize .unchoke
  /-- It answers the request for a block of the file. -/
  | answer {block : Block} (known : block ∈ torrent.blocks blockSize) :
      Genuine torrent file blockSize (.piece (torrent.answer file block))

/-- A download that has come some way through the file, and a peer whose answers it can use. -/
structure Honest (job : Job) (file : Bytes) (e : Exchange) : Prop where
  /-- The text is the front part of the file. -/
  progress : ∃ text, text <+: file ∧
    e.session.2.Progress job.torrent job.hash job.config.blockLength text
  /-- The blocks due are blocks of the file. -/
  due : ∀ block ∈ e.session.2.window.due, block ∈ job.torrent.blocks job.config.blockLength
  /-- The requests that were not answered are for blocks of the file. -/
  unanswered : ∀ block ∈ e.unanswered, block ∈ job.torrent.blocks job.config.blockLength
  /-- What is on its way to the download is what an honest peer sends. -/
  incoming : ∀ message ∈ e.incoming, Genuine job.torrent file job.config.blockLength message
  /-- Requests and answers fit together. -/
  settled : Settled e.session.2.window e.session.1.connection.peer.choking e.withholding e.incoming
    e.unanswered

namespace Honest

variable {job : Job} {file : Bytes} {e : Exchange}

/-- A peer's step that leaves the download, sends something that an honest peer sends, and has
no other unanswered requests, keeps to what is honest. -/
theorem ofPeer (h : Honest job file e) {next : Exchange} (hdownload : next.session.2 = e.session.2)
    (hpeer : next.session.1.connection.peer = e.session.1.connection.peer)
    (hunanswered : ∀ block ∈ next.unanswered, block ∈ e.unanswered)
    (hincoming : ∀ message ∈ next.incoming,
      message ∈ e.incoming ∨ Genuine job.torrent file job.config.blockLength message)
    (hsettled : Settled e.session.2.window e.session.1.connection.peer.choking next.withholding
      next.incoming next.unanswered) : Honest job file next where
  progress := hdownload ▸ h.progress
  due := hdownload ▸ h.due
  unanswered := fun block hblock ↦ h.unanswered block (hunanswered block hblock)
  incoming := fun message hmessage ↦ (hincoming message hmessage).elim (h.incoming message) id
  settled := by
    rw [hdownload, hpeer]
    exact hsettled

/-- A message behind those on their way is one of them or the new one. -/
theorem mem_or_genuine {messages : List Message} {last : Message}
    (hlast : Genuine job.torrent file job.config.blockLength last) :
    ∀ message ∈ messages ++ [last],
      message ∈ messages ∨ Genuine job.torrent file job.config.blockLength message := by
  intro message hmessage
  rw [List.mem_append, List.mem_singleton] at hmessage
  obtain hbefore | rfl := hmessage
  · exact .inl hbefore
  · exact .inr hlast

/-- Storing a request leaves the unanswered requests as they are. -/
theorem store (h : Honest job file e) {block : Block} {rest : List Message}
    (hnext : e.outgoing = .request block :: rest) :
    Honest job file { e.withQueues e.incoming rest with stored := e.stored ++ [block] } := by
  have hsame : (e.stored ++ [block]) ++ requested rest = e.unanswered := by
    rw [Exchange.unanswered, hnext, List.append_assoc]
    rfl
  refine h.ofPeer rfl rfl ?_ (fun _ ↦ .inl) ?_
  · intro other hother
    rw [← hsame]
    exact hother
  · have hsettled := h.settled
    rw [← hsame] at hsettled
    exact hsettled

/-- Dropping a request while leave is withheld leaves some of the unanswered requests. -/
theorem drop (h : Honest job file e) {block : Block} {rest : List Message}
    (hnext : e.outgoing = .request block :: rest) (hwithholds : e.withholding = true) :
    Honest job file (e.withQueues e.incoming rest) := by
  have hfewer : List.Sublist (e.stored ++ requested rest) e.unanswered := by
    rw [Exchange.unanswered, hnext]
    exact List.Sublist.append_left (List.sublist_cons_self block (requested rest)) _
  refine h.ofPeer rfl rfl (fun other hother ↦ hfewer.subset hother) (fun _ ↦ .inl) ?_
  have hsettled := h.settled
  have hstill : (e.withQueues e.incoming rest).withholding = true := hwithholds
  rw [hwithholds] at hsettled
  rw [hstill]
  exact hsettled.forget hfewer

/-- The answer to the oldest request fits. -/
theorem answer (h : Honest job file e) (hlength : file.length = job.torrent.totalLength)
    {block : Block} {rest : List Block} (holdest : e.stored = block :: rest) :
    Honest job file
      { e.withQueues (e.incoming ++ [.piece (job.torrent.answer file block)]) e.outgoing with
        stored := rest } := by
  have hmore : e.unanswered = block :: (rest ++ requested e.outgoing) := by
    rw [Exchange.unanswered, holdest, List.cons_append]
  have hknown : block ∈ job.torrent.blocks job.config.blockLength := by
    apply h.unanswered
    rw [hmore]
    exact List.mem_cons_self
  refine h.ofPeer rfl rfl ?_ (mem_or_genuine (.answer hknown)) ?_
  · intro other hother
    rw [hmore]
    exact List.mem_cons_of_mem _ hother
  · have hsettled := h.settled
    rw [hmore] at hsettled
    exact hsettled.answer (Torrent.block_answer hlength hknown)

/-- Withdrawing leave and forgetting some of the requests fits. -/
theorem choke (h : Honest job file e) {kept : List Block} (hkept : List.Sublist kept e.stored) :
    Honest job file
      { e.withQueues (e.incoming ++ [.choke]) e.outgoing with
        stored := kept
        withholding := true } := by
  have hfewer : List.Sublist (kept ++ requested e.outgoing) e.unanswered :=
    hkept.append_right (requested e.outgoing)
  exact h.ofPeer rfl rfl (fun _ hother ↦ hfewer.subset hother) (mem_or_genuine .choke)
    (h.settled.choke hfewer)

/-- Giving leave fits. -/
theorem unchoke (h : Honest job file e) :
    Honest job file
      { e.withQueues (e.incoming ++ [.unchoke]) e.outgoing with withholding := false } :=
  h.ofPeer rfl rfl (fun _ hother ↦ hother) (mem_or_genuine .unchoke) h.settled.unchoke

/-! ### The download takes a message -/

/-- What taking a message comes to: the message is taken in, the download goes on, only an answer
of the peer can have been accepted, and requests and answers still fit together. -/
structure Takes (job : Job) (file : Bytes) (e : Exchange) (message : Message)
    (rest : List Message) (incoming : Incoming) (peer : Peer) (next : Transfer)
    (notice : Option Notice) : Prop where
  /-- The message is taken in. -/
  takenIn : e.session.1.connection.peer.apply message = .ok (incoming, peer)
  /-- The download goes on. -/
  verdict : (e.session.2.react job.hash incoming).verdict = .ok (next, notice)
  /-- What is accepted answers a request. -/
  genuine : ∀ fragment, e.session.2.accepted? incoming = some fragment →
    fragment = job.torrent.answer file fragment.block
  /-- Requests and answers still fit together. -/
  settled : Settled next.window peer.choking e.withholding rest
    (e.unanswered ++ (e.session.2.react job.hash incoming).requests)

/-- An answer is taken. -/
theorem takes_answer (h : Honest job file e) (hlength : file.length = job.torrent.totalLength)
    (hvouches : ∀ index < job.torrent.pieceCount, job.torrent.Vouches job.hash file index)
    {block : Block} (hknown : block ∈ job.torrent.blocks job.config.blockLength)
    {rest : List Message}
    (hincoming : e.incoming = .piece (job.torrent.answer file block) :: rest) :
    ∃ next notice, Takes job file e (.piece (job.torrent.answer file block)) rest
      (.block (job.torrent.answer file block)) e.session.1.connection.peer next notice := by
  obtain ⟨text, hfile, hprogress⟩ := h.progress
  have hblock := Torrent.block_answer hlength hknown
  have hsettled := h.settled
  rw [hincoming] at hsettled
  obtain ⟨arrival, after, harrive, hafter⟩ := hsettled.arrive
  obtain ⟨hrequests, hwindow⟩ :=
    @Transfer.window_of_deliver job.hash e.session.2 _ arrival after harrive
  have hreacted := hprogress.react (.block (job.torrent.answer file block))
  cases hverdict : (e.session.2.react job.hash
      (.block (job.torrent.answer file block))).verdict with
  | ok result =>
    obtain ⟨next, notice⟩ := result
    refine ⟨next, notice, rfl, hverdict, ?_, ?_⟩
    · intro fragment haccepted
      cases Transfer.eq_block_of_accepted? haccepted
      rw [hblock]
    · rw [hwindow hverdict]
      exact hrequests ▸ hafter
  | error error =>
    rw [hverdict] at hreacted
    cases hreacted with
    | refused hdelivers hrefuses =>
      cases hdelivers
      cases harrive.symm.trans hrefuses
    | mismatch hdelivers hfirst hend hrefuted =>
      cases hdelivers
      obtain ⟨others, hdue⟩ := hfirst
      rw [hblock] at hdue
      have hpiece := (Torrent.within_of_mem_blocks hknown).1
      have hprefix := hprogress.prefix_answer hfile hdue
      exact absurd (Torrent.vouches_of_prefix hprefix hpiece (Nat.le_of_eq hend.symm)
        (hvouches _ hpiece)) hrefuted

/-- Whatever an honest peer sends is taken. -/
theorem takes (h : Honest job file e) (hlength : file.length = job.torrent.totalLength)
    (hvouches : ∀ index < job.torrent.pieceCount, job.torrent.Vouches job.hash file index)
    {message : Message} {rest : List Message} (hincoming : e.incoming = message :: rest) :
    ∃ incoming peer next notice, Takes job file e message rest incoming peer next notice := by
  have hgenuine := h.incoming message (hincoming ▸ List.mem_cons_self)
  cases hgenuine with
  | choke =>
    have hsettled := h.settled
    rw [hincoming] at hsettled
    refine ⟨.choked, _, _, _, rfl, rfl, (fun _ haccepted ↦ by cases haccepted), ?_⟩
    have hnothing : e.unanswered ++ [] = e.unanswered := List.append_nil _
    exact hnothing.symm ▸ hsettled.void
  | unchoke =>
    have hsettled := h.settled
    rw [hincoming] at hsettled
    exact ⟨.unchoked, _, _, _, rfl, rfl, (fun _ haccepted ↦ by cases haccepted), hsettled.fill⟩
  | answer hknown =>
    obtain ⟨next, notice, htakes⟩ := h.takes_answer hlength hvouches hknown hincoming
    exact ⟨_, _, next, notice, htakes⟩

/-- After an honest peer's message was taken everything is as it should be. -/
theorem afterMessage (h : Honest job file e) {message : Message} {rest : List Message}
    {incoming : Incoming} {peer : Peer} {next : Transfer} {notice : Option Notice}
    (hincoming : e.incoming = message :: rest)
    (htakes : Takes job file e message rest incoming peer next notice) :
    Honest job file { e with
      session := (Queues.answered (Queues.received e.session.1 rest peer)
        (e.session.2.react job.hash incoming).requests notice, next) } := by
  obtain ⟨text, hfile, hprogress⟩ := h.progress
  have hreacted := hprogress.react incoming
  rw [htakes.verdict] at hreacted
  cases hreacted with
  | goesOn hdue hafter =>
    have hunanswered : e.stored
        ++ requested (e.outgoing ++ (e.session.2.react job.hash incoming).requests.map .request) =
          e.unanswered ++ (e.session.2.react job.hash incoming).requests := by
      rw [requested_append_map, ← List.append_assoc]
      rfl
    refine ⟨⟨_, ?_, hafter⟩, ?_, ?_, ?_, ?_⟩
    · cases haccepted : e.session.2.accepted? incoming with
      | none =>
        have hsame : text ++ (none : Option Fragment).toList.flatMap Fragment.data = text :=
          List.append_nil text
        rw [hsame]
        exact hfile
      | some fragment =>
        have hanswer := htakes.genuine fragment haccepted
        rw [haccepted] at hdue
        rw [Option.toList_some, List.flatMap_singleton, hanswer]
        exact hprogress.prefix_answer hfile hdue
    · intro block hblock
      apply h.due
      rw [hdue]
      exact List.mem_append_right _ hblock
    · intro block hblock
      have hmem : block ∈ e.unanswered ++ (e.session.2.react job.hash incoming).requests :=
        hunanswered ▸ hblock
      obtain hbefore | hnew := List.mem_append.mp hmem
      · exact h.unanswered block hbefore
      · exact h.due block (Transfer.mem_due_of_mem_requests hnew)
    · intro other hother
      apply h.incoming
      rw [hincoming]
      exact List.mem_cons_of_mem _ hother
    · have hsettled := htakes.settled
      rw [← hunanswered] at hsettled
      exact hsettled

/-- What a round of the download comes to. -/
inductive Round (job : Job) (file : Bytes) (e : Exchange) :
    Outcome (Session Queues × Transfer) (Option Bytes) → Prop where
  /-- The download has the file. -/
  | complete {clock : Clock} (index : e.session.2.assembly.index = job.torrent.pieceCount) :
      Round job file e ⟨.done (some file), clock, e.session⟩
  /-- The download goes on. -/
  | goesOn {clock : Clock} {s : Session Queues × Transfer}
      (honest : Honest job file { e with session := s }) : Round job file e ⟨.done none, clock, s⟩
  /-- The download waits, and not every piece was checked. -/
  | waits {outcome : Outcome (Session Queues × Transfer) (Option Bytes)}
      (index : e.session.2.assembly.index ≠ job.torrent.pieceCount) (empty : e.incoming = [])
      (isWait : outcome.IsWait) : Round job file e outcome

/-- When every piece was checked a round gives the file. -/
theorem round_of_index_eq (h : Honest job file e) (hlength : file.length = job.torrent.totalLength)
    (hindex : e.session.2.assembly.index = job.torrent.pieceCount) (scope : Scope)
    (clock : Clock) :
    job.transferRound scope clock e.session = ⟨.done (some file), clock, e.session⟩ := by
  obtain ⟨text, hfile, hprogress⟩ := h.progress
  obtain ⟨hcontent, htext, _⟩ := hprogress.content_of_index_eq hindex
  have hsame : text = file := hfile.eq_of_length (htext.trans hlength.symm)
  have hround : job.transferRound scope clock e.session =
      ⟨.done (some e.session.2.content), clock, e.session⟩ :=
    Job.transferRound_of_isComplete (hprogress.isComplete_iff.mpr hindex)
  rw [hround, hcontent, hsame]

/-- A round goes on, or waits, or has come to the end. -/
theorem round (h : Honest job file e) (hlength : file.length = job.torrent.totalLength)
    (hvouches : ∀ index < job.torrent.pieceCount, job.torrent.Vouches job.hash file index)
    (scope : Scope) (clock : Clock) :
    Round job file e (job.transferRound scope clock e.session) := by
  by_cases hindex : e.session.2.assembly.index = job.torrent.pieceCount
  · rw [h.round_of_index_eq hlength hindex]
    exact .complete hindex
  · obtain ⟨text, _, hprogress⟩ := h.progress
    have hunfinished : e.session.2.isComplete = false :=
      Bool.eq_false_iff.mpr (mt hprogress.isComplete_iff.mp hindex)
    cases hincoming : e.incoming with
    | nil => exact .waits hindex hincoming (Queues.transferRound_of_nil hunfinished hincoming)
    | cons message rest =>
      obtain ⟨incoming, peer, next, notice, htakes⟩ := h.takes hlength hvouches hincoming
      have hround : job.transferRound scope clock e.session = _ :=
        Queues.transferRound_of_cons hunfinished hincoming htakes.takenIn htakes.verdict
      rw [hround]
      exact .goesOn (h.afterMessage hincoming htakes)

/-- A step leaves everything as it should be. -/
theorem step (h : Honest job file e) (hlength : file.length = job.torrent.totalLength)
    (hvouches : ∀ index < job.torrent.pieceCount, job.torrent.Vouches job.hash file index)
    {next : Exchange} (hstep : Step job file e next) : Honest job file next := by
  cases hstep with
  | store hnext => exact h.store hnext
  | drop hnext hwithholds => exact h.drop hnext hwithholds
  | answer holdest => exact h.answer hlength holdest
  | choke hkeeps => exact h.choke hkeeps
  | unchoke => exact h.unchoke
  | @round scope clock _ _ hruns =>
    have hround := h.round hlength hvouches scope clock
    rw [hruns] at hround
    cases hround with
    | goesOn hhonest => exact hhonest
    | waits _ _ hwait => obtain hwait | hwait | hwait := hwait <;> cases hwait

/-- Before the peer has done anything everything is as it should be, if the requests on their way
are for blocks that are due. -/
theorem ofFirst {first : Session Queues × Transfer} {withholding : Bool}
    (hincoming : first.1.connection.link.incoming = [])
    (hprogress : first.2.Progress job.torrent job.hash job.config.blockLength [])
    (hdue : first.2.window.due = job.torrent.blocks job.config.blockLength)
    (hrequested : ∀ block ∈ requested first.1.connection.link.outgoing,
      block ∈ first.2.window.due)
    (hsettled : Settled first.2.window first.1.connection.peer.choking withholding []
      (requested first.1.connection.link.outgoing)) :
    Honest job file ⟨first, [], withholding⟩ where
  progress := ⟨[], List.nil_prefix, hprogress⟩
  due := fun block hblock ↦ hdue ▸ hblock
  unanswered := fun block hblock ↦ hdue ▸ hrequested block hblock
  incoming := by
    intro message hmessage
    rw [Exchange.incoming, hincoming] at hmessage
    cases hmessage
  settled := by
    rw [Exchange.incoming, hincoming]
    exact hsettled

/-- Once the first blocks were asked for everything is as it should be. -/
theorem start {scope : Scope} {clock after : Clock} {s : Session Queues}
    {first : Session Queues × Transfer} (hincoming : s.connection.link.incoming = [])
    (houtgoing : s.connection.link.outgoing = [])
    (hasks : Job.askFirst scope clock
        (s, Transfer.start job.torrent job.config.blockLength job.config.queueDepth) =
      ⟨.done (), after, first⟩) :
    Honest job file ⟨first, [], s.connection.peer.choking⟩ := by
  have hprogress := Transfer.progress_start job.torrent job.hash job.config.blockLength
    job.config.queueDepth
  have hdue : (Transfer.start job.torrent job.config.blockLength
      job.config.queueDepth).window.due = job.torrent.blocks job.config.blockLength :=
    Blocks.toList_ofTorrent
  have hsettled : Settled (Transfer.start job.torrent job.config.blockLength
      job.config.queueDepth).window true true [] [] :=
    .start (Nat.lt_of_lt_of_le Nat.zero_lt_one (Nat.le_max_right _ _)) rfl
  cases hchoking : s.connection.peer.choking with
  | true =>
    rw [Queues.askFirst_of_choking hchoking] at hasks
    cases hasks
    refine ofFirst hincoming hprogress hdue ?_ ?_
    · intro block hblock
      rw [houtgoing] at hblock
      cases hblock
    · rw [houtgoing, hchoking]
      exact hsettled
  | false =>
    rw [Queues.askFirst_of_not_choking hchoking] at hasks
    cases hasks
    obtain ⟨hasked, htake⟩ := Window.asked_fill (Transfer.start job.torrent
      job.config.blockLength job.config.queueDepth).window
    have hrequested (blocks : List Block) :
        requested (Queues.answered s blocks none).connection.link.outgoing = blocks := by
      have hput : (Queues.answered s blocks none).connection.link.outgoing =
          s.connection.link.outgoing ++ blocks.map .request := rfl
      rw [hput, houtgoing, requested_append_map]
      rfl
    refine ofFirst hincoming (hprogress.withWindow hasked.due) (hasked.due.trans hdue) ?_ ?_
    · intro block hblock
      rw [hrequested, htake] at hblock
      rw [hasked.due]
      exact List.mem_append_right _ (List.mem_of_mem_take hblock)
    · have hchoking : (Queues.answered s (Transfer.start job.torrent job.config.blockLength
        job.config.queueDepth).window.fill.1 none).connection.peer.choking = false := hchoking
      rw [hrequested, hchoking]
      exact hsettled.unchoke.fill

end Honest

/-- Everything that can be reached is as it should be. -/
theorem Reachable.honest {job : Job} {file : Bytes} {e : Exchange} (h : Reachable job file e)
    (hlength : file.length = job.torrent.totalLength)
    (hvouches : ∀ index < job.torrent.pieceCount, job.torrent.Vouches job.hash file index) :
    Honest job file e := by
  induction h with
  | start hincoming houtgoing hasks => exact Honest.start hincoming houtgoing hasks
  | step _ hlast ih => exact ih.step hlength hvouches hlast

/-- However the steps of a download and of a peer that has the file follow each other, no round of
the download fails, it has no other content than the file, and when nothing is on its way, the peer
has no request left and gives leave, then the download has come to its end with the file. -/
theorem transferRest_of_reachable {job : Job} {file : Bytes} {e : Exchange}
    (hlength : file.length = job.torrent.totalLength)
    (hvouches : ∀ index < job.torrent.pieceCount, job.torrent.Vouches job.hash file index)
    (h : Reachable job file e) (scope : Scope) (clock : Clock) :
    (∀ error, (job.transferRound scope clock e.session).ending ≠ .failed error) ∧
      (∀ content, (job.transferRound scope clock e.session).ending = .done (some content) →
        content = file) ∧
      (e.incoming = [] → e.outgoing = [] → e.stored = [] → e.withholding = false →
        job.transferRest scope clock e.session = ⟨.done file, clock, e.session⟩) := by
  have hhonest := h.honest hlength hvouches
  have hround := hhonest.round hlength hvouches scope clock
  refine ⟨?_, ?_, ?_⟩
  · intro error hfailed
    cases houtcome : job.transferRound scope clock e.session with
    | mk ending after s =>
      rw [houtcome] at hround hfailed
      subst hfailed
      cases hround with
      | waits _ _ hwait => obtain hwait | hwait | hwait := hwait <;> cases hwait
  · intro content hdone
    cases houtcome : job.transferRound scope clock e.session with
    | mk ending after s =>
      rw [houtcome] at hround hdone
      subst hdone
      cases hround with
      | complete => rfl
      | waits _ _ hwait => obtain hwait | hwait | hwait := hwait <;> cases hwait
  · intro hincoming houtgoing hstored hleave
    obtain ⟨text, _, hprogress⟩ := hhonest.progress
    have hsettled := hhonest.settled
    rw [hleave, hincoming, unanswered, houtgoing, hstored] at hsettled
    have hindex := hprogress.index_eq_of_due hsettled.due_eq_nil
    rw [Job.transferRest, Activity.repeatUntil_apply,
      hhonest.round_of_index_eq hlength hindex scope clock]

/-- One byte in one piece. -/
def oneByte : Job where
  torrent := {
    infoHash := .zero
    pieceLength := 1
    totalLength := 1
    hashes := [Job.frontDigest [7]]
    pieceLength_pos := Nat.one_pos
    length_hashes := rfl }
  config := { clientId := Job.nobody }
  hash := Job.frontDigest

/-- A session over empty queues with a peer that gives leave. -/
def quietSession : Session Queues where
  connection :=
    let c := Connection.start ⟨.octets 127 0 0 1, 6881⟩ (⟨[], [], []⟩ : Queues) 1 30000
    { c with peer := { c.peer with choking := false } }
  outbox := Outbox.start .absent

/-- The byte is fetched although the peer withdraws its leave and forgets the request. -/
theorem transferRest_of_reachable_oneByte : ∃ e, Reachable oneByte [7] e ∧
    oneByte.transferRest Scope.open Clock.zero e.session =
      ⟨.done [7], Clock.zero, e.session⟩ := by
  have hvouches : ∀ index < oneByte.torrent.pieceCount,
      oneByte.torrent.Vouches oneByte.hash [7] index := by
    intro index hindex
    obtain rfl : index = 0 := Nat.lt_one_iff.mp hindex
    rfl
  have hasked : Reachable oneByte [7] _ :=
    @Reachable.start oneByte [7] Scope.open Clock.zero _ quietSession _ rfl rfl
      (by with_unfolding_all rfl)
  have hstored := hasked.step (.store rfl)
  have hforgotten := hstored.step (.choke (List.nil_sublist _))
  have hgiven := hforgotten.step .unchoke
  have hvoided := hgiven.step
    (@Step.round _ _ _ Scope.open Clock.zero _ _ (by with_unfolding_all rfl))
  have hrepeated := hvoided.step
    (@Step.round _ _ _ Scope.open Clock.zero _ _ (by with_unfolding_all rfl))
  have hagain := hrepeated.step (.store rfl)
  have hanswered := hagain.step (.answer rfl)
  have hreceived := hanswered.step
    (@Step.round _ _ _ Scope.open Clock.zero _ _ (by with_unfolding_all rfl))
  exact ⟨_, hreceived, (transferRest_of_reachable rfl hvouches hreceived Scope.open
    Clock.zero).2.2 rfl rfl rfl rfl⟩

end Exchange

end PeerWire
