import PeerWire.Download
import PeerWire.Link.Script
import PeerWire.Proofs.Progress

/-!
# What a finished download has

No message, whoever sent it, can put anything into a download but the data of a block that the
window accepts, and that becomes the end of the text. Main statement: a download that finishes has
every piece with its digest, and its content is the data of the accepted blocks, which are the
blocks of the file in order.
-/

namespace PeerWire

namespace Transfer

/-! ### What one message does -/

/-- The fragment that a message delivers, if the window accepts it. -/
def accepted? (t : Transfer) : Incoming → Option Fragment
  | .block fragment =>
    match t.window.arrive fragment.block with
    | .ok (.accepted _, _) => some fragment
    | _ => none
  | _ => none

/-- The download after a message; one that ends it leaves it as it was. -/
def after (hash : Bytes → Digest) (t : Transfer) (incoming : Incoming) : Transfer :=
  match (t.react hash incoming).verdict with
  | .ok (next, _) => next
  | .error _ => t

/-- The fragments that the window accepts as messages come, in order. -/
def accepted (hash : Bytes → Digest) : Transfer → List Incoming → List Fragment
  | _, [] => []
  | t, incoming :: rest =>
    (t.accepted? incoming).toList ++ accepted hash (t.after hash incoming) rest

/-- What becomes of a download with a message. -/
inductive Reacted (torrent : Torrent) (hash : Bytes → Digest) (blockSize : Nat) (text : Bytes)
    (t : Transfer) (incoming : Incoming) : Except Error (Transfer × Option Notice) → Prop where
  /-- The text goes on with the fragment that was accepted, if one was. -/
  | goesOn {next : Transfer} {notice : Option Notice}
      (due : t.window.due = (t.accepted? incoming).toList.map Fragment.block ++ next.window.due)
      (progress : Progress torrent hash blockSize
        (text ++ (t.accepted? incoming).toList.flatMap Fragment.data) next) :
      Reacted torrent hash blockSize text t incoming (.ok (next, notice))
  /-- The window refuses a block. -/
  | refused {fragment : Fragment} {violation : Violation} (delivers : incoming = .block fragment)
      (refuses : t.window.arrive fragment.block = .error violation) :
      Reacted torrent hash blockSize text t incoming (.error (.orderingViolation violation))
  /-- A piece does not have its digest. -/
  | mismatch {fragment : Fragment} (delivers : incoming = .block fragment)
      (first : ∃ rest, t.window.due = fragment.block :: rest)
      (length : (text ++ fragment.data).length = torrent.lengthBefore (fragment.piece + 1))
      (refuted : ¬ torrent.Vouches hash (text ++ fragment.data) fragment.piece) :
      Reacted torrent hash blockSize text t incoming (.error (.hashMismatch fragment.piece))

variable {torrent : Torrent} {hash : Bytes → Digest} {blockSize : Nat} {text : Bytes}
  {t : Transfer}

/-- A message with which nothing is accepted, and that leaves the blocks due as they are, leaves
the text as it is. -/
theorem Progress.reacted_of_none (h : Progress torrent hash blockSize text t) {incoming : Incoming}
    {window : Window} (hnone : t.accepted? incoming = none) (hdue : window.due = t.window.due) :
    Reacted torrent hash blockSize text t incoming (.ok ({ t with window := window }, none)) := by
  refine .goesOn ?_ ?_
  · rw [hnone]
    exact hdue.symm
  · rw [hnone]
    have htext : text ++ (none : Option Fragment).toList.flatMap Fragment.data = text :=
      List.append_nil text
    rw [htext]
    exact h.withWindow hdue

/-- A delivered block continues the text, or is late, or ends the download. -/
theorem Progress.deliver (h : Progress torrent hash blockSize text t) (fragment : Fragment) :
    Reacted torrent hash blockSize text t (.block fragment)
      (Transfer.deliver hash fragment t).verdict := by
  cases harrive : t.window.arrive fragment.block with
  | error violation =>
    simp only [Transfer.deliver, harrive]
    exact .refused rfl harrive
  | ok result =>
    obtain ⟨arrival, window⟩ := result
    cases arrival with
    | stale =>
      simp only [Transfer.deliver, harrive]
      refine h.reacted_of_none ?_ (Window.due_of_stale harrive).1
      simp only [accepted?, harrive]
    | accepted backfill =>
      have hdue := Window.due_of_accepted harrive
      have haccepted : t.accepted? (.block fragment) = some fragment := by
        simp only [accepted?, harrive]
      have htaken := h.append hdue
      simp only [Transfer.deliver, harrive]
      cases happend : Transfer.append hash fragment { t with window := window } with
      | ok result =>
        rw [happend] at htaken
        cases htaken with
        | kept hwindow hprogress =>
          refine .goesOn ?_ ?_
          · rw [haccepted, hwindow]
            exact hdue
          · rw [haccepted, Option.toList_some, List.flatMap_singleton]
            exact hprogress
      | error error =>
        rw [happend] at htaken
        cases htaken with
        | mismatch hpiece hlength hrefuted => exact .mismatch rfl ⟨_, hdue⟩ hlength hrefuted

/-- With every message a download goes on, unless a block is refused or a piece does not have its
digest. -/
theorem Progress.react (h : Progress torrent hash blockSize text t) (incoming : Incoming) :
    Reacted torrent hash blockSize text t incoming (t.react hash incoming).verdict := by
  cases incoming with
  | block fragment => exact h.deliver fragment
  | choked => exact h.reacted_of_none rfl (Window.due_void t.window)
  | unchoked => exact h.reacted_of_none rfl (Window.asked_fill t.window).1.due
  | announced piece => exact h.reacted_of_none rfl rfl
  | consumed => exact h.reacted_of_none rfl rfl

end Transfer

namespace Job

variable {σ : Type} [Link σ]

/-! ### What a run of the download does -/

/-- A download reacts to messages, one after the other, until some moment. -/
inductive Reacts (job : Job) (scope : Scope) :
    Clock → Session σ × Transfer → List Incoming → Clock → Session σ × Transfer → Prop where
  /-- Nothing has come yet. -/
  | nothing {clock : Clock} {s : Session σ × Transfer} : Reacts job scope clock s [] clock s
  /-- A message comes, and the reaction to it is carried out. -/
  | next {clock middle carried after : Clock} {s r c s' : Session σ × Transfer}
      {incoming : Incoming} {rest : List Incoming} (unfinished : s.2.isComplete = false)
      (receives : besides Connection.receiveNext scope clock s = ⟨.done incoming, middle, r⟩)
      (reacts : carryOut (s.2.react job.hash incoming) scope middle r = ⟨.done (), carried, c⟩)
      (goesOn : Reacts job scope carried c rest after s') :
      Reacts job scope clock s (incoming :: rest) after s'

variable {job : Job} {scope : Scope} {clock after : Clock} {s s' : Session σ × Transfer}

/-- A reaction that was carried out had a verdict to go on, and the download is as that tells. -/
theorem verdict_of_carryOut {reaction : Reaction}
    (h : carryOut reaction scope clock s = ⟨.done (), after, s'⟩) :
    ∃ notice, reaction.verdict = .ok (s'.2, notice) := by
  obtain ⟨_, middle, r, _, hrest⟩ := Activity.bind_eq_done h
  obtain ⟨⟨next, notice⟩, _, c, hverdict, hmodify⟩ := Activity.bind_eq_done hrest
  cases hreaction : reaction.verdict with
  | error error =>
    rw [hreaction] at hverdict
    cases hverdict
  | ok result =>
    rw [hreaction] at hverdict
    cases hverdict
    cases hmodify
    exact ⟨notice, rfl⟩

/-- A round without a value is the reaction to a message. -/
theorem round_eq_none (h : job.transferRound scope clock s = ⟨.done none, after, s'⟩) :
    s.2.isComplete = false ∧ ∃ incoming middle r,
      besides Connection.receiveNext scope clock s = ⟨.done incoming, middle, r⟩ ∧
      carryOut (s.2.react job.hash incoming) scope middle r = ⟨.done (), after, s'⟩ := by
  obtain ⟨session, t⟩ := s
  by_cases hcomplete : t.isComplete = true
  · rw [transferRound_of_isComplete hcomplete] at h
    cases h
  · rw [Bool.not_eq_true] at hcomplete
    rw [transferRound_of_unfinished hcomplete] at h
    obtain ⟨incoming, middle, r, hreceive, hrest⟩ := Activity.bind_eq_done h
    obtain ⟨_, _, _, hcarry, hpure⟩ := Activity.bind_eq_done hrest
    cases hpure
    exact ⟨hcomplete, incoming, middle, r, hreceive, hcarry⟩

/-- A round gives the content of a download of which every piece was checked, and does nothing. -/
theorem round_eq_some {content : Bytes}
    (h : job.transferRound scope clock s = ⟨.done (some content), after, s'⟩) :
    s.2.isComplete = true ∧ content = s.2.content ∧ after = clock ∧ s' = s := by
  obtain ⟨session, t⟩ := s
  by_cases hcomplete : t.isComplete = true
  · rw [transferRound_of_isComplete hcomplete] at h
    cases h
    exact ⟨hcomplete, rfl, rfl, rfl⟩
  · rw [Bool.not_eq_true] at hcomplete
    rw [transferRound_of_unfinished hcomplete] at h
    obtain ⟨_, _, _, _, hrest⟩ := Activity.bind_eq_done h
    obtain ⟨_, _, _, _, hpure⟩ := Activity.bind_eq_done hrest
    cases hpure

/-- A download that finishes has reacted to messages until every piece was checked. -/
theorem reacts_of_transferRest {content : Bytes}
    (h : job.transferRest scope clock s = ⟨.done content, after, s'⟩) :
    ∃ incomings, Reacts job scope clock s incomings after s' ∧ s'.2.isComplete = true ∧
      content = s'.2.content := by
  rw [transferRest] at h
  fun_induction Activity.repeatUntil budget job.transferRound job.advances_transferRound scope
    clock s with
  | case1 clock s value hround =>
    cases houtcome : job.transferRound scope clock s with
    | mk ending middle r =>
      rw [houtcome] at h hround
      cases h
      cases hround
      obtain ⟨hcomplete, hcontent, rfl, rfl⟩ := round_eq_some houtcome
      exact ⟨[], .nothing, hcomplete, hcontent⟩
  | case2 clock s hround ih =>
    obtain ⟨incomings, hreacts, hcomplete, hcontent⟩ := ih h
    cases houtcome : job.transferRound scope clock s with
    | mk ending middle r =>
      rw [houtcome] at hround hreacts
      cases hround
      obtain ⟨hunfinished, incoming, _, _, hreceive, hcarry⟩ := round_eq_none houtcome
      exact ⟨incoming :: incomings, .next hunfinished hreceive hcarry hreacts, hcomplete, hcontent⟩
  | case3 clock s error hround => cases h
  | case4 clock s hround => cases h
  | case5 clock s hround => cases h
  | case6 clock s hround => cases h

/-- While a download reacts to messages the accepted blocks are the first ones due, and the text
goes on with their data. -/
theorem Reacts.progress {torrent : Torrent} {blockSize : Nat} {text : Bytes}
    {incomings : List Incoming} (hreacts : Reacts job scope clock s incomings after s')
    (h : s.2.Progress torrent job.hash blockSize text) :
    s.2.window.due =
        (s.2.accepted job.hash incomings).map Fragment.block ++ s'.2.window.due ∧
      s'.2.Progress torrent job.hash blockSize
        (text ++ (s.2.accepted job.hash incomings).flatMap Fragment.data) := by
  induction hreacts generalizing text with
  | nothing =>
    refine ⟨rfl, ?_⟩
    rw [Transfer.accepted, List.flatMap_nil, List.append_nil]
    exact h
  | @next clock middle carried after s r c s' incoming rest _ hreceive hcarry _ ih =>
    obtain ⟨notice, hverdict⟩ := verdict_of_carryOut hcarry
    have hafter : s.2.after job.hash incoming = c.2 := by rw [Transfer.after, hverdict]
    have hreacted := h.react incoming
    rw [hverdict] at hreacted
    cases hreacted with
    | goesOn hdue hprogress =>
      obtain ⟨hrest, htext⟩ := ih hprogress
      rw [Transfer.accepted, hafter, List.map_append, List.flatMap_append, ← List.append_assoc]
      refine ⟨?_, htext⟩
      rw [hdue, hrest, List.append_assoc]

/-- Asking for the first blocks leaves the download as it is, or fills its window. -/
theorem transfer_of_askFirst (hask : askFirst scope clock s = ⟨.done (), after, s'⟩) :
    s'.2 = s.2 ∨ s'.2 = { s.2 with window := s.2.window.fill.2 } := by
  obtain ⟨_, _, _, hget, hround⟩ := Activity.bind_eq_done hask
  cases hget
  obtain ⟨session, t⟩ := s
  by_cases hchoking : session.connection.peer.choking = true
  · simp only [hchoking, if_true] at hround
    cases hround
    exact .inl rfl
  · simp only [hchoking, Bool.false_eq_true, if_false] at hround
    obtain ⟨_, hverdict⟩ := verdict_of_carryOut hround
    injection hverdict with hverdict
    injection hverdict with hnext
    exact .inr hnext.symm

/-- Asking for the first blocks leaves the text as it is. -/
theorem progress_of_askFirst {torrent : Torrent} {blockSize : Nat} {text : Bytes}
    (hask : askFirst scope clock s = ⟨.done (), after, s'⟩)
    (h : s.2.Progress torrent job.hash blockSize text) :
    s'.2.Progress torrent job.hash blockSize text ∧ s'.2.window.due = s.2.window.due := by
  obtain hsame | hfilled := transfer_of_askFirst hask
  · rw [hsame]
    exact ⟨h, rfl⟩
  · have hdue := (Window.asked_fill s.2.window).1.due
    rw [hfilled]
    exact ⟨h.withWindow hdue, hdue⟩

/-- Whatever the messages are, a download that finishes has the file: it is as long as the torrent
tells, and every piece has its digest. The messages that came by then had the window accept
fragments whose blocks are those of the file, in order and each of them once, and the content is
the data of these fragments, one after the other. -/
theorem content_of_downloadFrom (job : Job) {scope : Scope} {clock after : Clock}
    {s s' : Session σ} {content : Bytes}
    (h : job.downloadFrom scope clock s = ⟨.done content, after, s'⟩) :
    content.length = job.torrent.totalLength ∧
      (∀ index < job.torrent.pieceCount, job.torrent.Vouches job.hash content index) ∧
      ∃ (start : Clock) (first last : Session σ × Transfer) (incomings : List Incoming),
        askFirst { scope with interruptible := true } clock
            (s, Transfer.start job.torrent job.config.blockLength job.config.queueDepth) =
          ⟨.done (), start, first⟩ ∧
        Reacts job { scope with interruptible := true } start first incomings after last ∧
        last.1 = s' ∧
        (first.2.accepted job.hash incomings).map Fragment.block =
          job.torrent.blocks job.config.blockLength ∧
        (job.torrent.blocks job.config.blockLength).Nodup ∧
        content = (first.2.accepted job.hash incomings).flatMap Fragment.data := by
  obtain ⟨result, middle, m, hstopped, hresult⟩ := Activity.bind_eq_done h
  cases result with
  | none =>
    obtain ⟨_, _, _, _, hfail⟩ := Activity.bind_eq_done hresult
    cases hfail
  | some found =>
    cases hresult
    have htransfer := Activity.untilStopped_eq_done hstopped
    obtain ⟨t, hall⟩ := Activity.withOwn_eq_done htransfer
    obtain ⟨_, start, first, hask, hrest⟩ := Activity.bind_eq_done hall
    obtain ⟨incomings, hreacts, hcomplete, hcontent⟩ := reacts_of_transferRest hrest
    have hstart := Transfer.progress_start job.torrent job.hash job.config.blockLength
      job.config.queueDepth
    obtain ⟨hfirst, hdue⟩ := progress_of_askFirst hask hstart
    obtain ⟨hblocks, hprogress⟩ := hreacts.progress hfirst
    have hindex := hprogress.isComplete_iff.mp hcomplete
    obtain ⟨htext, hlength, hnone⟩ := hprogress.content_of_index_eq hindex
    rw [List.nil_append] at hprogress htext hlength
    rw [← hcontent] at htext
    rw [← htext] at hprogress hlength
    refine ⟨hlength, ?_, start, first, (s', t), incomings, hask, hreacts, rfl, ?_,
      Torrent.nodup_blocks, htext⟩
    · intro index hlt
      exact hprogress.vouches index (hindex ▸ hlt)
    · rw [hnone, List.append_nil] at hblocks
      rw [← hblocks, hdue]
      exact Blocks.toList_ofTorrent

/-- A digest that shows the first bytes. -/
def frontDigest (bytes : Bytes) : Digest where
  bytes := (bytes ++ List.replicate 20 0).take 20
  length_bytes := by simp

/-- A client that does not tell who it is. -/
def nobody : PeerId := ⟨List.replicate 20 0, rfl⟩

/-- Three bytes in two pieces, to be fetched byte by byte with two requests at a time. -/
def threeBytes : Job where
  torrent := {
    infoHash := .zero
    pieceLength := 2
    totalLength := 3
    hashes := [frontDigest [7, 8], frontDigest [9]]
    pieceLength_pos := by decide
    length_hashes := rfl }
  config := { clientId := nobody, blockSize := 1, queueDepth := 2 }
  hash := frontDigest

/-- A peer that gives leave, withdraws it, gives it again, and answers the first request twice. -/
def waveringPeer : Session Script where
  connection :=
    let messages : List Message := [.unchoke, .choke, .unchoke, .piece ⟨0, 0, [7]⟩,
      .piece ⟨0, 0, [7]⟩, .piece ⟨0, 1, [8]⟩, .piece ⟨1, 0, [9]⟩]
    let acts : Timeline Act := messages.map fun message ↦ .item (.say message)
    let link : Script := ⟨acts, [], 2, [], [], none, none⟩
    Connection.start ⟨.octets 127 0 0 1, 6881⟩ link 2 30000
  outbox := Outbox.start .absent

/-- The three bytes are fetched from that peer, and their pieces have their digests. -/
theorem content_of_downloadFrom_waveringPeer : ∃ after s',
    threeBytes.downloadFrom Scope.open Clock.zero waveringPeer = ⟨.done [7, 8, 9], after, s'⟩ ∧
      ∀ index < threeBytes.torrent.pieceCount,
        threeBytes.torrent.Vouches threeBytes.hash [7, 8, 9] index := by
  have hrun : ∃ after s', threeBytes.downloadFrom Scope.open Clock.zero waveringPeer =
      ⟨.done [7, 8, 9], after, s'⟩ := ⟨_, _, by with_unfolding_all rfl⟩
  obtain ⟨after, s', hdone⟩ := hrun
  exact ⟨after, s', hdone, (content_of_downloadFrom threeBytes hdone).2.1⟩

end Job

end PeerWire
