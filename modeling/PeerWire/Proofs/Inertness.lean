import PeerWire.Proofs.ByteLevel
import PeerWire.Proofs.Tolerance

/-!
# Messages that make no difference

A peer may say things that do not concern a download that goes on: which pieces it has, and what it
wants itself. Late answers to void requests are passed over. Main statement: from a script on which
a download finishes any of these may be left out, and any of the former may be added anywhere; the
download still finishes with the same content, having sent the same messages and given the same
notices.
-/

namespace PeerWire

namespace Message

/-- What a message means to a download. -/
def meaning : Message → Incoming
  | .choke => .choked
  | .unchoke => .unchoked
  | .announce index => .announced index
  | .piece fragment => .block fragment
  | _ => .consumed

/-- A message does not concern a download from a peer that has described itself: it tells of pieces
that exist, or of what the peer wants. -/
def Idle (pieceCount : Nat) : Message → Prop
  | .announce index => index < pieceCount
  | .bitfield _ => True
  | .interested => True
  | .notInterested => True
  | .request _ => True
  | .cancel _ => True
  | _ => False

/-- A message that does not concern a download leaves it as it is. -/
theorem react_of_idle {pieceCount : Nat} {message : Message} (h : message.Idle pieceCount)
    (hash : Bytes → Digest) (t : Transfer) :
    t.react hash message.meaning = ⟨[], .ok (t, none)⟩ := by
  apply Transfer.react_of_idle
  cases message with
  | keepAlive | choke | unchoke | piece => exact h.elim
  | announce index => exact .inr ⟨index, rfl⟩
  | _ => exact .inl rfl

end Message

/-- The peer with other pieces that it has announced. -/
def Peer.announcing (pieces : List Nat) (peer : Peer) : Peer := { peer with pieces := pieces }

/-- The script with other things to do. -/
def Script.doing (acts : Timeline Act) (s : Script) : Script := { s with acts := acts }

/-- The connection with another knowledge of the peer and another script to go on with. -/
def Connection.varied (peer : Peer) (acts : Timeline Act) (c : Connection Script) :
    Connection Script :=
  { c with peer := peer, link := c.link.doing acts }

namespace Peer

variable {peer next : Peer} {message : Message} {incoming : Incoming}

/-- A peer that has described itself remains so with any message that is taken in, and which pieces
it has announced makes no difference to what a message means. -/
theorem apply_announcing (hdescribed : peer.described = true)
    (h : peer.apply message = .ok (incoming, next)) :
    incoming = message.meaning ∧ next.described = true ∧ next.pieceCount = peer.pieceCount ∧
      ∀ pieces, ∃ pieces',
        (peer.announcing pieces).apply message = .ok (incoming, next.announcing pieces') := by
  cases message with
  | announce index =>
    rw [apply_announce] at h
    split at h
    · cases h
    · next hlt =>
      cases h
      refine ⟨rfl, rfl, rfl, fun pieces ↦
        ⟨if pieces.contains index then pieces else pieces ++ [index], ?_⟩⟩
      have hlt : ¬ (peer.announcing pieces).pieceCount ≤ index := hlt
      rw [apply_announce, if_neg hlt]
      rfl
  | bitfield field =>
    rw [apply_bitfield, if_pos hdescribed] at h
    cases h
    refine ⟨rfl, hdescribed, rfl, fun pieces ↦ ⟨pieces, ?_⟩⟩
    have hbefore : (peer.announcing pieces).described = true := hdescribed
    exact apply_bitfield_of_described hbefore field
  | _ =>
    cases h
    exact ⟨rfl, hdescribed, rfl, fun pieces ↦ ⟨pieces, rfl⟩⟩

/-- A message that does not concern a download is taken in, and changes at most which pieces the
peer has announced. -/
theorem apply_of_idle (hdescribed : peer.described = true) (h : message.Idle peer.pieceCount) :
    ∃ pieces, peer.apply message = .ok (message.meaning, peer.announcing pieces) := by
  cases message with
  | keepAlive | choke | unchoke | piece => exact h.elim
  | announce index =>
    refine ⟨if peer.hasPiece index then peer.pieces else peer.pieces ++ [index], ?_⟩
    rw [apply_announce, if_neg (Nat.not_le_of_lt h), announcing, ← hdescribed]
    rfl
  | bitfield field =>
    refine ⟨peer.pieces, ?_⟩
    exact apply_bitfield_of_described hdescribed field
  | _ => exact ⟨peer.pieces, rfl⟩

end Peer

/-! ### Connections that differ in the script -/

namespace Connection

/-- Two connections are the same but for which pieces the peer has announced, having described
itself on both, and for what its script still has to do. -/
structure InStep (pieceCount : Nat) (acts acts' : Timeline Act) (c c' : Connection Script) :
    Prop where
  /-- The peer has described itself. -/
  described : c.peer.described = true
  /-- The torrent has so many pieces. -/
  pieceCount_eq : c.peer.pieceCount = pieceCount
  /-- This is what the first script still has to do. -/
  acts_eq : c.link.acts = acts
  /-- The second connection is the same otherwise. -/
  eq_varied : ∃ pieces, c' = c.varied (c.peer.announcing pieces) acts'

variable {pieceCount : Nat} {acts acts' : Timeline Act}

namespace InStep

variable {c c' : Connection Script} (h : InStep pieceCount acts acts' c c')
include h

/-- This is what the second script still has to do. -/
theorem acts_eq_second : c'.link.acts = acts' := by
  obtain ⟨pieces, rfl⟩ := h.eq_varied
  rfl

/-- The peer is the same on both but for the pieces. -/
theorem exists_pieces : ∃ pieces, c'.peer = c.peer.announcing pieces := by
  obtain ⟨pieces, rfl⟩ := h.eq_varied
  exact ⟨pieces, rfl⟩

/-- Connections remain in step when the same becomes known about the peer but for the pieces. -/
theorem varied {peer : Peer} (hdescribed : peer.described = true)
    (hcount : peer.pieceCount = pieceCount) (pieces : List Nat) (rest rest' : Timeline Act) :
    InStep pieceCount rest rest' (c.varied peer rest)
      (c'.varied (peer.announcing pieces) rest') := by
  obtain ⟨_, rfl⟩ := h.eq_varied
  exact ⟨hdescribed, hcount, rfl, pieces, rfl⟩

/-- Connections remain in step when the peer announces pieces on the first one. -/
theorem first (pieces : List Nat) (rest : Timeline Act) :
    InStep pieceCount rest acts' (c.varied (c.peer.announcing pieces) rest) c' := by
  obtain ⟨others, rfl⟩ := h.eq_varied
  exact ⟨h.described, h.pieceCount_eq, rfl, others, rfl⟩

/-- Connections remain in step when the peer announces pieces on the second one. -/
theorem second (pieces : List Nat) (rest : Timeline Act) :
    InStep pieceCount acts rest c (c'.varied (c'.peer.announcing pieces) rest) := by
  obtain ⟨_, rfl⟩ := h.eq_varied
  exact ⟨h.described, h.pieceCount_eq, h.acts_eq, pieces, rfl⟩

end InStep

open Activity

/-- Sending does not depend on what the script still has to do. -/
theorem agree_scriptSend (message : Message) :
    Agree (fun _ ↦ False) (fun s s' ↦ s.acts = acts ∧ s' = s.doing acts') (Script.send message)
      (Script.send message) := by
  apply agree_get_bind
  rintro s _ ⟨hacts, rfl⟩
  have hfail : (s.doing acts').failAfter = s.failAfter := rfl
  have hhang : (s.doing acts').hangAfter = s.hangAfter := rfl
  have hsent : (s.doing acts').sent = s.sent := rfl
  rw [hfail, hhang, hsent]
  split
  · exact agree_fail _
  · split
    · intro scope clock s s' h
      exact .same h
    · apply agree_modify
      rintro s _ ⟨hacts, rfl⟩
      exact ⟨hacts, rfl⟩

/-- Sending does not depend on which pieces the peer has announced. -/
theorem agree_send (message : Message) :
    Agree (fun _ ↦ False) (InStep pieceCount acts acts') (send message) (send message) := by
  have hlink : Agree (fun _ ↦ False) (InStep pieceCount acts acts')
      (onLink (Link.send (σ := Script) message)) (onLink (Link.send (σ := Script) message)) := by
    have hscript : Agree (fun _ ↦ False) (fun s s' : Script ↦ s.acts = acts ∧ s' = s.doing acts')
        (Script.send message) (Script.send message) := agree_scriptSend message
    refine agree_onPart ?_ ?_ hscript
    · rintro c _ ⟨hdescribed, hcount, hacts, pieces, rfl⟩
      exact ⟨hacts, rfl⟩
    · rintro c _ s _ ⟨hdescribed, hcount, hacts, pieces, rfl⟩ ⟨hs, rfl⟩
      exact ⟨hdescribed, hcount, hs, pieces, rfl⟩
  apply agree_bind (agree_attempt hlink)
  intro result
  cases result with
  | ok _ => exact agree_pure ()
  | error error =>
    apply agree_bind _ fun _ ↦ agree_fail error
    apply agree_modify
    rintro c _ ⟨hdescribed, hcount, hacts, pieces, rfl⟩
    exact ⟨hdescribed, hcount, hacts, pieces, rfl⟩

/-- Asking for blocks depends on neither. -/
theorem agree_requestAll_inStep (blocks : List Block) :
    Agree (fun _ ↦ False) (InStep pieceCount acts acts') (requestAll blocks)
      (requestAll blocks) := by
  induction blocks with
  | nil => exact agree_pure ()
  | cons block blocks ih => exact agree_bind (agree_send _) fun _ ↦ ih

/-- A message that is said is received at once. -/
theorem attempt_receive_of_said {c : Connection Script} {message : Message}
    (hacts : c.link.acts = .item (.say message) :: acts) (scope : Scope) (clock : Clock) :
    attempt (onLink (Link.receive (σ := Script))) scope clock c =
      ⟨.done (.ok message), clock, c.varied c.peer acts⟩ := by
  have hnext : Timeline.next scope clock c.link.acts =
      ⟨Ending.map (Option.map Act.say) (.done (some message)), clock, acts⟩ := by
    rw [hacts]
    rfl
  have hlink : Link.receive scope clock c.link = _ := Script.receive_of_next hnext
  simp only [attempt, onLink, onPart, hlink]
  rfl

/-- A message that is said is taken in at once. -/
theorem receiveNext_of_said {c : Connection Script} {message : Message} {incoming : Incoming}
    {peer : Peer} (hacts : c.link.acts = .item (.say message) :: acts)
    (happly : c.peer.apply message = .ok (incoming, peer)) (scope : Scope) (clock : Clock) :
    receiveNext scope clock c = ⟨.done incoming, clock, c.varied peer acts⟩ := by
  have htake : takeIn message (c.varied c.peer acts) = (.ok incoming, c.varied peer acts) := by
    have hpeer : (c.varied c.peer acts).peer = c.peer := rfl
    rw [takeIn_eq, hpeer, happly]
    rfl
  rw [receiveNext, bind_of_done (attempt_receive_of_said hacts scope clock)]
  simp only [bind_apply, change, htake]
  rfl

/-- What is received after a message was said is what the message is taken in as. -/
theorem apply_of_said {c c' : Connection Script} {message : Message} {incoming : Incoming}
    {scope : Scope} {clock after : Clock} (hacts : c.link.acts = .item (.say message) :: acts)
    (h : receiveNext scope clock c = ⟨.done incoming, after, c'⟩) :
    ∃ peer, c.peer.apply message = .ok (incoming, peer) := by
  cases happly : c.peer.apply message with
  | ok result =>
    rw [receiveNext_of_said hacts happly] at h
    cases h
    exact ⟨_, rfl⟩
  | error error =>
    have htake : takeIn message (c.varied c.peer acts) = (.error error, c.varied c.peer acts) := by
      have hpeer : (c.varied c.peer acts).peer = c.peer := rfl
      rw [takeIn_eq, hpeer, happly]
    rw [receiveNext, bind_of_done (attempt_receive_of_said hacts scope clock)] at h
    simp only [bind_apply, change, htake] at h
    cases h

/-- Something is taken in only when it comes on the timeline of the script. -/
theorem next_of_receiveNext {c c' : Connection Script} {incoming : Incoming} {scope : Scope}
    {clock after : Clock} (h : receiveNext scope clock c = ⟨.done incoming, after, c'⟩) :
    ∃ act, (Timeline.next scope clock c.link.acts).ending = .done (some act) := by
  obtain ⟨result, middle, d, hattempt, hresult⟩ := bind_eq_done h
  cases result with
  | error error => cases hresult
  | ok message =>
    have hreceive : (Script.receive scope clock c.link).ending = .done message := by
      simp only [attempt, onLink, onPart] at hattempt
      have hlink : Link.receive scope clock c.link = Script.receive scope clock c.link := rfl
      rw [hlink] at hattempt
      cases hending : (Script.receive scope clock c.link).ending <;> rw [hending] at hattempt <;>
        cases hattempt
      rfl
    unfold Script.receive at hreceive
    rw [repeatUntil_apply] at hreceive
    simp only [Script.round, bind_apply, Script.nextAct] at hreceive
    cases hending : (Timeline.next scope clock c.link.acts).ending with
    | done act =>
      cases act with
      | some act => exact ⟨act, rfl⟩
      | none =>
        rw [hending] at hreceive
        cases hreceive
    | _ =>
      rw [hending] at hreceive
      cases hreceive

/-- What is taken in depends on what comes next alone. -/
theorem receiveNext_congr {c : Connection Script} {scope : Scope} {clock later : Clock}
    (h : Timeline.next scope clock c.link.acts = Timeline.next scope later acts) :
    receiveNext scope clock c = receiveNext scope later (c.varied c.peer acts) := by
  have hlink : Link.receive scope clock c.link = Link.receive scope later (c.link.doing acts) :=
    Script.receive_congr h
  have hattempt : attempt (onLink (Link.receive (σ := Script))) scope clock c =
      attempt (onLink (Link.receive (σ := Script))) scope later (c.varied c.peer acts) := by
    simp only [attempt, onLink, onPart, hlink]
    rfl
  rw [receiveNext, bind_apply, bind_apply, hattempt]

end Connection

/-- Where something comes after a cue that says nothing, it comes as it would from a later moment
without the cue, whatever it is that comes. -/
theorem Timeline.exists_later {α : Type} {cue : Cue α} {cues : Timeline α} {value : α}
    {scope : Scope} {clock : Clock} (hcue : ∀ value, cue ≠ .item value)
    (h : (next scope clock (cue :: cues)).ending = .done (some value)) :
    ∃ later, ∀ others : Timeline α,
      next scope clock (cue :: others) = next scope later others := by
  have hafter (moment : Nat) (h : (after moment cues scope clock fun clock ↦
      next scope clock cues).ending = .done (some value)) :
      ∃ later, ∀ others : Timeline α, after moment others scope clock
        (fun clock ↦ next scope clock others) = next scope later others := by
    simp only [after] at h ⊢
    split at h
    · next later hwait => exact ⟨later, fun others ↦ rfl⟩
    · next ending later hne hwait => cases ending <;> cases h
  cases cue with
  | item value => exact absurd rfl (hcue value)
  | pause length => exact hafter _ h
  | pauseUntil moment => exact hafter _ h
  | fail error => cases h
  | stop =>
    have hnever := Clock.ending_waitForever (α := Option α) clock.stop scope
    simp only [next] at h
    rw [h] at hnever
    simp at hnever
  | hang =>
    have hnever := Clock.ending_waitForever (α := Option α) clock scope
    simp only [next] at h
    rw [h] at hnever
    simp at hnever

namespace Job

variable {σ : Type} [Link σ] {job : Job} {scope : Scope} {clock after : Clock}

/-- A download of which every piece was checked finishes without another message. -/
theorem transferRest_of_isComplete {s : Session σ} {t : Transfer} (h : t.isComplete = true) :
    job.transferRest scope clock (s, t) = ⟨.done t.content, clock, (s, t)⟩ := by
  rw [transferRest, Activity.repeatUntil_apply, transferRound_of_isComplete h]

/-- Any other download receives a message, carries out the reaction to it and goes on. -/
theorem transferRest_of_unfinished {s : Session σ} {t : Transfer} (h : t.isComplete = false) :
    job.transferRest scope clock (s, t) =
      (do
        let incoming ← besides Connection.receiveNext
        carryOut (t.react job.hash incoming)
        job.transferRest : Activity (Session σ × Transfer) Bytes) scope clock (s, t) := by
  have hrest := Activity.repeatUntil_apply budget job.transferRound job.advances_transferRound
    scope clock (s, t)
  rw [transferRound_of_unfinished h] at hrest
  refine hrest.trans ?_
  simp only [Activity.bind_apply, Activity.pure_apply]
  generalize besides Connection.receiveNext scope clock (s, t) = received
  cases received.ending with
  | done incoming =>
    simp only
    generalize carryOut (t.react job.hash incoming) scope received.clock received.state = carried
    cases carried.ending <;> rfl
  | _ => rfl

/-- Two sessions with downloads are the same but for their connections, which are in step, and for
what the downloads tolerate, which is more in the second one. -/
structure InStep (pieceCount : Nat) (acts acts' : Timeline Act)
    (u w : Session Script × Transfer) : Prop where
  /-- The connections are in step. -/
  connection : Connection.InStep pieceCount acts acts' u.1.connection w.1.connection
  /-- The notices are the same. -/
  outbox : w.1.outbox = u.1.outbox
  /-- The second download tolerates more and is the same otherwise. -/
  laxer : u.2.Laxer w.2

variable {pieceCount : Nat} {acts acts' : Timeline Act} {u u' w : Session Script × Transfer}

/-- What is carried out for a download is carried out in step for a laxer one that follows. -/
theorem InStep.carryOut (h : InStep pieceCount acts acts' u w) {reaction reaction' : Reaction}
    (hfollows : ∀ {next notice}, reaction.verdict = .ok (next, notice) →
      Transfer.Follows reaction next notice reaction')
    (hrun : carryOut reaction scope clock u = ⟨.done (), after, u'⟩) :
    ∃ w', Job.carryOut reaction' scope clock w = ⟨.done (), after, w'⟩ ∧
      InStep pieceCount acts acts' u' w' := by
  obtain ⟨_, middle, v, hrequests, hrest⟩ := Activity.bind_eq_done hrun
  obtain ⟨⟨next, notice⟩, _, x, hverdict, hmodify⟩ := Activity.bind_eq_done hrest
  cases hreaction : reaction.verdict with
  | error error =>
    rw [hreaction] at hverdict
    cases hverdict
  | ok result =>
    rw [hreaction] at hverdict
    cases hverdict
    cases hmodify
    obtain ⟨next', rfl, hlaxer⟩ := hfollows hreaction
    have hagree : Activity.Agree (fun _ ↦ False) (InStep pieceCount acts acts')
        (besides (Connection.requestAll reaction.requests))
        (besides (Connection.requestAll reaction.requests)) :=
      Activity.agree_onPart (fun _ _ h ↦ h.connection)
        (fun _ _ _ _ h hconnection ↦ ⟨hconnection, h.outbox, h.laxer⟩)
        (Connection.agree_requestAll_inStep _)
    have halike := hagree scope clock u w h
    rw [hrequests] at halike
    generalize hother :
      besides (Connection.requestAll reaction.requests) scope clock w = o at halike
    cases halike with
    | @same _ _ _ w' related =>
      refine ⟨goOn next' notice w', ?_, ?_⟩
      · rw [Job.carryOut, Activity.bind_of_done hother]
        rfl
      · refine ⟨?_, ?_, hlaxer⟩
        · cases notice <;> exact related.connection
        · cases notice with
          | none => exact related.outbox
          | some notice => exact congrArg (Outbox.post · notice) related.outbox

/-- Scripts accord for a download: whenever it finishes on the first one, a laxer one that is in
step finishes on the second one, at the same time with the same content and still in step. -/
def Accord (job : Job) (pieceCount : Nat) (t : Transfer) (acts acts' : Timeline Act) : Prop :=
  ∀ {scope : Scope} {clock after : Clock} {s : Session Script} {w last : Session Script × Transfer}
    {content : Bytes}, InStep pieceCount acts acts' (s, t) w →
    job.transferRest scope clock (s, t) = ⟨.done content, after, last⟩ →
    ∃ last' rest rest', job.transferRest scope clock w = ⟨.done content, after, last'⟩ ∧
      InStep pieceCount rest rest' last last'

/-- Any scripts accord for a download of which every piece was checked. -/
theorem accord_of_isComplete {t : Transfer} (h : t.isComplete = true) :
    Accord job pieceCount t acts acts' := by
  intro scope clock after s w last content hstep hrun
  obtain ⟨s', t'⟩ := w
  have hcomplete : t'.isComplete = true := hstep.laxer.isComplete_eq.trans h
  rw [transferRest_of_isComplete h] at hrun
  cases hrun
  refine ⟨_, _, _, ?_, hstep⟩
  rw [transferRest_of_isComplete hcomplete, hstep.laxer.content_eq]

/-- The session after a message was taken in. -/
def heard (peer : Peer) (acts : Timeline Act) (s : Session Script) : Session Script :=
  { s with connection := s.connection.varied peer acts }

/-- A message that is said is reacted to at once. -/
theorem transferRest_of_said {s : Session Script} {t : Transfer} {message : Message}
    {incoming : Incoming} {peer : Peer} (hunfinished : t.isComplete = false)
    (hacts : s.connection.link.acts = .item (.say message) :: acts)
    (happly : s.connection.peer.apply message = .ok (incoming, peer)) :
    job.transferRest scope clock (s, t) =
      (do
        carryOut (t.react job.hash incoming)
        job.transferRest : Activity (Session Script × Transfer) Bytes) scope clock
          (heard peer acts s, t) := by
  have hreceive : besides (Connection.receiveNext (σ := Script)) scope clock (s, t) =
      ⟨.done incoming, clock, (heard peer acts s, t)⟩ := by
    simp only [besides, Activity.onPart, Connection.receiveNext_of_said hacts happly]
    rfl
  rw [transferRest_of_unfinished hunfinished, Activity.bind_of_done hreceive]

/-- A message to which the reaction is no more than another state of the download is passed
over. -/
theorem transferRest_of_passed {s : Session Script} {t next : Transfer} {message : Message}
    {incoming : Incoming} {peer : Peer} (hunfinished : t.isComplete = false)
    (hacts : s.connection.link.acts = .item (.say message) :: acts)
    (happly : s.connection.peer.apply message = .ok (incoming, peer))
    (hreact : t.react job.hash incoming = ⟨[], .ok (next, none)⟩) :
    job.transferRest scope clock (s, t) =
      job.transferRest scope clock (heard peer acts s, next) := by
  rw [transferRest_of_said hunfinished hacts happly, hreact]
  exact Activity.bind_of_done rfl

/-- A download that waits for something goes on as it would have from the moment at which the wait
is over. -/
theorem transferRest_congr {s : Session Script} {t : Transfer} {later : Clock}
    (hunfinished : t.isComplete = false)
    (h : Timeline.next scope clock s.connection.link.acts = Timeline.next scope later acts) :
    job.transferRest scope clock (s, t) =
      job.transferRest scope later (heard s.connection.peer acts s, t) := by
  have hreceive : besides (Connection.receiveNext (σ := Script)) scope clock (s, t) =
      besides (Connection.receiveNext (σ := Script)) scope later
        (heard s.connection.peer acts s, t) := by
    simp only [besides, Activity.onPart, Connection.receiveNext_congr h]
    rfl
  rw [transferRest_of_unfinished hunfinished, transferRest_of_unfinished hunfinished,
    Activity.bind_apply, Activity.bind_apply, hreceive]

/-- Scripts accord if they do for a download with pieces to come. -/
theorem accord_of_unfinished {t : Transfer}
    (h : t.isComplete = false → Accord job pieceCount t acts acts') :
    Accord job pieceCount t acts acts' := by
  by_cases hcomplete : t.isComplete = true
  · exact accord_of_isComplete hcomplete
  · exact h (Bool.eq_false_iff.mpr hcomplete)

/-- A download that finishes with pieces to come has received something first. -/
theorem receives_of_transferRest {s : Session Script} {t : Transfer} {content : Bytes}
    {last : Session Script × Transfer} (hunfinished : t.isComplete = false)
    (hrun : job.transferRest scope clock (s, t) = ⟨.done content, after, last⟩) :
    ∃ incoming middle c,
      Connection.receiveNext scope clock s.connection = ⟨.done incoming, middle, c⟩ := by
  rw [transferRest_of_unfinished hunfinished] at hrun
  obtain ⟨incoming, middle, _, hreceive, _⟩ := Activity.bind_eq_done hrun
  simp only [besides, Activity.onPart, Outcome.mk.injEq] at hreceive
  obtain ⟨hending, rfl, _⟩ := hreceive
  exact ⟨incoming, _, _, by rw [← hending]⟩

/-- When a script is over no download finishes that has pieces to come. -/
theorem accord_nil {t : Transfer} (hunfinished : t.isComplete = false) :
    Accord job pieceCount t [] acts' := by
  intro scope clock after s w last content hstep hrun
  obtain ⟨incoming, middle, c, hreceive⟩ := receives_of_transferRest hunfinished hrun
  obtain ⟨act, hnext⟩ := Connection.next_of_receiveNext hreceive
  rw [hstep.connection.acts_eq] at hnext
  cases hnext

/-- Scripts accord that begin with the same cue which says nothing. -/
theorem accord_pass {t : Transfer} {cue : Cue Act} (hunfinished : t.isComplete = false)
    (hcue : ∀ act, cue ≠ .item act) (h : Accord job pieceCount t acts acts') :
    Accord job pieceCount t (cue :: acts) (cue :: acts') := by
  intro scope clock after s w last content hstep hrun
  obtain ⟨s', t'⟩ := w
  obtain ⟨hconnection, houtbox, hlaxer⟩ := hstep
  obtain ⟨incoming, middle, c, hreceive⟩ := receives_of_transferRest hunfinished hrun
  obtain ⟨act, hnext⟩ := Connection.next_of_receiveNext hreceive
  rw [hconnection.acts_eq] at hnext
  obtain ⟨later, hlater⟩ := Timeline.exists_later hcue hnext
  have hheard : InStep pieceCount acts acts' (heard s.connection.peer acts s, t)
      (heard s'.connection.peer acts' s', t') := by
    obtain ⟨pieces, hpieces⟩ := hconnection.exists_pieces
    refine ⟨?_, houtbox, hlaxer⟩
    rw [hpieces]
    exact hconnection.varied hconnection.described hconnection.pieceCount_eq pieces acts acts'
  have hfirst : Timeline.next scope clock s.connection.link.acts = Timeline.next scope later acts :=
    hconnection.acts_eq ▸ hlater acts
  have hsecond : Timeline.next scope clock s'.connection.link.acts =
      Timeline.next scope later acts' := hconnection.acts_eq_second ▸ hlater acts'
  rw [transferRest_congr hunfinished hfirst] at hrun
  rw [transferRest_congr (hlaxer.isComplete_eq.trans hunfinished) hsecond]
  exact h hheard hrun

/-- Scripts accord that begin with the same message. -/
theorem accord_keep {t : Transfer} {message : Message} (hunfinished : t.isComplete = false)
    (h : Accord job pieceCount (t.after job.hash message.meaning) acts acts') :
    Accord job pieceCount t (.item (.say message) :: acts) (.item (.say message) :: acts') := by
  intro scope clock after s w last content hstep hrun
  obtain ⟨s', t'⟩ := w
  obtain ⟨hconnection, houtbox, hlaxer⟩ := hstep
  obtain ⟨incoming, middle, c, hreceive⟩ := receives_of_transferRest hunfinished hrun
  obtain ⟨peer, happly⟩ := Connection.apply_of_said hconnection.acts_eq hreceive
  obtain ⟨rfl, hdescribed, hcount, hannounced⟩ :=
    Peer.apply_announcing hconnection.described happly
  obtain ⟨pieces, hpieces⟩ := hconnection.exists_pieces
  obtain ⟨pieces', happly'⟩ := hannounced pieces
  rw [← hpieces] at happly'
  have hheard : InStep pieceCount acts acts' (heard peer acts s, t)
      (heard (peer.announcing pieces') acts' s', t') :=
    ⟨hconnection.varied hdescribed (hcount.trans hconnection.pieceCount_eq) pieces' acts acts',
      houtbox, hlaxer⟩
  rw [transferRest_of_said hunfinished hconnection.acts_eq happly] at hrun
  rw [transferRest_of_said (hlaxer.isComplete_eq.trans hunfinished) hconnection.acts_eq_second
    happly']
  obtain ⟨_, later, ⟨u, next⟩, hcarry, hrest⟩ := Activity.bind_eq_done hrun
  obtain ⟨w', hcarry', hstep'⟩ := hheard.carryOut hlaxer.react hcarry
  obtain ⟨notice, hverdict⟩ := verdict_of_carryOut hcarry
  obtain rfl : t.after job.hash message.meaning = next := by rw [Transfer.after, hverdict]
  rw [Activity.bind_of_done hcarry']
  exact h hstep' hrest

/-- Scripts accord of which only the first one begins with a late answer. -/
theorem accord_dropLate {t : Transfer} {fragment : Fragment} {window : Window}
    (hunfinished : t.isComplete = false)
    (hlate : t.window.arrive fragment.block = .ok (.stale, window))
    (h : Accord job pieceCount { t with window := window } acts acts') :
    Accord job pieceCount t (.item (.say (.piece fragment)) :: acts) acts' := by
  intro scope clock after s w last content hstep hrun
  obtain ⟨hconnection, houtbox, hlaxer⟩ := hstep
  have hreact : t.react job.hash (.block fragment) =
      ⟨[], .ok ({ t with window := window }, none)⟩ := by
    simp only [Transfer.react, Transfer.deliver, hlate]
  have hheard : InStep pieceCount acts acts'
      (heard s.connection.peer acts s, { t with window := window }) w :=
    ⟨hconnection.first s.connection.peer.pieces acts, houtbox, hlaxer.ofLate hlate⟩
  rw [transferRest_of_passed hunfinished hconnection.acts_eq rfl hreact] at hrun
  exact h hheard hrun

/-- Scripts accord of which only the first one begins with a message that does not concern the
download. -/
theorem accord_dropIdle {t : Transfer} {message : Message} (hunfinished : t.isComplete = false)
    (hidle : message.Idle pieceCount) (h : Accord job pieceCount t acts acts') :
    Accord job pieceCount t (.item (.say message) :: acts) acts' := by
  intro scope clock after s w last content hstep hrun
  obtain ⟨hconnection, houtbox, hlaxer⟩ := hstep
  obtain ⟨announced, happly⟩ :=
    Peer.apply_of_idle hconnection.described (hconnection.pieceCount_eq ▸ hidle)
  have hheard : InStep pieceCount acts acts'
      (heard (s.connection.peer.announcing announced) acts s, t) w :=
    ⟨hconnection.first announced acts, houtbox, hlaxer⟩
  rw [transferRest_of_passed hunfinished hconnection.acts_eq happly
    (Message.react_of_idle hidle job.hash t)] at hrun
  exact h hheard hrun

/-- Scripts accord of which only the second one begins with a message that does not concern the
download. -/
theorem accord_addIdle {t : Transfer} {message : Message} (hunfinished : t.isComplete = false)
    (hidle : message.Idle pieceCount) (h : Accord job pieceCount t acts acts') :
    Accord job pieceCount t acts (.item (.say message) :: acts') := by
  intro scope clock after s w last content hstep hrun
  obtain ⟨s', t'⟩ := w
  obtain ⟨hconnection, houtbox, hlaxer⟩ := hstep
  obtain ⟨pieces, hpieces⟩ := hconnection.exists_pieces
  have hdescribed : s'.connection.peer.described = true := hpieces ▸ hconnection.described
  have hcount : s'.connection.peer.pieceCount = pieceCount := hpieces ▸ hconnection.pieceCount_eq
  obtain ⟨announced, happly⟩ := Peer.apply_of_idle hdescribed (hcount ▸ hidle)
  have hheard : InStep pieceCount acts acts' (s, t)
      (heard (s'.connection.peer.announcing announced) acts' s', t') :=
    ⟨hconnection.second announced acts', houtbox, hlaxer⟩
  rw [transferRest_of_passed (hlaxer.isComplete_eq.trans hunfinished) hconnection.acts_eq_second
    happly (Message.react_of_idle hidle job.hash t')]
  exact h hheard hrun

/-- From one script another one is made by leaving out late answers, and by leaving out and adding
messages that do not concern the download. A late answer is one as which the window takes the block
when it comes, given the download as it is after what the first script has said until then. -/
inductive Edits (hash : Bytes → Digest) (pieceCount : Nat) :
    Transfer → Timeline Act → Timeline Act → Prop where
  /-- The scripts are over. -/
  | nil {t : Transfer} : Edits hash pieceCount t [] []
  /-- A message stays. -/
  | keep {t : Transfer} {message : Message} {acts acts' : Timeline Act}
      (rest : Edits hash pieceCount (t.after hash message.meaning) acts acts') :
      Edits hash pieceCount t (.item (.say message) :: acts) (.item (.say message) :: acts')
  /-- A pause, a failure or the like stays. -/
  | pass {t : Transfer} {cue : Cue Act} {acts acts' : Timeline Act}
      (silent : ∀ act, cue ≠ .item act) (rest : Edits hash pieceCount t acts acts') :
      Edits hash pieceCount t (cue :: acts) (cue :: acts')
  /-- A late answer is left out. -/
  | dropLate {t : Transfer} {fragment : Fragment} {window : Window} {acts acts' : Timeline Act}
      (late : t.window.arrive fragment.block = .ok (.stale, window))
      (rest : Edits hash pieceCount { t with window := window } acts acts') :
      Edits hash pieceCount t (.item (.say (.piece fragment)) :: acts) acts'
  /-- A message that does not concern the download is left out. -/
  | dropIdle {t : Transfer} {message : Message} {acts acts' : Timeline Act}
      (idle : message.Idle pieceCount) (rest : Edits hash pieceCount t acts acts') :
      Edits hash pieceCount t (.item (.say message) :: acts) acts'
  /-- A message that does not concern the download is added. -/
  | addIdle {t : Transfer} {message : Message} {acts acts' : Timeline Act}
      (idle : message.Idle pieceCount) (rest : Edits hash pieceCount t acts acts') :
      Edits hash pieceCount t acts (.item (.say message) :: acts')

/-- A script accords with one that is made of it. -/
theorem Edits.accord {t : Transfer} (h : Edits job.hash pieceCount t acts acts') :
    Accord job pieceCount t acts acts' := by
  induction h with
  | nil =>
    exact accord_of_unfinished fun h ↦ accord_nil h
  | keep rest ih => exact accord_of_unfinished fun h ↦ accord_keep h ih
  | pass silent rest ih => exact accord_of_unfinished fun h ↦ accord_pass h silent ih
  | dropLate late rest ih => exact accord_of_unfinished fun h ↦ accord_dropLate h late ih
  | dropIdle idle rest ih => exact accord_of_unfinished fun h ↦ accord_dropIdle h idle ih
  | addIdle idle rest ih => exact accord_of_unfinished fun h ↦ accord_addIdle h idle ih

/-- A download that has asked for its first blocks, if there was leave to. -/
def opening (job : Job) (choking : Bool) : Transfer :=
  let t := Transfer.start job.torrent job.config.blockLength job.config.queueDepth
  if choking then t else { t with window := t.window.fill.2 }

/-- The first blocks are asked for in step. -/
theorem InStep.askFirst {s : Session Script} {t : Transfer}
    (h : InStep pieceCount acts acts' (s, t) w)
    (hrun : askFirst scope clock (s, t) = ⟨.done (), after, u'⟩) :
    ∃ w', Job.askFirst scope clock w = ⟨.done (), after, w'⟩ ∧
      InStep pieceCount acts acts' u' w' ∧
      u'.2 = if s.connection.peer.choking then t else { t with window := t.window.fill.2 } := by
  obtain ⟨s', t'⟩ := w
  obtain ⟨pieces, hpieces⟩ := h.connection.exists_pieces
  have hchoking : s'.connection.peer.choking = s.connection.peer.choking := by
    rw [hpieces]
    rfl
  have hask (σ : Type) [Link σ] (s : Session σ) (t : Transfer) :
      Job.askFirst scope clock (s, t) =
        (if s.connection.peer.choking then pure () else Job.carryOut t.fill :
          Activity (Session σ × Transfer) Unit) scope clock (s, t) := rfl
  rw [hask] at hrun
  rw [hask, hchoking]
  by_cases hleave : s.connection.peer.choking = true
  · rw [if_pos hleave] at hrun ⊢
    cases hrun
    exact ⟨_, rfl, h, (if_pos hleave).symm⟩
  · rw [if_neg hleave] at hrun ⊢
    have hfollows {next : Transfer} {notice : Option Notice}
        (hverdict : t.fill.verdict = .ok (next, notice)) :
        Transfer.Follows t.fill next notice t'.fill := by
      cases hverdict
      exact h.laxer.fill
    obtain ⟨w', hcarry, hstep⟩ := h.carryOut hfollows hrun
    obtain ⟨notice, hverdict⟩ := verdict_of_carryOut hrun
    injection hverdict with hverdict
    injection hverdict with hnext
    exact ⟨w', hcarry, hstep, hnext.symm.trans (if_neg hleave).symm⟩

/-- A download finishes exactly when every piece is fetched before the session is told to stop. -/
theorem downloadFrom_eq_done_iff {σ : Type} [Link σ] {s s' : Session σ} {content : Bytes} :
    job.downloadFrom scope clock s = ⟨.done content, after, s'⟩ ↔
      clock.isStopped = false ∧ ∃ t, job.transferAll { scope with interruptible := true } clock
        (s, Transfer.start job.torrent job.config.blockLength job.config.queueDepth) =
          ⟨.done content, after, (s', t)⟩ := by
  constructor
  · intro h
    obtain ⟨result, middle, m, hstopped, hresult⟩ := Activity.bind_eq_done h
    cases result with
    | none =>
      obtain ⟨_, _, _, _, hfail⟩ := Activity.bind_eq_done hresult
      cases hfail
    | some found =>
      cases hresult
      refine ⟨?_, Activity.withOwn_eq_done (Activity.untilStopped_eq_done hstopped)⟩
      by_contra htold
      rw [Activity.untilStopped, if_pos (Bool.not_eq_false _ ▸ htold)] at hstopped
      cases hstopped
  · rintro ⟨htold, t, hall⟩
    have hstopped : Activity.untilStopped job.transfer scope clock s =
        ⟨.done (some content), after, s'⟩ := by
      simp only [Activity.untilStopped, htold, transfer, Activity.withOwn, hall]
      rfl
    exact Activity.bind_of_done hstopped

/-- Late answers and messages that do not concern the download make no difference. Let a download
finish over a connection whose peer has announced which pieces it has, and let another script be
made of the peer's by leaving out blocks that the window took as late, and by leaving out and
adding messages of what pieces there are and of what the peer wants. Over the same connection with
that script the download finishes too, at the same time with the same content; it has sent the
same messages in the same order and given the same notices. -/
theorem downloadFrom_of_edits (job : Job) {s s₁ : Session Script} {acts : Timeline Act}
    {content : Bytes} (hdescribed : s.connection.peer.described = true)
    (hedits : Edits job.hash s.connection.peer.pieceCount (job.opening s.connection.peer.choking)
      s.connection.link.acts acts)
    (hrun : job.downloadFrom scope clock s = ⟨.done content, after, s₁⟩) :
    ∃ s₂, job.downloadFrom scope clock { s with connection.link.acts := acts } =
        ⟨.done content, after, s₂⟩ ∧
      s₂.connection.link.sent = s₁.connection.link.sent ∧ s₂.outbox = s₁.outbox := by
  obtain ⟨htold, t₁, hall⟩ := downloadFrom_eq_done_iff.mp hrun
  obtain ⟨_, later, ⟨first, t⟩, hask, hrest⟩ := Activity.bind_eq_done hall
  have hstart : InStep s.connection.peer.pieceCount s.connection.link.acts acts
      (s, Transfer.start job.torrent job.config.blockLength job.config.queueDepth)
      ({ s with connection.link.acts := acts },
        Transfer.start job.torrent job.config.blockLength job.config.queueDepth) :=
    ⟨⟨hdescribed, rfl, rfl, s.connection.peer.pieces, rfl⟩, rfl, .refl Tally.tidy_empty⟩
  obtain ⟨w, hask', hfirst, ht⟩ := hstart.askFirst hask
  obtain rfl : job.opening s.connection.peer.choking = t := ht.symm
  obtain ⟨⟨s₂, t₂⟩, rest, rest', hrest', hlast⟩ := hedits.accord hfirst hrest
  obtain ⟨pieces, hconnection⟩ := hlast.connection.eq_varied
  refine ⟨s₂, downloadFrom_eq_done_iff.mpr ⟨htold, t₂, ?_⟩, ?_, hlast.outbox⟩
  · exact (Activity.bind_of_done hask').trans hrest'
  · rw [hconnection]
    rfl

/-- A peer that has every piece, gives leave, withdraws it and gives it again, and answers the first
request twice; then it tells of its wishes. -/
def steadyPeer (messages : List Message) : Session Script where
  connection :=
    let acts : Timeline Act := messages.map fun message ↦ .item (.say message)
    let link : Script := ⟨acts, [], 2, [], [], none, none⟩
    let start := Connection.start ⟨.octets 127 0 0 1, 6881⟩ link 2 30000
    { start with peer := { start.peer with described := true, pieces := [0, 1] } }
  outbox := Outbox.start .absent

/-- The three bytes are fetched from that peer without its late answer and with other wishes. -/
theorem downloadFrom_of_edits_steadyPeer :
    let first : List Message := [.unchoke, .choke, .unchoke, .piece ⟨0, 0, [7]⟩, .interested,
      .piece ⟨0, 0, [7]⟩, .piece ⟨0, 1, [8]⟩, .piece ⟨1, 0, [9]⟩]
    let second : List Message := [.bitfield (Bitfield.ofBytes [0]), .unchoke, .choke, .unchoke,
      .piece ⟨0, 0, [7]⟩, .announce 1, .piece ⟨0, 1, [8]⟩, .piece ⟨1, 0, [9]⟩]
    ∃ after s₁ s₂,
      threeBytes.downloadFrom Scope.open Clock.zero (steadyPeer first) =
        ⟨.done [7, 8, 9], after, s₁⟩ ∧
      threeBytes.downloadFrom Scope.open Clock.zero (steadyPeer second) =
        ⟨.done [7, 8, 9], after, s₂⟩ ∧
      s₂.connection.link.sent = s₁.connection.link.sent ∧ s₂.outbox = s₁.outbox := by
  intro first second
  have hending : (threeBytes.downloadFrom Scope.open Clock.zero (steadyPeer first)).ending =
      .done [7, 8, 9] := by decide +kernel
  obtain ⟨after, s₁, hdone⟩ : ∃ after s₁,
      threeBytes.downloadFrom Scope.open Clock.zero (steadyPeer first) =
        ⟨.done [7, 8, 9], after, s₁⟩ := ⟨_, _, by rw [← hending]⟩
  have hedits : Edits threeBytes.hash 2 (threeBytes.opening true)
      (steadyPeer first).connection.link.acts (steadyPeer second).connection.link.acts := by
    refine .addIdle trivial (.keep (.keep (.keep (.keep ?_))))
    refine .dropIdle trivial (.addIdle Nat.one_lt_two (.dropLate rfl ?_))
    exact .keep (.keep .nil)
  obtain ⟨s₂, hdone₂, hsame⟩ := downloadFrom_of_edits threeBytes rfl hedits hdone
  exact ⟨after, s₁, s₂, hdone, hdone₂, hsame⟩

end Job

end PeerWire
