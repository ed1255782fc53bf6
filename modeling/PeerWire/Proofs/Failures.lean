import PeerWire.Proofs.ConnectionAftermath
import PeerWire.Proofs.Integrity

/-!
# How a download fails

A download fails because its link does, because the peer announces what it cannot have, because
the window refuses a block, or because a piece does not have its digest. Main statement: if certain
failures include these, then there are no others, and a download that is told to stop fails for
that.
-/

namespace PeerWire

variable {σ α : Type} {E : Error → Prop} {I : σ → Prop}

/-- Among the failures of a link there are only certain ones, as long as a property of it holds,
which is kept. -/
structure LinkFailsOnly [Link σ] (E : Error → Prop) (I : σ → Prop) : Prop where
  /-- Receiving does not fail otherwise. -/
  receive : Activity.FailsOnly E I (Link.receive (σ := σ))
  /-- Sending does not fail otherwise. -/
  send : ∀ message, Activity.FailsOnly E I (Link.send (σ := σ) message)

/-- Among more failures a link has only those, too. -/
theorem LinkFailsOnly.mono [Link σ] {E' : Error → Prop} (h : LinkFailsOnly E I)
    (hE : ∀ error, E error → E' error) : LinkFailsOnly E' I where
  receive := h.receive.mono (fun _ hs ↦ hs) (fun _ _ hs ↦ hs)
    (fun error _ hs ↦ ⟨hE error hs.1, hs.2⟩) fun _ hs ↦ hs
  send message := (h.send message).mono (fun _ hs ↦ hs) (fun _ _ hs ↦ hs)
    (fun error _ hs ↦ ⟨hE error hs.1, hs.2⟩) fun _ hs ↦ hs

/-- A message that makes no sense is malformed, or a bitfield of the wrong size. -/
theorem Peer.error_of_apply {peer : Peer} {message : Message} {error : Error}
    (h : peer.apply message = .error error) :
    (∃ fault, error = .malformedMessage fault) ∨
      ∃ expected received, error = .bitfieldSize expected received := by
  cases message with
  | announce piece =>
    rw [apply_announce] at h
    split at h
    · cases h
      exact .inl ⟨_, rfl⟩
    · cases h
  | bitfield field =>
    rw [apply_bitfield] at h
    split at h
    · cases h
    · split at h
      · cases h
        exact .inr ⟨_, _, rfl⟩
      · cases h
  | _ => cases h

/-- Certain failures include those that a download has of itself. -/
structure CoversDownload (E : Error → Prop) : Prop where
  /-- A message makes no sense. -/
  senseless : ∀ (peer : Peer) message error, peer.apply message = .error error → E error
  /-- A block is refused by the window. -/
  refused : ∀ (w : Window) block violation, w.arrive block = .error violation →
    E (.orderingViolation violation)
  /-- A piece does not have its digest. -/
  mismatch : ∀ piece, E (.hashMismatch piece)

/-- Certain failures include those of a peer that does not pass the gates. -/
structure CoversGates (E : Error → Prop) : Prop where
  /-- The peer does not have every piece. -/
  incomplete : ∀ missing total, E (.incompleteFile missing total)
  /-- The peer sends something that makes no sense yet. -/
  unexpected : ∀ received awaited, E (.unexpectedMessage received awaited)
  /-- The peer does not give leave to request in time. -/
  late : ∀ limit, E (.unchokeTimeout limit)

/-- Every failure is one of those of a peer that does not pass the gates, or another one. -/
theorem coversGates_true : CoversGates fun _ ↦ True :=
  ⟨fun _ _ ↦ trivial, fun _ _ ↦ trivial, fun _ ↦ trivial⟩

open Activity

namespace Connection

/-- Working on the link fails as the work does. -/
theorem failsOnly_onLink {x : Activity σ α} (hx : FailsOnly E I x) :
    FailsOnly E (fun c : Connection σ ↦ I c.link) (onLink x) := by
  apply leads_onPart
  intro c hc
  apply hx.of_imp
  rintro s rfl
  exact hc

/-- Ending with an error fails with it. -/
theorem failsOnly_endWith {error : Error} (herror : E error) :
    FailsOnly E (fun c : Connection σ ↦ I c.link) (endWith error : Activity (Connection σ) α) :=
  leads_endWith fun _ h ↦ ⟨herror, h⟩

/-- Failing with an error fails with it. -/
theorem failsOnly_failWith {error : Error} (herror : E error) :
    FailsOnly E (fun c : Connection σ ↦ I c.link) (failWith error : Activity (Connection σ) α) :=
  leads_failWith fun _ h ↦ ⟨herror, h⟩

variable [Link σ]

/-- Receiving fails as the link does, or because a message makes no sense. -/
theorem failsOnly_receiveNext (hreceive : FailsOnly E I (Link.receive (σ := σ)))
    (hsenseless : ∀ (peer : Peer) message error, peer.apply message = .error error → E error) :
    FailsOnly E (fun c : Connection σ ↦ I c.link) receiveNext := by
  refine leads_bind (failsOnly_attempt (failsOnly_onLink hreceive)) ?_
  intro result
  cases result with
  | error error =>
    apply leads_of_and
    intro herror
    exact failsOnly_endWith (herror error rfl)
  | ok message =>
    apply leads_bind (M := Reports E fun c ↦ I c.link)
    · apply leads_change
      rintro c ⟨hc, -⟩
      rw [takeIn_eq]
      split
      · exact ⟨hc, by simp⟩
      · next error hresult =>
        refine ⟨hc, ?_⟩
        rintro _ ⟨⟩
        exact hsenseless _ _ _ hresult
    intro incoming
    cases incoming with
    | error error =>
      apply leads_of_and
      intro herror
      exact failsOnly_endWith (herror error rfl)
    | ok incoming => exact leads_pure fun _ h ↦ h.1

/-- Sending fails as the link does. -/
theorem failsOnly_send {message : Message}
    (hsend : FailsOnly E I (Link.send (σ := σ) message)) :
    FailsOnly E (fun c : Connection σ ↦ I c.link) (send message) := by
  refine leads_bind (failsOnly_attempt (failsOnly_onLink hsend)) ?_
  intro result
  cases result with
  | error error =>
    apply leads_of_and
    intro herror
    exact failsOnly_failWith (herror error rfl)
  | ok _ => exact leads_pure fun _ h ↦ h.1

/-- Asking for blocks fails as the link does. -/
theorem failsOnly_requestAll (hlink : LinkFailsOnly E I) (blocks : List Block) :
    FailsOnly E (fun c : Connection σ ↦ I c.link) (requestAll blocks) := by
  induction blocks with
  | nil => exact leads_pure fun _ h ↦ h
  | cons block blocks ih => exact leads_bind (failsOnly_send (hlink.send _)) fun _ ↦ ih

/-- Passing the gates keeps what receiving a message and declaring interest keep, and fails as these
do or because a gate is closed. -/
theorem failsOnly_passGates {P : Connection σ → Prop} (hgates : CoversGates E)
    (hreceive : FailsOnly E P receiveNext) (hsend : FailsOnly E P (send .interested))
    (hfail : ∀ c, P c → P (c.withPeer Peer.fail))
    (hdeclare : ∀ c moment, P c → P (c.withPeer (Peer.declareInterest · moment))) :
    FailsOnly E P Job.passGates := by
  have hother (awaited : Awaited) : FailsOnly E P (receiveOther awaited) := by
    apply leads_bind hreceive
    intro incoming
    cases incoming with
    | block fragment => exact leads_failWith fun c h ↦ ⟨hgates.unexpected _ _, hfail c h⟩
    | _ => exact leads_pure fun _ h ↦ h
  have hdescriptor : FailsOnly E P awaitDescriptor := leads_awaitDescriptor (hother _)
  have hcomplete : FailsOnly E P ensureComplete := by
    apply failsOnly_get_bind
    intro c
    apply leads_ofExcept (fun _ _ _ h ↦ h)
    intro error herror _ h
    rw [Peer.ensureComplete] at herror
    split at herror
    · cases herror
    · cases herror
      exact ⟨hgates.incomplete _ _, h⟩
  have hinterested : FailsOnly E P sendInterested := by
    apply leads_bind hsend
    intro _
    apply failsOnly_get_bind
    intro c
    apply leads_bind (M := fun _ ↦ P) (leads_now fun _ _ h ↦ h)
    exact fun _ ↦ leads_modify fun c' h ↦ hdeclare c' _ h
  have hunchoke : FailsOnly E P awaitUnchoke :=
    leads_awaitUnchoke (hother _) fun limit c h ↦ ⟨hgates.late limit, hfail c h⟩
  apply leads_bind hdescriptor
  intro _
  apply leads_bind hcomplete
  intro _
  apply leads_bind hinterested
  exact fun _ ↦ hunchoke

end Connection

namespace Job

variable {job : Job} {Q : Transfer → Prop}

/-- Beside a download a connection fails as it does without, and leaves the notices and the download
alone. -/
theorem failsOnly_besides (Q : Outbox → Transfer → Prop) {x : Activity (Connection σ) α}
    (hx : FailsOnly E (fun c : Connection σ ↦ I c.link) x) :
    FailsOnly E (fun s : Session σ × Transfer ↦ I s.1.connection.link ∧ Q s.1.outbox s.2)
      (besides x) := by
  apply leads_onPart
  rintro s ⟨hs, hQ⟩
  apply hx.mono
  · rintro _ rfl
    exact hs
  · exact fun _ _ h ↦ ⟨h, hQ⟩
  · exact fun _ _ h ↦ ⟨h.1, h.2, hQ⟩
  · exact fun _ h ↦ ⟨h, hQ⟩

variable [Link σ]

/-- Carrying out a reaction fails as the link does, or for the reason that the reaction has. -/
theorem failsOnly_carryOut (hlink : LinkFailsOnly E I) {reaction : Reaction}
    (hnext : ∀ next notice, reaction.verdict = .ok (next, notice) → Q next)
    (herror : ∀ error, reaction.verdict = .error error → E error) :
    FailsOnly E (fun s : Session σ × Transfer ↦ I s.1.connection.link ∧ Q s.2)
      (carryOut reaction) := by
  apply leads_bind (failsOnly_besides (fun _ ↦ Q) (Connection.failsOnly_requestAll hlink _))
  intro _
  apply leads_bind (M := fun result s ↦ I s.1.connection.link ∧ Q result.1)
  · apply leads_ofExcept
    · rintro ⟨next, notice⟩ hverdict s hs
      exact ⟨hs.1, hnext next notice hverdict⟩
    · intro error hverdict s hs
      exact ⟨herror error hverdict, hs⟩
  · rintro ⟨next, notice⟩
    apply leads_modify
    rintro s ⟨hs, hQ⟩
    cases notice with
    | none => exact ⟨hs, hQ⟩
    | some notice => exact ⟨hs, hQ⟩

/-- Everything that a download keeps about bytes is a part of some text. -/
def OnCourse (job : Job) (t : Transfer) : Prop :=
  ∃ text, t.Progress job.torrent job.hash job.config.blockLength text

/-- A reaction has a verdict that keeps the download on course, or one of the failures that a
download has of itself. -/
theorem verdict_of_react (hE : CoversDownload E) {t : Transfer} (h : job.OnCourse t)
    (incoming : Incoming) :
    (∀ next notice, (t.react job.hash incoming).verdict = .ok (next, notice) →
        job.OnCourse next) ∧
      ∀ error, (t.react job.hash incoming).verdict = .error error → E error := by
  obtain ⟨text, h⟩ := h
  have hreacted := h.react incoming
  constructor
  · intro next notice hverdict
    rw [hverdict] at hreacted
    cases hreacted with
    | goesOn hdue hprogress => exact ⟨_, hprogress⟩
  · intro error hverdict
    rw [hverdict] at hreacted
    cases hreacted with
    | refused hdelivers hrefuses => exact hE.refused _ _ _ hrefuses
    | mismatch hdelivers hfirst hlength hrefuted => exact hE.mismatch _

/-- A round keeps a download on course, and fails as the link does or the download does of
itself. -/
theorem failsOnly_transferRound (hE : CoversDownload E) (hlink : LinkFailsOnly E I) :
    FailsOnly E (fun s : Session σ × Transfer ↦ I s.1.connection.link ∧ job.OnCourse s.2)
      job.transferRound := by
  apply leads_get_bind
  rintro ⟨s, t⟩ hs
  by_cases hcomplete : t.isComplete = true
  · simp only [hcomplete, if_true]
    apply leads_pure
    rintro _ rfl
    exact hs
  · simp only [hcomplete, Bool.false_eq_true, if_false]
    obtain ⟨hs, hcourse⟩ := hs
    have hreceive : FailsOnly E (fun s : Session σ × Transfer ↦ I s.1.connection.link ∧
        job.OnCourse s.2) (besides Connection.receiveNext) :=
      failsOnly_besides (fun _ ↦ job.OnCourse)
        (Connection.failsOnly_receiveNext hlink.receive hE.senseless)
    apply leads_bind
    · apply hreceive.of_imp
      rintro _ rfl
      exact ⟨hs, hcourse⟩
    · intro incoming
      obtain ⟨hnext, herror⟩ := verdict_of_react hE hcourse incoming
      apply leads_bind (failsOnly_carryOut hlink hnext herror)
      intro _
      exact leads_pure fun _ h ↦ h

/-- Asking for the first blocks keeps a download on course, and fails as the link does. -/
theorem failsOnly_askFirst (hlink : LinkFailsOnly E I) :
    FailsOnly E (fun s : Session σ × Transfer ↦ I s.1.connection.link ∧ job.OnCourse s.2)
      askFirst := by
  apply leads_get_bind
  rintro ⟨s, t⟩ ⟨hs, text, hprogress⟩
  by_cases hchoking : s.connection.peer.choking = true
  · simp only [hchoking, if_true]
    apply leads_pure
    rintro _ rfl
    exact ⟨hs, text, hprogress⟩
  · simp only [hchoking, Bool.false_eq_true, if_false]
    have hnext : ∀ next notice, t.fill.verdict = .ok (next, notice) → job.OnCourse next := by
      rintro _ _ ⟨⟩
      exact ⟨text, hprogress.withWindow (Window.asked_fill t.window).1.due⟩
    apply (failsOnly_carryOut hlink hnext nofun).of_imp
    rintro _ rfl
    exact ⟨hs, text, hprogress⟩

/-- Fetching every piece fails as the link does, or as a download does of itself. -/
theorem failsOnly_transfer (hE : CoversDownload E) (hlink : LinkFailsOnly E I) :
    FailsOnly E (fun s : Session σ ↦ I s.connection.link) job.transfer := by
  apply leads_withOwn
  have hall : FailsOnly E (fun s : Session σ × Transfer ↦ I s.1.connection.link ∧
      job.OnCourse s.2) job.transferAll := by
    apply leads_bind (failsOnly_askFirst hlink)
    intro _
    exact failsOnly_repeatUntil (failsOnly_transferRound hE hlink)
  apply hall.mono
  · rintro ⟨s, t⟩ ⟨hs, rfl⟩
    exact ⟨hs, [], Transfer.progress_start _ _ _ _⟩
  · exact fun _ _ h ↦ h.1
  · exact fun _ _ h ↦ ⟨h.1, h.2.1⟩
  · exact fun _ h ↦ h.1

/-- Saying goodbye does not fail. -/
theorem leads_farewell :
    Leads (fun _ ↦ True) (job.farewell : Activity (Connection σ) Unit)
      ⟨fun _ _ ↦ True, fun _ _ ↦ False, fun _ ↦ True⟩ := by
  have hattempt : Leads (fun _ : Connection σ ↦ True)
      (do let _ ← attempt Connection.sendNotInterested)
      ⟨fun _ _ ↦ True, fun _ _ ↦ False, fun _ ↦ True⟩ := by
    apply leads_bind (M := fun _ _ ↦ True)
    · apply leads_attempt
      exact leads_of_trivial (fun _ _ ↦ trivial) (fun _ _ ↦ trivial) fun _ ↦ trivial
    · exact fun _ ↦ leads_pure fun _ _ ↦ trivial
  apply leads_get_bind
  intro c _
  apply leads_bind (M := fun _ _ ↦ True) (leads_now fun _ _ _ ↦ trivial)
  intro now
  split
  · exact leads_within hattempt (leads_pure fun _ _ ↦ trivial) fun _ _ ↦ trivial
  · exact leads_pure fun _ _ ↦ trivial

/-- A download fails as the link does, or as a download does of itself, or because the session was
told to stop. -/
theorem failed_of_downloadFrom (hE : CoversDownload E) (hlink : LinkFailsOnly E I) {scope : Scope}
    {clock after : Clock} {s s' : Session σ} (hs : I s.connection.link) {error : Error}
    (h : job.downloadFrom scope clock s = ⟨.failed error, after, s'⟩) :
    E error ∨ error = .cancelled := by
  have hdownload : Leads (fun s : Session σ ↦ I s.connection.link) job.downloadFrom
      ⟨fun _ _ ↦ True, fun error _ ↦ E error ∨ error = .cancelled, fun _ ↦ True⟩ := by
    apply leads_bind (M := fun _ _ ↦ True)
    · apply leads_untilStopped
      · apply (failsOnly_transfer hE hlink).mono
        · exact fun _ h ↦ h
        · exact fun _ _ _ ↦ trivial
        · exact fun _ _ h ↦ .inl h.1
        · exact fun _ _ ↦ ⟨trivial, trivial⟩
      · exact fun _ _ ↦ trivial
    · intro result
      cases result with
      | some content => exact leads_pure fun _ _ ↦ trivial
      | none =>
        apply leads_bind (M := fun _ _ ↦ True)
        · apply leads_onPart
          exact fun s _ ↦ leads_farewell.mono (fun _ _ ↦ trivial) (fun _ _ _ ↦ trivial)
            (fun _ _ h ↦ h.elim) fun _ _ ↦ trivial
        · exact fun _ ↦ leads_fail fun _ _ ↦ .inr rfl
  have hholds := hdownload scope clock s hs
  rw [h] at hholds
  exact hholds

end Job

end PeerWire
