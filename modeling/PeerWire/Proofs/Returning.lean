import PeerWire.Proofs.Settling
import PeerWire.Selection

/-!
# That downloads return

Every message has to come in a given time, and so have the handshake, the leave to request and the
farewell. Main statements: a byte stream with frames settles, whatever the peer sends or withholds,
and so does everything that is done over a link that settles; hence a candidate is selected or
rejected, and a download returns.
-/

namespace PeerWire

open Activity

variable {σ α : Type}

/-! ### Byte streams -/

namespace Timeline

/-- Nothing tells the session to stop. -/
def Calm (cues : Timeline α) : Prop := Cue.stop ∉ cues

/-- What is left of a calm timeline is calm. -/
theorem Calm.of_cons {cue : Cue α} {cues : Timeline α} (h : Calm (cue :: cues)) : Calm cues :=
  fun hmem ↦ h (List.mem_cons_of_mem _ hmem)

/-- Something else than telling the session to stop may stand in front. -/
theorem Calm.cons {cue : Cue α} {cues : Timeline α} (h : Calm cues) (hcue : cue ≠ .stop) :
    Calm (cue :: cues) := by
  intro hmem
  rcases List.mem_cons.mp hmem with heq | hmem
  · exact hcue heq.symm
  · exact h hmem

/-- A wait within a timeline settles if what comes after it does. -/
theorem settled_after {moment : Nat} {cue : Cue α} {cues : Timeline α} {scope : Scope}
    {clock : Clock} {rest : Clock → Outcome (Timeline α) (Option α)} (hscope : scope.Limited)
    (hrest : ∀ clock, (rest clock).Settled Calm scope clock cues) :
    (after moment cues scope clock rest).Settled Calm scope clock (cue :: cues) := by
  have hwait : (waitUntil moment scope clock cues).Settled Calm scope clock cues :=
    settles_waitUntil moment scope clock cues hscope.observed
  simp only [waitUntil] at hwait
  rw [after]
  generalize clock.waitUntil scope moment = wait at hwait ⊢
  obtain ⟨ending, later⟩ := wait
  cases ending with
  | done _ =>
    refine ⟨(hrest later).ended, (hrest later).expired, (hrest later).interrupted, ?_⟩
    intro hclock hcues
    obtain ⟨-, hlater, -⟩ := hwait.undisturbed hclock hcues.of_cons
    exact (hrest later).undisturbed hlater hcues.of_cons
  | stuck => exact absurd rfl hwait.ended
  | _ =>
    refine hwait.of_ending rfl ?_ ?_ ?_ Calm.of_cons fun _ hcues ↦ hcues.cons (by simp)
    all_goals simp [Ending.map]

/-- Up to a deadline waiting for what comes settles. -/
theorem settles_next : Settles Calm Scope.Limited (next (α := α)) := by
  intro scope clock cues hscope
  have hnever (clock : Clock) (cue : Cue α) (cues : Timeline α) :
      (never scope clock (cue :: cues) : Outcome (Timeline α) (Option α)).Settled Calm scope clock
        (cue :: cues) := settles_never scope clock _ hscope
  induction cues generalizing clock with
  | nil => exact settles_pure none scope clock [] hscope
  | cons cue cues ih =>
    cases cue with
    | item value => exact ⟨nofun, nofun, nofun, fun hclock hs ↦ ⟨nofun, hclock, hs.of_cons⟩⟩
    | pause length => exact settled_after hscope fun clock ↦ ih clock
    | pauseUntil moment => exact settled_after hscope fun clock ↦ ih clock
    | fail error => exact ⟨nofun, nofun, nofun, fun hclock hs ↦ ⟨nofun, hclock, hs.of_cons⟩⟩
    | stop =>
      have hstop := hnever clock.stop .stop cues
      exact ⟨hstop.ended, hstop.expired, hstop.interrupted,
        fun _ hs ↦ absurd List.mem_cons_self hs⟩
    | hang => exact hnever clock .hang cues

end Timeline

namespace ByteStream

/-- No byte of a stream tells the session to stop. -/
def Calm (s : ByteStream) : Prop := s.incoming.Calm

/-- Up to a deadline reading settles. -/
theorem settles_read : Settles Calm Scope.Limited read := by
  have hnext : Settles Calm Scope.Limited nextChunk := fun scope clock s hscope ↦
    (Timeline.settles_next scope clock s.incoming hscope).of_ending rfl id id id id fun _ h ↦ h
  apply settles_repeatUntil
  apply settles_bind hnext
  intro chunk
  match chunk with
  | none => exact settles_pure _
  | some [] => exact settles_pure _
  | some (first :: others) => exact settles_pure _

/-- Up to a deadline reading a byte settles. -/
theorem settles_readByte : Settles Calm Scope.Limited readByte := by
  apply settles_bind settles_read
  intro chunk
  match chunk with
  | none => exact settles_pure none
  | some (first, others) =>
    apply settles_bind
    · exact settles_modify fun s hs ↦ Timeline.Calm.cons hs nofun
    · exact fun _ ↦ settles_pure _

/-- Up to a deadline reading so many bytes settles. -/
theorem settles_readExactly (n : Nat) : Settles Calm Scope.Limited (readExactly n) := by
  induction n with
  | zero => exact settles_pure _
  | succ n ih =>
    apply settles_bind settles_readByte
    intro first
    cases first with
    | none => exact settles_pure none
    | some first => exact settles_bind ih fun _ ↦ settles_pure _

/-- Writing settles. -/
theorem settles_write {scopes : Scope → Prop} (bytes : Bytes) :
    Settles Calm scopes (write bytes) := by
  apply settles_get_bind
  intro s
  split
  · exact settles_modify fun _ h ↦ h
  · apply settles_bind
    · exact settles_modify fun _ h ↦ h
    · intro _
      split
      · exact settles_pure ()
      · exact settles_fail _

end ByteStream

/-- Up to a deadline exchanging handshakes settles. -/
theorem Handshake.settles_exchange (handshake : Handshake) :
    Settles ByteStream.Calm Scope.Limited handshake.exchange := by
  have hreceive : Settles ByteStream.Calm Scope.Limited Handshake.receive := by
    apply settles_bind ByteStream.settles_readByte
    intro first
    cases first with
    | none => exact settles_fail _
    | some first =>
      apply settles_bind (settles_ofExcept _)
      intro _
      apply settles_bind (ByteStream.settles_readExactly _)
      intro others
      cases others with
      | none => exact settles_fail _
      | some others => exact settles_ofExcept _
  apply settles_bind (ByteStream.settles_write _)
  intro _
  apply settles_bind hreceive
  intro remote
  apply settles_bind (settles_ofExcept _)
  exact fun _ ↦ settles_pure remote

/-! ### Links -/

/-- Whatever a link does settles. -/
structure LinkSettles [Link σ] (calm : σ → Prop) : Prop where
  /-- Receiving settles. -/
  receive : Settles calm Scope.Observed (Link.receive (σ := σ))
  /-- Sending settles. -/
  send : ∀ message, Settles calm Scope.Observed (Link.send (σ := σ) message)

namespace Framed

/-- No byte of the stream tells the session to stop. -/
def Calm (f : Framed) : Prop := f.stream.Calm

/-- Up to a deadline a step towards a message settles. -/
theorem settles_round : Settles Calm Scope.Limited round := by
  have hclose : Settles Calm Scope.Limited closeOnce := by
    apply settles_bind
    · exact settles_modify fun _ h ↦ h
    · exact fun _ ↦ settles_fail _
  have hdecode : Settles Calm Scope.Limited decodeNext := by
    apply settles_bind
    · apply settles_change
      intro f hf
      rw [decode]
      split <;> exact hf
    · exact fun result ↦ settles_ofExcept result
  have hread : Settles Calm Scope.Limited readNext := by
    have hstream : Settles Calm Scope.Limited readStream :=
      settles_onPart ByteStream.settles_read (fun _ h ↦ h) fun _ _ _ h ↦ h
    apply settles_bind (settles_attempt hstream)
    intro result
    apply settles_bind
    · apply settles_change
      intro f hf
      rw [takeIn.eq_def]
      split
      · exact hf
      · split <;> exact hf
      · exact hf
    · exact fun outcome ↦ settles_bind (settles_ofExcept outcome) fun _ ↦ settles_pure none
  intro scope clock f hscope
  rw [round]
  split
  · exact hclose scope clock f hscope
  · exact hdecode scope clock f hscope
  · exact hread scope clock f hscope

/-- A byte stream with frames settles: each message has to come within the limit. -/
theorem linkSettles : LinkSettles Calm where
  receive := by
    have hround : Settles Calm Scope.Observed receiveRound := by
      apply settles_get_bind
      intro f
      apply settles_bind settles_now
      intro start
      apply settles_bind
      · exact settles_within (settles_repeatUntil settles_round) (settles_fail _)
      · intro message
        split <;> exact settles_pure _
    exact settles_repeatUntil hround
  send message := by
    apply settles_bind
    · exact settles_onPart (ByteStream.settles_write _) (fun _ h ↦ h) fun _ _ _ h ↦ h
    · exact fun _ ↦ settles_modify fun _ h ↦ h

end Framed

/-! ### Connections -/

namespace Connection

/-- The link of a connection is calm. -/
def Calm (calm : σ → Prop) (c : Connection σ) : Prop := calm c.link

variable {calm : σ → Prop}

/-- Working on the link settles as the work does. -/
theorem settles_onLink {scopes : Scope → Prop} {x : Activity σ α} (hx : Settles calm scopes x) :
    Settles (Calm calm) scopes (onLink x) :=
  settles_onPart hx (fun _ h ↦ h) fun _ _ _ h ↦ h

/-- Ending with an error settles. -/
theorem settles_endWith {scopes : Scope → Prop} (error : Error) :
    Settles (Calm calm) scopes (endWith error : Activity (Connection σ) α) :=
  settles_bind (settles_modify fun _ h ↦ h) fun _ ↦ settles_fail _

/-- Failing with an error settles. -/
theorem settles_failWith {scopes : Scope → Prop} (error : Error) :
    Settles (Calm calm) scopes (failWith error : Activity (Connection σ) α) :=
  settles_bind (settles_modify fun _ h ↦ h) fun _ ↦ settles_fail _

/-- Exchanging handshakes settles. -/
theorem settles_greet (config : Config) (infoHash : Digest) :
    Settles (Calm Framed.Calm) Scope.Observed (greet config infoHash) := by
  apply settles_bind settles_now
  intro start
  apply settles_bind
  · apply settles_within
    · exact settles_onPart (Handshake.settles_exchange _) (fun _ h ↦ h) fun _ _ _ h ↦ h
    · exact settles_fail _
  · exact fun _ ↦ settles_modify fun _ h ↦ h

variable [Link σ]

/-- Receiving settles as the link does. -/
theorem settles_receiveNext (hlink : LinkSettles calm) :
    Settles (Calm calm) Scope.Observed receiveNext := by
  apply settles_bind (settles_attempt (settles_onLink hlink.receive))
  intro message
  cases message with
  | error error => exact settles_endWith error
  | ok message =>
    apply settles_bind
    · exact settles_change fun _ hc ↦ hc
    · intro incoming
      cases incoming with
      | error error => exact settles_endWith error
      | ok incoming => exact settles_pure incoming

/-- Sending settles as the link does. -/
theorem settles_send (hlink : LinkSettles calm) (message : Message) :
    Settles (Calm calm) Scope.Observed (send message) := by
  apply settles_bind (settles_attempt (settles_onLink (hlink.send message)))
  intro result
  cases result with
  | error error => exact settles_failWith error
  | ok _ => exact settles_pure ()

/-- Asking for blocks settles as the link does. -/
theorem settles_requestAll (hlink : LinkSettles calm) (blocks : List Block) :
    Settles (Calm calm) Scope.Observed (requestAll blocks) := by
  induction blocks with
  | nil => exact settles_pure ()
  | cons block blocks ih => exact settles_bind (settles_send hlink _) fun _ ↦ ih

/-- Passing the gates settles as the link does. -/
theorem settles_passGates (hlink : LinkSettles calm) :
    Settles (Calm calm) Scope.Observed Job.passGates := by
  have hother (awaited : Awaited) :
      Settles (Calm calm) Scope.Observed (receiveOther awaited) := by
    apply settles_bind (settles_receiveNext hlink)
    intro incoming
    cases incoming with
    | block fragment => exact settles_failWith _
    | _ => exact settles_pure ()
  have hdescriptor : Settles (Calm calm) Scope.Observed descriptorRound := by
    apply settles_get_bind
    intro c
    split
    · exact settles_pure _
    · exact settles_bind (hother _) fun _ ↦ settles_pure none
  have hcomplete : Settles (Calm calm) Scope.Observed ensureComplete :=
    settles_get_bind fun c ↦ settles_ofExcept _
  have hinterested : Settles (Calm calm) Scope.Observed sendInterested := by
    apply settles_bind (settles_send hlink _)
    intro _
    apply settles_get_bind
    intro c
    exact settles_bind settles_now fun _ ↦ settles_modify fun _ h ↦ h
  have hround (moment : Nat) : Settles (Calm calm) Scope.Observed (unchokeRound moment) := by
    apply settles_get_bind
    intro c
    split
    · apply settles_bind
      · exact settles_within ((hother _).mono fun _ h ↦ h.observed) (settles_failWith _)
      · exact fun _ ↦ settles_pure none
    · exact settles_pure _
  have hunchoke : Settles (Calm calm) Scope.Observed awaitUnchoke := by
    apply settles_get_bind
    intro c
    exact settles_bind settles_now fun _ ↦ settles_repeatUntil (hround _)
  apply settles_bind (settles_repeatUntil hdescriptor)
  intro _
  apply settles_bind hcomplete
  intro _
  apply settles_bind hinterested
  exact fun _ ↦ hunchoke

end Connection

/-! ### Downloads -/

namespace Job

variable {job : Job} {calm : σ → Prop}

/-- Beside a download a connection settles as it does without. -/
theorem settles_besides {x : Activity (Connection σ) α}
    (hx : Settles (Connection.Calm calm) Scope.Observed x) :
    Settles (fun s : Session σ × Transfer ↦ calm s.1.connection.link) Scope.Observed (besides x) :=
  settles_onPart hx (fun _ h ↦ h) fun _ _ _ h ↦ h

variable [Link σ]

/-- Carrying out a reaction settles as the link does. -/
theorem settles_carryOut (hlink : LinkSettles calm) (reaction : Reaction) :
    Settles (fun s : Session σ × Transfer ↦ calm s.1.connection.link) Scope.Observed
      (carryOut reaction) := by
  apply settles_bind (settles_besides (Connection.settles_requestAll hlink _))
  intro _
  apply settles_bind (settles_ofExcept _)
  rintro ⟨next, notice⟩
  apply settles_modify
  intro s hs
  cases notice <;> exact hs

/-- Fetching every piece settles as the link does. -/
theorem settles_transfer (hlink : LinkSettles calm) :
    Settles (fun s : Session σ ↦ calm s.connection.link) Scope.Observed job.transfer := by
  have hfirst : Settles (fun s : Session σ × Transfer ↦ calm s.1.connection.link) Scope.Observed
      askFirst := by
    apply settles_get_bind
    rintro ⟨s, t⟩
    by_cases hchoking : s.connection.peer.choking = true
    · simp only [hchoking, if_true]
      exact settles_pure ()
    · simp only [hchoking, Bool.false_eq_true, if_false]
      exact settles_carryOut hlink _
  have hround : Settles (fun s : Session σ × Transfer ↦ calm s.1.connection.link) Scope.Observed
      job.transferRound := by
    apply settles_get_bind
    rintro ⟨s, t⟩
    by_cases hcomplete : t.isComplete = true
    · simp only [hcomplete, if_true]
      exact settles_pure _
    · simp only [hcomplete, Bool.false_eq_true, if_false]
      apply settles_bind (settles_besides (Connection.settles_receiveNext hlink))
      intro incoming
      exact settles_bind (settles_carryOut hlink _) fun _ ↦ settles_pure none
  apply settles_withOwn
  exact settles_bind hfirst fun _ ↦ settles_repeatUntil hround

/-- A download settles as the link does, and says goodbye in the time allowed. -/
theorem settles_downloadFrom (hlink : LinkSettles calm) :
    Settles (fun s : Session σ ↦ calm s.connection.link) Scope.Observed job.downloadFrom := by
  have hnotInterested :
      Settles (Connection.Calm calm) Scope.Observed (Connection.sendNotInterested (σ := σ)) :=
    settles_bind (Connection.settles_send hlink _) fun _ ↦ settles_modify fun _ h ↦ h
  have hfarewell : Settles (Connection.Calm calm) Scope.Observed job.farewell := by
    apply settles_get_bind
    intro c
    apply settles_bind settles_now
    intro now
    split
    · apply settles_within
      · apply settles_bind (settles_attempt (hnotInterested.mono fun _ h ↦ h.observed))
        exact fun _ ↦ settles_pure ()
      · exact settles_pure ()
    · exact settles_pure ()
  apply settles_bind (settles_untilStopped (fun _ h ↦ h) (settles_transfer hlink))
  intro result
  cases result with
  | some content => exact settles_pure content
  | none =>
    apply settles_bind (settles_onPart hfarewell (fun _ h ↦ h) fun _ _ _ h ↦ h)
    exact fun _ ↦ settles_fail _

/-- A candidate that was reached is admitted or rejected. -/
theorem settles_meet :
    Settles (fun s : Session Framed ↦ s.connection.link.Calm) Scope.Observed job.meet := by
  have hmeet : Settles (Connection.Calm Framed.Calm) Scope.Observed (do
      Connection.greet job.config job.torrent.infoHash
      passGates) :=
    settles_bind (Connection.settles_greet _ _) fun _ ↦
      Connection.settles_passGates Framed.linkSettles
  rw [meet, Session.onConnection]
  exact settles_onPart hmeet (fun _ h ↦ h) fun _ _ _ h ↦ h

end Job

/-! ### Searches -/

namespace Search

/-- A change of a search settles. -/
theorem settles_modify (f : Search → Search) :
    Settles (fun _ ↦ False) Scope.Observed (Activity.modify f) :=
  Activity.settles_modify fun _ h ↦ h

/-- What is done to a connection that was lent comes to an end. Nothing is said of whether nobody is
told to stop. -/
theorem settles_lend {calm : Session Framed → Prop} {scopes : Scope → Prop}
    {c : Connection Framed} {x : Activity (Session Framed) α} (hx : Settles calm scopes x) :
    Settles (fun _ ↦ False) scopes (lend c x) := by
  intro scope clock s hscope
  have hx := hx scope clock ⟨c, s.outbox⟩ hscope
  simp only [lend]
  generalize x scope clock ⟨c, s.outbox⟩ = o at hx ⊢
  obtain ⟨ending, after, t⟩ := o
  cases ending with
  | done value => exact ⟨nofun, nofun, nofun, fun _ h ↦ h.elim⟩
  | failed error => exact ⟨nofun, nofun, nofun, fun _ h ↦ h.elim⟩
  | expired => exact ⟨nofun, fun _ ↦ hx.expired rfl, nofun, fun _ h ↦ h.elim⟩
  | interrupted => exact ⟨nofun, nofun, fun _ ↦ hx.interrupted rfl, fun _ h ↦ h.elim⟩
  | stuck => exact absurd rfl hx.ended

end Search

namespace Job

variable {job : Job} {network : Network} {addresses : List Address}

/-- Who fails when the session is told to stop comes to an end. -/
theorem settles_unlessStopped {calm : σ → Prop} {x : Activity σ α}
    (hx : Settles calm Scope.Observed x) : Settles calm Scope.Observed (unlessStopped x) := by
  apply settles_bind (settles_untilStopped (fun _ h ↦ h) hx)
  intro result
  cases result with
  | some value => exact settles_pure value
  | none => exact settles_fail _

/-- A search among candidates comes to an end. -/
theorem settles_selectAmong (start total : Nat) (rejections : List (Address × Error))
    (candidates : List Candidate) :
    Settles (fun _ ↦ False) Scope.Observed
      (job.selectAmong start total rejections candidates) := by
  induction candidates generalizing rejections with
  | nil => exact settles_bind (settles_unlessStopped (settles_pure ())) fun _ ↦ settles_fail _
  | cons candidate rest ih =>
    have hawait : Settles (fun _ ↦ False) Scope.Observed (job.awaitDialing start candidate) := by
      rw [awaitDialing]
      split
      · apply settles_bind (Search.settles_modify _)
        intro _
        exact settles_bind settles_now fun _ ↦ settles_waitUntil _
      · exact settles_waitUntil _
    have htry : Settles (fun _ ↦ False) Scope.Observed (job.tryCandidate candidate) := by
      rw [tryCandidate]
      split
      · exact settles_pure _
      · apply settles_bind
          (settles_unlessStopped (Search.settles_lend (settles_attempt settles_meet)))
        rintro ⟨result, connection⟩
        cases result with
        | ok _ => exact settles_pure _
        | error error => exact settles_bind (Search.settles_modify _) fun _ ↦ settles_pure _
    apply settles_bind (settles_unlessStopped hawait)
    intro _
    apply settles_bind (Search.settles_modify _)
    intro _
    apply settles_bind htry
    intro result
    cases result with
    | ok connection => exact settles_bind (Search.settles_modify _) fun _ ↦ settles_pure _
    | error error =>
      cases error with
      | cancelled => exact settles_fail _
      | _ => exact settles_bind (Search.settles_modify _) fun _ ↦ ih _

/-- A download from whatever network comes to an end. -/
theorem settles_download :
    Settles (fun _ ↦ False) Scope.Observed (job.download network addresses) := by
  have hselect : Settles (fun _ ↦ False) Scope.Observed (job.select network addresses) := by
    rw [select, selectFrom]
    split
    · apply settles_bind (Search.settles_modify _)
      intro _
      exact settles_bind settles_now fun start ↦ settles_selectAmong start _ _ _
    · exact settles_bind settles_now fun start ↦ settles_selectAmong start _ _ _
  have hfetch : Settles (fun _ ↦ False) Scope.Observed (job.fetch network addresses) := by
    apply settles_bind hselect
    intro connection
    apply settles_bind (Search.settles_lend (settles_downloadFrom Framed.linkSettles))
    rintro ⟨content, connection⟩
    exact settles_bind (Search.settles_modify _) fun _ ↦ settles_pure _
  apply settles_bind settles_now
  intro start
  apply settles_bind (settles_attempt hfetch)
  intro result
  cases result with
  | ok fetched =>
    apply settles_bind settles_now
    intro now
    exact settles_bind (Search.settles_modify _) fun _ ↦ settles_pure _
  | error error => exact settles_bind (Search.settles_modify _) fun _ ↦ settles_fail _

/-- A download from whatever network returns: it is finished or it fails. -/
theorem download_returns (job : Job) (network : Network) (addresses : List Address) (clock : Clock)
    (s : Search) :
    let o := job.download network addresses Scope.open clock s
    (∃ fetched, o.ending = .done fetched) ∨ ∃ error, o.ending = .failed error := by
  intro o
  have hsettled : o.Settled (fun _ ↦ False) Scope.open clock s :=
    settles_download Scope.open clock s rfl
  cases hending : o.ending with
  | done fetched => exact .inl ⟨fetched, rfl⟩
  | failed error => exact .inr ⟨error, rfl⟩
  | expired => exact absurd rfl (hsettled.expired hending)
  | interrupted => exact absurd (hsettled.interrupted hending) nofun
  | stuck => exact absurd hending hsettled.ended

end Job

end PeerWire
