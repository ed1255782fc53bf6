import PeerWire.Download
import PeerWire.Proofs.Agreement

/-!
# Downloads over links that agree

Whatever is done with a connection is done through its link. So when two links agree on sending and
receiving, where the second one may deliver a message that only keeps the connection open, then
everything agrees that is built on them. Main statement: passing the gates and downloading over two
such links end alike at the same time, with the same knowledge of the peer and the same notices.
-/

namespace PeerWire

variable {σ τ : Type}

/-- Two links agree: what is sent is sent by both or by none, and what is received is received by
both, but that the second one may also deliver a message that only keeps the connection open. -/
structure LinksAgree [Link σ] [Link τ] (excused : Error → Prop) (R : σ → τ → Prop) : Prop where
  /-- The links agree on sending, with no failure excused. -/
  send : ∀ message, Activity.Agree (fun _ ↦ False) R (Link.send message) (Link.send message)
  /-- The links agree on receiving. -/
  receive : Activity.AgreeOrIdle excused R (fun _ _ ↦ True) .keepAlive Link.receive Link.receive

open Activity

/-! ### Connections -/

namespace Connection

/-- Two connections are the same but for the links, which are related. -/
structure Alike (R : σ → τ → Prop) (c : Connection σ) (d : Connection τ) : Prop where
  /-- The peer is reached at the same address. -/
  address : c.address = d.address
  /-- It goes by the same name. -/
  remoteId : c.remoteId = d.remoteId
  /-- It may take the same time to give leave to request. -/
  unchokeTimeout : c.unchokeTimeout = d.unchokeTimeout
  /-- The same is known about it. -/
  peer : c.peer = d.peer
  /-- The links are related. -/
  link : R c.link d.link

/-- A connection is another one but for the link. -/
def KeepsTo (c c' : Connection σ) : Prop := ∃ link, c' = { c with link := link }

variable {excused : Error → Prop} {R : σ → τ → Prop}

/-- With other links that are related connections stay alike. -/
theorem Alike.withLink {c : Connection σ} {d : Connection τ} (h : Alike R c d) {s : σ} {t : τ}
    (hst : R s t) : Alike R { c with link := s } { d with link := t } :=
  ⟨h.address, h.remoteId, h.unchokeTimeout, h.peer, hst⟩

/-- Changes of what is known about the peer agree. -/
theorem agree_withPeer (f : Peer → Peer) :
    Agree excused (Alike R) (modify (withPeer f)) (modify (withPeer f)) := by
  apply agree_modify
  intro c d h
  exact ⟨h.address, h.remoteId, h.unchokeTimeout, congrArg f h.peer, h.link⟩

/-- Ending with an error agrees. -/
theorem agree_endWith {α : Type} (error : Error) :
    Agree excused (Alike R) (endWith error : Activity (Connection σ) α)
      (endWith error : Activity (Connection τ) α) :=
  agree_bind (agree_withPeer _) fun _ ↦ agree_fail error

/-- Failing with an error agrees. -/
theorem agree_failWith {α : Type} (error : Error) :
    Agree excused (Alike R) (failWith error : Activity (Connection σ) α)
      (failWith error : Activity (Connection τ) α) :=
  agree_bind (agree_withPeer _) fun _ ↦ agree_fail error

/-- Taking in a message agrees. -/
theorem agree_takeIn (message : Message) :
    Agree excused (Alike R) (change (takeIn message)) (change (takeIn message)) := by
  apply agree_change
  intro c d h
  rw [takeIn, takeIn, h.peer]
  exact ⟨rfl, h.address, h.remoteId, h.unchokeTimeout, rfl, h.link⟩

/-- What agrees on the links agrees on the connections. -/
theorem agree_onLink {α : Type} {x : Activity σ α} {y : Activity τ α} (h : Agree excused R x y) :
    Agree excused (Alike R) (onLink x) (onLink y) :=
  agree_onPart (fun _ _ h ↦ h.link) (fun _ _ _ _ h ↦ h.withLink) h

/-- Checking that the peer has every piece agrees. -/
theorem agree_ensureComplete : Agree excused (Alike R) ensureComplete ensureComplete := by
  apply agree_get_bind
  intro c d h
  rw [h.peer]
  exact agree_ofExcept _

end Connection

namespace LinksAgree

open Connection

variable [Link σ] [Link τ] {excused : Error → Prop} {R : σ → τ → Prop}
  (h : LinksAgree excused R)
include h

/-- Sending a message agrees, with no failure excused. -/
theorem agree_send (message : Message) :
    Agree (fun _ ↦ False) (Alike R) (Connection.send message)
      (Connection.send message) := by
  apply agree_bind (agree_attempt (agree_onLink (h.send message)))
  intro result
  cases result with
  | ok _ => exact agree_pure ()
  | error error => exact agree_failWith error

/-- Asking for blocks agrees. -/
theorem agree_requestAll (blocks : List Block) :
    Agree excused (Alike R) (requestAll blocks) (requestAll blocks) := by
  induction blocks with
  | nil => exact agree_pure ()
  | cons block blocks ih => exact agree_bind (h.agree_send _).excusing fun _ ↦ ih

/-- Declaring interest agrees. -/
theorem agree_sendInterested :
    Agree excused (Alike R) sendInterested sendInterested := by
  apply agree_bind (h.agree_send _).excusing
  intro _
  apply agree_get_bind
  intro c d hcd
  apply agree_bind agree_now
  intro moment
  rw [hcd.unchokeTimeout]
  exact agree_withPeer _

/-- Withdrawing interest agrees, with no failure excused. -/
theorem agree_sendNotInterested :
    Agree (fun _ ↦ False) (Alike R) sendNotInterested sendNotInterested :=
  agree_bind (h.agree_send _) fun _ ↦ agree_withPeer _

/-- Receiving a message agrees; the second one idles where its link does. -/
theorem agree_receiveNext :
    AgreeOrIdle excused (Alike R) KeepsTo .consumed receiveNext receiveNext := by
  have hlink : AgreeOrIdle excused (Alike R) KeepsTo .keepAlive
      (onLink (Link.receive (σ := σ))) (onLink (Link.receive (σ := τ))) :=
    agreeOrIdle_onPart (fun _ _ hcd ↦ hcd.link) (fun _ _ _ _ hcd ↦ hcd.withLink)
      (fun _ link _ ↦ ⟨link, rfl⟩) (fun _ _ ↦ rfl) (fun _ _ _ ↦ rfl) h.receive
  apply agreeOrIdle_attempt_bind hlink
  · intro result
    cases result with
    | error error => exact agree_endWith error
    | ok message =>
      apply agree_bind (agree_takeIn message)
      intro incoming
      cases incoming with
      | error error => exact agree_endWith error
      | ok incoming => exact agree_pure incoming
  · intro error scope clock c
    exact ⟨_, _, rfl⟩
  · rfl

/-- Receiving a message that must not deliver a block agrees. -/
theorem agree_receiveOther (awaited : Awaited) :
    AgreeOrIdle excused (Alike R) KeepsTo () (receiveOther awaited)
      (receiveOther awaited) := by
  apply agreeOrIdle_bind h.agree_receiveNext
  · intro incoming
    cases incoming with
    | block fragment => exact agree_failWith _
    | _ => exact agree_pure ()
  · rfl

/-- A round of waiting for the peer's pieces agrees. -/
theorem agree_descriptorRound :
    AgreeOrIdle excused (Alike R) KeepsTo none descriptorRound descriptorRound := by
  apply agreeOrIdle_get_bind
  · intro c d hcd
    rw [hcd.peer]
    split
    · exact (agree_pure (some ())).orIdle none
    · exact agreeOrIdle_bind (h.agree_receiveOther _) (fun _ ↦ agree_pure none) rfl
  · rintro c _ ⟨link, rfl⟩
    rfl

/-- Waiting for the peer's pieces agrees. -/
theorem agree_awaitDescriptor :
    Agree excused (Alike R) awaitDescriptor awaitDescriptor :=
  agree_repeatUntil h.agree_descriptorRound

/-- A round of waiting for leave agrees. -/
theorem agree_unchokeRound (moment : Nat) :
    AgreeOrIdle excused (Alike R) KeepsTo none (unchokeRound moment)
      (unchokeRound moment) := by
  apply agreeOrIdle_get_bind
  · intro c d hcd
    rw [hcd.peer, hcd.unchokeTimeout]
    split
    · exact agreeOrIdle_bind
        (agreeOrIdle_within moment (h.agree_receiveOther _) (agree_failWith _))
        (fun _ ↦ agree_pure none) rfl
    · exact (agree_pure (some ())).orIdle none
  · rintro c _ ⟨link, rfl⟩
    rfl

/-- Waiting for leave agrees. -/
theorem agree_awaitUnchoke : Agree excused (Alike R) awaitUnchoke awaitUnchoke := by
  apply agree_get_bind
  intro c d hcd
  apply agree_bind agree_now
  intro now
  rw [hcd.peer, hcd.unchokeTimeout]
  exact agree_repeatUntil (h.agree_unchokeRound _)

/-- Passing the gates agrees. -/
theorem agree_passGates :
    Agree excused (Alike R) Job.passGates Job.passGates := by
  apply agree_bind h.agree_awaitDescriptor
  intro _
  apply agree_bind agree_ensureComplete
  intro _
  apply agree_bind h.agree_sendInterested
  intro _
  exact h.agree_awaitUnchoke

/-- Saying goodbye agrees, with no failure excused. -/
theorem agree_farewell (job : Job) :
    Agree (fun _ ↦ False) (Alike R) job.farewell job.farewell := by
  apply agree_get_bind
  intro c d hcd
  apply agree_bind agree_now
  intro now
  rw [hcd.peer]
  split
  · apply agree_within
    · exact agree_bind (agree_attempt h.agree_sendNotInterested) fun _ ↦ agree_pure ()
    · exact agree_pure ()
  · exact agree_pure ()

end LinksAgree

/-! ### Sessions -/

/-- Two sessions are the same but for the links, which are related. -/
structure Session.Alike (R : σ → τ → Prop) (s : Session σ) (t : Session τ) : Prop where
  /-- The connections are alike. -/
  connection : Connection.Alike R s.connection t.connection
  /-- The notices are the same. -/
  outbox : s.outbox = t.outbox

namespace Session

variable {excused : Error → Prop} {R : σ → τ → Prop}

/-- What agrees on the connections agrees on the sessions. -/
theorem agree_onConnection {α : Type} {x : Activity (Connection σ) α}
    {y : Activity (Connection τ) α} (h : Agree excused (Connection.Alike R) x y) :
    Agree excused (Alike R) (onConnection x) (onConnection y) :=
  agree_onPart (fun _ _ h ↦ h.connection) (fun _ _ _ _ h hconnection ↦ ⟨hconnection, h.outbox⟩) h

end Session

namespace Job

/-- Two sessions are alike and have the same download. -/
def Alike (R : σ → τ → Prop) (s : Session σ × Transfer) (t : Session τ × Transfer) : Prop :=
  Session.Alike R s.1 t.1 ∧ s.2 = t.2

variable {excused : Error → Prop} {R : σ → τ → Prop}

/-- What agrees on the connections agrees on the sessions that have a download. -/
theorem agree_besides {α : Type} {x : Activity (Connection σ) α} {y : Activity (Connection τ) α}
    (h : Agree excused (Connection.Alike R) x y) :
    Agree excused (Alike R) (besides x) (besides y) :=
  agree_onPart (fun _ _ h ↦ h.1.connection)
    (fun _ _ _ _ h hconnection ↦ ⟨⟨hconnection, h.1.outbox⟩, h.2⟩) h

/-- Going on with a download agrees. -/
theorem agree_goOn (t : Transfer) (notice : Option Notice) :
    Agree excused (Alike R) (modify (goOn t notice)) (modify (goOn t notice)) := by
  apply agree_modify
  intro s s' h
  cases notice with
  | none => exact ⟨h.1, rfl⟩
  | some notice => exact ⟨⟨h.1.connection, congrArg (Outbox.post · notice) h.1.outbox⟩, rfl⟩

end Job

namespace LinksAgree

open Job

variable [Link σ] [Link τ] {excused : Error → Prop} {R : σ → τ → Prop}
  (h : LinksAgree excused R)
include h

/-- Carrying out a reaction agrees. -/
theorem agree_carryOut (reaction : Reaction) :
    Agree excused (Alike R) (carryOut reaction) (carryOut reaction) := by
  apply agree_bind (agree_besides (h.agree_requestAll _))
  intro _
  apply agree_bind (agree_ofExcept _)
  rintro ⟨t, notice⟩
  exact agree_goOn t notice

/-- A round of a download agrees; the second one idles where its link does. -/
theorem agree_transferRound (job : Job) :
    AgreeOrIdle excused (Alike R) (fun s s' ↦ s'.2 = s.2) none job.transferRound
      job.transferRound := by
  have hreceive : AgreeOrIdle excused (Alike R) (fun s s' ↦ s'.2 = s.2) .consumed
      (besides (Connection.receiveNext (σ := σ))) (besides (Connection.receiveNext (σ := τ))) :=
    agreeOrIdle_onPart (fun _ _ h ↦ h.1.connection)
      (fun _ _ _ _ h hconnection ↦ ⟨⟨hconnection, h.1.outbox⟩, h.2⟩) (fun _ _ _ ↦ rfl)
      (fun _ _ ↦ rfl) (fun _ _ _ ↦ rfl) h.agree_receiveNext
  rintro scope clock ⟨s, t⟩ ⟨s', _⟩ ⟨hsession, rfl⟩
  by_cases hcomplete : t.isComplete = true
  · left
    rw [transferRound_of_isComplete hcomplete, transferRound_of_isComplete hcomplete]
    exact .same ⟨hsession, rfl⟩
  · rw [Bool.not_eq_true] at hcomplete
    have hreact (incoming : Incoming) : Agree excused (Alike R)
        (do carryOut (t.react job.hash incoming); pure (none : Option Bytes))
        (do carryOut (t.react job.hash incoming); pure none) :=
      agree_bind (h.agree_carryOut _) fun _ ↦ agree_pure none
    obtain halike | ⟨after, ⟨s₁, t₁⟩, ⟨s₁', t₁'⟩, hidle, ⟨hrelated, heq⟩, hkeeps, hsame⟩ :=
      hreceive scope clock (s, t) (s', t) ⟨hsession, rfl⟩
    · left
      rw [transferRound_of_unfinished hcomplete, transferRound_of_unfinished hcomplete]
      exact alike_bind halike hreact
    · right
      obtain rfl : t₁ = t := hkeeps
      obtain rfl : t₁ = t₁' := heq
      refine ⟨after, (s₁, t₁), (s₁', t₁), ?_, ⟨hrelated, rfl⟩, rfl, ?_⟩
      · rw [transferRound_of_unfinished hcomplete, bind_of_done hidle]
        rfl
      · rw [transferRound_of_unfinished hcomplete, transferRound_of_unfinished hcomplete,
          bind_apply, bind_apply, hsame]

/-- Asking for the first blocks agrees. -/
theorem agree_askFirst : Agree excused (Alike R) askFirst askFirst := by
  apply agree_get_bind
  rintro ⟨s, t⟩ ⟨s', _⟩ ⟨hsession, rfl⟩
  show Agree excused (Alike R) (if s.connection.peer.choking then pure () else carryOut t.fill)
    (if s'.connection.peer.choking then pure () else carryOut t.fill)
  rw [hsession.connection.peer]
  split
  · exact agree_pure ()
  · exact h.agree_carryOut _

/-- Fetching every piece agrees. -/
theorem agree_transfer (job : Job) :
    Agree excused (Session.Alike R) job.transfer job.transfer :=
  agree_withOwn (agree_bind h.agree_askFirst fun _ ↦ agree_repeatUntil (h.agree_transferRound job))

/-- Downloading agrees. -/
theorem agree_downloadFrom (job : Job) :
    Agree excused (Session.Alike R) job.downloadFrom job.downloadFrom := by
  apply agree_bind (agree_untilStopped (h.agree_transfer job))
  intro content
  cases content with
  | some content => exact agree_pure content
  | none =>
    apply agree_bind (Session.agree_onConnection (h.agree_farewell job)).excusing
    intro _
    exact agree_fail .cancelled

end LinksAgree

end PeerWire
