import PeerWire.Proofs.ConnectionAftermath
import PeerWire.Proofs.LinkAgreement

/-!
# Tapped links

A tapped link keeps a log of the messages that came, of those it began to send, and of those it has
sent. It is the same link otherwise, whatever it is made of. Main statement: a download over a
tapped link is the download over the link, and its log comes on top.
-/

namespace PeerWire

/-- What a log says of one message. -/
inductive Traffic where
  /-- It came. -/
  | came (message : Message)
  /-- Sending it began. -/
  | started (message : Message)
  /-- It was sent. -/
  | went (message : Message)
deriving DecidableEq, Repr

/-- A link with a log. -/
structure Tapped (σ : Type) where
  /-- The link. -/
  link : σ
  /-- The log, the first entry first. -/
  log : List Traffic

variable {σ α : Type}

namespace Tapped

/-- Puts an entry into the log. -/
def note (event : Traffic) (t : Tapped σ) : Tapped σ := { t with log := t.log ++ [event] }

/-- Does something to the link. -/
def onLink (x : Activity σ α) : Activity (Tapped σ) α :=
  Activity.onPart link (fun t link ↦ { t with link := link }) x

variable [Link σ]

/-- Waits for the next message, and notes it. -/
def receive : Activity (Tapped σ) Message := do
  let message ← onLink Link.receive
  Activity.modify (note (.came message))
  pure message

/-- Sends a message, and notes when that begins and when it is done. -/
def send (message : Message) : Activity (Tapped σ) Unit := do
  Activity.modify (note (.started message))
  onLink (Link.send message)
  Activity.modify (note (.went message))

/-- What the link still has to give. -/
def budget (t : Tapped σ) : Nat := Link.budget t.link

/-- What is done to the link costs what it costs there. -/
theorem costs_onLink {cost : α → Nat} {x : Activity σ α}
    (hx : Activity.Costs Link.budget cost x) : Activity.Costs budget cost (onLink x) :=
  Activity.costs_onPart hx fun _ _ _ h ↦ h

/-- Notes cost nothing. -/
theorem keeps_note (event : Traffic) :
    Activity.Keeps (budget (σ := σ)) (Activity.modify (note event)) :=
  Activity.keeps_modify fun _ ↦ Nat.le_refl _

/-- A message that comes uses up some of the budget. -/
theorem uses_receive : Activity.Uses (budget (σ := σ)) receive := by
  apply Activity.costs_bind (costs_onLink Link.uses_receive)
  intro message
  apply Activity.costs_bind (keeps_note _)
  intro _
  exact Activity.costs_pure rfl

/-- Sending adds nothing to the budget. -/
theorem keeps_send (message : Message) : Activity.Keeps (budget (σ := σ)) (send message) := by
  apply Activity.costs_bind (keeps_note _)
  intro _
  apply Activity.costs_bind (costs_onLink (Link.keeps_send message))
  intro _
  exact keeps_note _

instance : Link (Tapped σ) where
  receive := receive
  send := send
  sent := fun t ↦ Link.sent t.link
  budget := budget
  uses_receive := uses_receive
  keeps_send := keeps_send

/-- A message that comes over the link is noted, and nothing else. -/
theorem receive_apply (scope : Scope) (clock : Clock) (t : Tapped σ) :
    Link.receive scope clock t =
      let o := Link.receive scope clock t.link
      ⟨o.ending, o.clock, o.state, match o.ending with
        | .done message => t.log ++ [.came message]
        | _ => t.log⟩ := by
  have hreceive : Link.receive scope clock t = (do
      let message ← onLink Link.receive
      Activity.modify (note (.came message))
      pure message : Activity (Tapped σ) Message) scope clock t := rfl
  rw [hreceive]
  simp only [Activity.bind_apply, onLink, Activity.onPart]
  generalize Link.receive scope clock t.link = o
  obtain ⟨ending, after, s⟩ := o
  cases ending <;> rfl

/-- Sending is noted when it begins and when it is done. -/
theorem send_apply (message : Message) (scope : Scope) (clock : Clock) (t : Tapped σ) :
    Link.send message scope clock t =
      let o := Link.send message scope clock t.link
      ⟨o.ending, o.clock, o.state, match o.ending with
        | .done () => t.log ++ [.started message, .went message]
        | _ => t.log ++ [.started message]⟩ := by
  have hsend : Link.send message scope clock t = (do
      Activity.modify (note (.started message))
      onLink (Link.send message)
      Activity.modify (note (.went message)) : Activity (Tapped σ) Unit) scope clock t := rfl
  rw [hsend]
  simp only [Activity.bind_apply, Activity.modify, onLink, Activity.onPart, note]
  generalize Link.send message scope clock t.link = o
  obtain ⟨ending, after, s⟩ := o
  cases ending <;> simp

/-- A tapped link agrees with the link. -/
theorem linksAgree : LinksAgree (fun _ ↦ False) fun (t : Tapped σ) (s : σ) ↦ t.link = s where
  send message := by
    rintro scope clock t _ rfl
    rw [send_apply]
    generalize Link.send message scope clock t.link = o
    obtain ⟨ending, after, s⟩ := o
    cases ending <;> exact .same rfl
  receive := by
    apply Activity.Agree.orIdle
    rintro scope clock t _ rfl
    rw [receive_apply]
    generalize Link.receive scope clock t.link = o
    obtain ⟨ending, after, s⟩ := o
    cases ending <;> exact .same rfl

/-- The log goes on with a message that came, and else stays as it is. -/
theorem leads_receive (log : List Traffic) :
    Activity.Leads (fun t : Tapped σ ↦ t.log = log) Link.receive
      ⟨fun message t ↦ t.log = log ++ [.came message], fun _ t ↦ t.log = log,
        fun t ↦ t.log = log⟩ := by
  rintro scope clock t rfl
  rw [receive_apply]
  generalize Link.receive scope clock t.link = o
  obtain ⟨ending, after, s⟩ := o
  cases ending <;> exact rfl

/-- The log goes on with the beginning of a message, and with its end if that comes. -/
theorem leads_send (log : List Traffic) (message : Message) :
    Activity.Leads (fun t : Tapped σ ↦ t.log = log) (Link.send message)
      ⟨fun _ t ↦ t.log = log ++ [.started message] ++ [.went message],
        fun _ t ↦ t.log = log ++ [.started message],
        fun t ↦ t.log = log ++ [.started message]⟩ := by
  rintro scope clock t rfl
  rw [send_apply]
  generalize Link.send message scope clock t.link = o
  obtain ⟨ending, after, s⟩ := o
  cases ending with
  | done _ => simp [Aftermath.Holds]
  | _ => exact rfl

end Tapped

namespace Connection

open Activity

/-- What is done to the link leaves what is known about the peer. -/
theorem leads_attempt_onLink {x : Activity σ α} {P : σ → Prop} {q : Aftermath σ α} (peer : Peer)
    (hx : Leads P x q) :
    Leads (fun c : Connection σ ↦ P c.link ∧ c.peer = peer) (attempt (onLink x))
      ⟨fun result c ↦ (match result with
        | .ok value => q.done value c.link
        | .error error => q.failed error c.link) ∧ c.peer = peer,
        fun _ _ ↦ False, fun c ↦ q.broken c.link ∧ c.peer = peer⟩ := by
  apply leads_attempt
  apply leads_onPart
  rintro c ⟨hc, hpeer⟩
  apply hx.mono
  · rintro _ rfl
    exact hc
  · exact fun _ _ h ↦ ⟨h, hpeer⟩
  · exact fun _ _ h ↦ ⟨h, hpeer⟩
  · exact fun _ h ↦ ⟨h, hpeer⟩

variable [Link σ]

/-- Sending puts the beginning and the end of the message into the log. -/
theorem leads_send (log : List Traffic) (peer : Peer) (message : Message) :
    Leads (fun c : Connection (Tapped σ) ↦ c.link.log = log ∧ c.peer = peer) (send message)
      ⟨fun _ c ↦ c.link.log = log ++ [.started message] ++ [.went message] ∧ c.peer = peer,
        fun _ c ↦ c.link.log = log ++ [.started message] ∧ c.peer = peer.fail,
        fun c ↦ c.link.log = log ++ [.started message] ∧ c.peer = peer⟩ := by
  refine leads_bind ((leads_attempt_onLink peer (Tapped.leads_send log message)).mono
    (fun _ h ↦ h) (fun _ _ h ↦ h) (fun _ _ h ↦ h.elim) fun _ h ↦ h) ?_
  intro result
  cases result with
  | ok _ => exact leads_pure fun _ h ↦ h
  | error error =>
    apply leads_failWith
    rintro c ⟨hlog, rfl⟩
    exact ⟨hlog, rfl⟩

/-- Receiving puts the message into the log, and takes it in or fails. -/
theorem leads_receiveNext (log : List Traffic) (peer : Peer) :
    Leads (fun c : Connection (Tapped σ) ↦ c.link.log = log ∧ c.peer = peer) receiveNext
      ⟨fun incoming c ↦ ∃ message, c.link.log = log ++ [.came message] ∧
          peer.apply message = .ok (incoming, c.peer),
        fun error c ↦ c.peer = peer.endWith error ∧ (c.link.log = log ∨
          ∃ message, c.link.log = log ++ [.came message] ∧ peer.apply message = .error error),
        fun c ↦ c.link.log = log ∧ c.peer = peer⟩ := by
  refine leads_bind ((leads_attempt_onLink peer (Tapped.leads_receive log)).mono
    (fun _ h ↦ h) (fun _ _ h ↦ h) (fun _ _ h ↦ h.elim) fun _ h ↦ h) ?_
  intro result
  have hend {P : Connection (Tapped σ) → Prop} (error : Error)
      (hP : ∀ c, P c → c.peer = peer ∧ (c.link.log = log ∨
        ∃ message, c.link.log = log ++ [.came message] ∧ peer.apply message = .error error)) :
      Leads P (endWith error : Activity (Connection (Tapped σ)) Incoming)
        ⟨fun incoming c ↦ ∃ message, c.link.log = log ++ [.came message] ∧
            peer.apply message = .ok (incoming, c.peer),
          fun error c ↦ c.peer = peer.endWith error ∧ (c.link.log = log ∨
            ∃ message, c.link.log = log ++ [.came message] ∧ peer.apply message = .error error),
          fun c ↦ c.link.log = log ∧ c.peer = peer⟩ := by
    apply leads_endWith
    intro c hc
    obtain ⟨rfl, hlog⟩ := hP c hc
    exact ⟨rfl, hlog⟩
  cases result with
  | error error => exact hend error fun c h ↦ ⟨h.2, .inl h.1⟩
  | ok message =>
    apply leads_bind (M := fun result c ↦ c.link.log = log ++ [.came message] ∧
      match result with
      | .ok incoming => peer.apply message = .ok (incoming, c.peer)
      | .error error => c.peer = peer ∧ peer.apply message = .error error)
    · apply leads_change
      rintro c ⟨hlog, rfl⟩
      rw [takeIn_eq]
      cases happly : c.peer.apply message with
      | ok result => exact ⟨hlog, rfl⟩
      | error error => exact ⟨hlog, rfl, rfl⟩
    · intro taken
      cases taken with
      | ok incoming => exact leads_pure fun c h ↦ ⟨message, h⟩
      | error error => exact hend error fun c h ↦ ⟨h.2.1, .inr ⟨message, h.1, h.2.2⟩⟩

end Connection

/-- A connection without the log. -/
def Connection.bare (c : Connection (Tapped σ)) : Connection σ where
  address := c.address
  remoteId := c.remoteId
  unchokeTimeout := c.unchokeTimeout
  peer := c.peer
  link := c.link.link

/-- A session without the log. -/
def Session.bare (s : Session (Tapped σ)) : Session σ := ⟨s.connection.bare, s.outbox⟩

/-- The same outcome with another state. -/
def Outcome.withState {τ : Type} (o : Outcome σ α) (s : τ) : Outcome τ α := ⟨o.ending, o.clock, s⟩

/-- Sessions over a tapped link and over the link that are alike are the same but for the log. -/
theorem Session.Alike.eq_bare {s : Session (Tapped σ)} {t : Session σ}
    (h : Session.Alike (fun (t : Tapped σ) (s : σ) ↦ t.link = s) s t) : t = s.bare := by
  obtain ⟨⟨_, _, _, _, link⟩, outbox⟩ := t
  obtain ⟨⟨haddress, hremote, htimeout, hpeer, hlink⟩, houtbox⟩ := h
  subst haddress hremote htimeout hpeer hlink houtbox
  rfl

/-- A download over a tapped link is the download over the link. -/
theorem Job.downloadFrom_bare [Link σ] (job : Job) (scope : Scope) (clock : Clock)
    (s : Session (Tapped σ)) :
    job.downloadFrom scope clock s.bare =
      (job.downloadFrom scope clock s).withState (job.downloadFrom scope clock s).state.bare := by
  have hs : Session.Alike (fun (t : Tapped σ) (s : σ) ↦ t.link = s) s s.bare :=
    ⟨⟨rfl, rfl, rfl, rfl, rfl⟩, rfl⟩
  have halike := Tapped.linksAgree.agree_downloadFrom job scope clock s s.bare hs
  obtain ⟨s', hrun, hrelated⟩ := halike.exists_state
  generalize job.downloadFrom scope clock s.bare = o at hrun hrelated ⊢
  rw [hrun, ← hrelated.eq_bare]
  rfl

end PeerWire
