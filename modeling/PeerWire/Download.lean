import PeerWire.Connection
import PeerWire.Transfer

/-!
# Downloading from a peer

A peer has to pass the gates before anything is asked of it: it announces every piece, this side
declares interest, and the peer gives leave to request. Then every piece is fetched and checked.
When the session is told to stop, the peer is told that there is no more interest, but that must not
take long. Main statement: every round of a download uses up some of what the peer still has to
give, so that no peer can make it go on forever by what it sends. Sending is another matter: a
message that the link does not take is waited for with no limit of its own, until the session is
told to stop.
-/

namespace PeerWire

/-- What is to be fetched, and how. -/
structure Job where
  /-- The torrent. -/
  torrent : Torrent
  /-- The settings. -/
  config : Config
  /-- The function that gives the digest of bytes. -/
  hash : Bytes → Digest

/-- A connection to a peer and the notices about it. -/
structure Session (σ : Type) where
  /-- The connection. -/
  connection : Connection σ
  /-- The notices. -/
  outbox : Outbox

namespace Session

variable {σ : Type}

/-- Does something to the connection. -/
def onConnection {α : Type} (x : Activity (Connection σ) α) : Activity (Session σ) α :=
  Activity.onPart connection (fun s connection ↦ { s with connection := connection }) x

/-- Gives notice. -/
def post (notice : Notice) (s : Session σ) : Session σ := { s with outbox := s.outbox.post notice }

end Session

namespace Job

variable {σ : Type} [Link σ]

/-- Passes the gates: the peer has every piece, and gives leave to request once interest was
declared. -/
def passGates : Activity (Connection σ) Unit := do
  Connection.awaitDescriptor
  Connection.ensureComplete
  Connection.sendInterested
  Connection.awaitUnchoke

/-- Does something to the connection of a session that has a download beside it. -/
def besides {α : Type} (x : Activity (Connection σ) α) :
    Activity (Session σ × Transfer) α :=
  Activity.onPart (fun s ↦ s.1.connection)
    (fun s connection ↦ ({ s.1 with connection := connection }, s.2)) x

/-- The download goes on, and a notice is given if there is one. -/
def goOn (t : Transfer) (notice : Option Notice) (s : Session σ × Transfer) :
    Session σ × Transfer :=
  (notice.elim s.1 s.1.post, t)

/-- Carries out a reaction: requests go out first. -/
def carryOut (reaction : Reaction) : Activity (Session σ × Transfer) Unit := do
  besides (Connection.requestAll reaction.requests)
  let (t, notice) ← Activity.ofExcept reaction.verdict
  Activity.modify (goOn t notice)

/-- Reacts to the next message, unless every piece was checked. -/
def transferRound (job : Job) : Activity (Session σ × Transfer) (Option Bytes) := do
  let (_, t) ← Activity.get
  if t.isComplete then pure (some t.content)
  else
    let incoming ← besides Connection.receiveNext
    carryOut (t.react job.hash incoming)
    pure none

/-- A round gives the content of a download of which every piece was checked. -/
theorem transferRound_of_isComplete {job : Job} {scope : Scope} {clock : Clock} {s : Session σ}
    {t : Transfer} (h : t.isComplete = true) :
    job.transferRound scope clock (s, t) = ⟨.done (some t.content), clock, (s, t)⟩ := by
  have hround : job.transferRound scope clock (s, t) =
      (if t.isComplete then pure (some t.content)
      else do
        let incoming ← besides Connection.receiveNext
        carryOut (t.react job.hash incoming)
        pure none : Activity (Session σ × Transfer) (Option Bytes)) scope clock (s, t) := rfl
  rw [hround, if_pos h]
  rfl

/-- A round of any other download receives a message and carries out the reaction to it. -/
theorem transferRound_of_unfinished {job : Job} {scope : Scope} {clock : Clock} {s : Session σ}
    {t : Transfer} (h : t.isComplete = false) :
    job.transferRound scope clock (s, t) =
      (do
        let incoming ← besides Connection.receiveNext
        carryOut (t.react job.hash incoming)
        pure none : Activity (Session σ × Transfer) (Option Bytes)) scope clock (s, t) := by
  have hround : job.transferRound scope clock (s, t) =
      (if t.isComplete then pure (some t.content)
      else do
        let incoming ← besides Connection.receiveNext
        carryOut (t.react job.hash incoming)
        pure none : Activity (Session σ × Transfer) (Option Bytes)) scope clock (s, t) := rfl
  rw [hround, if_neg (Bool.eq_false_iff.mp h)]

/-- What the peer still has to give. -/
def budget (s : Session σ × Transfer) : Nat := s.1.connection.budget

/-- Carrying out a reaction adds nothing to what the peer still has to give. -/
theorem keeps_carryOut (reaction : Reaction) :
    Activity.Keeps (budget (σ := σ)) (carryOut reaction) := by
  have hrequests : Activity.Keeps (budget (σ := σ))
      (besides (Connection.requestAll reaction.requests)) :=
    Activity.costs_onPart (Connection.keeps_requestAll _) fun _ _ _ h ↦ h
  refine Activity.costs_bind hrequests fun _ ↦ ?_
  refine Activity.costs_bind (Activity.keeps_ofExcept _) fun result ↦ ?_
  refine Activity.keeps_modify fun s ↦ ?_
  obtain ⟨t, notice⟩ := result
  cases notice <;> exact Nat.le_refl _

/-- A round that goes on uses up some of what the peer still has to give. -/
theorem advances_transferRound (job : Job) :
    Activity.Advances (budget (σ := σ)) job.transferRound := by
  refine Activity.costs_bind Activity.keeps_get fun s ↦ ?_
  split
  split
  · exact Activity.costs_pure rfl
  · refine Activity.costs_bind
      (Activity.costs_onPart Connection.uses_receiveNext fun _ _ _ h ↦ h) fun incoming ↦ ?_
    exact Activity.costs_bind (keeps_carryOut _) fun _ ↦ Activity.costs_pure rfl

/-- Asks for the first blocks if there is leave to. -/
def askFirst : Activity (Session σ × Transfer) Unit := do
  let (s, t) ← Activity.get
  if s.connection.peer.choking then pure () else carryOut t.fill

/-- Reacts to messages until every piece was checked. -/
def transferRest (job : Job) : Activity (Session σ × Transfer) Bytes :=
  Activity.repeatUntil budget job.transferRound job.advances_transferRound

/-- Asks for the first blocks if there is leave to, and reacts to messages until every piece was
checked. -/
def transferAll (job : Job) : Activity (Session σ × Transfer) Bytes := do
  askFirst
  job.transferRest

/-- Fetches every piece. -/
def transfer (job : Job) : Activity (Session σ) Bytes :=
  Activity.withOwn (Transfer.start job.torrent job.config.blockLength job.config.queueDepth)
    job.transferAll

/-- Tells the peer that there is no more interest, if there was any, in the time allowed. -/
def farewell (job : Job) : Activity (Connection σ) Unit := do
  let c ← Activity.get
  let now ← Activity.now
  if c.peer.interested then
    Activity.within (now + job.config.shutdownTimeout)
      (do let _ ← Activity.attempt Connection.sendNotInterested)
      (pure ())
  else pure ()

/-- Fetches every piece from a peer that has passed the gates, unless the session is told to
stop. -/
def downloadFrom (job : Job) : Activity (Session σ) Bytes := do
  match ← Activity.untilStopped job.transfer with
  | some content => pure content
  | none =>
    Session.onConnection job.farewell
    Activity.fail .cancelled

end Job

end PeerWire
