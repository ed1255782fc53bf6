import PeerWire.Download
import PeerWire.Link.Queues
import PeerWire.Proofs.Crossing
import PeerWire.Proofs.Integrity

/-!
# A download and an honest peer

A download and a peer that has the file are joined by two queues. The peer stores the requests that
come to it, answers them in order with the bytes asked for, and may withdraw its leave and give it
again at any time; while it withholds it, and when it withdraws it, it may forget requests. The
download takes one message after the other. Main statements: how a round of the download goes over
queues, and that it does nothing but wait when the queue is empty.
-/

namespace PeerWire

/-- The blocks that messages ask for, in order. -/
def requested (messages : List Message) : List Block :=
  messages.filterMap fun
    | .request block => some block
    | _ => none

/-- The answer to a request out of a file. -/
def Torrent.answer (torrent : Torrent) (file : Bytes) (block : Block) : Fragment where
  piece := block.piece
  offset := block.offset
  data := (file.drop (torrent.pieceOffset block.piece + block.offset)).take block.length

/-- A download over two queues and the peer at their other end. -/
structure Exchange where
  /-- The session and its download. -/
  session : Session Queues × Transfer
  /-- The requests that the peer has stored, the oldest first. -/
  stored : List Block
  /-- Whether the peer withholds leave to request. -/
  withholding : Bool

namespace Exchange

/-- The messages on their way to the download. -/
def incoming (e : Exchange) : List Message := e.session.1.connection.link.incoming

/-- The messages on their way to the peer. -/
def outgoing (e : Exchange) : List Message := e.session.1.connection.link.outgoing

/-- The same with other queues. -/
def withQueues (e : Exchange) (incoming outgoing : List Message) : Exchange where
  session :=
    ({ e.session.1 with
        connection.link.incoming := incoming
        connection.link.outgoing := outgoing }, e.session.2)
  stored := e.stored
  withholding := e.withholding

/-- One step of the peer, which has a file, or of the download. -/
inductive Step (job : Job) (file : Bytes) : Exchange → Exchange → Prop where
  /-- The peer stores the next request. -/
  | store {e : Exchange} {block : Block} {rest : List Message}
      (next : e.outgoing = .request block :: rest) :
      Step job file e { e.withQueues e.incoming rest with stored := e.stored ++ [block] }
  /-- The peer drops the next request while it withholds leave. -/
  | drop {e : Exchange} {block : Block} {rest : List Message}
      (next : e.outgoing = .request block :: rest) (withholds : e.withholding = true) :
      Step job file e (e.withQueues e.incoming rest)
  /-- The peer answers the oldest request. -/
  | answer {e : Exchange} {block : Block} {rest : List Block} (oldest : e.stored = block :: rest) :
      Step job file e
        { e.withQueues (e.incoming ++ [.piece (job.torrent.answer file block)]) e.outgoing with
          stored := rest }
  /-- The peer withdraws its leave, and keeps some of the stored requests. -/
  | choke {e : Exchange} {kept : List Block} (keeps : List.Sublist kept e.stored) :
      Step job file e
        { e.withQueues (e.incoming ++ [.choke]) e.outgoing with
          stored := kept
          withholding := true }
  /-- The peer gives leave. -/
  | unchoke {e : Exchange} :
      Step job file e
        { e.withQueues (e.incoming ++ [.unchoke]) e.outgoing with withholding := false }
  /-- The download reacts to the next message. -/
  | round {e : Exchange} {scope : Scope} {clock after : Clock} {s : Session Queues × Transfer}
      (runs : job.transferRound scope clock e.session = ⟨.done none, after, s⟩) :
      Step job file e { e with session := s }

/-- What can be reached by steps once the download has asked for the first blocks. -/
inductive Reachable (job : Job) (file : Bytes) : Exchange → Prop where
  /-- The queues are empty, and the peer withholds leave as far as this side knows. -/
  | start {scope : Scope} {clock after : Clock} {s : Session Queues}
      {first : Session Queues × Transfer} (incoming : s.connection.link.incoming = [])
      (outgoing : s.connection.link.outgoing = [])
      (asks : Job.askFirst scope clock
          (s, Transfer.start job.torrent job.config.blockLength job.config.queueDepth) =
        ⟨.done (), after, first⟩) :
      Reachable job file ⟨first, [], s.connection.peer.choking⟩
  /-- One more step is taken. -/
  | step {e e' : Exchange} (before : Reachable job file e) (last : Step job file e e') :
      Reachable job file e'

end Exchange

/-! ### Waiting -/

/-- A wait was broken off, or never comes to an end. -/
def Outcome.IsWait {σ α : Type} (r : Outcome σ α) : Prop :=
  r.ending = .expired ∨ r.ending = .interrupted ∨ r.ending = .stuck

namespace Activity

variable {σ τ α β : Type} {scope : Scope} {clock : Clock} {s : σ}

/-- Waiting for something that never comes is a wait. -/
theorem isWait_never : (never scope clock s : Outcome σ α).IsWait :=
  Clock.ending_waitForever clock scope

/-- What begins with a wait is a wait. -/
theorem isWait_bind {x : Activity σ α} {f : α → Activity σ β} (h : (x scope clock s).IsWait) :
    ((x >>= f) scope clock s).IsWait := by
  rw [bind_apply]
  obtain h | h | h := h
  · simp only [h]
    exact .inl rfl
  · simp only [h]
    exact .inr (.inl rfl)
  · simp only [h]
    exact .inr (.inr rfl)

/-- A wait is not a failure from which one could go on. -/
theorem isWait_attempt {x : Activity σ α} (h : (x scope clock s).IsWait) :
    (attempt x scope clock s).IsWait := by
  simp only [attempt]
  obtain h | h | h := h
  · simp only [h]
    exact .inl rfl
  · simp only [h]
    exact .inr (.inl rfl)
  · simp only [h]
    exact .inr (.inr rfl)

/-- A wait for a part is a wait. -/
theorem isWait_onPart {part : τ → σ} {put : τ → σ → τ} {x : Activity σ α} {t : τ}
    (h : (x scope clock (part t)).IsWait) : (onPart part put x scope clock t).IsWait := h

end Activity

namespace Queues

/-! ### How a round goes over queues -/

variable {scope : Scope} {clock : Clock}

/-- Requests go to the end of the queue. -/
theorem requestAll_apply (blocks : List Block) (c : Connection Queues) :
    Connection.requestAll blocks scope clock c =
      ⟨.done (), clock, { c with link := c.link.put (blocks.map .request) }⟩ := by
  induction blocks generalizing c with
  | nil =>
    have hnothing : c.link.put [] = c.link := by rw [put, List.append_nil, List.append_nil]
    rw [List.map_nil, hnothing]
    rfl
  | cons block rest ih =>
    have hput : (c.link.put [.request block]).put (rest.map .request) =
        c.link.put ((block :: rest).map .request) := by
      simp only [put, List.append_assoc, List.singleton_append, List.map_cons]
    have hrest := ih { c with link := c.link.put [.request block] }
    rw [hput] at hrest
    exact hrest

/-- With an empty queue there is nothing to do but to wait. -/
theorem receive_of_nil {q : Queues} (h : q.incoming = []) : (receive scope clock q).IsWait := by
  obtain ⟨_, outgoing, sent⟩ := q
  subst h
  exact Activity.isWait_never

/-- The next message leaves the queue. -/
theorem receive_of_cons {q : Queues} {message : Message} {rest : List Message}
    (h : q.incoming = message :: rest) :
    receive scope clock q = ⟨.done message, clock, { q with incoming := rest }⟩ := by
  obtain ⟨_, outgoing, sent⟩ := q
  subst h
  rfl

/-- The next message is taken in. -/
theorem receiveNext_of_cons {c : Connection Queues} {message : Message} {rest : List Message}
    {incoming : Incoming} {peer : Peer} (h : c.link.incoming = message :: rest)
    (happly : c.peer.apply message = .ok (incoming, peer)) :
    Connection.receiveNext scope clock c =
      ⟨.done incoming, clock,
        { c with peer := peer, link := { c.link with incoming := rest } }⟩ := by
  have hlink : Activity.attempt (Connection.onLink Link.receive) scope clock c =
      ⟨.done (.ok message), clock, { c with link := { c.link with incoming := rest } }⟩ := by
    have hreceive : Link.receive scope clock c.link =
        ⟨.done message, clock, { c.link with incoming := rest }⟩ := receive_of_cons h
    simp only [Activity.attempt, Connection.onLink, Activity.onPart, hreceive]
  rw [Connection.receiveNext, Activity.bind_apply, hlink]
  simp only [Activity.bind_apply, Activity.change, Connection.takeIn_eq, happly,
    Activity.pure_apply]

/-- A session after a message was taken in, with what is known of the peer from there on. -/
def received (s : Session Queues) (rest : List Message) (peer : Peer) : Session Queues where
  connection := { s.connection with
    peer := peer
    link := { s.connection.link with incoming := rest } }
  outbox := s.outbox

/-- A session after requests went out and a notice was given, if there is one. -/
def answered (s : Session Queues) (requests : List Block) (notice : Option Notice) :
    Session Queues where
  connection := { s.connection with
    link := s.connection.link.put (requests.map .request) }
  outbox := notice.elim s.outbox s.outbox.post

variable {job : Job} {s : Session Queues} {t : Transfer}

/-- A reaction that goes on sends its requests. -/
theorem carryOut_of_ok {reaction : Reaction} {next : Transfer} {notice : Option Notice}
    (h : reaction.verdict = .ok (next, notice)) :
    Job.carryOut reaction scope clock (s, t) =
      ⟨.done (), clock, (answered s reaction.requests notice, next)⟩ := by
  have hrequests : Job.besides (Connection.requestAll reaction.requests) scope clock (s, t) =
      ⟨.done (), clock, (answered s reaction.requests none, t)⟩ := by
    simp only [Job.besides, Activity.onPart, requestAll_apply]
    rfl
  rw [Job.carryOut, Activity.bind_apply, hrequests]
  simp only [h]
  cases notice <;> rfl

/-- Without leave nothing is asked for at first. -/
theorem askFirst_of_choking (h : s.connection.peer.choking = true) :
    Job.askFirst scope clock (s, t) = ⟨.done (), clock, (s, t)⟩ := by
  rw [Job.askFirst, Activity.bind_apply]
  simp only [Activity.get, h, if_true, Activity.pure_apply]

/-- With leave as much is asked for at first as there is room for. -/
theorem askFirst_of_not_choking (h : s.connection.peer.choking = false) :
    Job.askFirst scope clock (s, t) =
      ⟨.done (), clock,
        (answered s t.window.fill.1 none, { t with window := t.window.fill.2 })⟩ := by
  rw [Job.askFirst, Activity.bind_apply]
  simp only [Activity.get, h, Bool.false_eq_true, if_false]
  exact carryOut_of_ok rfl

/-- A round takes the next message and carries out the reaction to it. -/
theorem transferRound_of_cons {message : Message} {rest : List Message} {incoming : Incoming}
    {peer : Peer} {next : Transfer} {notice : Option Notice} (hunfinished : t.isComplete = false)
    (h : s.connection.link.incoming = message :: rest)
    (happly : s.connection.peer.apply message = .ok (incoming, peer))
    (hverdict : (t.react job.hash incoming).verdict = .ok (next, notice)) :
    job.transferRound scope clock (s, t) =
      ⟨.done none, clock,
        (answered (received s rest peer) (t.react job.hash incoming).requests notice, next)⟩ := by
  have hreceive : Job.besides Connection.receiveNext scope clock (s, t) =
      ⟨.done incoming, clock, (received s rest peer, t)⟩ := by
    simp only [Job.besides, Activity.onPart, receiveNext_of_cons h happly]
    rfl
  rw [Job.transferRound_of_unfinished hunfinished, Activity.bind_apply, hreceive]
  simp only [Activity.bind_apply, carryOut_of_ok hverdict, Activity.pure_apply]

/-- With an empty queue a download that has not come to its end waits. -/
theorem transferRound_of_nil (hunfinished : t.isComplete = false)
    (h : s.connection.link.incoming = []) : (job.transferRound scope clock (s, t)).IsWait := by
  have hreceive : (Connection.receiveNext scope clock s.connection).IsWait :=
    Activity.isWait_bind (Activity.isWait_attempt (Activity.isWait_onPart (receive_of_nil h)))
  rw [Job.transferRound_of_unfinished hunfinished]
  exact Activity.isWait_bind (Activity.isWait_onPart hreceive)

end Queues

end PeerWire
