import PeerWire.Download

/-!
# Selecting a peer

Candidates are dialed one after the other or all at once, and are tried in the order in which they
answer. The first one that greets this side for the right torrent and passes the gates is
selected, and the file is fetched from it; a candidate that fails is rejected for its own reason.
Where candidates are dialed one after the other, those behind the selected one are never dialed.
Main statement: however candidates are dialed, each address is a candidate exactly once.
-/

namespace PeerWire

/-- What comes of dialing an address. -/
structure Dialing where
  /-- After how many milliseconds it is known. -/
  delay : Nat
  /-- The stream that was opened, or why none was. -/
  stream : Except Error ByteStream

/-- What comes of dialing each address, at its position in a list. -/
def Network : Type := Nat → Address → Dialing

/-- The network on which no address can be reached. -/
def Network.unreachable : Network := fun _ _ ↦ ⟨0, .error (.connection .unreachable)⟩

/-- An address that was dialed. -/
structure Candidate where
  /-- The position in the list of addresses. -/
  index : Nat
  /-- The address. -/
  address : Address
  /-- What comes of dialing it. -/
  dialing : Dialing

/-- What comes of dialing if it must not take longer than a limit. -/
def Dialing.within (dialing : Dialing) (limit : Nat) : Dialing :=
  if dialing.delay ≤ limit then dialing
  else ⟨limit, .error (.connection (.timedOut .connect (.ofMillis limit)))⟩

/-- The addresses as candidates, in the order of the list. -/
def Network.inOrder (network : Network) (limit : Nat) (addresses : List Address) :
    List Candidate :=
  addresses.mapIdx fun index address ↦ ⟨index, address, (network index address).within limit⟩

/-- The addresses as candidates, in the order in which they are tried. -/
def Network.candidates (network : Network) (strategy : Strategy) (limit : Nat)
    (addresses : List Address) : List Candidate :=
  match strategy with
  | .sequential => network.inOrder limit addresses
  | .parallel =>
    (network.inOrder limit addresses).mergeSort fun a b ↦ a.dialing.delay ≤ b.dialing.delay

/-- A search for a peer. -/
structure Search where
  /-- The notices. -/
  outbox : Outbox
  /-- The positions of the addresses that were dialed. -/
  dialed : List Nat
  /-- The connections that were given up, in order. -/
  dropped : List (Connection Framed)

namespace Search

/-- A search of which nothing has happened. -/
def start (observer : Observer) : Search := ⟨Outbox.start observer, [], []⟩

/-- Gives notice. -/
def post (notice : Notice) (s : Search) : Search := { s with outbox := s.outbox.post notice }

/-- Notes that addresses were dialed. -/
def noteDialed (indices : List Nat) (s : Search) : Search :=
  { s with dialed := s.dialed ++ indices }

/-- Gives up a connection. -/
def drop (connection : Connection Framed) (s : Search) : Search :=
  { s with dropped := s.dropped ++ [connection] }

/-- Does something to a connection and gives it back; it is given up if that is not finished. -/
def lend {α : Type} (connection : Connection Framed) (x : Activity (Session Framed) α) :
    Activity Search (α × Connection Framed) := fun scope clock s ↦
  let r := x scope clock ⟨connection, s.outbox⟩
  let back := { s with outbox := r.state.outbox }
  match r.ending with
  | .done value => ⟨.done (value, r.state.connection), r.clock, back⟩
  | ending => ⟨ending.map (·, r.state.connection), r.clock, back.drop r.state.connection⟩

end Search

namespace Job

/-- Does something unless the session is told to stop, which is the end of it all. -/
def unlessStopped {σ α : Type} (x : Activity σ α) : Activity σ α := do
  match ← Activity.untilStopped x with
  | some value => pure value
  | none => Activity.fail .cancelled

/-- Waits until it is known what comes of dialing a candidate: one that is dialed in its turn is
dialed now, and one that is dialed at once was dialed at a given start. -/
def awaitDialing (job : Job) (start : Nat) (candidate : Candidate) : Activity Search Unit :=
  match job.config.strategy with
  | .sequential => do
    Activity.modify (Search.noteDialed [candidate.index])
    let now ← Activity.now
    Activity.waitUntil (now + candidate.dialing.delay)
  | .parallel => Activity.waitUntil (start + candidate.dialing.delay)

/-- Greets a candidate and has it pass the gates. -/
def meet (job : Job) : Activity (Session Framed) Unit := Session.onConnection do
  Connection.greet job.config job.torrent.infoHash
  passGates

/-- Tries a candidate: a connection that has passed the gates, or the reason for a rejection. -/
def tryCandidate (job : Job) (candidate : Candidate) :
    Activity Search (Except Error (Connection Framed)) :=
  match candidate.dialing.stream with
  | .error error => pure (.error error)
  | .ok stream => do
    let fresh := Connection.opened job.config candidate.address job.torrent.pieceCount stream
    let (result, connection) ← unlessStopped (Search.lend fresh (Activity.attempt job.meet))
    match result with
    | .ok () => pure (.ok connection)
    | .error error =>
      Activity.modify (Search.drop connection)
      pure (.error error)

/-- Tries candidates one after the other until one is selected. A candidate is rejected for any
failure but being told to stop, which ends the search. -/
def selectAmong (job : Job) (start total : Nat) (rejections : List (Address × Error)) :
    List Candidate → Activity Search (Connection Framed)
  | [] => do
    unlessStopped (pure ())
    Activity.fail (.noEligiblePeer rejections)
  | candidate :: rest => do
    unlessStopped (job.awaitDialing start candidate)
    Activity.modify (Search.post (.probing candidate.address candidate.index total))
    match ← job.tryCandidate candidate with
    | .ok connection =>
      Activity.modify (Search.post (.selected candidate.address))
      pure connection
    | .error .cancelled => Activity.fail .cancelled
    | .error error =>
      Activity.modify (Search.post (.rejected candidate.address error.message))
      job.selectAmong start total (rejections ++ [(candidate.address, error)]) rest

/-- Selects a peer among the candidates for a number of addresses, which are in the order in which
they are tried. -/
def selectFrom (job : Job) (total : Nat) (candidates : List Candidate) :
    Activity Search (Connection Framed) := do
  if job.config.strategy = .parallel then
    Activity.modify (Search.noteDialed (candidates.map Candidate.index))
  let start ← Activity.now
  job.selectAmong start total [] candidates

/-- Selects a peer among addresses. -/
def select (job : Job) (network : Network) (addresses : List Address) :
    Activity Search (Connection Framed) :=
  job.selectFrom addresses.length
    (network.candidates job.config.strategy job.config.connectTimeout addresses)

/-- Selects a peer among addresses and fetches the file from it. -/
def fetch (job : Job) (network : Network) (addresses : List Address) :
    Activity Search (Bytes × Address) := do
  let connection ← job.select network addresses
  let (content, connection) ← Search.lend connection job.downloadFrom
  Activity.modify (Search.drop connection)
  pure (content, connection.address)

/-- Selects a peer among addresses and fetches the file from it, and gives notice of how that
ended. -/
def download (job : Job) (network : Network) (addresses : List Address) :
    Activity Search (Bytes × Address) := do
  let start ← Activity.now
  match ← Activity.attempt (job.fetch network addresses) with
  | .ok (content, address) =>
    let now ← Activity.now
    Activity.modify (Search.post (.completed content.length (.ofMillis (now - start))))
    pure (content, address)
  | .error error =>
    Activity.modify (Search.post (.failed error.kind error.message))
    Activity.fail error

end Job

/-- However candidates are dialed, each address is a candidate once. -/
theorem Network.candidates_perm (network : Network) (strategy : Strategy) (limit : Nat)
    (addresses : List Address) :
    (network.candidates strategy limit addresses).Perm (network.inOrder limit addresses) := by
  cases strategy with
  | sequential => exact List.Perm.refl _
  | parallel => exact List.mergeSort_perm _ _

end PeerWire
