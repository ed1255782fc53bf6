import PeerWire.Digest.Sha1
import PeerWire.Selection

/-!
# The command line

A run is given the name of a torrent, its lengths, the file with the digests of its pieces, the
file to write, and the addresses of peers. Arguments are checked in their order, the addresses
last. What happens is written to a log, and a failure is reported with its cause. Main statement:
a run that goes through was given at least one address.
-/

namespace PeerWire.CommandLine

/-- How to call the program. -/
def usage : String :=
  "usage: peer-transfer <info-hash-hex> <piece-length> <total-length> <pieces-file> <output-file> "
    ++ "<peer-addr>..."

/-- What a run reports when it fails. -/
structure Failure where
  /-- What failed. -/
  text : String
  /-- What was beneath it, if anything. -/
  cause : Option String
deriving DecidableEq, Repr

/-- An error as a failure of a run. -/
def Failure.ofError (error : Error) : Failure := ⟨error.message, error.cause?⟩

/-- The lines in which a failure is reported. -/
def Failure.lines (failure : Failure) : List String :=
  ("Error: " ++ failure.text).splitOn "\n" ++
    match failure.cause with
    | none => []
    | some cause => ["", "Caused by:", "    " ++ cause]

/-- What a run is to do. -/
structure Arguments where
  /-- The digest that names the torrent. -/
  infoHash : Digest
  /-- The length of a piece. -/
  pieceLength : Nat
  /-- The length of the file. -/
  totalLength : Nat
  /-- Where the digests of the pieces are stored. -/
  piecesFile : String
  /-- Where the file is written. -/
  outputFile : String
  /-- Where peers are reached. -/
  peers : List Address
deriving DecidableEq

/-- Reads a part of the arguments from the left and leaves the rest. -/
abbrev Reader (α : Type) := List String → Except Failure (α × List String)

/-- The next argument, which must not be missing. -/
def argument (name : String) : Reader String
  | [] => .error ⟨"missing " ++ name ++ "\n" ++ usage, none⟩
  | text :: rest => .ok (text, rest)

/-- The next argument, which is a length. -/
def length (name : String) : Reader Nat := fun arguments ↦ do
  let (text, rest) ← argument name arguments
  match Text.Decimal.read text with
  | .ok n => .ok (n, rest)
  | .error fault => .error ⟨"invalid " ++ name, some fault.message⟩

/-- The next argument, which is a digest. -/
def digest (name : String) : Reader Digest := fun arguments ↦ do
  let (text, rest) ← argument name arguments
  match Error.ofDigestText text with
  | .ok digest => .ok (digest, rest)
  | .error error => .error (Failure.ofError error)

/-- The address that an argument spells. -/
def address (text : String) : Except Failure Address :=
  match Address.read? text with
  | some address => .ok address
  | none =>
    .error ⟨"invalid peer address " ++ Text.Quoted.string text.toList,
      some "invalid socket address syntax"⟩

/-- What the arguments ask for. -/
def read (arguments : List String) : Except Failure Arguments := do
  let (infoHash, rest) ← digest "info hash" arguments
  let (pieceLength, rest) ← length "piece length" rest
  let (totalLength, rest) ← length "total length" rest
  let (piecesFile, rest) ← argument "pieces file" rest
  let (outputFile, rest) ← argument "output file" rest
  let peers ← rest.mapM address
  if peers = [] then .error ⟨"at least one peer address is required\n" ++ usage, none⟩
  else .ok ⟨infoHash, pieceLength, totalLength, piecesFile, outputFile, peers⟩

/-- How much an entry of the log matters. -/
inductive Level where
  /-- Things go as they should. -/
  | info
  /-- Something went wrong. -/
  | warn
deriving DecidableEq, Repr

/-- What a level is called. -/
def Level.name : Level → String
  | .info => "INFO"
  | .warn => "WARN"

/-- An entry of the log. -/
structure Entry where
  /-- How much it matters. -/
  level : Level
  /-- What it tells. -/
  text : String
deriving DecidableEq, Repr

/-- An entry as a line of the log. -/
def Entry.line (entry : Entry) : String := entry.level.name ++ " " ++ entry.text

/-- The entry that tells of a notice. -/
def Entry.ofNotice : Notice → Entry
  | .probing address index total =>
    ⟨.info, "trying peer " ++ address.text ++ " (" ++ toString (index + 1) ++ "/" ++ toString total
      ++ ")"⟩
  | .rejected address reason => ⟨.warn, "peer " ++ address.text ++ " rejected: " ++ reason⟩
  | .selected address => ⟨.info, "downloading from " ++ address.text⟩
  | .verified piece downloaded total =>
    ⟨.info, "piece " ++ toString piece ++ " verified (" ++ toString downloaded ++ "/"
      ++ toString total ++ " bytes)"⟩
  | .completed length elapsed =>
    ⟨.info, "download complete: " ++ toString length ++ " bytes in " ++ elapsed.text⟩
  | .failed kind reason => ⟨.warn, "download failed (" ++ kind.name ++ "): " ++ reason⟩

/-- The entry that tells that the file was written. -/
def Entry.wrote (length : Nat) (file : String) : Entry :=
  ⟨.info, "wrote " ++ toString length ++ " bytes to " ++ file⟩

/-- How a run ended. -/
structure Report where
  /-- What was written to the log. -/
  log : List Entry
  /-- The content, or why there is none. -/
  result : Except Failure Bytes

/-- The torrent that the arguments describe, with the stored digests of its pieces. -/
def torrent (arguments : Arguments) (stored : Bytes) : Except Error Torrent := do
  let hashes ← Error.ofStoredDigests stored
  Error.ofDescription arguments.infoHash arguments.pieceLength arguments.totalLength hashes

/-- The result that an end amounts to; where nothing more comes the stream counts as ended. -/
def resultOf {α : Type} : Ending α → Except Error α
  | .done value => .ok value
  | .failed error => .error error
  | .expired => .error .connectionClosed
  | .interrupted => .error .cancelled
  | .stuck => .error .connectionClosed

/-- Fetches a file over a network. -/
def fetch (clientId : PeerId) (network : Network) (peers : List Address) (torrent : Torrent) :
    Report :=
  let job : Job := ⟨torrent, { clientId := clientId }, Digest.sha1⟩
  let r := job.download network peers Scope.open Clock.zero (Search.start .unbounded)
  { log := r.state.outbox.waiting.map Entry.ofNotice
    result := ((resultOf r.ending).map Prod.fst).mapError Failure.ofError }

/-- Runs with what the file of digests holds, or with the reason why it could not be read. -/
def run (clientId : PeerId) (network : Network) (arguments : Arguments)
    (stored : Except String Bytes) : Report :=
  match stored with
  | .error reason => ⟨[], .error ⟨"unable to read " ++ arguments.piecesFile, some reason⟩⟩
  | .ok stored =>
    match torrent arguments stored with
    | .error error => ⟨[], .error (Failure.ofError error)⟩
    | .ok torrent => fetch clientId network arguments.peers torrent

/-- What was read asks for at least one peer. -/
theorem peers_ne_nil_of_read {arguments : List String} {request : Arguments}
    (h : read arguments = .ok request) : request.peers ≠ [] := by
  simp only [read, bind, Except.bind] at h
  repeat' split at h
  all_goals cases h
  assumption

end PeerWire.CommandLine
