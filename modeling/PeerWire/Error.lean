import PeerWire.Address
import PeerWire.Block
import PeerWire.Duration
import PeerWire.Text.Decimal
import PeerWire.Text.Quoted
import PeerWire.Text.Utf8
import PeerWire.Torrent

/-!
# What can go wrong

Each way in which selecting a peer or fetching a file can fail is a cause, grouped by the part of
the work in which it arises. The wording of a cause is a function of it. Causes that come with a
text from outside carry that text.
-/

namespace PeerWire

/-- How the transport beneath a connection failed. -/
inductive TransportKind where
  /-- Something took too long. -/
  | timedOut
  /-- The stream ended too early. -/
  | unexpectedEnd
  /-- Nobody listens at the address. -/
  | refused
  /-- The other side broke off. -/
  | reset
  /-- The stream takes no more bytes. -/
  | brokenPipe
  /-- No route leads to the address. -/
  | unreachable
  /-- Anything else. -/
  | other
deriving DecidableEq, Repr

/-- Something that is waited for with a limit. -/
inductive Stage where
  /-- The answer to dialing. -/
  | connect
  /-- The peer's handshake. -/
  | handshake
  /-- The next frame. -/
  | read
deriving DecidableEq, Repr

/-- What a stage is called. -/
def Stage.name : Stage → String
  | .connect => "connect"
  | .handshake => "handshake"
  | .read => "read"

/-- A failure of the transport. -/
inductive TransportFault where
  /-- A stage took longer than its limit. -/
  | timedOut (stage : Stage) (limit : Duration)
  /-- The stream ended before the handshake began. -/
  | noHandshake
  /-- The stream ended within the handshake. -/
  | partialHandshake
  /-- No route leads to the address. -/
  | unreachable
  /-- A failure that came with a text. -/
  | described (kind : TransportKind) (text : String)
deriving DecidableEq, Repr

/-- How the transport failed. -/
def TransportFault.kind : TransportFault → TransportKind
  | .timedOut _ _ => .timedOut
  | .noHandshake => .unexpectedEnd
  | .partialHandshake => .unexpectedEnd
  | .unreachable => .unreachable
  | .described kind _ => kind

/-- The wording of a failure of the transport. -/
def TransportFault.message : TransportFault → String
  | .timedOut stage limit => stage.name ++ " timed out after " ++ limit.text
  | .noHandshake => "unexpected end of file"
  | .partialHandshake => "early eof"
  | .unreachable => "Network is unreachable (os error 101)"
  | .described _ text => text

/-- Why a handshake is not the expected one. -/
inductive HandshakeFault where
  /-- The name of the protocol has another length. -/
  | nameLength (length : Nat)
  /-- The protocol has another name. -/
  | name (bytes : Bytes)
  /-- The handshake is for another torrent. -/
  | infoHash (expected actual : Digest)
  /-- A fault that came with a text. -/
  | described (text : String)
deriving DecidableEq

/-- The wording of a fault in a handshake. -/
def HandshakeFault.message : HandshakeFault → String
  | .nameLength length => "unexpected protocol string length " ++ toString length
  | .name bytes => "unsupported protocol " ++ Text.Quoted.string (Text.Utf8.decode bytes)
  | .infoHash expected actual =>
    "info hash mismatch: expected " ++ expected.hex ++ ", got " ++ actual.hex
  | .described text => text

/-- Why a frame is not a message. -/
inductive FrameFault where
  /-- The frame is longer than allowed. -/
  | tooLong (length limit : Nat)
  /-- The payload does not have the size that the message has. -/
  | payloadSize (size : Nat) (id : Nat)
  /-- The stream ended within a frame. -/
  | truncated (buffered : Nat)
  /-- A piece past the last one is announced. -/
  | unknownPiece (piece count : Nat)
  /-- A fault that came with a text. -/
  | described (text : String)
deriving DecidableEq, Repr

/-- The wording of a fault in a frame. -/
def FrameFault.message : FrameFault → String
  | .tooLong length limit =>
    "message length " ++ toString length ++ " exceeds maximum of " ++ toString limit
  | .payloadSize size id =>
    "invalid payload of " ++ toString size ++ " bytes for message id " ++ toString id
  | .truncated buffered =>
    "stream truncated mid-frame (" ++ toString buffered ++ " bytes buffered)"
  | .unknownPiece piece count =>
    "have for piece " ++ toString piece ++ " out of " ++ toString count
  | .described text => text

/-- Why a fragment does not fit. -/
inductive Violation where
  /-- The fragment belongs to another piece than the one being put together. -/
  | pieceIndex (expected actual : Nat)
  /-- The fragment does not start where the bytes so far end. -/
  | offset (piece expected actual : Nat)
  /-- The fragment runs past the end of its piece. -/
  | overrun (piece reached length : Nat)
  /-- The fragment does not answer the oldest request. -/
  | unexpectedBlock (expected actual : Block)
  /-- The fragment answers no request. -/
  | unsolicited (block : Block)
deriving DecidableEq, Repr

/-- The wording of a violation. -/
def Violation.message : Violation → String
  | .pieceIndex expected actual =>
    "unexpected piece index: expected " ++ toString expected ++ ", got " ++ toString actual
  | .offset piece expected actual =>
    "unexpected block offset in piece " ++ toString piece ++ ": expected " ++ toString expected
      ++ ", got " ++ toString actual
  | .overrun piece reached length =>
    "block ending at " ++ toString reached ++ " overruns piece " ++ toString piece ++ " of length "
      ++ toString length
  | .unexpectedBlock expected actual =>
    "expected block " ++ expected.text ++ ", got " ++ actual.text
  | .unsolicited block => "unsolicited block " ++ block.text

/-- Why the description of a torrent is no good. -/
inductive MetadataFault where
  /-- A text does not spell a digest. -/
  | digest (text : String) (fault : Text.Hex.Fault)
  /-- Stored digests end within a digest. -/
  | storedDigests (length : Nat)
  /-- The parts of the description do not fit together. -/
  | flaw (flaw : Torrent.Flaw)
  /-- A fault that came with a text. -/
  | described (text : String)
deriving DecidableEq, Repr

/-- The wording of a fault in hexadecimal text. -/
def Text.Hex.Fault.message : Text.Hex.Fault → String
  | .oddLength => "Odd number of digits"
  | .wrongLength => "Invalid string length"
  | .notDigit byte position =>
    "Invalid character " ++ Text.Quoted.char (Char.ofNat byte.toNat) ++ " at position "
      ++ toString position

/-- The wording of a flaw in a description. -/
def Torrent.Flaw.message : Torrent.Flaw → String
  | .noPieceLength => "piece length must be positive"
  | .hashCount totalLength pieceLength expected actual =>
    toString totalLength ++ " bytes in pieces of " ++ toString pieceLength ++ " need "
      ++ toString expected ++ " hashes, got " ++ toString actual

/-- The wording of a fault in a description. -/
def MetadataFault.message : MetadataFault → String
  | .digest text fault =>
    "invalid sha1 " ++ Text.Quoted.string text.toList ++ ": " ++ fault.message
  | .storedDigests length =>
    "invalid length " ++ toString length ++ ". must be a multiple of " ++ toString Digest.size
  | .flaw f => f.message
  | .described text => text

/-- What came in place of something else. -/
inductive Surprise where
  /-- A fragment. -/
  | fragment (block : Block)
  /-- Something that came with a text. -/
  | described (text : String)
deriving DecidableEq, Repr

/-- The wording of what came. -/
def Surprise.message : Surprise → String
  | .fragment block => "piece " ++ block.text
  | .described text => text

/-- What was waited for. -/
inductive Awaited where
  /-- The pieces that the peer has. -/
  | availability
  /-- The leave to request. -/
  | unchoke
  /-- Something that came with a text. -/
  | described (text : String)
deriving DecidableEq, Repr

/-- The wording of what was waited for. -/
def Awaited.message : Awaited → String
  | .availability => "bitfield"
  | .unchoke => "unchoke"
  | .described text => text

/-- Everything that can end the work with a peer, or all of it. -/
inductive Error where
  /-- The transport failed. -/
  | connection (fault : TransportFault)
  /-- The peer ended the stream. -/
  | connectionClosed
  /-- The peer's handshake is not the expected one. -/
  | protocolMismatch (fault : HandshakeFault)
  /-- The peer's bitfield does not have one bit for each piece. -/
  | bitfieldSize (expected received : Nat)
  /-- The peer does not have every piece. -/
  | incompleteFile (missing total : Nat)
  /-- The peer sent something that makes no sense at this point. -/
  | unexpectedMessage (received : Surprise) (awaited : Awaited)
  /-- The peer did not give leave to request in time. -/
  | unchokeTimeout (limit : Duration)
  /-- A frame could not be read as a message. -/
  | malformedMessage (fault : FrameFault)
  /-- A fragment does not fit. -/
  | orderingViolation (violation : Violation)
  /-- The bytes of a piece do not have its digest. -/
  | hashMismatch (piece : Nat)
  /-- The description of the torrent is no good. -/
  | invalidMetadata (fault : MetadataFault)
  /-- The session was told to stop. -/
  | cancelled
  /-- Every candidate was rejected, each for its own reason. -/
  | noEligiblePeer (rejections : List (Address × Error))

/-- The kinds of errors, without what they carry. -/
inductive ErrorKind where
  /-- The transport failed. -/
  | connection
  /-- The peer ended the stream. -/
  | connectionClosed
  /-- The peer's handshake is not the expected one. -/
  | protocolMismatch
  /-- The peer's bitfield has the wrong size. -/
  | bitfieldSizeMismatch
  /-- The peer does not have every piece. -/
  | incompleteFile
  /-- The peer sent something out of place. -/
  | unexpectedMessage
  /-- The peer did not give leave to request in time. -/
  | unchokeTimeout
  /-- A frame could not be read as a message. -/
  | malformedMessage
  /-- A fragment does not fit. -/
  | orderingViolation
  /-- The bytes of a piece do not have its digest. -/
  | hashMismatch
  /-- The description of the torrent is no good. -/
  | invalidMetadata
  /-- The session was told to stop. -/
  | cancelled
  /-- Every candidate was rejected. -/
  | noEligiblePeer
deriving DecidableEq, Repr

/-- What a kind of error is called. -/
def ErrorKind.name : ErrorKind → String
  | .connection => "Connection"
  | .connectionClosed => "ConnectionClosed"
  | .protocolMismatch => "ProtocolMismatch"
  | .bitfieldSizeMismatch => "BitfieldSizeMismatch"
  | .incompleteFile => "IncompleteFile"
  | .unexpectedMessage => "UnexpectedMessage"
  | .unchokeTimeout => "UnchokeTimeout"
  | .malformedMessage => "MalformedMessage"
  | .orderingViolation => "OrderingViolation"
  | .hashMismatch => "HashMismatch"
  | .invalidMetadata => "InvalidMetadata"
  | .cancelled => "Cancelled"
  | .noEligiblePeer => "NoEligiblePeer"

namespace Error

/-- The kind of an error. -/
def kind : Error → ErrorKind
  | connection _ => .connection
  | connectionClosed => .connectionClosed
  | protocolMismatch _ => .protocolMismatch
  | bitfieldSize _ _ => .bitfieldSizeMismatch
  | incompleteFile _ _ => .incompleteFile
  | unexpectedMessage _ _ => .unexpectedMessage
  | unchokeTimeout _ => .unchokeTimeout
  | malformedMessage _ => .malformedMessage
  | orderingViolation _ => .orderingViolation
  | hashMismatch _ => .hashMismatch
  | invalidMetadata _ => .invalidMetadata
  | cancelled => .cancelled
  | noEligiblePeer _ => .noEligiblePeer

/-- The wording of an error. -/
def message : Error → String
  | connection fault => "connection error: " ++ fault.message
  | connectionClosed => "connection closed by peer"
  | protocolMismatch fault => "protocol mismatch: " ++ fault.message
  | bitfieldSize expected received =>
    "bitfield size mismatch: expected " ++ toString expected ++ " bytes, got " ++ toString received
  | incompleteFile missing total =>
    "peer is missing " ++ toString missing ++ " of " ++ toString total ++ " pieces"
  | unexpectedMessage received awaited =>
    "unexpected " ++ received.message ++ " while waiting for " ++ awaited.message
  | unchokeTimeout limit => "peer did not unchoke within " ++ limit.text
  | malformedMessage fault => "malformed message: " ++ fault.message
  | orderingViolation violation => "ordering violation: " ++ violation.message
  | hashMismatch piece => "piece " ++ toString piece ++ " does not match expected hash"
  | invalidMetadata fault => "invalid metadata: " ++ fault.message
  | cancelled => "download cancelled"
  | noEligiblePeer rejections =>
    "no eligible peer among " ++ toString rejections.length ++ " candidates"

/-- The wording of the failure beneath an error, where there is one. -/
def cause? : Error → Option String
  | connection fault => some fault.message
  | _ => none

/-- What a transport reports that breaks down on purpose. -/
def scripted (kind : TransportKind) : Error := connection (.described kind "scripted failure")

/-- Why a text does not spell a digest, as an error. -/
def ofDigestText (text : String) : Except Error Digest :=
  (Digest.ofHex text).mapError fun fault ↦ .invalidMetadata (.digest text fault)

/-- Stored digests, or why they are no good as an error. -/
def ofStoredDigests (bytes : Bytes) : Except Error (List Digest) :=
  match Digest.split? bytes with
  | some digests => .ok digests
  | none => .error (.invalidMetadata (.storedDigests bytes.length))

/-- The torrent of a description, or why it is no good as an error. -/
def ofDescription (infoHash : Digest) (pieceLength totalLength : Nat) (hashes : List Digest) :
    Except Error Torrent :=
  (Torrent.describe infoHash pieceLength totalLength hashes).mapError
    fun flaw ↦ .invalidMetadata (.flaw flaw)

end Error

end PeerWire
