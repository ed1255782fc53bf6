import PeerWire.Assembly
import PeerWire.Notice
import PeerWire.Peer
import PeerWire.Window

/-!
# What a download does with each message

A download reacts to what comes from the peer: blocks are matched with the requests, put together
and checked, and further blocks are asked for. The reaction to one message depends on nothing but
the state of the download. Requests go out before the reaction comes to a verdict, which may be
that the peer is no good. Main statement: what does not concern the download leaves it as it is.
-/

namespace PeerWire

/-- A download of the pieces of a torrent. -/
structure Transfer where
  /-- The requests. -/
  window : Window
  /-- The piece being put together. -/
  assembly : Assembly
  /-- The file, with zeros for each piece that was not checked. -/
  content : Bytes
  /-- The number of checked pieces. -/
  verified : Nat
  /-- The number of bytes in those pieces. -/
  downloaded : Nat

/-- What is done about a message. -/
structure Reaction where
  /-- The blocks to ask for, in order, before anything else. -/
  requests : List Block
  /-- The download from here on and a notice, or why it ends. -/
  verdict : Except Error (Transfer × Option Notice)

namespace Transfer

/-- A download of which nothing has happened. The whole file has its place in memory from the
beginning, so there must be that much. -/
def start (torrent : Torrent) (blockLength depth : Nat) : Transfer where
  window := Window.start (Blocks.ofTorrent torrent blockLength) depth
  assembly := Assembly.start torrent
  content := List.replicate torrent.totalLength 0
  verified := 0
  downloaded := 0

/-- Whether every piece was checked. -/
def isComplete (t : Transfer) : Bool := t.assembly.torrent.pieceCount ≤ t.verified

/-- Asks for as many blocks as there is room for. -/
def fill (t : Transfer) : Reaction where
  requests := t.window.fill.1
  verdict := .ok ({ t with window := t.window.fill.2 }, none)

/-- A piece was checked: its bytes go to its place in the file. -/
def keep (piece : Piece) (t : Transfer) : Transfer where
  window := t.window
  assembly := t.assembly
  content :=
    Bytes.writeAt (t.assembly.torrent.pieceOffset piece.info.index) piece.data t.content
  verified := t.verified + 1
  downloaded := t.downloaded + piece.data.length

/-- Checks a piece that was put together. -/
def check (hash : Bytes → Digest) (piece : Piece) (t : Transfer) :
    Except Error (Transfer × Option Notice) :=
  if checks hash piece.data piece.info.hash then
    let t := t.keep piece
    .ok (t, some (.verified piece.info.index t.downloaded t.assembly.torrent.totalLength))
  else .error (.hashMismatch piece.info.index)

/-- Puts a block together with those before it, and checks the piece if it is done. -/
def append (hash : Bytes → Digest) (fragment : Fragment) (t : Transfer) :
    Except Error (Transfer × Option Notice) :=
  match t.assembly.append fragment with
  | .error violation => .error (.orderingViolation violation)
  | .ok (none, assembly) => .ok ({ t with assembly := assembly }, none)
  | .ok (some piece, assembly) => check hash piece { t with assembly := assembly }

/-- Reacts to a delivered block. -/
def deliver (hash : Bytes → Digest) (fragment : Fragment) (t : Transfer) : Reaction :=
  match t.window.arrive fragment.block with
  | .error violation => ⟨[], .error (.orderingViolation violation)⟩
  | .ok (.stale, window) => ⟨[], .ok ({ t with window := window }, none)⟩
  | .ok (.accepted backfill, window) =>
    ⟨backfill.toList, append hash fragment { t with window := window }⟩

/-- Reacts to what a message means. -/
def react (hash : Bytes → Digest) (t : Transfer) : Incoming → Reaction
  | .block fragment => deliver hash fragment t
  | .choked => ⟨[], .ok ({ t with window := t.window.void }, none)⟩
  | .unchoked => t.fill
  | .announced _ => ⟨[], .ok (t, none)⟩
  | .consumed => ⟨[], .ok (t, none)⟩

/-- A round about something that does not concern the download leaves it as it is. -/
theorem react_of_idle (hash : Bytes → Digest) (t : Transfer) {incoming : Incoming}
    (h : incoming = .consumed ∨ ∃ piece, incoming = .announced piece) :
    t.react hash incoming = ⟨[], .ok (t, none)⟩ := by
  obtain rfl | ⟨piece, rfl⟩ := h <;> rfl

end Transfer

end PeerWire
