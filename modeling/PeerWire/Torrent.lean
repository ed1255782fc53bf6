import PeerWire.Digest
import PeerWire.Tiling

/-!
# Torrents

A torrent describes one file: its length, the length of its pieces and the digest of each piece.
The file is cut into pieces as a length is cut into tiles. Main statements: a torrent exists for
exactly those descriptions whose pieces have a length and whose digests are as many as the pieces,
and a piece has a description exactly when its index is below the number of pieces.
-/

namespace PeerWire

/-- What is needed to fetch a file and to check it. -/
structure Torrent where
  /-- The digest that names the torrent. -/
  infoHash : Digest
  /-- The length of every piece but the last. -/
  pieceLength : Nat
  /-- The length of the file. -/
  totalLength : Nat
  /-- The digest of each piece. -/
  hashes : List Digest
  /-- Pieces have a length. -/
  pieceLength_pos : 0 < pieceLength
  /-- There is one digest for each piece. -/
  length_hashes : hashes.length = Tiling.count totalLength pieceLength

/-- One piece of a file. -/
structure PieceInfo where
  /-- Its index. -/
  index : Nat
  /-- Its length. -/
  length : Nat
  /-- The digest of its bytes. -/
  hash : Digest
deriving DecidableEq

namespace Torrent

/-- What keeps a description from being a torrent. -/
inductive Flaw where
  /-- Pieces have no length. -/
  | noPieceLength
  /-- There are not as many digests as pieces. -/
  | hashCount (totalLength pieceLength expected actual : Nat)
deriving DecidableEq, Repr

/-- The torrent of a description, or its first flaw. -/
def describe (infoHash : Digest) (pieceLength totalLength : Nat) (hashes : List Digest) :
    Except Flaw Torrent :=
  if hpos : 0 < pieceLength then
    if hlen : hashes.length = Tiling.count totalLength pieceLength then
      .ok ⟨infoHash, pieceLength, totalLength, hashes, hpos, hlen⟩
    else
      .error (.hashCount totalLength pieceLength (Tiling.count totalLength pieceLength)
        hashes.length)
  else .error .noPieceLength

variable (torrent : Torrent)

/-- The number of pieces. -/
def pieceCount : Nat := torrent.hashes.length

/-- The length of a piece, zero past the last one. -/
def pieceSize (index : Nat) : Nat := Tiling.length torrent.totalLength torrent.pieceLength index

/-- Where a piece starts in the file. -/
def pieceOffset (index : Nat) : Nat := Tiling.start torrent.pieceLength index

/-- The description of a piece, if there is one with this index. -/
def piece? (index : Nat) : Option PieceInfo :=
  (torrent.hashes[index]?).map fun hash ↦ ⟨index, torrent.pieceSize index, hash⟩

/-- The descriptions of all pieces, in order. -/
def pieces : List PieceInfo :=
  torrent.hashes.mapIdx fun index hash ↦ ⟨index, torrent.pieceSize index, hash⟩

/-- A content cut into pieces of one length. -/
def cutContent (pieceLength : Nat) (content : Bytes) : List Bytes :=
  (List.range (Tiling.count content.length pieceLength)).map fun index ↦
    (content.drop (Tiling.start pieceLength index)).take pieceLength

/-- A description is a torrent exactly when pieces have a length and the digests are as many as
the pieces. -/
theorem describe_eq_ok_iff {infoHash : Digest} {pieceLength totalLength : Nat}
    {hashes : List Digest} :
    (∃ t, describe infoHash pieceLength totalLength hashes = .ok t) ↔
      0 < pieceLength ∧ hashes.length = Tiling.count totalLength pieceLength := by
  rw [describe]
  constructor
  · rintro ⟨t, h⟩
    split at h
    · next hpos =>
      split at h
      · next hlen => exact ⟨hpos, hlen⟩
      · cases h
    · cases h
  · rintro ⟨hpos, hlen⟩
    exact ⟨⟨infoHash, pieceLength, totalLength, hashes, hpos, hlen⟩, by simp [hpos, hlen]⟩

/-- The pieces are as many as tiles of the piece length in the file. -/
theorem pieceCount_eq : torrent.pieceCount = Tiling.count torrent.totalLength torrent.pieceLength :=
  torrent.length_hashes

/-- A piece is described exactly when its index is below the number of pieces. -/
theorem piece?_eq_none_iff {index : Nat} :
    torrent.piece? index = none ↔ torrent.pieceCount ≤ index := by
  simp [piece?, pieceCount]

variable {torrent} in
/-- A description is that of the piece with its index, which is one of the torrent's. -/
theorem of_piece?_eq_some {index : Nat} {info : PieceInfo} (h : torrent.piece? index = some info) :
    index < torrent.pieceCount ∧ info.index = index ∧ info.length = torrent.pieceSize index := by
  obtain ⟨digest, hdigest, rfl⟩ := Option.map_eq_some_iff.mp h
  obtain ⟨hindex, -⟩ := List.getElem?_eq_some_iff.mp hdigest
  exact ⟨hindex, rfl, rfl⟩

/-- The list of pieces holds the description of each index. -/
theorem getElem?_pieces (index : Nat) : torrent.pieces[index]? = torrent.piece? index := by
  simp [pieces, piece?]

end Torrent

end PeerWire
