import PeerWire.Error

/-!
# Putting pieces together

Fragments have to come in order: each for the piece being put together, and each starting where
the bytes so far end. A piece is done when its last byte is there. A fragment that does not fit is
refused and changes nothing. Main statements: a fragment is taken exactly when its piece exists and
is the current one, it starts where the bytes so far end, and it does not run past the end; if it is
taken it continues the piece or completes it.
-/

namespace PeerWire

/-- A piece with all its bytes, not yet checked. -/
structure Piece where
  /-- Which piece it is. -/
  info : PieceInfo
  /-- The bytes. -/
  data : Bytes
deriving DecidableEq

/-- The pieces of a torrent as they are put together. -/
structure Assembly where
  /-- The torrent. -/
  torrent : Torrent
  /-- The index of the current piece. -/
  index : Nat
  /-- The bytes of the current piece so far. -/
  received : Bytes

namespace Assembly

/-- Nothing put together yet. -/
def start (torrent : Torrent) : Assembly := ⟨torrent, 0, []⟩

/-- Adds a fragment to the current piece, whose description is given. -/
def extend (a : Assembly) (info : PieceInfo) (fragment : Fragment) :
    Except Violation (Option Piece × Assembly) :=
  let data := a.received ++ fragment.data
  if fragment.offset ≠ a.received.length then
    .error (.offset info.index a.received.length fragment.offset)
  else if info.length < data.length then .error (.overrun info.index data.length info.length)
  else if data.length = info.length then
    .ok (some ⟨info, data⟩, { a with index := a.index + 1, received := [] })
  else .ok (none, { a with received := data })

/-- Adds a fragment, and gives the piece if it is done. -/
def append (a : Assembly) (fragment : Fragment) : Except Violation (Option Piece × Assembly) :=
  if fragment.piece ≠ a.index then .error (.pieceIndex a.index fragment.piece)
  else
    match a.torrent.piece? a.index with
    | none => .error (.pieceIndex a.torrent.pieceCount fragment.piece)
    | some info => a.extend info fragment

/-- A fragment fits the current piece exactly when it continues it and does not run past its
end. -/
theorem extend_eq_ok_iff {a : Assembly} {info : PieceInfo} {fragment : Fragment} :
    (∃ result, a.extend info fragment = .ok result) ↔
      fragment.offset = a.received.length ∧
        a.received.length + fragment.data.length ≤ info.length := by
  simp only [extend, List.length_append]
  constructor
  · rintro ⟨result, h⟩
    split at h
    · cases h
    · split at h
      · cases h
      · exact ⟨by omega, by omega⟩
  · rintro ⟨hoffset, hfits⟩
    rw [if_neg (by simp [hoffset]), if_neg (by omega)]
    split
    · exact ⟨_, rfl⟩
    · exact ⟨_, rfl⟩

/-- A fragment is taken exactly when it belongs to the current piece, continues it and does not run
past its end. -/
theorem append_eq_ok_iff {a : Assembly} {fragment : Fragment} :
    (∃ result, a.append fragment = .ok result) ↔
      fragment.piece = a.index ∧ ∃ info, a.torrent.piece? a.index = some info ∧
        fragment.offset = a.received.length ∧
          a.received.length + fragment.data.length ≤ info.length := by
  rw [append]
  split
  · next hne => simp [hne]
  · next heq =>
    have heq : fragment.piece = a.index := by simpa using heq
    split
    · next hnone => simp [hnone]
    · next info hsome =>
      rw [extend_eq_ok_iff]
      simp [heq, hsome]

/-- A fragment belongs to the current piece, continues it and does not run past its end. -/
structure Fits (a : Assembly) (info : PieceInfo) (fragment : Fragment) : Prop where
  /-- It is one of the current piece. -/
  piece_eq : fragment.piece = a.index
  /-- There is such a piece. -/
  described : a.torrent.piece? a.index = some info
  /-- It starts where the bytes so far end. -/
  offset_eq : fragment.offset = a.received.length
  /-- The bytes are then not too many. -/
  length_le : (a.received ++ fragment.data).length ≤ info.length

/-- What adding a fragment comes to. -/
inductive Appended (a : Assembly) (fragment : Fragment) :
    Except Violation (Option Piece × Assembly) → Prop where
  /-- It does not fit the current piece. -/
  | refused {violation : Violation} (misfit : ∀ info, ¬ a.Fits info fragment) :
      Appended a fragment (.error violation)
  /-- It fits, and the piece still lacks bytes. -/
  | continued {info : PieceInfo} (fits : a.Fits info fragment)
      (short : (a.received ++ fragment.data).length < info.length) :
      Appended a fragment (.ok (none, { a with received := a.received ++ fragment.data }))
  /-- It fits, and the piece is done. -/
  | completed {info : PieceInfo} (fits : a.Fits info fragment)
      (full : (a.received ++ fragment.data).length = info.length) :
      Appended a fragment (.ok (some ⟨info, a.received ++ fragment.data⟩,
        { a with index := a.index + 1, received := [] }))

/-- An added fragment is refused, or continues the current piece, or completes it. -/
theorem appended (a : Assembly) (fragment : Fragment) :
    a.Appended fragment (a.append fragment) := by
  rw [append]
  split
  · next hpiece => exact .refused fun _ h ↦ hpiece h.piece_eq
  · next hpiece =>
    have hpiece := Decidable.not_not.mp hpiece
    split
    · next hnone =>
      refine .refused fun _ h ↦ ?_
      rw [h.described] at hnone
      cases hnone
    · next info hinfo =>
      simp only [extend]
      split
      · next hoffset => exact .refused fun _ h ↦ hoffset h.offset_eq
      · next hoffset =>
        have hoffset := Decidable.not_not.mp hoffset
        split
        · next hover =>
          refine .refused fun other h ↦ ?_
          cases hinfo.symm.trans h.described
          exact Nat.not_lt_of_le h.length_le hover
        · next hover =>
          have hfits : a.Fits info fragment := ⟨hpiece, hinfo, hoffset, Nat.le_of_not_lt hover⟩
          split
          · next hfull => exact .completed hfits hfull
          · next hshort => exact .continued hfits (Nat.lt_of_le_of_ne hfits.length_le hshort)

end Assembly

/-- Whether the bytes of a piece have the digest they should have. -/
def checks (hash : Bytes → Digest) (data : Bytes) (expected : Digest) : Bool :=
  hash data = expected

end PeerWire
