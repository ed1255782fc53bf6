import Mathlib.Data.List.Induction
import PeerWire.Proofs.Safety

/-!
# Any fragments, one after the other

Fragments are added one after the other, whether or not they fit. Those that are taken are followed
through: their bytes are those of the completed pieces and then those of the current one. Main
statement: after any fragments, a further one is taken exactly when it continues the piece behind
the completed ones; these are the pieces of the torrent in order, each as long as it should be; and
a refused fragment might as well not have come. All this is so too if each piece is put together in
a buffer that is made for it with its first fragment, and taken out of its place meanwhile.
-/

namespace PeerWire

namespace Assembly

/-! ### Adding one after the other -/

section Adding

variable {σ τ : Type} (add : σ → Fragment → Except Violation (Option Piece) × σ)

/-- What is left when fragments were added one after the other. -/
def addAll (s : σ) (fragments : List Fragment) : σ :=
  fragments.foldl (fun s fragment ↦ (add s fragment).2) s

/-- What becomes of fragments that are added one after the other. -/
def results (s : σ) : List Fragment → List (Except Violation (Option Piece))
  | [] => []
  | fragment :: rest => (add s fragment).1 :: results (add s fragment).2 rest

/-- Each fragment has its result. -/
theorem length_results (s : σ) (fragments : List Fragment) :
    (results add s fragments).length = fragments.length := by
  induction fragments generalizing s with
  | nil => rfl
  | cons fragment rest ih => simp only [results, List.length_cons, ih]

/-- Fragments behind others are added to what those left. -/
theorem results_append (s : σ) (fragments others : List Fragment) :
    results add s (fragments ++ others) =
      results add s fragments ++ results add (addAll add s fragments) others := by
  induction fragments generalizing s with
  | nil => rfl
  | cons fragment rest ih =>
    rw [List.cons_append, results, ih, results, List.cons_append]
    rfl

variable {add}

/-- If a refused fragment changes nothing, the others fare as they would without it. -/
theorem results_eraseIdx
    (hrefused : ∀ s fragment violation, (add s fragment).1 = .error violation →
      (add s fragment).2 = s)
    {s : σ} {fragments : List Fragment} {i : Nat} {violation : Violation}
    (h : (results add s fragments)[i]? = some (.error violation)) :
    results add s (fragments.eraseIdx i) = (results add s fragments).eraseIdx i := by
  induction fragments generalizing s i with
  | nil => cases h
  | cons fragment rest ih =>
    cases i with
    | zero =>
      have hsame := hrefused s fragment violation (Option.some.inj h)
      rw [results, hsame]
      rfl
    | succ i =>
      have hrest : (results add (add s fragment).2 rest)[i]? = some (.error violation) := h
      rw [List.eraseIdx_cons_succ, results, ih hrest, results, List.eraseIdx_cons_succ]

/-- Two ways of adding have the same results if what they leave stays alike. -/
theorem results_congr {add' : τ → Fragment → Except Violation (Option Piece) × τ}
    {Alike : σ → τ → Prop}
    (hstep : ∀ s t fragment, Alike s t → (add s fragment).1 = (add' t fragment).1 ∧
      Alike (add s fragment).2 (add' t fragment).2)
    {s : σ} {t : τ} (h : Alike s t) (fragments : List Fragment) :
    results add s fragments = results add' t fragments := by
  induction fragments generalizing s t with
  | nil => rfl
  | cons fragment rest ih =>
    obtain ⟨hresult, halike⟩ := hstep s t fragment h
    rw [results, results, hresult, ih halike]

end Adding

/-- The fragments that were taken. -/
def taken (fragments : List Fragment) (outcomes : List (Except Violation (Option Piece))) :
    List Fragment :=
  ((fragments.zip outcomes).filter fun entry ↦ entry.2.isOk).map Prod.fst

/-- The pieces that were completed. -/
def completed (outcomes : List (Except Violation (Option Piece))) : List Piece :=
  outcomes.filterMap fun outcome ↦ outcome.toOption.join

/-- The last fragment is taken or not. -/
theorem taken_concat {fragments : List Fragment}
    {outcomes : List (Except Violation (Option Piece))}
    (hlength : outcomes.length = fragments.length) (fragment : Fragment)
    (outcome : Except Violation (Option Piece)) :
    taken (fragments ++ [fragment]) (outcomes ++ [outcome]) =
      taken fragments outcomes ++ if outcome.isOk then [fragment] else [] := by
  rw [taken, List.zip_append hlength.symm, List.filter_append, List.map_append, taken]
  cases outcome <;> rfl

/-- With the last fragment a piece is completed or not. -/
theorem completed_concat (outcomes : List (Except Violation (Option Piece)))
    (outcome : Except Violation (Option Piece)) :
    completed (outcomes ++ [outcome]) = completed outcomes ++ outcome.toOption.join.toList := by
  rw [completed, List.filterMap_append, completed]
  rfl

/-! ### What was taken and what was completed -/

variable {a : Assembly} {fragment : Fragment} {torrent : Torrent} {fragments : List Fragment}
  {pieces : List Piece}

/-- Adds a fragment; if it is refused the assembly stays as it is. -/
def offer (a : Assembly) (fragment : Fragment) : Except Violation (Option Piece) × Assembly :=
  match a.append fragment with
  | .ok (piece?, after) => (.ok piece?, after)
  | .error violation => (.error violation, a)

/-- A refused fragment changes nothing. -/
theorem offer_of_error {violation : Violation} (h : (a.offer fragment).1 = .error violation) :
    (a.offer fragment).2 = a := by
  rw [offer] at h ⊢
  split at h
  · cases h
  · rfl

/-- A fragment is taken if it can be added. -/
theorem offer_eq_ok_iff :
    (∃ piece?, (a.offer fragment).1 = .ok piece?) ↔ ∃ result, a.append fragment = .ok result := by
  rw [offer]
  cases a.append fragment <;> simp

/-- The pieces that are completed, and the bytes of the current one, are what the taken fragments
came to. -/
structure Composed (torrent : Torrent) (taken : List Fragment) (pieces : List Piece)
    (a : Assembly) : Prop where
  /-- The pieces are those of the torrent. -/
  torrent_eq : a.torrent = torrent
  /-- The current one is the one behind those completed. -/
  index_eq : a.index = pieces.length
  /-- Each completed piece has its description and its length. -/
  described : ∀ index piece, pieces[index]? = some piece →
    torrent.piece? index = some piece.info ∧ piece.data.length = piece.info.length
  /-- The bytes of the fragments are those of the completed pieces and of the current one. -/
  data_eq : taken.flatMap Fragment.data = pieces.flatMap Piece.data ++ a.received
  /-- Fragments of the current piece have come up to where it is. -/
  received_eq : (taken.filter fun fragment ↦ fragment.piece = a.index).flatMap Fragment.data =
    a.received
  /-- No fragment of a later piece has come. -/
  piece_le : ∀ fragment ∈ taken, fragment.piece ≤ a.index

/-- Before any fragment nothing is completed. -/
theorem composed_start (torrent : Torrent) : Composed torrent [] [] (start torrent) where
  torrent_eq := rfl
  index_eq := rfl
  described := by simp
  data_eq := rfl
  received_eq := rfl
  piece_le := by simp

/-- With another fragment of the current piece no fragment of a later one has come. -/
theorem Composed.piece_le_concat (h : Composed torrent fragments pieces a) {info : PieceInfo}
    (hfits : a.Fits info fragment) : ∀ other ∈ fragments ++ [fragment], other.piece ≤ a.index := by
  intro other hother
  obtain hother | hother := List.mem_append.mp hother
  · exact h.piece_le other hother
  · rw [List.mem_singleton.mp hother]
    exact Nat.le_of_eq hfits.piece_eq

/-- A fragment continues the current piece. -/
theorem Composed.extend (h : Composed torrent fragments pieces a) {info : PieceInfo}
    (hfits : a.Fits info fragment) :
    Composed torrent (fragments ++ [fragment]) pieces
      { a with received := a.received ++ fragment.data } where
  torrent_eq := h.torrent_eq
  index_eq := h.index_eq
  described := h.described
  data_eq := by
    rw [List.flatMap_append, List.flatMap_singleton, h.data_eq, List.append_assoc]
  received_eq := by
    have hlast : [fragment].filter (fun other ↦ other.piece = a.index) = [fragment] := by
      simp [hfits.piece_eq]
    rw [List.filter_append, hlast, List.flatMap_append, List.flatMap_singleton, h.received_eq]
  piece_le := h.piece_le_concat hfits

/-- A fragment completes the current piece. -/
theorem Composed.complete (h : Composed torrent fragments pieces a) {info : PieceInfo}
    (hfits : a.Fits info fragment) (hfull : (a.received ++ fragment.data).length = info.length) :
    Composed torrent (fragments ++ [fragment]) (pieces ++ [⟨info, a.received ++ fragment.data⟩])
      { a with index := a.index + 1, received := [] } where
  torrent_eq := h.torrent_eq
  index_eq := by rw [List.length_append, List.length_singleton, h.index_eq]
  described := by
    intro index piece hpiece
    rw [List.getElem?_append] at hpiece
    split at hpiece
    · exact h.described index piece hpiece
    · next hbehind =>
      obtain ⟨hindex, hlast⟩ := List.getElem?_eq_some_iff.mp hpiece
      rw [List.length_singleton] at hindex
      have hsame : index = a.index := by
        rw [h.index_eq]
        omega
      have hpiece : piece = ⟨info, a.received ++ fragment.data⟩ := by simpa using hlast.symm
      rw [hsame, hpiece, ← h.torrent_eq]
      exact ⟨hfits.described, hfull⟩
  data_eq := by
    rw [List.flatMap_append, List.flatMap_append, List.flatMap_singleton, List.flatMap_singleton,
      h.data_eq, List.append_assoc, List.append_nil]
  received_eq := by
    -- all fragments so far are of this piece or of one before it
    have hnone : (fragments ++ [fragment]).filter (fun other ↦ other.piece = a.index + 1) = [] := by
      rw [List.filter_eq_nil_iff]
      intro other hother
      have hle := h.piece_le_concat hfits other hother
      simp only [decide_eq_true_eq]
      omega
    rw [hnone]
    rfl
  piece_le := fun other hother ↦ Nat.le_succ_of_le (h.piece_le_concat hfits other hother)

/-- A fragment is refused, or it continues the current piece, or completes it. -/
theorem Composed.offer (h : Composed torrent fragments pieces a) (fragment : Fragment) :
    Composed torrent (fragments ++ if (a.offer fragment).1.isOk then [fragment] else [])
      (pieces ++ (a.offer fragment).1.toOption.join.toList) (a.offer fragment).2 := by
  have happended := appended a fragment
  rw [Assembly.offer]
  cases hresult : a.append fragment with
  | error violation => simpa [Except.isOk, Except.toBool, Except.toOption] using h
  | ok result =>
    rw [hresult] at happended
    cases happended with
    | continued fits _ =>
      simpa [Except.isOk, Except.toBool, Except.toOption] using h.extend fits
    | completed fits full => exact h.complete fits full

/-- After any fragments, the pieces that were completed and the bytes of the current one are what
the taken fragments came to. -/
theorem composed (torrent : Torrent) (fragments : List Fragment) :
    Composed torrent (taken fragments (results offer (start torrent) fragments))
      (completed (results offer (start torrent) fragments))
      (addAll offer (start torrent) fragments) := by
  induction fragments using List.reverseRecOn with
  | nil => exact composed_start torrent
  | append_singleton fragments fragment ih =>
    have hone : results offer (addAll offer (start torrent) fragments) [fragment] =
        [((addAll offer (start torrent) fragments).offer fragment).1] := rfl
    have hlast : addAll offer (start torrent) (fragments ++ [fragment]) =
        ((addAll offer (start torrent) fragments).offer fragment).2 := by
      rw [addAll, List.foldl_append]
      rfl
    rw [results_append, hone, taken_concat (length_results offer _ _), completed_concat, hlast]
    exact ih.offer fragment

end Assembly

/-! ### Pieces put together in place -/

/-- A piece that is put together in place. -/
structure PieceBuffer where
  /-- Which piece it is. -/
  info : PieceInfo
  /-- As many bytes as it has, of which those to come are zero. -/
  data : Bytes
  /-- How many bytes have come. -/
  cursor : Nat

/-- The pieces of a torrent as they are put together in place. -/
structure InPlace where
  /-- The torrent. -/
  torrent : Torrent
  /-- The index of the current piece. -/
  index : Nat
  /-- The current piece, if it was begun. -/
  current : Option PieceBuffer

/-- Copies a fragment to where the bytes so far end, and tells whether the piece is done. -/
def PieceBuffer.write (buffer : PieceBuffer) (fragment : Fragment) :
    Except Violation Bool × PieceBuffer :=
  let reached := fragment.offset + fragment.data.length
  if fragment.offset ≠ buffer.cursor then
    (.error (.offset buffer.info.index buffer.cursor fragment.offset), buffer)
  else if buffer.info.length < reached then
    (.error (.overrun buffer.info.index reached buffer.info.length), buffer)
  else
    (.ok (reached == buffer.info.length),
      { buffer with
        data := Bytes.writeAt fragment.offset fragment.data buffer.data
        cursor := reached })

namespace InPlace

open Assembly

/-- Nothing put together yet. -/
def start (torrent : Torrent) : InPlace := ⟨torrent, 0, none⟩

/-- An empty buffer for a piece. -/
def begin (p : InPlace) (index : Nat) : Except Violation PieceBuffer :=
  match p.torrent.piece? index with
  | none => .error (.pieceIndex p.torrent.pieceCount index)
  | some info => .ok ⟨info, List.replicate info.length 0, 0⟩

/-- Puts a buffer in its place and copies a fragment into it. If the piece is done it is taken out
again. -/
def insert (p : InPlace) (buffer : PieceBuffer) (fragment : Fragment) :
    Except Violation (Option Piece) × InPlace :=
  let written := buffer.write fragment
  let p := { p with current := some written.2 }
  match written.1 with
  | .error violation => (.error violation, p)
  | .ok false => (.ok none, p)
  | .ok true => (.ok (p.current.map fun buffer ↦ ⟨buffer.info, buffer.data⟩),
      { p with index := p.index + 1, current := none })

/-- Takes out the current piece, or begins it, and adds a fragment to it. -/
def append (p : InPlace) (fragment : Fragment) : Except Violation (Option Piece) × InPlace :=
  if fragment.piece ≠ p.index then (.error (.pieceIndex p.index fragment.piece), p)
  else
    match p.current with
    | some buffer => insert { p with current := none } buffer fragment
    | none =>
      match p.begin fragment.piece with
      | .error violation => (.error violation, { p with current := none })
      | .ok buffer => insert { p with current := none } buffer fragment

/-- Pieces put together in place are those of an assembly. -/
inductive Mirrors : Assembly → InPlace → Prop where
  /-- The current piece was not begun. -/
  | idle (torrent : Torrent) (index : Nat) : Mirrors ⟨torrent, index, []⟩ ⟨torrent, index, none⟩
  /-- The buffer of the current piece has the bytes so far at its front, and zeros behind them. -/
  | filling {a : Assembly} {info : PieceInfo} (described : a.torrent.piece? a.index = some info) :
      Mirrors a ⟨a.torrent, a.index, some ⟨info, a.buffer info, a.received.length⟩⟩

variable {a : Assembly} {p : InPlace} {info : PieceInfo} {fragment : Fragment}

/-- In the place of the current piece a fragment comes to the same. -/
theorem mirrors_insert (hinfo : a.torrent.piece? a.index = some info)
    (hpiece : fragment.piece = a.index) (current : Option PieceBuffer) :
    let inserted := insert ⟨a.torrent, a.index, current⟩
      ⟨info, a.buffer info, a.received.length⟩ fragment
    inserted.1 = (a.offer fragment).1 ∧ Mirrors (a.offer fragment).2 inserted.2 := by
  simp only [offer, append_eq_extend hinfo hpiece, extend, insert, PieceBuffer.write]
  -- both make the same checks in the same order, and the cursor is where the bytes so far end
  by_cases hoffset : fragment.offset = a.received.length
  · have hlength : (a.received ++ fragment.data).length =
        fragment.offset + fragment.data.length := by rw [List.length_append, hoffset]
    rw [if_neg (not_not_intro hoffset), if_neg (not_not_intro hoffset), hlength]
    by_cases hover : info.length < fragment.offset + fragment.data.length
    · rw [if_pos hover, if_pos hover]
      exact ⟨rfl, .filling hinfo⟩
    · rw [if_neg hover, if_neg hover, writeAt_buffer hoffset (Nat.le_of_not_lt hover)]
      by_cases hdone : fragment.offset + fragment.data.length = info.length
      · rw [if_pos hdone, beq_iff_eq.mpr hdone, buffer_of_full (hlength.trans hdone)]
        exact ⟨rfl, .idle a.torrent (a.index + 1)⟩
      · rw [if_neg hdone, beq_false_of_ne hdone, ← hlength]
        exact ⟨rfl, .filling hinfo⟩
  · rw [if_pos hoffset, if_pos hoffset]
    exact ⟨rfl, .filling hinfo⟩

/-- Both are at the same piece. -/
theorem Mirrors.index_eq (h : Mirrors a p) : p.index = a.index := by
  cases h with
  | idle _ _ => rfl
  | filling _ => rfl

/-- A fragment comes to the same in place. -/
theorem Mirrors.append (h : Mirrors a p) (fragment : Fragment) :
    (p.append fragment).1 = (a.offer fragment).1 ∧
      Mirrors (a.offer fragment).2 (p.append fragment).2 := by
  have hsame := h.index_eq
  by_cases hpiece : fragment.piece = a.index
  · rw [InPlace.append, if_neg (not_not_intro (hpiece.trans hsame.symm))]
    cases h with
    | idle torrent index =>
      have hindex : fragment.piece = index := hpiece
      simp only [begin, hindex]
      cases hinfo : torrent.piece? index with
      | none =>
        have happend : Assembly.append ⟨torrent, index, []⟩ fragment =
            .error (.pieceIndex torrent.pieceCount index) := by
          rw [Assembly.append, if_neg (not_not_intro hpiece)]
          simp only [hinfo, hindex]
        rw [offer, happend]
        exact ⟨rfl, .idle torrent index⟩
      | some info => exact mirrors_insert (a := ⟨torrent, index, []⟩) hinfo hpiece none
    | filling described => exact mirrors_insert described hpiece none
  · have hother : fragment.piece ≠ p.index := hsame ▸ hpiece
    rw [InPlace.append, if_pos hother, offer, Assembly.append, if_pos hpiece, hsame]
    exact ⟨rfl, h⟩

/-- Fragments come to the same in place. -/
theorem results_eq_offer (torrent : Torrent) (fragments : List Fragment) :
    results append (start torrent) fragments =
      results offer (Assembly.start torrent) fragments := by
  have hstep (p : InPlace) (a : Assembly) (fragment : Fragment) (h : Mirrors a p) :
      (p.append fragment).1 = (a.offer fragment).1 ∧
        Mirrors (a.offer fragment).2 (p.append fragment).2 := h.append fragment
  exact results_congr hstep (.idle torrent 0) fragments

end InPlace

namespace Assembly

/-- After any fragments, a further one is taken exactly when it is of the piece behind those that
were completed, there is such a piece, and the fragment starts where the bytes that were taken for
it end, and does not run past its end. The completed pieces are those of the torrent in order, each
with its description and its length, and the bytes of the fragments that were taken are those of the
completed pieces and of the current one. Without a fragment that is refused all others fare the
same; and so do all of them if the pieces are put together in place. -/
theorem results_of_fragments (torrent : Torrent) (fragments : List Fragment) :
    let outcomes := results offer (start torrent) fragments
    let accepted := taken fragments outcomes
    let pieces := completed outcomes
    let soFar := (accepted.filter fun fragment ↦ fragment.piece = pieces.length).flatMap
      Fragment.data
    (∀ next, (∃ piece?, results offer (start torrent) (fragments ++ [next]) =
        outcomes ++ [.ok piece?]) ↔
      next.piece = pieces.length ∧ pieces.length < torrent.pieceCount ∧
        next.offset = soFar.length ∧
        soFar.length + next.data.length ≤ torrent.pieceSize pieces.length) ∧
      (∀ index piece, pieces[index]? = some piece →
        torrent.piece? index = some piece.info ∧ piece.info.index = index ∧
          piece.data.length = torrent.pieceSize index) ∧
      accepted.flatMap Fragment.data = pieces.flatMap Piece.data ++ soFar ∧
      (∀ index violation, outcomes[index]? = some (.error violation) →
        results offer (start torrent) (fragments.eraseIdx index) = outcomes.eraseIdx index) ∧
      results InPlace.append (InPlace.start torrent) fragments = outcomes := by
  intro outcomes accepted pieces soFar
  have hcomposed : Composed torrent accepted pieces (addAll offer (start torrent) fragments) :=
    composed torrent fragments
  have hindex := hcomposed.index_eq
  have hreceived : soFar = (addAll offer (start torrent) fragments).received := by
    rw [← hcomposed.received_eq, hindex]
  refine ⟨?_, ?_, ?_, ?_, InPlace.results_eq_offer torrent fragments⟩
  · intro next
    have hlast : results offer (start torrent) (fragments ++ [next]) =
        outcomes ++ [((addAll offer (start torrent) fragments).offer next).1] :=
      results_append offer (start torrent) fragments [next]
    rw [hlast]
    simp only [List.append_cancel_left_eq, List.cons.injEq, and_true]
    rw [offer_eq_ok_iff, append_eq_ok_iff, hcomposed.torrent_eq, hindex, ← hreceived]
    refine and_congr_right fun _ ↦ ?_
    constructor
    · rintro ⟨info, hinfo, hoffset, hfits⟩
      obtain ⟨hlt, -, hlength⟩ := Torrent.of_piece?_eq_some hinfo
      exact ⟨hlt, hoffset, hlength ▸ hfits⟩
    · rintro ⟨hlt, hoffset, hfits⟩
      obtain ⟨digest, -, hinfo⟩ := Torrent.piece?_of_lt hlt
      exact ⟨_, hinfo, hoffset, hfits⟩
  · intro index piece hpiece
    obtain ⟨hinfo, hlength⟩ := hcomposed.described index piece hpiece
    obtain ⟨-, hsame, hsize⟩ := Torrent.of_piece?_eq_some hinfo
    exact ⟨hinfo, hsame, hlength.trans hsize⟩
  · rw [hcomposed.data_eq, hreceived]
  · intro index violation herror
    exact results_eraseIdx (fun _ _ _ ↦ offer_of_error) herror

/-- The three bytes, with the second one too early, the first one twice, and no byte at all for the
second piece and behind it. -/
def strayFragments : List Fragment :=
  [⟨0, 1, [8]⟩, ⟨0, 0, [7]⟩, ⟨0, 0, [7]⟩, ⟨0, 1, [8]⟩, ⟨1, 0, []⟩, ⟨1, 0, [9]⟩, ⟨2, 0, []⟩]

/-- The three bytes are put together from these fragments, and the others fare the same without the
one that comes again. -/
theorem results_of_fragments_threeBytes :
    (completed (results offer (start Job.threeBytes.torrent) strayFragments)).map Piece.data =
        [[7, 8], [9]] ∧
      results offer (start Job.threeBytes.torrent) (strayFragments.eraseIdx 2) =
        (results offer (start Job.threeBytes.torrent) strayFragments).eraseIdx 2 ∧
      results InPlace.append (InPlace.start Job.threeBytes.torrent) strayFragments =
        results offer (start Job.threeBytes.torrent) strayFragments := by
  obtain ⟨-, -, -, hrefused, hplace⟩ :=
    results_of_fragments Job.threeBytes.torrent strayFragments
  exact ⟨by rfl, hrefused 2 (.offset 0 1 0) rfl, hplace⟩

end Assembly

end PeerWire
