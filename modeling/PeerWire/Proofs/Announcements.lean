import Mathlib.Data.List.Induction
import PeerWire.Proofs.Bounds

/-!
# What a peer has announced

A peer announces its pieces one by one, or by a bitfield before anything else. What is known of its
pieces can be told from what has happened alone: which announcements were made, and whether a
bitfield of the right size came before all others. Main statement: after any history the pieces
that are known are exactly those that were announced in it, those that are missing can be counted,
and a message that is rejected leaves everything as it was.
-/

namespace PeerWire

namespace Peer

/-- What may happen to what is known about a peer. -/
inductive Event where
  /-- The transport is set up. -/
  | connect
  /-- Handshakes are exchanged. -/
  | greet
  /-- A message is taken in. -/
  | takeIn (message : Message)
  /-- This side declares interest, and the peer has until a moment to give leave. -/
  | declareInterest (moment : Nat)
  /-- This side withdraws its interest. -/
  | withdrawInterest
  /-- The peer ends the stream. -/
  | close
  /-- Something goes wrong. -/
  | fail
deriving DecidableEq, Repr

/-- What is known after an event. -/
def perform (peer : Peer) : Event → Peer
  | .connect => peer.connect
  | .greet => peer.greet
  | .takeIn message => (peer.learn message).2
  | .declareInterest moment => peer.declareInterest moment
  | .withdrawInterest => peer.withdrawInterest
  | .close => peer.close
  | .fail => peer.fail

/-- What is known about a peer of so many pieces after a history. -/
def after (pieceCount : Nat) (history : List Event) : Peer :=
  history.foldl perform (unknown pieceCount)

namespace Event

variable {n : Nat} {history : List Event} {event : Event}

/-- Whether the event describes a peer of which nothing was announced: it announces one of so many
pieces, or it is a bitfield of the right size. -/
def describes (n : Nat) : Event → Bool
  | takeIn (.announce piece) => piece < n
  | takeIn (.bitfield field) => Tiling.count n 8 = Tiling.count field.size 8
  | _ => false

/-- The bitfield that counts: the one that describes the peer before anything else does. -/
def bitfield? (n : Nat) (history : List Event) : Option Bitfield :=
  match history.find? (describes n) with
  | some (takeIn (.bitfield field)) => some field
  | _ => none

/-- The peer has announced one of so many pieces, by itself or in the bitfield that counts. -/
def Announced (n : Nat) (history : List Event) (piece : Nat) : Prop :=
  piece < n ∧ (takeIn (.announce piece) ∈ history ∨
    ∃ field ∈ bitfield? n history, piece ∈ field.members)

instance (n : Nat) (history : List Event) (piece : Nat) :
    Decidable (Announced n history piece) :=
  inferInstanceAs (Decidable (_ ∧ (_ ∨ _)))

/-- How many pieces the peer has announced. -/
def count (n : Nat) (history : List Event) : Nat :=
  ((List.range n).filter (Announced n history ·)).length

/-- The bitfield that counts has the right size, and nothing before it describes the peer. -/
theorem bitfield?_eq_some_iff {field : Bitfield} :
    bitfield? n history = some field ↔ Tiling.count n 8 = Tiling.count field.size 8 ∧
      ∃ front behind, history = front ++ takeIn (.bitfield field) :: behind ∧
        ∀ event ∈ front, ¬event.describes n = true := by
  have hfind : bitfield? n history = some field ↔
      history.find? (describes n) = some (takeIn (.bitfield field)) := by
    rw [bitfield?]
    split
    · next found heq => simp [heq]
    · next hne => simpa using fun heq ↦ hne field heq
  rw [hfind, List.find?_eq_some_iff_append]
  simp [describes]

/-- A peer is described by an announcement of a piece, or by the bitfield that counts. -/
theorem exists_describes_iff : (∃ event ∈ history, event.describes n = true) ↔
    (∃ piece < n, takeIn (.announce piece) ∈ history) ∨
      ∃ field, bitfield? n history = some field := by
  constructor
  · intro h
    obtain ⟨event, hfind⟩ := Option.isSome_iff_exists.mp (List.find?_isSome.mpr h)
    have hmem := List.mem_of_find?_eq_some hfind
    have hevent := List.find?_some hfind
    cases event with
    | takeIn message =>
      cases message with
      | announce piece => exact .inl ⟨piece, by simpa [describes] using hevent, hmem⟩
      | bitfield field => exact .inr ⟨field, by rw [bitfield?, hfind]⟩
      | _ => cases hevent
    | _ => cases hevent
  · rintro (⟨piece, hlt, hmem⟩ | ⟨field, hfield⟩)
    · exact ⟨_, hmem, by simpa [describes] using hlt⟩
    · obtain ⟨hsize, front, behind, rfl, -⟩ := bitfield?_eq_some_iff.mp hfield
      exact ⟨takeIn (.bitfield field), by simp, by simpa [describes] using hsize⟩

/-! ### One more event -/

/-- Once the peer is described it stays described by the same event. -/
theorem bitfield?_append (h : ∃ event ∈ history, event.describes n = true) (more : List Event) :
    bitfield? n (history ++ more) = bitfield? n history := by
  have hsome : (history.find? (describes n)).isSome := List.find?_isSome.mpr h
  rw [bitfield?, bitfield?, List.find?_append, Option.or_of_isSome hsome]

/-- A bitfield that describes the peer is the one that counts. -/
theorem bitfield?_append_bitfield {field : Bitfield}
    (h : ∀ event ∈ history, ¬event.describes n = true)
    (hfield : describes n (takeIn (.bitfield field)) = true) :
    bitfield? n (history ++ [takeIn (.bitfield field)]) = some field := by
  rw [bitfield?, List.find?_append, List.find?_eq_none.mpr h, Option.none_or,
    List.find?_cons_of_pos hfield]

/-- Nothing else makes a bitfield count. -/
theorem bitfield?_append_of_ne (h : ∀ field, event = takeIn (.bitfield field) →
      ¬describes n event = true) :
    bitfield? n (history ++ [event]) = bitfield? n history := by
  by_cases hbefore : ∃ event ∈ history, event.describes n = true
  · exact bitfield?_append hbefore [event]
  · have hnone : ∀ event ∈ history, ¬event.describes n = true := fun event hmem hevent ↦
      hbefore ⟨event, hmem, hevent⟩
    rw [bitfield?, bitfield?, List.find?_append, List.find?_eq_none.mpr hnone, Option.none_or]
    by_cases hevent : event.describes n = true
    · rw [List.find?_cons_of_pos hevent]
      split
      · next field heq =>
        cases heq
        exact absurd hevent (h field rfl)
      · rfl
    · rw [List.find?_cons_of_neg hevent]
      rfl

/-- Without a description no piece was announced. -/
theorem not_announced (h : ∀ event ∈ history, ¬event.describes n = true) (piece : Nat) :
    ¬Announced n history piece := by
  rintro ⟨hlt, hmem | ⟨field, hfield, -⟩⟩
  · exact h _ hmem (by simpa [describes] using hlt)
  · rw [bitfield?, List.find?_eq_none.mpr h] at hfield
    cases hfield

/-- What was announced stays announced. -/
theorem Announced.append {piece : Nat} (h : Announced n history piece) (more : List Event) :
    Announced n (history ++ more) piece := by
  refine ⟨h.1, ?_⟩
  by_cases hsome : ∃ event ∈ history, event.describes n = true
  · rw [bitfield?_append hsome]
    exact h.2.imp (List.mem_append_left more) id
  · exact absurd h (not_announced (fun event hmem hevent ↦ hsome ⟨event, hmem, hevent⟩) piece)

/-- An event that does not describe the peer announces nothing. -/
theorem announced_append_of_not_describes (h : ¬event.describes n = true) (piece : Nat) :
    Announced n (history ++ [event]) piece ↔ Announced n history piece := by
  have hevent : piece < n → takeIn (.announce piece) ≠ event := by
    rintro hlt rfl
    exact h (by simpa [describes] using hlt)
  rw [Announced, Announced, bitfield?_append_of_ne fun _ _ ↦ h]
  refine and_congr_right fun hlt ↦ or_congr_left ?_
  simp [hevent hlt]

/-- An announcement of a piece announces that piece. -/
theorem announced_append_announce {piece : Nat} (h : piece < n) (other : Nat) :
    Announced n (history ++ [takeIn (.announce piece)]) other ↔
      Announced n history other ∨ other = piece := by
  rw [Announced, Announced, bitfield?_append_of_ne fun _ heq ↦ by cases heq]
  constructor
  · rintro ⟨hlt, hmem | hfield⟩
    · rcases List.mem_append.mp hmem with hmem | hmem
      · exact .inl ⟨hlt, .inl hmem⟩
      · right
        cases List.mem_singleton.mp hmem
        rfl
    · exact .inl ⟨hlt, .inr hfield⟩
  · rintro (⟨hlt, hmem | hfield⟩ | rfl)
    · exact ⟨hlt, .inl (List.mem_append_left _ hmem)⟩
    · exact ⟨hlt, .inr hfield⟩
    · exact ⟨h, .inl (List.mem_append_right _ (List.mem_singleton_self _))⟩

/-- The first description by a bitfield announces the members of the bitfield. -/
theorem announced_append_bitfield {field : Bitfield}
    (h : ∀ event ∈ history, ¬event.describes n = true)
    (hfield : describes n (takeIn (.bitfield field)) = true) (piece : Nat) :
    Announced n (history ++ [takeIn (.bitfield field)]) piece ↔
      piece < n ∧ piece ∈ field.members := by
  rw [Announced, bitfield?_append_bitfield h hfield]
  refine and_congr_right fun hlt ↦ ?_
  constructor
  · rintro (hmem | ⟨_, ⟨⟩, hmem⟩)
    · rcases List.mem_append.mp hmem with hmem | hmem
      · exact absurd (by simpa [describes] using hlt) (h _ hmem)
      · cases List.mem_singleton.mp hmem
    · exact hmem
  · intro hmem
    exact .inr ⟨field, rfl, hmem⟩

end Event

/-! ### What is known -/

variable {peer : Peer} {n : Nat} {history : List Event}

/-- What is known about a peer is what was announced in a history. -/
structure Tracks (n : Nat) (history : List Event) (peer : Peer) : Prop where
  /-- The number of pieces is the torrent's. -/
  pieceCount : peer.pieceCount = n
  /-- The pieces that are known are distinct pieces of the torrent. -/
  sound : peer.Sound
  /-- The peer is described if something has described it. -/
  described : peer.described = true ↔ ∃ event ∈ history, event.describes n = true
  /-- The pieces that are known are those that were announced. -/
  pieces : ∀ piece, piece ∈ peer.pieces ↔ Event.Announced n history piece

/-- An announcement is rejected if there is no such piece, and a bitfield if it has the wrong size
and would describe the peer. -/
theorem apply_eq_error_iff {message : Message} :
    (∃ error, peer.apply message = .error error) ↔
      (∃ piece, message = .announce piece ∧ peer.pieceCount ≤ piece) ∨
        ∃ field, message = .bitfield field ∧ peer.described = false ∧
          Tiling.count peer.pieceCount 8 ≠ Tiling.count field.size 8 := by
  cases message with
  | announce piece =>
    by_cases hrange : peer.pieceCount ≤ piece
    · simp [apply_announce, hrange]
    · simp [apply_announce, hrange]
  | bitfield field =>
    cases hdescribed : peer.described
    · by_cases hsize : Tiling.count peer.pieceCount 8 = Tiling.count field.size 8
      · simp [apply_bitfield, hdescribed, hsize]
      · simp [apply_bitfield, hdescribed, hsize]
    · simp [apply_bitfield, hdescribed]
  | _ => simp [apply, learn, Except.map]

/-- An event that does not describe the peer leaves its pieces as they are. -/
theorem perform_of_not_describes {event : Event} (h : ¬event.describes peer.pieceCount = true) :
    (peer.perform event).pieceCount = peer.pieceCount ∧
      (peer.perform event).described = peer.described ∧
      (peer.perform event).pieces = peer.pieces := by
  cases event with
  | close =>
    simp only [perform, close]
    split <;> exact ⟨rfl, rfl, rfl⟩
  | takeIn message =>
    cases message with
    | announce piece =>
      have hrange : peer.pieceCount ≤ piece := by simpa [Event.describes] using h
      simp [perform, learn, announce, hrange]
    | bitfield field =>
      have hsize : Tiling.count peer.pieceCount 8 ≠ Tiling.count field.size 8 := by
        simpa [Event.describes] using h
      cases hdescribed : peer.described <;>
        simp [perform, learn, describe, hdescribed, hsize]
    | _ => exact ⟨rfl, rfl, rfl⟩
  | _ => exact ⟨rfl, rfl, rfl⟩

/-- An announcement of a piece describes the peer and adds that piece. -/
theorem perform_announce {piece : Nat} (h : piece < peer.pieceCount) :
    (peer.perform (.takeIn (.announce piece))).pieceCount = peer.pieceCount ∧
      (peer.perform (.takeIn (.announce piece))).described = true ∧
      ∀ other, other ∈ (peer.perform (.takeIn (.announce piece))).pieces ↔
        other ∈ peer.pieces ∨ other = piece := by
  have hrange : ¬peer.pieceCount ≤ piece := Nat.not_le_of_lt h
  simp only [perform, learn, announce, if_neg hrange, true_and]
  intro other
  by_cases hhas : peer.hasPiece piece = true
  · have hmem : piece ∈ peer.pieces := List.contains_iff_mem.mp hhas
    simp only [hhas, if_true]
    constructor
    · exact .inl
    · rintro (hother | rfl)
      · exact hother
      · exact hmem
  · rw [Bool.not_eq_true] at hhas
    simp only [hhas, Bool.false_eq_true, if_false, List.mem_append, List.mem_singleton]

/-- A bitfield of the right size describes a peer that was not described, by its members. -/
theorem perform_bitfield {field : Bitfield} (hdescribed : peer.described = false)
    (h : Tiling.count peer.pieceCount 8 = Tiling.count field.size 8) :
    (peer.perform (.takeIn (.bitfield field))).pieceCount = peer.pieceCount ∧
      (peer.perform (.takeIn (.bitfield field))).described = true ∧
      ∀ piece, piece ∈ (peer.perform (.takeIn (.bitfield field))).pieces ↔
        piece < peer.pieceCount ∧ piece ∈ field.members := by
  simp [perform, learn, describe, hdescribed, h, and_comm]

/-- A bitfield is ignored by a peer that was described. -/
theorem perform_bitfield_of_described (h : peer.described = true) (field : Bitfield) :
    peer.perform (.takeIn (.bitfield field)) = peer := by
  simp [perform, learn, describe, h]

/-- What is known stays sound. -/
theorem Sound.perform (h : peer.Sound) (event : Event) : (peer.perform event).Sound := by
  cases event with
  | takeIn message => exact h.learn message
  | close => exact h.endWith .connectionClosed
  | _ => exact ⟨h.nodup, h.lt_pieceCount⟩

/-- One more event keeps what is known in step with the history. -/
theorem Tracks.perform (h : peer.Tracks n history) (event : Event) :
    (peer.perform event).Tracks n (history ++ [event]) := by
  have hsound := h.sound.perform event
  have hcount := h.pieceCount
  have hexists : (∃ other ∈ history ++ [event], other.describes n = true) ↔
      (∃ other ∈ history, other.describes n = true) ∨ event.describes n = true := by
    simp only [List.mem_append, List.mem_singleton, or_and_right, exists_or, exists_eq_left]
  by_cases hevent : event.describes n = true
  · have hdescribed := hexists.mpr (.inr hevent)
    cases event with
    | takeIn message =>
      cases message with
      | announce piece =>
        have hlt : piece < n := by simpa [Event.describes] using hevent
        have hrange : piece < peer.pieceCount := hcount ▸ hlt
        obtain ⟨hafter, hafterDescribed, hpieces⟩ := perform_announce hrange
        refine ⟨hafter.trans hcount, hsound, iff_of_true hafterDescribed hdescribed, fun other ↦ ?_⟩
        rw [hpieces, h.pieces, Event.announced_append_announce hlt]
      | bitfield field =>
        have hsize : Tiling.count n 8 = Tiling.count field.size 8 := by
          simpa [Event.describes] using hevent
        by_cases hbefore : peer.described = true
        · -- a second description by a bitfield is ignored
          have hsome := h.described.mp hbefore
          rw [perform_bitfield_of_described hbefore]
          refine ⟨hcount, h.sound, iff_of_true hbefore hdescribed, fun piece ↦ ?_⟩
          rw [h.pieces, Event.Announced, Event.Announced, Event.bitfield?_append hsome]
          simp
        · have hnone : ∀ other ∈ history, ¬other.describes n = true := fun other hmem hother ↦
            hbefore (h.described.mpr ⟨other, hmem, hother⟩)
          rw [Bool.not_eq_true] at hbefore
          obtain ⟨hafter, hafterDescribed, hpieces⟩ :=
            perform_bitfield hbefore (hcount.symm ▸ hsize)
          refine ⟨hafter.trans hcount, hsound, iff_of_true hafterDescribed hdescribed,
            fun piece ↦ ?_⟩
          rw [hpieces, hcount, Event.announced_append_bitfield hnone hevent]
      | _ => cases hevent
    | _ => cases hevent
  · have hother : ¬event.describes peer.pieceCount = true := hcount.symm ▸ hevent
    obtain ⟨hafter, hafterDescribed, hpieces⟩ := perform_of_not_describes hother
    refine ⟨hafter.trans hcount, hsound, ?_, fun piece ↦ ?_⟩
    · rw [hafterDescribed, h.described, hexists, or_iff_left hevent]
    · rw [hpieces, h.pieces, Event.announced_append_of_not_describes hevent]

/-- After any history what is known is what was announced in it. -/
theorem tracks_after (n : Nat) (history : List Event) : (after n history).Tracks n history := by
  induction history using List.reverseRecOn with
  | nil =>
    refine ⟨rfl, sound_of_eq_nil rfl, by simp [after, unknown], fun piece ↦ ?_⟩
    simp [after, unknown, Event.Announced, Event.bitfield?]
  | append_singleton history event ih =>
    rw [after, List.foldl_append]
    exact ih.perform event

/-- The pieces that are missing are those that were not announced. -/
theorem Tracks.missing_eq (h : peer.Tracks n history) :
    peer.missing = n - Event.count n history := by
  have hperm : peer.pieces.Perm ((List.range n).filter (Event.Announced n history ·)) := by
    refine (List.perm_ext_iff_of_nodup h.sound.nodup (List.nodup_range.filter _)).mpr fun piece ↦ ?_
    rw [h.pieces, List.mem_filter, List.mem_range, decide_eq_true_iff]
    exact ⟨fun hpiece ↦ ⟨hpiece.1, hpiece⟩, And.right⟩
  rw [missing, h.pieceCount, hperm.length_eq, Event.count]

/-- No more pieces are announced than there are. -/
theorem Event.count_le (n : Nat) (history : List Event) : Event.count n history ≤ n := by
  have hle := List.length_filter_le (fun piece ↦ decide (Event.Announced n history piece))
    (List.range n)
  rwa [List.length_range] at hle

/-- All pieces are announced when they are as many as there are. -/
theorem Event.count_eq_iff :
    Event.count n history = n ↔ ∀ piece < n, Event.Announced n history piece := by
  have hall := List.length_filter_eq_length_iff (l := List.range n)
    (p := fun piece ↦ decide (Event.Announced n history piece))
  rw [List.length_range] at hall
  rw [Event.count, hall]
  simp only [List.mem_range, decide_eq_true_iff]

/-- More events announce more pieces. -/
theorem Event.count_le_append (n : Nat) (history more : List Event) :
    Event.count n history ≤ Event.count n (history ++ more) := by
  rw [Event.count, Event.count, ← List.countP_eq_length_filter, ← List.countP_eq_length_filter]
  refine List.countP_mono_left fun piece _ hpiece ↦ ?_
  rw [decide_eq_true_iff] at hpiece ⊢
  exact hpiece.append more

/-- After any history a peer is described exactly when it has announced a piece of the torrent, or a
bitfield of the right size before that; it has exactly the pieces that were announced one by one or
in the bitfield that counts, and those that are missing are the others. They can always be counted,
and they never become more. The check for completeness passes exactly when every piece was
announced. What is rejected is an announcement past the last piece, and a bitfield of the wrong size
that would describe the peer; this changes nothing. -/
theorem after_announced (n : Nat) (history : List Event) :
    let peer := after n history
    (peer.described = true ↔ (∃ piece < n, .takeIn (.announce piece) ∈ history) ∨
        ∃ field, Event.bitfield? n history = some field) ∧
      (∀ piece, peer.hasPiece piece = true ↔ Event.Announced n history piece) ∧
      peer.checkedMissing = some (n - Event.count n history) ∧
      peer.missing + Event.count n history = n ∧
      (∀ more, (after n (history ++ more)).missing ≤ peer.missing) ∧
      (peer.ensureComplete = .ok () ↔ ∀ piece < n, Event.Announced n history piece) ∧
      ∀ message, ((∃ error, peer.apply message = .error error) ↔
          (∃ piece, message = .announce piece ∧ n ≤ piece) ∨
            ∃ field, message = .bitfield field ∧ (∀ event ∈ history, ¬event.describes n = true) ∧
              Tiling.count n 8 ≠ Tiling.count field.size 8) ∧
        ((∃ error, peer.apply message = .error error) → peer.perform (.takeIn message) = peer) := by
  intro peer
  have htracks : peer.Tracks n history := tracks_after n history
  have hmissing := htracks.missing_eq
  have hle := Event.count_le n history
  refine ⟨?_, ?_, ?_, by omega, ?_, ?_, ?_⟩
  · rw [htracks.described, Event.exists_describes_iff]
  · intro piece
    rw [hasPiece, List.contains_iff_mem, htracks.pieces]
  · rw [htracks.sound.checkedMissing_eq, hmissing]
  · intro more
    have hmore := (tracks_after n (history ++ more)).missing_eq
    have hcount := Event.count_le_append n history more
    omega
  · rw [ensureComplete_eq_ok_iff, hmissing, ← Event.count_eq_iff]
    omega
  · intro message
    constructor
    · rw [apply_eq_error_iff, htracks.pieceCount, ← Bool.not_eq_true, htracks.described]
      simp only [not_exists, not_and]
    · rintro ⟨error, herror⟩
      rw [perform, learn_eq, herror]

/-- A bitfield leaves out a piece that is announced later, has spare bits, and is not replaced by a
bitfield that lacks everything. -/
example :
    let history : List Event := [.takeIn (.announce 3),
      .takeIn (.bitfield (Bitfield.ofBytes [223])), .declareInterest 5,
      .takeIn (.bitfield (Bitfield.ofBytes [0])), .takeIn (.announce 2), .fail]
    (after 3 history).pieces = [0, 1, 2] ∧ (after 3 history).missing = 0 := by decide +kernel

end Peer

/-- A connection keeps what is known about its peer in step with the messages it takes in. -/
theorem Connection.peer_takeIn {σ : Type} (message : Message) (c : Connection σ) :
    (c.takeIn message).2.peer = c.peer.perform (.takeIn message) := by
  rw [Connection.takeIn, Peer.perform]

end PeerWire
