import PeerWire.Wire.Decoder

/-!
# Streams of whole frames

A stream may be a sequence of whole frames: messages, signs of life, and frames of unknown kinds.
However such a stream is cut, a decoder that has taken in a front of it has only to drop bytes of
an unknown frame, or holds the beginning of what is left of the stream. Main statement: what a
decoder finds next is the next message of the frames, or there is none until more has arrived.
-/

namespace PeerWire

namespace Bytes

/-- Two strings that begin with the same bytes: the one is at the end of a first part of the other,
or before it. -/
theorem reached_or_short {buffer ahead first rest : Bytes} (h : buffer ++ ahead = first ++ rest) :
    (∃ behind, buffer = first ++ behind ∧ behind ++ ahead = rest) ∨
      buffer.length < first.length ∧ ahead ≠ [] := by
  rcases List.append_eq_append_iff.mp h with ⟨missing, hfirst, hahead⟩ | ⟨behind, hbuffer, hrest⟩
  · by_cases hmissing : missing = []
    · subst hmissing
      rw [List.append_nil] at hfirst
      exact .inl ⟨[], by rw [hfirst, List.append_nil], hahead⟩
    · right
      have hpos := List.length_pos_iff.mpr hmissing
      constructor
      · rw [hfirst, List.length_append]
        omega
      · intro hnil
        simp [hnil, hmissing] at hahead
  · exact .inl ⟨behind, hbuffer, hrest.symm⟩

end Bytes

/-- What one frame of a stream carries. -/
inductive Parcel where
  /-- A message. -/
  | message (message : Message)
  /-- Nothing, to keep the connection open. -/
  | keepAlive
  /-- Something of a kind without a meaning. -/
  | unknown (id : UInt8) (payload : Bytes)
deriving DecidableEq, Repr

namespace Parcel

/-- The frame of a parcel. -/
def frame : Parcel → Frame
  | .message said => said.frame
  | keepAlive => .empty
  | unknown id payload => .body id payload

/-- A parcel as bytes. -/
def bytes (parcel : Parcel) : Bytes := parcel.frame.bytes

/-- A parcel is one frame that a decoder with this limit allows: its length fits into four bytes, a
message delivers no empty block and keeps to the limit, and the kind of anything else has no
meaning. -/
def Fits (limit : Nat) (parcel : Parcel) : Prop :=
  parcel.frame.length < Bytes.wordBound ∧
    match parcel with
    | .message said => said.frame.length ≤ limit ∧ said.Delivers
    | keepAlive => True
    | unknown id _ => Frame.lastKnown < id

instance (limit : Nat) (parcel : Parcel) : Decidable (parcel.Fits limit) :=
  match parcel with
  | .message _ => inferInstanceAs (Decidable (_ ∧ _ ∧ _))
  | .keepAlive | .unknown _ _ => inferInstanceAs (Decidable (_ ∧ _))

/-- What a decoder makes of a parcel. -/
def arrival? : Parcel → Option Message
  | .message said => some said.onWire
  | keepAlive => some .keepAlive
  | unknown _ _ => none

end Parcel

namespace Decoder

/-- A decoder and the bytes ahead of it make up whole parcels, but for bytes that are still to be
dropped. -/
structure Holds (d : Decoder) (ahead : Bytes) (parcels : List Parcel) : Prop where
  /-- The decoder allows the parcels. -/
  fits : ∀ parcel ∈ parcels, parcel.Fits d.limit
  /-- The bytes are those of the parcels. -/
  whole : ∃ dropped : Bytes, dropped.length = d.skip ∧
    d.buffer ++ ahead = dropped ++ parcels.flatMap Parcel.bytes

variable {d : Decoder} {ahead rest : Bytes} {parcels : List Parcel}

/-- A new decoder holds the parcels that are ahead of it. -/
theorem holds_start {limit : Nat} (h : ∀ parcel ∈ parcels, parcel.Fits limit) :
    (start limit).Holds (parcels.flatMap Parcel.bytes) parcels :=
  ⟨h, [], rfl, rfl⟩

/-- Bytes that arrive are no longer ahead. -/
theorem Holds.feed {bytes : Bytes} (h : d.Holds (bytes ++ ahead) parcels) :
    (d.feed bytes).Holds ahead parcels := by
  obtain ⟨dropped, hlength, hwhole⟩ := h.whole
  refine ⟨h.fits, dropped, hlength, ?_⟩
  rw [buffer_feed, List.append_assoc]
  exact hwhole

/-- Dropping what has arrived leaves the parcels. -/
theorem Holds.discard (h : d.Holds ahead parcels) : d.discard.Holds ahead parcels := by
  obtain ⟨dropped, hlength, hwhole⟩ := h.whole
  refine ⟨h.fits, dropped.drop d.buffer.length, ?_, ?_⟩
  · rw [List.length_drop, hlength]
    rfl
  · show d.buffer.drop d.skip ++ ahead = _
    rcases List.append_eq_append_iff.mp hwhole with
      ⟨missing, hdropped, hahead⟩ | ⟨behind, hbuffer, hrest⟩
    · have hle : d.buffer.length ≤ d.skip := by
        rw [← hlength, hdropped, List.length_append]
        omega
      rw [List.drop_eq_nil_of_le hle, hdropped, List.drop_left, hahead]
      rfl
    · have hle : dropped.length ≤ d.buffer.length := by
        rw [hbuffer, List.length_append]
        omega
      rw [List.drop_eq_nil_of_le hle, ← hlength, hbuffer, List.drop_left, hrest]
      rfl

/-! ### The front of the buffer -/

/-- Less than a length number tells nothing. -/
theorem front_of_short (h : d.buffer.length < 4) : d.front = .incomplete := by
  unfold front
  split
  · next hbuffer =>
    rw [hbuffer] at h
    simp only [List.length_cons] at h
    omega
  · rfl

/-- A length number tells how long the frame is. -/
theorem front_of_word {n : Nat} {behind : Bytes} (h : d.buffer = Bytes.ofWord n ++ behind)
    (hn : n < Bytes.wordBound) : d.front = d.frameFront n behind := by
  unfold front
  rw [h]
  show d.frameFront (Bytes.word _ _ _ _) behind = _
  rw [Bytes.word_ofWord, Nat.mod_eq_of_lt hn]

/-- The beginning of an empty frame is too little, or all of it. -/
theorem front_of_empty (h : d.buffer ++ ahead = Frame.bytes .empty ++ rest) :
    (∃ behind, d.front = .message .keepAlive { d with buffer := behind } ∧ behind ++ ahead = rest) ∨
      d.front = .incomplete ∧ ahead ≠ [] := by
  rcases Bytes.reached_or_short h with ⟨behind, hbuffer, hbehind⟩ | ⟨hshort, hahead⟩
  · exact .inl ⟨behind, front_of_word hbuffer (by decide), hbehind⟩
  · exact .inr ⟨front_of_short hshort, hahead⟩

/-- The beginning of any other frame is too little, or it reaches behind the kind. -/
theorem front_of_body {id : UInt8} {payload : Bytes}
    (hlength : 1 + payload.length < Bytes.wordBound)
    (h : d.buffer ++ ahead = Frame.bytes (.body id payload) ++ rest) :
    (∃ behind, d.front = (if Frame.lastKnown < id
          then .unknown { d with skip := payload.length, buffer := behind }
          else d.bodyFront (1 + payload.length) id behind) ∧
        behind ++ ahead = payload ++ rest) ∨
      d.front = .incomplete ∧ ahead ≠ [] := by
  have hbytes :
      d.buffer ++ ahead = Bytes.ofWord (1 + payload.length) ++ (id :: (payload ++ rest)) := by
    rw [h]
    rfl
  rcases Bytes.reached_or_short hbytes with ⟨behind, hbuffer, hbehind⟩ | ⟨hshort, hahead⟩
  · rw [front_of_word hbuffer hlength, frameFront.eq_def, if_neg (by omega)]
    cases behind with
    | nil =>
      refine .inr ⟨rfl, ?_⟩
      intro hnil
      simp [hnil] at hbehind
    | cons first behind =>
      simp only [List.cons_append, List.cons.injEq] at hbehind
      obtain ⟨rfl, hbehind⟩ := hbehind
      exact .inl ⟨behind, by rw [Nat.add_sub_cancel_left], hbehind⟩
  · exact .inr ⟨front_of_short hshort, hahead⟩

/-- The beginning of the payload of a message is too little, or all of it. -/
theorem bodyFront_of_message {message : Message} {id : UInt8} {payload behind : Bytes}
    (hframe : message.frame = .body id payload) (hlimit : 1 + payload.length ≤ d.limit)
    (hdelivers : message.Delivers)
    (h : behind ++ ahead = payload ++ rest) :
    (∃ behind', d.bodyFront (1 + payload.length) id behind =
        .message message.onWire { d with buffer := behind' } ∧ behind' ++ ahead = rest) ∨
      d.bodyFront (1 + payload.length) id behind = .incomplete ∧ ahead ≠ [] := by
  unfold bodyFront
  rw [if_neg (by omega), Nat.add_sub_cancel_left]
  rcases Bytes.reached_or_short h with ⟨behind', hbehind, hrest⟩ | ⟨hshort, hahead⟩
  · left
    refine ⟨behind', ?_, hrest⟩
    rw [Bytes.split?_eq_some_iff.mpr ⟨hbehind, rfl⟩]
    simp only [Message.ofBody?_frame hframe hdelivers]
  · right
    rw [Bytes.split?_eq_none_iff.mpr hshort]
    exact ⟨rfl, hahead⟩

/-- A decoder that has taken in a parcel holds the others. -/
theorem Holds.of_cons {parcel : Parcel} {others : List Parcel} {rest : Decoder} (dropped : Bytes)
    (h : d.Holds ahead (parcel :: others)) (hlimit : rest.limit = d.limit)
    (hskip : dropped.length = rest.skip)
    (hwhole : rest.buffer ++ ahead = dropped ++ others.flatMap Parcel.bytes) :
    rest.Holds ahead others :=
  ⟨fun parcel hmem ↦ hlimit ▸ h.fits parcel (List.mem_cons_of_mem _ hmem), dropped, hskip, hwhole⟩

/-- What is found at the front of whole parcels. -/
inductive Finds (d : Decoder) (ahead : Bytes) : List Parcel → Prop where
  /-- A frame of an unknown kind, which will be dropped. -/
  | unknown {parcel : Parcel} {others : List Parcel} {rest : Decoder}
      (front : d.front = .unknown rest) (none : parcel.arrival? = none)
      (holds : rest.Holds ahead others) : Finds d ahead (parcel :: others)
  /-- A message. -/
  | message {parcel : Parcel} {others : List Parcel} {message : Message} {rest : Decoder}
      (front : d.front = .message message rest) (some : parcel.arrival? = some message)
      (holds : rest.Holds ahead others) : Finds d ahead (parcel :: others)
  /-- Too little to tell, and something is ahead unless this is the end. -/
  | incomplete {parcels : List Parcel} (front : d.front = .incomplete)
      (ended : ahead = [] → parcels = [] ∧ d.buffer = []) : Finds d ahead parcels

/-- At the front of whole parcels there is one of them, or too little to tell. -/
theorem Holds.finds (h : d.Holds ahead parcels) (hskip : d.skip = 0) : d.Finds ahead parcels := by
  obtain ⟨dropped, hdropped, hwhole⟩ := h.whole
  obtain rfl : dropped = [] := List.eq_nil_of_length_eq_zero (hdropped.trans hskip)
  rw [List.nil_append] at hwhole
  have hincomplete {parcels : List Parcel} (hfront : d.front = .incomplete ∧ ahead ≠ []) :
      d.Finds ahead parcels := .incomplete hfront.1 fun hnil ↦ absurd hnil hfront.2
  cases parcels with
  | nil =>
    have hbuffer : d.buffer = [] := (List.append_eq_nil_iff.mp hwhole).1
    exact .incomplete (front_of_short (by simp [hbuffer])) fun _ ↦ ⟨rfl, hbuffer⟩
  | cons parcel others =>
    rw [List.flatMap_cons] at hwhole
    obtain ⟨hlength, hfits⟩ := h.fits parcel (List.mem_cons_self ..)
    cases parcel with
    | keepAlive =>
      rcases front_of_empty hwhole with ⟨behind, hfront, hbehind⟩ | hfront
      · exact .message hfront rfl (h.of_cons [] rfl hskip.symm hbehind)
      · exact hincomplete hfront
    | unknown id payload =>
      rcases front_of_body hlength hwhole with ⟨behind, hfront, hbehind⟩ | hfront
      · rw [if_pos hfits] at hfront
        exact .unknown hfront rfl (h.of_cons payload rfl rfl hbehind)
      · exact hincomplete hfront
    | message said =>
      obtain ⟨hlimit, hdelivers⟩ := hfits
      have hframe : (Parcel.message said).bytes = said.frame.bytes := rfl
      change said.frame.length < _ at hlength
      rw [hframe] at hwhole
      cases hbody : said.frame with
      | empty =>
        obtain rfl : said = .keepAlive := by cases said <;> cases hbody; rfl
        rcases front_of_empty hwhole with ⟨behind, hfront, hbehind⟩ | hfront
        · exact .message hfront rfl (h.of_cons [] rfl hskip.symm hbehind)
        · exact hincomplete hfront
      | body id payload =>
        rw [hbody] at hwhole hlength hlimit
        rcases front_of_body hlength hwhole with ⟨behind, hfront, hbehind⟩ | hfront
        · rw [if_neg (Message.known_of_frame hbody)] at hfront
          rcases bodyFront_of_message hbody hlimit hdelivers hbehind with
            ⟨behind', hmade, hbehind'⟩ | hshort
          · exact .message (hfront.trans hmade) rfl (h.of_cons [] rfl hskip.symm hbehind')
          · exact hincomplete ⟨hfront.trans hshort.1, hshort.2⟩
        · exact hincomplete hfront

/-- What a decoder makes of parcels. -/
def arrivals (parcels : List Parcel) : List Message := parcels.filterMap Parcel.arrival?

/-- What comes next when whole parcels are read. -/
inductive Reads (d : Decoder) (ahead : Bytes) (parcels : List Parcel) : Prop where
  /-- The next message. -/
  | message {message : Message} {rest : Decoder} {others : List Parcel}
      (next : d.next = (.ok (some message), rest))
      (arrivals : arrivals parcels = message :: arrivals others) (holds : rest.Holds ahead others)
  /-- Nothing, and something is ahead unless this is the end. -/
  | nothing {rest : Decoder} {others : List Parcel} (next : d.next = (.ok none, rest))
      (arrivals : arrivals parcels = arrivals others) (holds : rest.Holds ahead others)
      (ended : ahead = [] → others = [] ∧ rest.buffer = [] ∧ rest.skip = 0)

/-- Bytes that are still to be dropped are ahead. -/
theorem Holds.ahead_ne_nil (h : d.discard.Holds ahead parcels) (hskip : 0 < d.discard.skip) :
    ahead ≠ [] := by
  intro hnil
  obtain ⟨dropped, hlength, hwhole⟩ := h.whole
  have hbuffer : d.discard.buffer = [] := by
    apply List.drop_eq_nil_of_le
    have : d.discard.skip = d.skip - d.buffer.length := rfl
    omega
  rw [hbuffer, hnil] at hwhole
  obtain rfl : dropped = [] := (List.append_eq_nil_iff.mp hwhole.symm).1
  rw [← hlength] at hskip
  exact absurd hskip (Nat.lt_irrefl 0)

/-- Reading whole parcels gives their next message, or nothing until more has arrived. What carries
the proof is that passing over a frame of an unknown kind uses up bytes. -/
theorem Holds.reads (h : d.Holds ahead parcels) : d.Reads ahead parcels := by
  induction hn : d.buffer.length using Nat.strongRecOn generalizing d parcels with
  | ind n ih =>
    by_cases hskip : 0 < d.discard.skip
    · exact .nothing (next_of_skip hskip) rfl h.discard fun hnil ↦
        absurd hnil (h.discard.ahead_ne_nil hskip)
    have hzero : d.discard.skip = 0 := Nat.eq_zero_of_not_pos hskip
    cases h.discard.finds hzero with
    | incomplete front ended =>
      refine .nothing (next_of_incomplete hskip front) rfl h.discard fun hnil ↦ ?_
      exact ⟨(ended hnil).1, (ended hnil).2, hzero⟩
    | @unknown parcel others rest front none holds =>
      have hless : rest.buffer.length < n := by
        have := length_of_unknown front
        have := length_discard_le d
        omega
      have hnext := next_of_unknown hskip front
      have harrivals : arrivals (parcel :: others) = arrivals others :=
        List.filterMap_cons_none none
      cases ih _ hless holds rfl with
      | message next arrivals holds =>
        exact .message (hnext.trans next) (harrivals.trans arrivals) holds
      | nothing next arrivals holds ended =>
        exact .nothing (hnext.trans next) (harrivals.trans arrivals) holds ended
    | message front some holds =>
      exact .message (next_of_message hskip front) (List.filterMap_cons_some some) holds

/-- At the end of whole parcels nothing breaks off. -/
theorem Holds.nextAtEnd_eq_next (h : d.Holds [] parcels) : d.nextAtEnd = d.next := by
  unfold nextAtEnd
  cases h.reads with
  | message next arrivals holds => rw [next]
  | nothing next arrivals holds ended =>
    rw [next]
    simp only [if_pos (ended rfl).2]

end Decoder

end PeerWire
