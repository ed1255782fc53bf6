import PeerWire.Proofs.Parcels
import PeerWire.Proofs.Reading

/-!
# The grammar of streams

A stream is a sequence of whole frames. An empty frame is always allowed, and so is a frame of an
unknown kind; a frame of a known kind has to keep to the limit and to a length that its kind may
have. No frame is the beginning of another one, so that bytes can be cut into frames in one way
only. Main statement: reading a stream to its end meets no fault exactly when the stream is a
sequence of allowed frames, and otherwise gives the messages of the longest such sequence at its
front.
-/

namespace PeerWire

/-- Two numbers that are written in the same way are the same. -/
theorem Bytes.ofWord_append_inj {m n : Nat} {x y : Bytes} (hm : m < wordBound) (hn : n < wordBound)
    (h : ofWord m ++ x = ofWord n ++ y) : m = n ∧ x = y := by
  obtain ⟨hword, hrest⟩ := List.append_inj h rfl
  refine ⟨?_, hrest⟩
  simp only [ofWord, List.cons.injEq, and_true] at hword
  obtain ⟨h₁, h₂, h₃, h₄⟩ := hword
  have hsame := word_ofWord m
  rw [h₁, h₂, h₃, h₄, word_ofWord, Nat.mod_eq_of_lt hm, Nat.mod_eq_of_lt hn] at hsame
  exact hsame.symm

/-! ### Frames -/

namespace Frame

/-- Whether a frame of this kind may have this length; no length will do for an unknown kind. -/
def fitsKind (id : UInt8) (length : Nat) : Bool :=
  match id.toNat with
  | 0 | 1 | 2 | 3 => length = 1
  | 4 => length = 5
  | 5 => 1 ≤ length
  | 6 | 8 => length = 13
  | 7 => 10 ≤ length
  | _ => false

/-- A decoder with this limit allows the frame. -/
def Acceptable (limit : Nat) (frame : Frame) : Prop :=
  frame.length < Bytes.wordBound ∧
    match frame with
    | empty => True
    | body id _ => lastKnown < id ∨ frame.length ≤ limit ∧ fitsKind id frame.length

instance (limit : Nat) (frame : Frame) : Decidable (frame.Acceptable limit) :=
  match frame with
  | empty => inferInstanceAs (Decidable (_ ∧ True))
  | body _ _ => inferInstanceAs (Decidable (_ ∧ (_ ∨ _ ∧ _)))

/-- Whether the frame is a message. -/
def isKnown : Frame → Bool
  | empty => true
  | body id _ => id ≤ lastKnown

/-- The message that the frame is. -/
def message? : Frame → Option Message
  | empty => some .keepAlive
  | body id payload => Message.ofBody? id payload

/-- What follows the length number. -/
def contents : Frame → Bytes
  | empty => []
  | body id payload => id :: payload

/-- A frame is its length number and what follows it. -/
theorem bytes_eq (frame : Frame) : frame.bytes = Bytes.ofWord frame.length ++ frame.contents := by
  cases frame <;> rfl

/-- The length number counts what follows it. -/
theorem length_contents (frame : Frame) : frame.contents.length = frame.length := by
  cases frame with
  | empty => rfl
  | body id payload => exact Nat.add_comm payload.length 1

/-- Frames with the same contents are the same. -/
theorem contents_inj {frame other : Frame} : frame.contents = other.contents ↔ frame = other := by
  cases frame <;> cases other <;> simp [contents]

/-- No frame is the beginning of another one. -/
theorem bytes_append_inj {frame other : Frame} {x y : Bytes}
    (hframe : frame.length < Bytes.wordBound) (hother : other.length < Bytes.wordBound)
    (h : frame.bytes ++ x = other.bytes ++ y) : frame = other ∧ x = y := by
  rw [bytes_eq, bytes_eq, List.append_assoc, List.append_assoc] at h
  obtain ⟨hlength, hrest⟩ := Bytes.ofWord_append_inj hframe hother h
  rw [← contents_inj]
  apply List.append_inj hrest
  rw [length_contents, length_contents, hlength]

/-- Of two sequences of frames at the front of the same bytes one goes on where the other ends. -/
theorem flatMap_bytes_append_eq {frames others : List Frame} {x y : Bytes}
    (hframes : ∀ frame ∈ frames, frame.length < Bytes.wordBound)
    (hothers : ∀ frame ∈ others, frame.length < Bytes.wordBound)
    (h : frames.flatMap bytes ++ x = others.flatMap bytes ++ y) :
    (∃ more, others = frames ++ more ∧ x = more.flatMap bytes ++ y) ∨
      ∃ more, frames = others ++ more ∧ y = more.flatMap bytes ++ x := by
  induction frames generalizing others with
  | nil => exact .inl ⟨others, rfl, h⟩
  | cons frame frames ih =>
    cases others with
    | nil => exact .inr ⟨frame :: frames, rfl, h.symm⟩
    | cons other others =>
      simp only [List.flatMap_cons, List.append_assoc] at h
      obtain ⟨rfl, hrest⟩ := bytes_append_inj (hframes frame (by simp)) (hothers other (by simp)) h
      rcases ih (fun f hf ↦ hframes f (by simp [hf])) (fun f hf ↦ hothers f (by simp [hf]))
        hrest with ⟨more, rfl, hx⟩ | ⟨more, rfl, hy⟩
      · exact .inl ⟨more, rfl, hx⟩
      · exact .inr ⟨more, rfl, hy⟩

/-- A frame of an unknown kind fits no known one. -/
theorem fitsKind_of_unknown {id : UInt8} (h : lastKnown < id) (length : Nat) :
    fitsKind id length = false := by
  have hid : 8 < id.toNat := UInt8.lt_iff_toNat_lt.mp h
  rw [fitsKind]
  split <;> first | rfl | omega

end Frame

/-! ### Messages -/

namespace Message

/-- Nothing is read from an empty payload only. -/
theorem isSome_ofNothing (message : Message) (payload : Bytes) :
    (ofNothing message payload).isSome = decide (payload.length = 0) := by
  cases payload <;> simp [ofNothing]

/-- A number is read from four bytes. -/
theorem isSome_ofNumber (make : Nat → Message) (payload : Bytes) :
    (ofNumber make payload).isSome = decide (payload.length = 4) := by
  rcases payload with _ | ⟨a, _ | ⟨b, _ | ⟨c, _ | ⟨d, _ | ⟨e, rest⟩⟩⟩⟩⟩ <;> simp [ofNumber]

/-- A block is read from twelve bytes. -/
theorem isSome_ofBlock (make : Block → Message) (payload : Bytes) :
    (ofBlock make payload).isSome = decide (payload.length = 12) := by
  rcases payload with _ | ⟨a, _ | ⟨b, _ | ⟨c, _ | ⟨d, _ | ⟨e, _ | ⟨f, _ | ⟨g, _ | ⟨h, _ | ⟨i, _ |
    ⟨j, _ | ⟨k, _ | ⟨l, _ | ⟨m, rest⟩⟩⟩⟩⟩⟩⟩⟩⟩⟩⟩⟩⟩ <;> simp [ofBlock]

/-- A fragment is read from nine bytes or more. -/
theorem isSome_ofFragment (payload : Bytes) :
    (ofFragment payload).isSome = decide (9 ≤ payload.length) := by
  rcases payload with _ | ⟨a, _ | ⟨b, _ | ⟨c, _ | ⟨d, _ | ⟨e, _ | ⟨f, _ | ⟨g, _ | ⟨h, _ |
    ⟨i, rest⟩⟩⟩⟩⟩⟩⟩⟩⟩ <;> simp [ofFragment]

/-- A message is read from a payload of a length that its kind may have. -/
theorem isSome_ofBody? (id : UInt8) (payload : Bytes) :
    (ofBody? id payload).isSome = Frame.fitsKind id (1 + payload.length) := by
  rw [ofBody?, Frame.fitsKind]
  split <;>
    simp_all [isSome_ofNothing, isSome_ofNumber, isSome_ofBlock, isSome_ofFragment] <;> omega

/-- Nothing is read from the payload of an unknown kind. -/
theorem ofBody?_of_unknown {id : UInt8} (h : Frame.lastKnown < id) (payload : Bytes) :
    ofBody? id payload = none := by
  have hsome := isSome_ofBody? id payload
  rw [Frame.fitsKind_of_unknown h] at hsome
  simpa using hsome

end Message

namespace Frame

/-- A frame is a message exactly when it is the frame of that message and nothing is lost. -/
theorem message?_eq_some_iff {frame : Frame} {message : Message} :
    frame.message? = some message ↔
      message.frame = frame ∧ message.Exact ∧ message.Delivers := by
  cases frame with
  | empty => cases message <;> simp [message?, Message.frame, Message.Exact, Message.Delivers]
  | body id payload => exact Message.ofBody?_eq_some_iff

/-- The frame of a message is allowed if it keeps to the limit. -/
theorem acceptable_of_message {limit : Nat} {frame : Frame} {message : Message}
    (hlength : frame.length < Bytes.wordBound) (hlimit : frame.length ≤ limit)
    (hmessage : frame.message? = some message) : frame.Acceptable limit := by
  cases frame with
  | empty => exact ⟨hlength, trivial⟩
  | body id payload =>
    have hfits := Message.isSome_ofBody? id payload
    rw [show Message.ofBody? id payload = some message from hmessage] at hfits
    exact ⟨hlength, .inr ⟨hlimit, hfits.symm⟩⟩

/-- A frame that is allowed is a message exactly when its kind is known. -/
theorem Acceptable.isSome_message? {limit : Nat} {frame : Frame} (h : frame.Acceptable limit) :
    frame.message?.isSome = frame.isKnown := by
  cases frame with
  | empty => rfl
  | body id payload =>
    rw [message?, Message.isSome_ofBody?, isKnown]
    rcases h.2 with hunknown | ⟨-, hfits⟩
    · rw [fitsKind_of_unknown hunknown]
      simpa using hunknown
    · rw [length] at hfits
      have hknown : ¬lastKnown < id := fun hunknown ↦ by
        rw [fitsKind_of_unknown hunknown] at hfits
        cases hfits
      rw [hfits]
      simpa using hknown

/-- The messages of allowed frames have the frames of known kinds. -/
theorem map_frame_messages {limit : Nat} {frames : List Frame}
    (h : ∀ frame ∈ frames, frame.Acceptable limit) :
    (frames.filterMap message?).map Message.frame = frames.filter isKnown := by
  induction frames with
  | nil => rfl
  | cons frame frames ih =>
    have hknown := (h frame (by simp)).isSome_message?
    have hrest := ih fun f hf ↦ h f (by simp [hf])
    cases hmessage : frame.message? with
    | none =>
      rw [hmessage] at hknown
      rw [List.filterMap_cons_none hmessage, List.filter_cons_of_neg (by simp [← hknown]), hrest]
    | some message =>
      rw [hmessage] at hknown
      rw [List.filterMap_cons_some hmessage, List.filter_cons_of_pos hknown.symm, List.map_cons,
        hrest, (message?_eq_some_iff.mp hmessage).1]

end Frame

namespace Decoder

variable {d rest : Decoder} {ended : Bool} {behind : Bytes}

/-! ### Allowed frames -/

/-- With nothing to be dropped nothing is dropped. -/
theorem discard_of_skip_eq_zero (h : d.skip = 0) : d.discard = d := by
  obtain ⟨limit, skip, buffer⟩ := d
  subst h
  simp [discard]

/-- An allowed frame at the front is a message, or its payload is dropped. -/
theorem front_of_acceptable {frame : Frame} (hframe : frame.Acceptable d.limit)
    (h : d.buffer = frame.bytes ++ behind) :
    (∃ message, frame.message? = some message ∧
        d.front = .message message { d with buffer := behind }) ∨
      frame.message? = none ∧ ∃ payload : Bytes,
        d.front = .unknown { d with skip := payload.length, buffer := payload ++ behind } := by
  obtain ⟨hlength, hkind⟩ := hframe
  cases frame with
  | empty => exact .inl ⟨.keepAlive, rfl, front_of_word h (by decide)⟩
  | body id payload =>
    have hword : d.front = d.frameFront (1 + payload.length) (id :: (payload ++ behind)) :=
      front_of_word (by rw [h, Frame.bytes, List.append_assoc]; rfl) hlength
    rw [frameFront, if_neg (by omega), Nat.add_sub_cancel_left] at hword
    rcases hkind with hunknown | ⟨hlimit, hfits⟩
    · right
      exact ⟨Message.ofBody?_of_unknown hunknown payload, payload, hword.trans (if_pos hunknown)⟩
    · left
      rw [Frame.length] at hlimit hfits
      rw [← Message.isSome_ofBody?] at hfits
      obtain ⟨message, hmessage⟩ := Option.isSome_iff_exists.mp hfits
      obtain ⟨hmade, -⟩ := Message.frame_of_ofBody? hmessage
      refine ⟨message, hmessage, ?_⟩
      rw [hword, if_neg (Message.known_of_frame hmade), bodyFront, if_neg (by omega),
        Nat.add_sub_cancel_left, Bytes.split?_eq_some_iff.mpr ⟨rfl, rfl⟩]
      simp only [hmessage]

/-- An allowed frame at the front is read. -/
theorem exhaust_of_acceptable {frame : Frame} (hskip : d.skip = 0)
    (hframe : frame.Acceptable d.limit) (h : d.buffer = frame.bytes ++ behind) :
    d.exhaust ended =
      (({ d with buffer := behind } : Decoder).exhaust ended).behind frame.message?.toList := by
  have hdiscard := discard_of_skip_eq_zero hskip
  have hnone : ¬0 < d.discard.skip := by
    rw [hdiscard]
    omega
  rcases front_of_acceptable hframe h with ⟨message, hmessage, hfront⟩ | ⟨hmessage, payload, hfront⟩
  · rw [hmessage, Option.toList_some]
    exact exhaust_of_message (next_of_message hnone (by rw [hdiscard, hfront]))
  · rw [hmessage, Option.toList_none, Reading.behind_nil]
    apply exhaust_congr
    rw [next_of_unknown hnone (by rw [hdiscard, hfront])]
    apply next_congr
    simp [discard, hskip]

/-- Allowed frames at the front are read. -/
theorem exhaust_of_frames {frames : List Frame} (hskip : d.skip = 0)
    (hframes : ∀ frame ∈ frames, frame.Acceptable d.limit)
    (h : d.buffer = frames.flatMap Frame.bytes ++ behind) :
    d.exhaust ended = (({ d with buffer := behind } : Decoder).exhaust ended).behind
      (frames.filterMap Frame.message?) := by
  induction frames generalizing d with
  | nil =>
    have hbuffer : d = { d with buffer := behind } := by
      rw [← show d.buffer = behind from h]
    rw [List.filterMap_nil, Reading.behind_nil, ← hbuffer]
  | cons frame frames ih =>
    rw [List.flatMap_cons, List.append_assoc] at h
    rw [exhaust_of_acceptable hskip (hframes frame (by simp)) h,
      ih (d := { d with buffer := frames.flatMap Frame.bytes ++ behind }) hskip
        (fun f hf ↦ hframes f (by simp [hf])) rfl, Reading.behind_behind]
    congr 1
    cases hmessage : frame.message? with
    | none => simp [hmessage]
    | some message => simp [hmessage]

/-! ### Anything else -/

/-- What is found begins with a length number. -/
theorem exists_word_of_front (h : d.front ≠ .incomplete) :
    ∃ n behind, n < Bytes.wordBound ∧ d.buffer = Bytes.ofWord n ++ behind ∧
      d.front = d.frameFront n behind := by
  rw [front] at h
  split at h
  · next a b c e behind hbuffer =>
    refine ⟨Bytes.word a b c e, behind, Bytes.word_lt a b c e, ?_, by rw [front, hbuffer]⟩
    rw [hbuffer, Bytes.ofWord_word]
    rfl
  · exact absurd rfl h

/-- A message of a known kind is read from a whole payload that keeps to the limit. -/
theorem exists_payload_of_bodyFront {length : Nat} {id : UInt8} {message : Message}
    (h : d.bodyFront length id behind = .message message rest) :
    ∃ payload, length ≤ d.limit ∧ payload.length = length - 1 ∧ behind = payload ++ rest.buffer ∧
      Message.ofBody? id payload = some message ∧ rest = { d with buffer := rest.buffer } := by
  rw [bodyFront] at h
  split at h
  · cases h
  · next hlimit =>
    split at h
    · cases h
    · next payload behind' hsplit =>
      obtain ⟨rfl, hlength⟩ := Bytes.split?_eq_some_iff.mp hsplit
      split at h
      · next made hmade =>
        cases h
        exact ⟨payload, Nat.le_of_not_lt hlimit, hlength, rfl, hmade, rfl⟩
      · cases h

/-- Where a message is found there is its frame, and nothing else is read. -/
theorem frame_of_message {message : Message} (h : d.front = .message message rest) :
    message.frame.Acceptable d.limit ∧ message.frame.message? = some message ∧
      d.buffer = message.encode ++ rest.buffer ∧ rest = { d with buffer := rest.buffer } := by
  obtain ⟨n, behind, hbound, hbuffer, hfront⟩ := exists_word_of_front (d := d) (by simp [h])
  rw [h, frameFront.eq_def] at hfront
  rw [hbuffer]
  split at hfront
  · next hzero =>
    cases hfront
    exact ⟨⟨by decide, trivial⟩, rfl, by rw [hzero]; rfl, rfl⟩
  · next hzero =>
    split at hfront
    · cases hfront
    · next id behind =>
      split at hfront
      · cases hfront
      · obtain ⟨payload, hlimit, hlength, rfl, hmade, hrest⟩ :=
          exists_payload_of_bodyFront hfront.symm
        obtain ⟨hframe, -⟩ := Message.frame_of_ofBody? hmade
        obtain rfl : n = (Frame.body id payload).length := by
          rw [Frame.length]
          omega
        rw [Message.encode, hframe]
        refine ⟨Frame.acceptable_of_message hbound hlimit hmade, hmade, ?_, hrest⟩
        rw [Frame.bytes_eq, List.append_assoc]
        rfl

/-- A payload of the wrong size is a whole payload that keeps to the limit. -/
theorem payload_of_bodyFront {length size : Nat} {id kind : UInt8}
    (h : d.bodyFront length id behind = .badPayload size kind rest) :
    ∃ payload, kind = id ∧ length ≤ d.limit ∧ payload.length = length - 1 ∧
      payload.length = size ∧ behind = payload ++ rest.buffer ∧ Message.ofBody? id payload = none ∧
      rest = { d with buffer := rest.buffer } := by
  rw [bodyFront] at h
  split at h
  · cases h
  · next hlimit =>
    split at h
    · cases h
    · next payload behind' hsplit =>
      obtain ⟨rfl, hlength⟩ := Bytes.split?_eq_some_iff.mp hsplit
      split at h
      · cases h
      · next hnone =>
        cases h
        exact ⟨payload, rfl, Nat.le_of_not_lt hlimit, hlength, rfl, rfl, hnone, rfl⟩

/-- Where a payload of the wrong size is found there is its frame, which is of a known kind, and
nothing else is used up. -/
theorem exists_frame_of_badPayload {size : Nat} {id : UInt8}
    (h : d.front = .badPayload size id rest) :
    ∃ payload, payload.length = size ∧ ¬Frame.lastKnown < id ∧
      1 + payload.length < Bytes.wordBound ∧ 1 + payload.length ≤ d.limit ∧
      Message.ofBody? id payload = none ∧
      d.buffer = Frame.bytes (.body id payload) ++ rest.buffer ∧
      rest = { d with buffer := rest.buffer } := by
  obtain ⟨n, behind, hbound, hbuffer, hfront⟩ := exists_word_of_front (d := d) (by simp [h])
  rw [h, frameFront.eq_def] at hfront
  rw [hbuffer]
  split at hfront
  · cases hfront
  · next hzero =>
    split at hfront
    · cases hfront
    · next kind behind =>
      split at hfront
      · cases hfront
      · next hknown =>
        obtain ⟨payload, rfl, hlimit, hlength, hsize, rfl, hnone, hrest⟩ :=
          payload_of_bodyFront hfront.symm
        obtain rfl : n = 1 + payload.length := by omega
        refine ⟨payload, hsize, hknown, hbound, hlimit, hnone, ?_, hrest⟩
        rw [Frame.bytes, List.append_assoc]
        rfl

/-- Where a payload is to be dropped a frame of an unknown kind begins, and what stands before its
payload is used up. -/
theorem exists_id_of_unknown (h : d.front = .unknown rest) :
    ∃ id, Frame.lastKnown < id ∧ 1 + rest.skip < Bytes.wordBound ∧
      d.buffer = Bytes.ofWord (1 + rest.skip) ++ id :: rest.buffer ∧
      rest = { d with skip := rest.skip, buffer := rest.buffer } := by
  obtain ⟨n, behind, hbound, hbuffer, hfront⟩ := exists_word_of_front (d := d) (by simp [h])
  rw [h, frameFront.eq_def] at hfront
  rw [hbuffer]
  split at hfront
  · cases hfront
  · next hzero =>
    split at hfront
    · cases hfront
    · next id behind =>
      split at hfront
      · next hunknown =>
        cases hfront
        have hn : 1 + (n - 1) = n := by omega
        exact ⟨id, hunknown, hn.symm ▸ hbound, by rw [hn], rfl⟩
      · exact absurd hfront.symm bodyFront_ne_unknown

/-- Where a payload is dropped that has arrived there is its frame, and nothing else is dropped. -/
theorem exists_frame_of_unknown (h : d.front = .unknown rest)
    (hwhole : rest.skip ≤ rest.buffer.length) :
    ∃ frame, Frame.Acceptable d.limit frame ∧ frame.isKnown = false ∧
      d.buffer = frame.bytes ++ rest.discard.buffer ∧
      rest.discard = { d with skip := 0, buffer := rest.discard.buffer } := by
  obtain ⟨id, hunknown, hbound, hbuffer, hrest⟩ := exists_id_of_unknown h
  have hlength : (rest.buffer.take rest.skip).length = rest.skip := List.length_take_of_le hwhole
  refine ⟨.body id (rest.buffer.take rest.skip), ⟨?_, .inl hunknown⟩, ?_, ?_, ?_⟩
  · rw [Frame.length, hlength]
    exact hbound
  · simpa [Frame.isKnown] using hunknown
  · rw [hbuffer, Frame.bytes, hlength, List.append_assoc, List.cons_append]
    exact congrArg (_ ++ id :: ·) (List.take_append_drop rest.skip rest.buffer).symm
  · have hlimit : rest.limit = d.limit := by rw [hrest]
    simp [discard, hlimit, Nat.sub_eq_zero_of_le hwhole]

/-- Where no allowed frame begins the end of the stream is a fault. -/
theorem nextAtEnd_of_stuck (hskip : d.skip = 0) (hbuffer : d.buffer ≠ [])
    (hstuck : ∀ frame, Frame.Acceptable d.limit frame → ¬frame.bytes <+: d.buffer) :
    ∃ fault rest, d.nextAtEnd = (.error fault, rest) := by
  have hdiscard := discard_of_skip_eq_zero hskip
  have hnext := next_eq d
  rw [hdiscard, if_neg (by omega)] at hnext
  rw [nextAtEnd]
  cases hfront : d.front with
  | incomplete =>
    rw [hfront] at hnext
    rw [hnext]
    simp only [if_neg (show ¬(d.buffer = [] ∧ d.skip = 0) from fun h ↦ hbuffer h.1)]
    exact ⟨_, _, rfl⟩
  | unknown rest =>
    -- a payload that had arrived would make an allowed frame, so some of it is missing
    have hmissing : ¬rest.skip ≤ rest.buffer.length := fun hwhole ↦ by
      obtain ⟨frame, hframe, -, hbytes, -⟩ := exists_frame_of_unknown hfront hwhole
      exact hstuck frame hframe ⟨_, hbytes.symm⟩
    have hrest : 0 < rest.discard.skip := Nat.sub_pos_of_lt (Nat.lt_of_not_le hmissing)
    rw [hfront] at hnext
    rw [hnext]
    simp only [next_of_skip hrest, if_neg (show ¬(rest.discard.buffer = [] ∧ rest.discard.skip = 0)
      from fun h ↦ by omega)]
    exact ⟨_, _, rfl⟩
  | message message rest =>
    obtain ⟨hframe, -, hbytes, -⟩ := frame_of_message hfront
    exact absurd ⟨_, hbytes.symm⟩ (hstuck message.frame hframe)
  | tooLong length =>
    rw [hfront] at hnext
    rw [hnext]
    exact ⟨_, _, rfl⟩
  | badPayload size id rest =>
    rw [hfront] at hnext
    rw [hnext]
    exact ⟨_, _, rfl⟩

/-! ### Streams -/

/-- With nothing there the end of the stream is no fault. -/
theorem exhaust_start (limit : Nat) : (start limit).exhaust true = ⟨[], none, start limit⟩ := by
  have hnext : (start limit).next = (.ok none, start limit) := by
    rw [next_eq]
    rfl
  have hlook : (start limit).look true = (.ok none, start limit) := by
    simp only [look, nextAtEnd, hnext]
    rfl
  rw [exhaust_eq, hlook]

end Decoder

namespace Frame

/-- No allowed frame stands at the front of the bytes. -/
def Blocked (limit : Nat) (bytes : Bytes) : Prop :=
  ∀ frame : Frame, frame.Acceptable limit → ¬frame.bytes <+: bytes

/-- The stream consists of these frames, which are allowed. -/
def Spells (limit : Nat) (frames : List Frame) (stream : Bytes) : Prop :=
  (∀ frame ∈ frames, frame.Acceptable limit) ∧ stream = frames.flatMap bytes

/-- These frames are the longest sequence of allowed ones at the front of the stream. -/
structure Longest (limit : Nat) (frames : List Frame) (stream : Bytes) : Prop where
  /-- They are allowed. -/
  acceptable : ∀ frame ∈ frames, frame.Acceptable limit
  /-- They stand at the front. -/
  front : frames.flatMap bytes <+: stream
  /-- No other such sequence is longer. -/
  longest : ∀ others : List Frame, (∀ frame ∈ others, frame.Acceptable limit) →
    others.flatMap bytes <+: stream →
      (others.flatMap bytes).length ≤ (frames.flatMap bytes).length

variable {limit : Nat} {frames others : List Frame} {x behind : Bytes}

/-- Every stream has allowed frames at its front, behind which no more of them stand. -/
theorem exists_frames_append (limit : Nat) (stream : Bytes) :
    ∃ (frames : List Frame) (behind : Bytes), (∀ frame ∈ frames, frame.Acceptable limit) ∧
      stream = frames.flatMap bytes ++ behind ∧ Blocked limit behind := by
  -- on the length, since a frame takes at least four bytes
  induction hn : stream.length using Nat.strongRecOn generalizing stream with
  | ind n ih =>
    by_cases hfirst : ∃ frame : Frame, frame.Acceptable limit ∧ frame.bytes <+: stream
    · obtain ⟨frame, hframe, rest, rfl⟩ := hfirst
      have hless : rest.length < n := by
        rw [← hn, List.length_append, length_bytes]
        omega
      obtain ⟨frames, behind, hframes, rfl, hbehind⟩ := ih _ hless rest rfl
      refine ⟨frame :: frames, behind, ?_, ?_, hbehind⟩
      · intro f hf
        rcases List.mem_cons.mp hf with rfl | hf
        · exact hframe
        · exact hframes f hf
      · rw [List.flatMap_cons, List.append_assoc]
    · refine ⟨[], stream, by simp, rfl, ?_⟩
      intro frame hframe hfront
      exact hfirst ⟨frame, hframe, hfront⟩

/-- No allowed frames stand at the front of bytes at whose front none of them stands. -/
theorem Blocked.eq_nil (h : Blocked limit (frames.flatMap bytes ++ x))
    (hframes : ∀ frame ∈ frames, frame.Acceptable limit) : frames = [] := by
  cases frames with
  | nil => rfl
  | cons frame frames =>
    refine absurd ?_ (h frame (hframes frame (by simp)))
    rw [List.flatMap_cons, List.append_assoc]
    exact List.prefix_append _ _

/-- Allowed frames behind which no other one stands go on where other allowed frames end. -/
theorem Blocked.exists_more (h : Blocked limit behind)
    (hframes : ∀ frame ∈ frames, frame.Acceptable limit)
    (hothers : ∀ frame ∈ others, frame.Acceptable limit)
    (heq : others.flatMap bytes ++ x = frames.flatMap bytes ++ behind) :
    ∃ more, frames = others ++ more ∧ x = more.flatMap bytes ++ behind := by
  rcases flatMap_bytes_append_eq (fun f hf ↦ (hothers f hf).1) (fun f hf ↦ (hframes f hf).1) heq
    with hmore | ⟨more, rfl, rfl⟩
  · exact hmore
  · obtain rfl := h.eq_nil fun f hf ↦ hothers f (List.mem_append_right _ hf)
    exact ⟨[], by simp, rfl⟩

/-- Allowed frames behind which no other one stands are the longest sequence of them. -/
theorem Blocked.longest (h : Blocked limit behind)
    (hframes : ∀ frame ∈ frames, frame.Acceptable limit) :
    Longest limit frames (frames.flatMap bytes ++ behind) where
  acceptable := hframes
  front := List.prefix_append _ _
  longest others hothers hfront := by
    obtain ⟨x, hx⟩ := hfront
    obtain ⟨more, rfl, -⟩ := h.exists_more hframes hothers hx
    rw [List.flatMap_append, List.length_append]
    omega

/-- The bytes consist of allowed frames exactly when nothing is left behind the longest sequence. -/
theorem Blocked.spells_iff (h : Blocked limit behind)
    (hframes : ∀ frame ∈ frames, frame.Acceptable limit) :
    (∃ others, Spells limit others (frames.flatMap bytes ++ behind)) ↔ behind = [] := by
  constructor
  · rintro ⟨others, hothers, hspells⟩
    rw [← List.append_nil (others.flatMap bytes)] at hspells
    obtain ⟨more, -, hnil⟩ := h.exists_more hframes hothers hspells.symm
    exact (List.append_eq_nil_iff.mp hnil.symm).2
  · rintro rfl
    exact ⟨frames, hframes, List.append_nil _⟩

/-- Allowed frames and a part of another frame are no sequence of allowed frames. -/
theorem not_spells_of_cut {frame : Frame} {cut : Nat}
    (hframes : ∀ frame ∈ frames, frame.Acceptable limit) (hframe : frame.length < Bytes.wordBound)
    (hpos : 0 < cut) (hcut : cut < frame.bytes.length) :
    ¬Spells limit others (frames.flatMap bytes ++ frame.bytes.take cut) := by
  rintro ⟨hothers, hspells⟩
  have hlength : (frame.bytes.take cut).length = cut := List.length_take_of_le (Nat.le_of_lt hcut)
  have hne : frame.bytes.take cut ≠ [] := List.ne_nil_of_length_pos (by omega)
  rw [← List.append_nil (others.flatMap bytes)] at hspells
  rcases flatMap_bytes_append_eq (fun f hf ↦ (hframes f hf).1) (fun f hf ↦ (hothers f hf).1) hspells
    with ⟨more, rfl, hmore⟩ | ⟨more, -, hmore⟩
  · cases more with
    | nil => exact hne hmore
    | cons first more =>
      -- the first of them would be a beginning of the frame that was cut
      have hfirst := (hothers first (by simp)).1
      rw [List.flatMap_cons, List.append_nil] at hmore
      have hwhole : first.bytes ++ (more.flatMap bytes ++ frame.bytes.drop cut) =
          frame.bytes ++ [] := by
        rw [← List.append_assoc, ← hmore, List.take_append_drop, List.append_nil]
      obtain ⟨rfl, -⟩ := bytes_append_inj hfirst hframe hwhole
      have := congrArg List.length hmore
      rw [List.length_append] at this
      omega
  · exact hne (List.append_eq_nil_iff.mp hmore.symm).2

end Frame

namespace Decoder

/-- Where no allowed frame stands reading to the end gives no message, and meets no fault exactly
when nothing is there. -/
theorem exhaust_of_blocked {limit : Nat} {behind : Bytes} (h : Frame.Blocked limit behind) :
    (({ start limit with buffer := behind } : Decoder).exhaust true).messages = [] ∧
      ((({ start limit with buffer := behind } : Decoder).exhaust true).fault? = none ↔
        behind = []) := by
  by_cases hnil : behind = []
  · have hread := exhaust_start limit
    subst hnil
    simp only [start] at hread ⊢
    simp [hread]
  · obtain ⟨fault, rest, hfault⟩ :=
      nextAtEnd_of_stuck (d := { start limit with buffer := behind }) rfl hnil h
    rw [exhaust_eq]
    simp only [look, if_true, hfault]
    simp [hnil]

/-- Reading a stream to its end meets no fault exactly when the stream consists of allowed frames,
and any fault is a malformed message. The messages that were read have the frames of known kinds in
the longest sequence of allowed frames at the front of the stream. A stream that ends within a frame
always meets a fault. -/
theorem faultless_iff_spells (limit : Nat) (stream : Bytes) :
    let r := ((start limit).feed stream).exhaust true
    (r.error? = none ↔ ∃ frames, Frame.Spells limit frames stream) ∧
      (∀ error ∈ r.error?, error.kind = .malformedMessage) ∧
      (∃ frames, Frame.Longest limit frames stream ∧
        r.messages.map Message.frame = frames.filter Frame.isKnown ∧
        ∀ message ∈ r.messages, message.Exact) ∧
      ∀ (frames : List Frame) (frame : Frame) (cut : Nat),
        (∀ frame ∈ frames, frame.Acceptable limit) → frame.length < Bytes.wordBound →
          0 < cut → cut < frame.bytes.length →
            stream = frames.flatMap Frame.bytes ++ frame.bytes.take cut → r.error? ≠ none := by
  intro r
  obtain ⟨frames, behind, hframes, rfl, hblocked⟩ := Frame.exists_frames_append limit stream
  have hread : r = (({ start limit with buffer := behind } : Decoder).exhaust true).behind
      (frames.filterMap Frame.message?) := exhaust_of_frames rfl hframes rfl
  obtain ⟨hmessages, hfault⟩ := exhaust_of_blocked hblocked
  have hmessages : r.messages = frames.filterMap Frame.message? := by
    rw [hread, Reading.behind, hmessages, List.append_nil]
  have herror : r.error? = none ↔
      ∃ others, Frame.Spells limit others (frames.flatMap Frame.bytes ++ behind) := by
    rw [hblocked.spells_iff hframes, ← hfault, hread, Reading.error?, Option.map_eq_none_iff]
    rfl
  refine ⟨herror, ?_, ⟨frames, hblocked.longest hframes, ?_, ?_⟩, ?_⟩
  · intro error herror
    obtain ⟨fault, -, rfl⟩ := Option.map_eq_some_iff.mp herror
    rfl
  · rw [hmessages, Frame.map_frame_messages hframes]
  · intro message hmessage
    rw [hmessages] at hmessage
    obtain ⟨frame, -, hframe⟩ := List.mem_filterMap.mp hmessage
    exact (Frame.message?_eq_some_iff.mp hframe).2.1
  · intro others frame cut hothers hframe hpos hcut hstream hnone
    obtain ⟨spelled, hspelled⟩ := herror.mp hnone
    rw [hstream] at hspelled
    exact Frame.not_spells_of_cut hothers hframe hpos hcut hspelled

/-- A stream that ends within the payload of a frame of an unknown kind, which was dropped as far as
it arrived. -/
theorem faultless_iff_spells_unknown :
    let frame := Frame.body 42 (List.replicate 100 7)
    let stream := Frame.bytes (.body 1 []) ++ frame.bytes.take 45
    frame.length < Bytes.wordBound ∧ 45 < frame.bytes.length ∧
      (((start 16).feed stream).exhaust true).error? ≠ none :=
  ⟨by decide, by decide,
    (faultless_iff_spells 16 _).2.2.2 [.body 1 []] (.body 42 (List.replicate 100 7)) 45
      (by decide) (by decide) (by decide) (by decide) rfl⟩

end Decoder

end PeerWire
