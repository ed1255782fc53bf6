import PeerWire.Wire.Frame

/-!
# Reading messages from a stream

Bytes arrive in parts of any size and are kept until they make up a frame. A frame of an unknown
kind is dropped as it arrives, whatever its length, while a frame of a known kind must not be
longer than a limit. The checks on a frame come in a fixed order: unknown kind, length, presence
of the whole frame, payload. Main statements: feeding adds bytes at the end, reading a message
always shortens the buffer, and what stands at the front decides what is read.
-/

namespace PeerWire

/-- The bytes that have arrived and what is known about those to come. -/
structure Decoder where
  /-- The longest frame of a known kind that is allowed. -/
  limit : Nat
  /-- How many bytes are still to be dropped. -/
  skip : Nat
  /-- The bytes that have arrived and are not used up. -/
  buffer : Bytes
deriving DecidableEq, Repr

namespace Decoder

/-- A decoder to which nothing has arrived. -/
def start (limit : Nat) : Decoder := ⟨limit, 0, []⟩

/-- More bytes arrive. -/
def feed (d : Decoder) (bytes : Bytes) : Decoder := { d with buffer := d.buffer ++ bytes }

/-- Drops what has arrived of the bytes to be dropped. -/
def discard (d : Decoder) : Decoder :=
  { d with skip := d.skip - d.buffer.length, buffer := d.buffer.drop d.skip }

/-- What the front of the buffer holds. -/
inductive Front where
  /-- Too little to tell. -/
  | incomplete
  /-- A frame of an unknown kind; the decoder has passed its kind and drops its payload. -/
  | unknown (rest : Decoder)
  /-- A message, and the decoder behind it. -/
  | message (message : Message) (rest : Decoder)
  /-- A frame that is too long, and is left where it is. -/
  | tooLong (length : Nat)
  /-- A frame whose payload has the wrong size, and the decoder behind it. -/
  | badPayload (size : Nat) (id : UInt8) (rest : Decoder)

/-- What a frame of a known kind holds, with the bytes behind its kind. -/
def bodyFront (d : Decoder) (length : Nat) (id : UInt8) (behind : Bytes) : Front :=
  if d.limit < length then .tooLong length
  else
    match Bytes.split? (length - 1) behind with
    | none => .incomplete
    | some (payload, rest) =>
      match Message.ofBody? id payload with
      | some message => .message message { d with buffer := rest }
      | none => .badPayload payload.length id { d with buffer := rest }

/-- What a frame of a given length holds, with the bytes behind its length number. -/
def frameFront (d : Decoder) (length : Nat) (behind : Bytes) : Front :=
  if length = 0 then .message .keepAlive { d with buffer := behind }
  else
    match behind with
    | [] => .incomplete
    | id :: behind =>
      if Frame.lastKnown < id then .unknown { d with skip := length - 1, buffer := behind }
      else d.bodyFront length id behind

/-- What the front of the buffer holds when no bytes are to be dropped. -/
def front (d : Decoder) : Front :=
  match d.buffer with
  | a :: b :: c :: e :: behind => d.frameFront (Bytes.word a b c e) behind
  | _ => .incomplete

/-- A frame of a known kind is not passed over. -/
theorem bodyFront_ne_unknown {d rest : Decoder} {length : Nat} {id : UInt8} {behind : Bytes} :
    d.bodyFront length id behind ≠ .unknown rest := by
  intro h
  rw [bodyFront] at h
  split at h
  · cases h
  · split at h
    · cases h
    · split at h <;> cases h

/-- Passing the kind of an unknown frame uses up at least five bytes. -/
theorem length_of_unknown {d rest : Decoder} (h : d.front = .unknown rest) :
    rest.buffer.length + 5 = d.buffer.length := by
  rw [front] at h
  split at h
  · next a b c e behind hbuffer =>
    rw [frameFront.eq_def] at h
    split at h
    · cases h
    · split at h
      · cases h
      · split at h
        · cases h
          simp [hbuffer]
        · exact absurd h bodyFront_ne_unknown
  · cases h

/-- Reading a message of a known kind leaves the bytes behind its payload. -/
theorem length_of_bodyFront {d rest : Decoder} {length : Nat} {id : UInt8} {behind : Bytes}
    {message : Message} (h : d.bodyFront length id behind = .message message rest) :
    rest.buffer.length ≤ behind.length := by
  rw [bodyFront] at h
  split at h
  · cases h
  · split at h
    · cases h
    · next payload behind' hsplit =>
      split at h
      · cases h
        obtain ⟨rfl, _⟩ := Bytes.split?_eq_some_iff.mp hsplit
        simp
      · cases h

/-- A message at the front takes at least four bytes. -/
theorem length_of_message {d rest : Decoder} {message : Message}
    (h : d.front = .message message rest) : rest.buffer.length + 4 ≤ d.buffer.length := by
  rw [front] at h
  split at h
  · next a b c e behind hbuffer =>
    rw [frameFront.eq_def] at h
    split at h
    · cases h
      simp [hbuffer]
    · split at h
      · cases h
      · split at h
        · cases h
        · have := length_of_bodyFront h
          simp [hbuffer]
          omega
  · cases h

/-- A frame that is refused for its payload leaves the bytes behind it. -/
theorem length_of_badPayload {d rest : Decoder} {size : Nat} {id : UInt8}
    (h : d.front = .badPayload size id rest) : rest.buffer.length ≤ d.buffer.length := by
  rw [front] at h
  split at h
  · next a b c e behind hbuffer =>
    rw [frameFront.eq_def] at h
    split at h
    · cases h
    · split at h
      · cases h
      · next id' behind' =>
        split at h
        · cases h
        · rw [bodyFront] at h
          split at h
          · cases h
          · split at h
            · cases h
            · next payload rest' hsplit =>
              split at h
              · cases h
              · cases h
                obtain ⟨hbehind, _⟩ := Bytes.split?_eq_some_iff.mp hsplit
                simp [hbuffer, hbehind]
                omega
  · cases h

/-- Dropping never adds bytes. -/
theorem length_discard_le (d : Decoder) : d.discard.buffer.length ≤ d.buffer.length := by
  simp [discard]

/-- The next message, if a whole one has arrived, and the decoder behind it. -/
def next (d : Decoder) : Except FrameFault (Option Message) × Decoder :=
  if 0 < d.discard.skip then (.ok none, d.discard)
  else
    match _h : d.discard.front with
    | .incomplete => (.ok none, d.discard)
    | .unknown rest => next rest
    | .message message rest => (.ok (some message), rest)
    | .tooLong length => (.error (.tooLong length d.limit), d.discard)
    | .badPayload size id rest => (.error (.payloadSize size id.toNat), rest)
termination_by d.buffer.length
decreasing_by
  have := length_of_unknown _h
  have := length_discard_le d
  omega

/-- The next message once the stream has ended: what is left must not break off within a frame. -/
def nextAtEnd (d : Decoder) : Except FrameFault (Option Message) × Decoder :=
  match d.next with
  | (.ok none, rest) =>
    if rest.buffer = [] ∧ rest.skip = 0 then (.ok none, rest)
    else (.error (.truncated rest.buffer.length), rest)
  | result => result

/-- Feeding adds bytes at the end. -/
@[simp]
theorem buffer_feed (d : Decoder) (bytes : Bytes) : (d.feed bytes).buffer = d.buffer ++ bytes := rfl

/-- Nothing is read while bytes are still to be dropped. -/
theorem next_of_skip {d : Decoder} (h : 0 < d.discard.skip) : d.next = (.ok none, d.discard) := by
  rw [next, if_pos h]

/-- Nothing is read from too little. -/
theorem next_of_incomplete {d : Decoder} (hskip : ¬0 < d.discard.skip)
    (h : d.discard.front = .incomplete) : d.next = (.ok none, d.discard) := by
  rw [next, if_neg hskip]
  split <;> simp_all

/-- A frame of an unknown kind is passed over. -/
theorem next_of_unknown {d rest : Decoder} (hskip : ¬0 < d.discard.skip)
    (h : d.discard.front = .unknown rest) : d.next = rest.next := by
  rw [next, if_neg hskip]
  split <;> simp_all

/-- The message at the front is read. -/
theorem next_of_message {d rest : Decoder} {message : Message} (hskip : ¬0 < d.discard.skip)
    (h : d.discard.front = .message message rest) : d.next = (.ok (some message), rest) := by
  rw [next, if_neg hskip]
  split <;> simp_all

/-- Reading a message uses up at least four bytes. -/
theorem length_of_next {d rest : Decoder} {message : Message}
    (h : d.next = (.ok (some message), rest)) : rest.buffer.length + 4 ≤ d.buffer.length := by
  fun_induction next d with
  | case1 => cases h
  | case2 => cases h
  | case3 d _ rest' hfront ih =>
    have := length_of_unknown hfront
    have := length_discard_le d
    have := ih h
    omega
  | case4 d _ message' rest' hfront =>
    cases h
    have := length_of_message hfront
    have := length_discard_le d
    omega
  | case5 => cases h
  | case6 => cases h

/-- Looking for a message never adds bytes. -/
theorem length_next_le (d : Decoder) : d.next.2.buffer.length ≤ d.buffer.length := by
  fun_induction next d with
  | case1 d _ => exact length_discard_le d
  | case2 d _ _ => exact length_discard_le d
  | case3 d _ rest hfront ih =>
    have := length_of_unknown hfront
    have := length_discard_le d
    omega
  | case4 d _ message rest hfront =>
    have := length_of_message hfront
    have := length_discard_le d
    simp only
    omega
  | case5 d _ length _ => exact length_discard_le d
  | case6 d _ size id rest hfront =>
    exact Nat.le_trans (length_of_badPayload hfront) (length_discard_le d)

/-- Looking for a message after the end never adds bytes. -/
theorem length_nextAtEnd_le (d : Decoder) : d.nextAtEnd.2.buffer.length ≤ d.buffer.length := by
  have := length_next_le d
  rw [nextAtEnd]
  split
  · next rest h =>
    rw [h] at this
    split <;> exact this
  · exact this

/-- Reading a message after the end uses up at least four bytes. -/
theorem length_of_nextAtEnd {d rest : Decoder} {message : Message}
    (h : d.nextAtEnd = (.ok (some message), rest)) : rest.buffer.length + 4 ≤ d.buffer.length := by
  rw [nextAtEnd] at h
  split at h
  · split at h <;> cases h
  · exact length_of_next h

end Decoder

end PeerWire
