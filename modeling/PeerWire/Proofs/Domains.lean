import PeerWire.Wire.Decoder

/-!
# Operations with a domain

Some operations make sense only on a part of what they can be applied to: a number is taken only
from one that is not smaller, sums and products have to fit into a machine word, and a slice has to
lie within the bytes it is cut from. Here each of them gives nothing outside its domain, and reading
from a stream is written out in terms of them, step by step. Main statement: whatever bytes have
arrived, reading a message never leaves the domain of an operation, and gives what it should.
-/

namespace PeerWire

namespace Word

/-- How many numbers a machine word can tell apart. -/
def bound : Nat := 18446744073709551616

/-- The sum of two numbers, if it fits into a word. -/
def add? (m n : Nat) : Option Nat := if m + n < bound then some (m + n) else none

/-- The product of two numbers, if it fits into a word. -/
def mul? (m n : Nat) : Option Nat := if m * n < bound then some (m * n) else none

/-- The difference of two numbers, if the second one is not larger. -/
def sub? (m n : Nat) : Option Nat := if n ≤ m then some (m - n) else none

/-- A sum that fits is formed. -/
theorem add?_of_lt {m n : Nat} (h : m + n < bound) : add? m n = some (m + n) := if_pos h

/-- A product that fits is formed. -/
theorem mul?_of_lt {m n : Nat} (h : m * n < bound) : mul? m n = some (m * n) := if_pos h

/-- A number is taken from one that is not smaller. -/
theorem sub?_of_le {m n : Nat} (h : n ≤ m) : sub? m n = some (m - n) := if_pos h

end Word

namespace Bytes

/-- The bytes from one position up to another, if both are within the bytes and in order. -/
def slice? (first last : Nat) (bytes : Bytes) : Option Bytes :=
  if first ≤ last ∧ last ≤ bytes.length then some ((bytes.take last).drop first) else none

/-- The bytes behind the first so many, if there are so many. -/
def advance? (n : Nat) (bytes : Bytes) : Option Bytes :=
  if n ≤ bytes.length then some (bytes.drop n) else none

/-- The number that the first four bytes spell and the bytes behind them, if there are four. -/
def takeWord? : Bytes → Option (Nat × Bytes)
  | a :: b :: c :: d :: rest => some (word a b c d, rest)
  | _ => none

/-- The bytes with others copied over those from one position up to another, if both positions are
within the bytes and in order, and there are as many others as fit between them. -/
def copyInto? (first last : Nat) (others bytes : Bytes) : Option Bytes :=
  if first ≤ last ∧ last ≤ bytes.length ∧ others.length = last - first then
    some (writeAt first others bytes)
  else none

/-- Bytes that are there are passed. -/
theorem advance?_of_le {n : Nat} {bytes : Bytes} (h : n ≤ bytes.length) :
    advance? n bytes = some (bytes.drop n) := if_pos h

/-- Bytes are copied over as many that are there. -/
theorem copyInto?_of_le {first last : Nat} {others bytes : Bytes}
    (h : first + others.length = last) (hlast : last ≤ bytes.length) :
    copyInto? first last others bytes = some (writeAt first others bytes) :=
  if_pos ⟨by omega, hlast, by omega⟩

end Bytes

namespace Message

/-- Takes the three numbers that name a block off a payload. -/
def checkedBlock (payload : Bytes) : Option Block := do
  let (index, rest) ← Bytes.takeWord? payload
  let (offset, rest) ← Bytes.takeWord? rest
  let (length, _) ← Bytes.takeWord? rest
  some ⟨index, offset, length⟩

/-- Takes the two numbers in front of the bytes of a block off a payload. -/
def checkedFragment (payload : Bytes) : Option Fragment := do
  let (index, rest) ← Bytes.takeWord? payload
  let (offset, data) ← Bytes.takeWord? rest
  some ⟨index, offset, data⟩

/-- Reads a payload that has to have some size, with nothing taken off it before its size is
known. -/
def checkedSize (size : Nat) (payload : Bytes) (read : Option Message) : Option (Option Message) :=
  if payload.length = size then read.map some else some none

/-- The message that a payload of a known kind spells, if it has the size that the kind asks. -/
def checkedBody (id : UInt8) (payload : Bytes) : Option (Option Message) :=
  match id.toNat with
  | 0 => checkedSize 0 payload (some choke)
  | 1 => checkedSize 0 payload (some unchoke)
  | 2 => checkedSize 0 payload (some interested)
  | 3 => checkedSize 0 payload (some notInterested)
  | 4 => checkedSize 4 payload ((Bytes.takeWord? payload).map fun word ↦ announce word.1)
  | 5 => some (some (bitfield (Bitfield.ofBytes payload)))
  | 6 => checkedSize 12 payload ((checkedBlock payload).map request)
  | 7 => if 8 < payload.length then (checkedFragment payload).map (some ∘ piece) else some none
  | 8 => checkedSize 12 payload ((checkedBlock payload).map cancel)
  | _ => some none

/-- Nothing has to be taken off an empty payload. -/
theorem checkedSize_nothing (message : Message) (payload : Bytes) :
    checkedSize 0 payload (some message) = some (ofNothing message payload) := by
  cases payload <;> rfl

/-- A number is taken off four bytes. -/
theorem checkedSize_number (payload : Bytes) :
    checkedSize 4 payload ((Bytes.takeWord? payload).map fun word ↦ announce word.1) =
      some (ofNumber announce payload) := by
  by_cases hsize : payload.length = 4
  · match payload, hsize with
    | [a, b, c, d], _ => rfl
  · rw [checkedSize, if_neg hsize, ofNumber.eq_def]
    split
    · simp at hsize
    · rfl

/-- Three numbers are taken off twelve bytes. -/
theorem checkedSize_block (make : Block → Message) (payload : Bytes) :
    checkedSize 12 payload ((checkedBlock payload).map make) = some (ofBlock make payload) := by
  by_cases hsize : payload.length = 12
  · match payload, hsize with
    | [a, b, c, d, e, f, g, h, i, j, k, l], _ => rfl
  · rw [checkedSize, if_neg hsize, ofBlock.eq_def]
    split
    · simp at hsize
    · rfl

/-- Two numbers are taken off more than eight bytes. -/
theorem checkedFragment_eq (payload : Bytes) :
    (if 8 < payload.length then (checkedFragment payload).map (some ∘ piece) else some none) =
      some (ofFragment payload) := by
  by_cases hsize : 8 < payload.length
  · match payload, hsize with
    | a :: b :: c :: d :: e :: f :: g :: h :: first :: rest, hsize =>
      rw [if_pos hsize]
      rfl
  · rw [if_neg hsize, ofFragment.eq_def]
    split
    · simp at hsize
    · rfl

/-- Whatever a payload holds, numbers are taken off it only where they are. -/
theorem checkedBody_eq (id : UInt8) (payload : Bytes) :
    checkedBody id payload = some (ofBody? id payload) := by
  rw [checkedBody, ofBody?]
  obtain _ | _ | _ | _ | _ | _ | _ | _ | _ | _ := id.toNat
  · exact checkedSize_nothing choke payload
  · exact checkedSize_nothing unchoke payload
  · exact checkedSize_nothing interested payload
  · exact checkedSize_nothing notInterested payload
  · exact checkedSize_number payload
  · rfl
  · exact checkedSize_block request payload
  · exact checkedFragment_eq payload
  · exact checkedSize_block cancel payload
  · rfl

end Message

namespace Decoder

/-- Drops what has arrived of the bytes to be dropped. -/
def checkedDiscard (d : Decoder) : Option Decoder := do
  let available := min d.skip d.buffer.length
  let buffer ← Bytes.advance? available d.buffer
  let skip ← Word.sub? d.skip available
  some { d with skip := skip, buffer := buffer }

/-- Bytes are only dropped where they are. -/
theorem checkedDiscard_eq (d : Decoder) : d.checkedDiscard = some d.discard := by
  have hadvance := Bytes.advance?_of_le (Nat.min_le_right d.skip d.buffer.length)
  have hsub := Word.sub?_of_le (Nat.min_le_left d.skip d.buffer.length)
  have hskip : d.skip - min d.skip d.buffer.length = d.skip - d.buffer.length := by omega
  have hdrop : d.buffer.drop (min d.skip d.buffer.length) = d.buffer.drop d.skip := by
    by_cases hle : d.skip ≤ d.buffer.length
    · rw [Nat.min_eq_left hle]
    · have hlt := Nat.le_of_not_le hle
      rw [Nat.min_eq_right hlt, List.drop_length, List.drop_of_length_le hlt]
  simp only [checkedDiscard, hadvance, hsub, Option.bind_eq_bind, Option.bind_some, discard, hskip,
    hdrop]

/-- What a look at the buffer comes to. -/
inductive Turn where
  /-- It tells something, if only that too little has arrived. -/
  | stops (result : Except FrameFault (Option Message)) (rest : Decoder)
  /-- It passes over a frame of an unknown kind. -/
  | passes (rest : Decoder)

/-- What the front of a buffer comes to. -/
def turnOf (d : Decoder) : Front → Turn
  | .incomplete => .stops (.ok none) d
  | .unknown rest => .passes rest
  | .message message rest => .stops (.ok (some message)) rest
  | .tooLong length => .stops (.error (.tooLong length d.limit)) d
  | .badPayload size id rest => .stops (.error (.payloadSize size id.toNat)) rest

/-- Looks at the buffer once. -/
def turn (d : Decoder) : Turn :=
  if 0 < d.discard.skip then .stops (.ok none) d.discard else d.discard.turnOf d.discard.front

/-- Takes a whole frame of a known kind off the buffer. -/
def checkedFrame (d : Decoder) (length : Nat) (id : UInt8) : Option Turn := do
  let behind ← Bytes.advance? 5 d.buffer
  let size ← Word.sub? length 1
  let (payload, rest) ← Bytes.split? size behind
  match ← Message.checkedBody id payload with
  | some message => some (.stops (.ok (some message)) { d with buffer := rest })
  | none =>
    some (.stops (.error (.payloadSize payload.length id.toNat)) { d with buffer := rest })

/-- The length number at the front of a buffer: its four bytes are copied out and read. -/
def checkedLength (buffer : Bytes) : Option Nat := do
  let front ← Bytes.slice? 0 4 buffer
  let lengthBytes ← Bytes.copyInto? 0 4 front (List.replicate 4 0)
  let (length, _) ← Bytes.takeWord? lengthBytes
  some length

/-- Looks at a buffer with a length number at its front. -/
def checkedFront (d : Decoder) (length : Nat) : Option Turn :=
  if length = 0 then do
    let rest ← Bytes.advance? 4 d.buffer
    some (.stops (.ok (some .keepAlive)) { d with buffer := rest })
  else if d.buffer.length < 5 then some (.stops (.ok none) d)
  else do
    let id ← d.buffer[4]?
    if Frame.lastKnown < id then
      let rest ← Bytes.advance? 5 d.buffer
      let skip ← Word.sub? length 1
      some (.passes { d with skip := skip, buffer := rest })
    else if d.limit < length then some (.stops (.error (.tooLong length d.limit)) d)
    else
      let whole ← Word.add? 4 length
      if d.buffer.length < whole then
        let _room ← Word.sub? whole d.buffer.length
        some (.stops (.ok none) d)
      else d.checkedFrame length id

/-- Looks at the buffer once. -/
def checkedTurn (d : Decoder) : Option Turn := do
  let d ← d.checkedDiscard
  if 0 < d.skip ∨ d.buffer.length < 4 then some (.stops (.ok none) d)
  else
    let length ← checkedLength d.buffer
    d.checkedFront length

/-- A whole frame of a known kind is taken off where it is. -/
theorem checkedFrame_eq {d : Decoder} {length : Nat} {id : UInt8} {a b c e : UInt8}
    {behind : Bytes} (hbuffer : d.buffer = a :: b :: c :: e :: id :: behind) (hpos : length ≠ 0)
    (hlimit : ¬ d.limit < length) (hwhole : ¬ behind.length + 5 < 4 + length) :
    d.checkedFrame length id = some (d.turnOf (d.bodyFront length id behind)) := by
  have hadvance : Bytes.advance? 5 d.buffer = some behind := by
    rw [hbuffer]
    exact Bytes.advance?_of_le (by simp)
  have hsub : Word.sub? length 1 = some (length - 1) := Word.sub?_of_le (by omega)
  rw [checkedFrame, hadvance, hsub, bodyFront, if_neg hlimit]
  cases hsplit : Bytes.split? (length - 1) behind with
  | none =>
    have := Bytes.split?_eq_none_iff.mp hsplit
    omega
  | some parts =>
    obtain ⟨payload, rest⟩ := parts
    simp only [Option.bind_eq_bind, Option.bind_some, hsplit, Message.checkedBody_eq]
    cases Message.ofBody? id payload <;> rfl

/-- The length number is read where there are four bytes. -/
theorem checkedLength_eq (a b c e : UInt8) (behind : Bytes) :
    checkedLength (a :: b :: c :: e :: behind) = some (Bytes.word a b c e) := by
  have hslice : Bytes.slice? 0 4 (a :: b :: c :: e :: behind) = some [a, b, c, e] :=
    if_pos ⟨by decide, by simp⟩
  rw [checkedLength, hslice]
  rfl

/-- A buffer with a length number at its front is looked at where it has bytes. -/
theorem checkedFront_eq {d : Decoder} {a b c e : UInt8} {behind : Bytes} {length : Nat}
    (hbuffer : d.buffer = a :: b :: c :: e :: behind) (hlength : length < Bytes.wordBound) :
    d.checkedFront length = some (d.turnOf (d.frameFront length behind)) := by
  rw [checkedFront, frameFront.eq_def]
  by_cases hzero : length = 0
  · have hadvance : Bytes.advance? 4 d.buffer = some behind := by
      rw [hbuffer]
      exact Bytes.advance?_of_le (by simp)
    rw [if_pos hzero, if_pos hzero, hadvance]
    rfl
  · rw [if_neg hzero, if_neg hzero]
    cases behind with
    | nil =>
      rw [if_pos (by simp [hbuffer])]
      rfl
    | cons id behind =>
      have hlength : d.buffer.length = behind.length + 5 := by simp [hbuffer]
      have hid : d.buffer[4]? = some id := by rw [hbuffer]; rfl
      rw [if_neg (by omega), hid]
      simp only [Option.bind_eq_bind, Option.bind_some]
      by_cases hknown : Frame.lastKnown < id
      · have hadvance : Bytes.advance? 5 d.buffer = some behind := by
          rw [hbuffer]
          exact Bytes.advance?_of_le (by simp)
        have hsub : Word.sub? length 1 = some (length - 1) := Word.sub?_of_le (by omega)
        rw [if_pos hknown, if_pos hknown, hadvance, hsub]
        rfl
      · rw [if_neg hknown, if_neg hknown]
        by_cases hlimit : d.limit < length
        · rw [if_pos hlimit, bodyFront, if_pos hlimit]
          rfl
        · have hadd : Word.add? 4 length = some (4 + length) := by
            apply Word.add?_of_lt
            simp only [Bytes.wordBound, Word.bound] at *
            omega
          rw [if_neg hlimit, hadd, Option.bind_some, hlength]
          by_cases hshort : behind.length + 5 < 4 + length
          · have hsplit : Bytes.split? (length - 1) behind = none :=
              Bytes.split?_eq_none_iff.mpr (by omega)
            rw [if_pos hshort, Word.sub?_of_le (Nat.le_of_lt hshort), bodyFront, if_neg hlimit,
              hsplit]
            rfl
          · rw [if_neg hshort]
            exact checkedFrame_eq hbuffer hzero hlimit hshort

/-- Four bytes that are there can be told from those behind them. -/
theorem exists_of_four_le {bytes : Bytes} (h : ¬ bytes.length < 4) :
    ∃ a b c e behind, bytes = a :: b :: c :: e :: behind := by
  match bytes, Nat.le_of_not_lt h with
  | a :: b :: c :: e :: behind, _ => exact ⟨a, b, c, e, behind, rfl⟩

/-- Whatever has arrived, the buffer is looked at where it has bytes. -/
theorem checkedTurn_eq (d : Decoder) : d.checkedTurn = some d.turn := by
  rw [checkedTurn, checkedDiscard_eq, turn]
  simp only [Option.bind_eq_bind, Option.bind_some]
  generalize d.discard = d
  by_cases hskip : 0 < d.skip
  · rw [if_pos (.inl hskip), if_pos hskip]
  · rw [if_neg hskip]
    by_cases hshort : d.buffer.length < 4
    · have hfront : d.front = .incomplete := by
        rw [front]
        split
        · next hbuffer =>
          rw [hbuffer] at hshort
          simp only [List.length_cons] at hshort
          omega
        · rfl
      rw [if_pos (.inr hshort), hfront]
      rfl
    · obtain ⟨a, b, c, e, behind, hbuffer⟩ := exists_of_four_le hshort
      have hfront : d.front = d.frameFront (Bytes.word a b c e) behind := by rw [front, hbuffer]
      have hlength : checkedLength d.buffer = some (Bytes.word a b c e) := by
        rw [hbuffer, checkedLength_eq]
      rw [if_neg (not_or.mpr ⟨hskip, hshort⟩), hlength, Option.bind_some, hfront]
      exact checkedFront_eq hbuffer (Bytes.word_lt a b c e)

/-- After passing over a frame of an unknown kind there are fewer bytes. -/
theorem length_of_passes {d rest : Decoder} (h : d.checkedTurn = some (.passes rest)) :
    rest.buffer.length < d.buffer.length := by
  rw [checkedTurn_eq, Option.some.injEq, turn] at h
  have hdiscard := length_discard_le d
  split at h
  · cases h
  · cases hfront : d.discard.front with
    | unknown rest' =>
      rw [hfront] at h
      cases h
      have := length_of_unknown hfront
      omega
    | _ =>
      rw [hfront] at h
      cases h

/-- The next message, if a whole one has arrived, and the decoder behind it. -/
def checkedNext (d : Decoder) : Option (Except FrameFault (Option Message) × Decoder) :=
  match _h : d.checkedTurn with
  | none => none
  | some (.stops result rest) => some (result, rest)
  | some (.passes rest) => checkedNext rest
termination_by d.buffer.length
decreasing_by exact length_of_passes _h

/-- A message is read as one look after the other tells. -/
theorem next_eq_turn (d : Decoder) :
    d.next = match d.turn with
      | .stops result rest => (result, rest)
      | .passes rest => rest.next := by
  rw [turn]
  by_cases hskip : 0 < d.discard.skip
  · rw [next_of_skip hskip, if_pos hskip]
  · rw [next, if_neg hskip, if_neg hskip]
    cases d.discard.front <;> rfl

/-- Whatever has arrived, the next message is read within the domains of all operations. -/
theorem checkedNext_eq (d : Decoder) : d.checkedNext = some d.next := by
  fun_induction checkedNext d with
  | case1 d hturn =>
    rw [checkedTurn_eq] at hturn
    cases hturn
  | case2 d result rest hturn =>
    rw [checkedTurn_eq, Option.some.injEq] at hturn
    rw [next_eq_turn, hturn]
  | case3 d rest hturn ih =>
    rw [checkedTurn_eq, Option.some.injEq] at hturn
    rw [ih, next_eq_turn d, hturn]

/-- The next message once the stream has ended, read step by step. -/
def checkedNextAtEnd (d : Decoder) :
    Option (Except FrameFault (Option Message) × Decoder) := do
  match ← d.checkedNext with
  | (.ok none, rest) =>
    if rest.buffer = [] ∧ rest.skip = 0 then some (.ok none, rest)
    else some (.error (.truncated rest.buffer.length), rest)
  | result => some result

/-- Once the stream has ended the next message is read within the domains of all operations. -/
theorem checkedNextAtEnd_eq (d : Decoder) : d.checkedNextAtEnd = some d.nextAtEnd := by
  rw [checkedNextAtEnd, checkedNext_eq, nextAtEnd]
  simp only [Option.bind_eq_bind, Option.bind_some]
  obtain ⟨fault | found, rest⟩ := d.next
  · rfl
  · cases found with
    | none => exact (apply_ite some _ _ _).symm
    | some message => rfl

end Decoder

end PeerWire
