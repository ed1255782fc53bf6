import PeerWire.Wire.Decoder

/-!
# Everything that a decoder has to give

A decoder is asked for messages until it has none or meets a fault. Bytes that arrive later change
nothing about a message or a fault that is there, and a frame that is there in part is not touched.
Main statement: what a decoder gives of some bytes, and what it is left with, does not depend on how
the bytes are cut and when it is asked.
-/

namespace PeerWire

/-- What came of reading. -/
structure Reading where
  /-- The messages, in order. -/
  messages : List Message
  /-- The fault that ended it, if there was one. -/
  fault? : Option FrameFault
  /-- The decoder that was left. -/
  decoder : Decoder
deriving DecidableEq, Repr

namespace Reading

/-- The same, behind other messages. -/
def behind (messages : List Message) (r : Reading) : Reading :=
  { r with messages := messages ++ r.messages }

/-- The error that ended it, as it is reported. -/
def error? (r : Reading) : Option Error := r.fault?.map .malformedMessage

/-- The same was read, and unless a fault ended it the same is left. -/
structure Alike (r other : Reading) : Prop where
  /-- The messages are the same. -/
  messages : r.messages = other.messages
  /-- The faults are the same. -/
  fault : r.fault? = other.fault?
  /-- The decoders are the same. -/
  decoder : r.fault? = none → r.decoder = other.decoder

variable {r other third : Reading}

@[simp]
theorem behind_nil : r.behind [] = r := rfl

@[simp]
theorem behind_behind (front messages : List Message) :
    (r.behind messages).behind front = r.behind (front ++ messages) := by
  simp [behind]

/-- Every reading is like itself. -/
theorem Alike.refl (r : Reading) : r.Alike r := ⟨rfl, rfl, fun _ ↦ rfl⟩

/-- Likeness goes both ways. -/
theorem Alike.symm (h : r.Alike other) : other.Alike r :=
  ⟨h.messages.symm, h.fault.symm, fun hnone ↦ (h.decoder (h.fault.trans hnone)).symm⟩

/-- Likeness is passed on. -/
theorem Alike.trans (h : r.Alike other) (h' : other.Alike third) : r.Alike third :=
  ⟨h.messages.trans h'.messages, h.fault.trans h'.fault, fun hnone ↦
    (h.decoder hnone).trans (h'.decoder (h.fault.symm.trans hnone))⟩

/-- Behind the same messages likeness stays. -/
theorem Alike.behind (h : r.Alike other) (messages : List Message) :
    (r.behind messages).Alike (other.behind messages) :=
  ⟨congrArg (messages ++ ·) h.messages, h.fault, h.decoder⟩

end Reading

/-- What is done with a decoder. -/
inductive Handling where
  /-- Bytes arrive. -/
  | feed (bytes : Bytes)
  /-- It is asked for one message. -/
  | ask
deriving DecidableEq, Repr

/-- The bytes that arrive. -/
def Handling.bytes : Handling → Bytes
  | feed bytes => bytes
  | ask => []

namespace Decoder

/-- Looks for a message among the bytes that have arrived. -/
def look (ended : Bool) (d : Decoder) : Except FrameFault (Option Message) × Decoder :=
  if ended then d.nextAtEnd else d.next

/-- Looking for a message uses up at least four bytes when there is one. -/
theorem length_of_look {ended : Bool} {d rest : Decoder} {message : Message}
    (h : d.look ended = (.ok (some message), rest)) : rest.buffer.length < d.buffer.length := by
  cases ended with
  | false =>
    have := length_of_next h
    omega
  | true =>
    have := length_of_nextAtEnd h
    omega

/-- Looks for messages until there is none or a fault is met. -/
def exhaust (ended : Bool) (d : Decoder) : Reading :=
  match _h : d.look ended with
  | (.ok (some message), rest) => (exhaust ended rest).behind [message]
  | (.ok none, rest) => ⟨[], none, rest⟩
  | (.error fault, rest) => ⟨[], some fault, rest⟩
termination_by d.buffer.length
decreasing_by exact length_of_look _h

variable {d : Decoder} {ended : Bool}

/-- What is read is decided by what is found first. -/
theorem exhaust_eq (ended : Bool) (d : Decoder) :
    d.exhaust ended =
      match d.look ended with
      | (.ok (some message), rest) => (rest.exhaust ended).behind [message]
      | (.ok none, rest) => ⟨[], none, rest⟩
      | (.error fault, rest) => ⟨[], some fault, rest⟩ := by
  rw [exhaust]
  split <;> simp_all

/-- Decoders that find the same are read in the same way. -/
theorem exhaust_congr {other : Decoder} (h : d.next = other.next) :
    d.exhaust ended = other.exhaust ended := by
  have hlook : d.look ended = other.look ended := by
    simp only [look, nextAtEnd, h]
  rw [exhaust_eq, exhaust_eq ended other, hlook]

/-- A message that is there is read first. -/
theorem exhaust_of_message {rest : Decoder} {message : Message}
    (h : d.next = (.ok (some message), rest)) :
    d.exhaust ended = (rest.exhaust ended).behind [message] := by
  have hlook : d.look ended = (.ok (some message), rest) := by
    simp only [look, nextAtEnd, h, ite_self]
  rw [exhaust_eq, hlook]

/-- A fault that is met ends it. -/
theorem exhaust_of_fault {rest : Decoder} {fault : FrameFault} (h : d.next = (.error fault, rest)) :
    d.exhaust ended = ⟨[], some fault, rest⟩ := by
  have hlook : d.look ended = (.error fault, rest) := by
    simp only [look, nextAtEnd, h, ite_self]
  rw [exhaust_eq, hlook]

/-! ### Bytes that arrive later -/

@[simp]
theorem feed_nil (d : Decoder) : d.feed [] = d := by
  simp [feed]

@[simp]
theorem feed_feed (d : Decoder) (bytes others : Bytes) :
    (d.feed bytes).feed others = d.feed (bytes ++ others) := by
  simp [feed]

/-- The same front of a buffer to which more bytes have arrived. -/
def Front.feed (bytes : Bytes) : Front → Front
  | .incomplete => .incomplete
  | .unknown rest => .unknown (rest.feed bytes)
  | .message said rest => .message said (rest.feed bytes)
  | .tooLong length => .tooLong length
  | .badPayload size id rest => .badPayload size id (rest.feed bytes)

/-- The body of a frame that is there is not changed by bytes that arrive later. -/
theorem bodyFront_feed {length : Nat} {id : UInt8} {behind : Bytes} (bytes : Bytes)
    (h : d.bodyFront length id behind ≠ .incomplete) :
    (d.feed bytes).bodyFront length id (behind ++ bytes) =
      (d.bodyFront length id behind).feed bytes := by
  have hlimits : (d.feed bytes).limit = d.limit := rfl
  simp only [bodyFront, hlimits] at h ⊢
  by_cases hlimit : d.limit < length
  · rw [if_pos hlimit, if_pos hlimit]
    rfl
  · rw [if_neg hlimit] at h ⊢
    rw [if_neg hlimit]
    cases hsplit : Bytes.split? (length - 1) behind with
    | none =>
      rw [hsplit] at h
      exact absurd rfl h
    | some parts =>
      obtain ⟨payload, rest⟩ := parts
      obtain ⟨rfl, hlength⟩ := Bytes.split?_eq_some_iff.mp hsplit
      have hmore : Bytes.split? (length - 1) (payload ++ rest ++ bytes) =
          some (payload, rest ++ bytes) :=
        Bytes.split?_eq_some_iff.mpr ⟨List.append_assoc .., hlength⟩
      rw [hmore]
      dsimp only
      cases Message.ofBody? id payload <;> rfl

/-- What the front of the buffer holds is not changed by bytes that arrive later, unless it was too
little to tell. -/
theorem front_feed (bytes : Bytes) (h : d.front ≠ .incomplete) :
    (d.feed bytes).front = d.front.feed bytes := by
  obtain ⟨limit, skip, buffer⟩ := d
  rcases buffer with _ | ⟨a, _ | ⟨b, _ | ⟨c, _ | ⟨e, behind⟩⟩⟩⟩
  case cons.cons.cons.cons =>
    simp only [front, feed, List.cons_append, frameFront] at h ⊢
    by_cases hzero : Bytes.word a b c e = 0
    · simp only [if_pos hzero]
      rfl
    · simp only [if_neg hzero] at h ⊢
      cases behind with
      | nil => exact absurd rfl h
      | cons id behind =>
        simp only [List.cons_append] at h ⊢
        by_cases hunknown : Frame.lastKnown < id
        · simp only [if_pos hunknown]
          rfl
        · simp only [if_neg hunknown] at h ⊢
          exact bodyFront_feed bytes h
  all_goals exact absurd rfl h

/-- What is to be dropped is dropped once. -/
theorem discard_feed_discard (d : Decoder) (bytes : Bytes) :
    (d.discard.feed bytes).discard = (d.feed bytes).discard := by
  by_cases h : d.skip ≤ d.buffer.length
  · have hzero : d.skip - d.buffer.length = 0 := Nat.sub_eq_zero_of_le h
    have hmore : d.skip - (d.buffer.length + bytes.length) = 0 := by omega
    simp [discard, feed, hzero, hmore, List.drop_append]
  · have hnil : d.buffer.drop d.skip = [] := List.drop_eq_nil_of_le (by omega)
    simp [discard, feed, hnil, List.drop_append, Nat.sub_sub]

/-- When nothing is left to be dropped, bytes that arrive later are not dropped. -/
theorem discard_feed (bytes : Bytes) (h : ¬0 < d.discard.skip) :
    (d.feed bytes).discard = d.discard.feed bytes := by
  have hskip : d.skip - d.buffer.length = 0 := Nat.eq_zero_of_not_pos h
  simp only [discard, feed, mk.injEq, true_and, List.length_append]
  refine ⟨by omega, ?_⟩
  rw [List.drop_append_of_le_length (by omega)]

/-- What is found is decided by what is left when bytes were dropped. -/
theorem next_eq (d : Decoder) :
    d.next =
      if 0 < d.discard.skip then (.ok none, d.discard)
      else
        match d.discard.front with
        | .incomplete => (.ok none, d.discard)
        | .unknown rest => rest.next
        | .message message rest => (.ok (some message), rest)
        | .tooLong length => (.error (.tooLong length d.limit), d.discard)
        | .badPayload size id rest => (.error (.payloadSize size id.toNat), rest) := by
  rw [next]
  split
  · rfl
  · split <;> simp_all

/-- Decoders that are the same once bytes were dropped find the same. -/
theorem next_congr {d other : Decoder} (h : d.discard = other.discard) : d.next = other.next := by
  have hlimit : d.discard.limit = other.discard.limit := congrArg limit h
  change d.limit = other.limit at hlimit
  rw [next_eq, next_eq other, h, hlimit]

/-- What stands behind dropped bytes is found also when bytes have arrived later. -/
theorem front_discard_feed (bytes : Bytes) (hskip : ¬0 < d.discard.skip)
    (hfront : d.discard.front ≠ .incomplete) :
    ¬0 < (d.feed bytes).discard.skip ∧
      (d.feed bytes).discard.front = d.discard.front.feed bytes := by
  rw [discard_feed bytes hskip]
  exact ⟨hskip, front_feed bytes hfront⟩

/-- Bytes that arrive later change nothing about a message or a fault that is there. -/
theorem next_feed (d : Decoder) (bytes : Bytes) :
    (d.feed bytes).next =
      match d.next with
      | (.ok none, rest) => (rest.feed bytes).next
      | (result, rest) => (result, rest.feed bytes) := by
  have hagain (d : Decoder) : (d.feed bytes).next = (d.discard.feed bytes).next :=
    next_congr (discard_feed_discard d bytes).symm
  fun_induction next d with
  | case1 d hskip => exact hagain d
  | case2 d hskip hfront => exact hagain d
  | case3 d hskip rest hfront ih =>
    obtain ⟨hskip', hfed⟩ := front_discard_feed bytes hskip (by simp [hfront])
    rw [← ih, next_of_unknown hskip' (hfed.trans (congrArg (Front.feed bytes) hfront))]
  | case4 d hskip message rest hfront =>
    obtain ⟨hskip', hfed⟩ := front_discard_feed bytes hskip (by simp [hfront])
    exact next_of_message hskip' (hfed.trans (congrArg (Front.feed bytes) hfront))
  | case5 d hskip length hfront =>
    obtain ⟨hskip', hfed⟩ := front_discard_feed bytes hskip (by simp [hfront])
    rw [next_eq, if_neg hskip', hfed, hfront, discard_feed bytes hskip]
    rfl
  | case6 d hskip size id rest hfront =>
    obtain ⟨hskip', hfed⟩ := front_discard_feed bytes hskip (by simp [hfront])
    rw [next_eq, if_neg hskip', hfed, hfront]
    rfl

/-! ### Bytes in parts -/

/-- Bytes arrive and the decoder is asked, up to the first fault; in the end it is asked for all
that is left. -/
def handle (d : Decoder) : List Handling → Reading
  | [] => d.exhaust false
  | .feed bytes :: handlings => (d.feed bytes).handle handlings
  | .ask :: handlings =>
    match d.next with
    | (.ok (some message), rest) => (rest.handle handlings).behind [message]
    | (.ok none, rest) => rest.handle handlings
    | (.error fault, rest) => ⟨[], some fault, rest⟩

/-- What is read in parts is what is read when all bytes arrive at once. -/
theorem alike_exhaust_handle (d : Decoder) (handlings : List Handling) :
    (d.handle handlings).Alike ((d.feed (handlings.flatMap Handling.bytes)).exhaust false) := by
  induction handlings generalizing d with
  | nil =>
    rw [List.flatMap_nil, feed_nil]
    exact .refl _
  | cons handling handlings ih =>
    rw [List.flatMap_cons]
    cases handling with
    | feed bytes =>
      have h := ih (d.feed bytes)
      rw [feed_feed] at h
      exact h
    | ask =>
      -- what is found now is also found first when everything has arrived
      have hnext := next_feed d (handlings.flatMap Handling.bytes)
      rw [handle, Handling.bytes, List.nil_append]
      rcases hfound : d.next with ⟨fault | _ | message, rest⟩
      · rw [hfound] at hnext
        rw [exhaust_of_fault hnext]
        exact ⟨rfl, rfl, nofun⟩
      · rw [hfound] at hnext
        rw [exhaust_congr hnext]
        exact ih rest
      · rw [hfound] at hnext
        rw [exhaust_of_message hnext]
        exact (ih rest).behind [message]

/-- However bytes are cut and whenever a new decoder is asked, it gives the same messages and the
same fault, and without a fault it is left with the same bytes and the same number of bytes to be
dropped. -/
theorem handle_alike (limit : Nat) {handlings others : List Handling}
    (h : handlings.flatMap Handling.bytes = others.flatMap Handling.bytes) :
    ((start limit).handle handlings).Alike ((start limit).handle others) := by
  have hothers := alike_exhaust_handle (start limit) others
  rw [← h] at hothers
  exact (alike_exhaust_handle (start limit) handlings).trans hothers.symm

/-- A frame of an unknown kind and a message, cut within a length number, within the payload that is
dropped and within the message. -/
theorem handle_alike_unknown :
    let cut : List Handling := [.feed [0, 0], .ask, .feed [0, 4, 20, 1], .ask, .ask,
      .feed [2, 3, 0, 0, 0, 5, 4, 0, 0], .ask, .feed [0, 9, 0]]
    let whole : List Handling := [.feed [0, 0, 0, 4, 20, 1, 2, 3, 0, 0, 0, 5, 4, 0, 0, 0, 9, 0]]
    cut.flatMap Handling.bytes = whole.flatMap Handling.bytes ∧
      ((start 16).handle cut).Alike ((start 16).handle whole) ∧
      (start 16).handle whole = ⟨[.announce 9], none, ⟨16, 0, [0]⟩⟩ :=
  ⟨by decide, handle_alike 16 (by decide), by decide +kernel⟩

end Decoder

end PeerWire
