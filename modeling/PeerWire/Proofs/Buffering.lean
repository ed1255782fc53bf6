import Mathlib.Algebra.GroupWithZero.Nat
import PeerWire.Proofs.Canonical

/-!
# What a decoder holds

A decoder holds the bytes that it cannot use yet. It refuses a frame that is too long before the
payload arrives, and lets go of the payload of an unknown kind as it arrives, so whatever length a
frame claims to have, it holds no more than a frame within the limit. Main statement: a decoder
that waits for more holds few bytes, none of them while it drops a payload, and of all bytes that
have arrived none is lost: they are the frames that were given, refused or dropped, what has
arrived of a frame that is being dropped, and what is held.
-/

namespace PeerWire

/-- What a decoder answers when it is asked: a message, or that more has to arrive, or a fault. -/
abbrev Decoder.Answer : Type := Except FrameFault (Option Message)

/-- What became of a frame that a decoder no longer holds. -/
inductive Fate where
  /-- It was given as a message. -/
  | given (message : Message)
  /-- It was refused, since its payload does not have the size that its kind asks. -/
  | refused (id : UInt8) (payload : Bytes)
  /-- It was dropped, since its kind has no meaning. -/
  | dropped (id : UInt8) (payload : Bytes)
deriving DecidableEq, Repr

namespace Fate

/-- The frame. -/
def frame : Fate → Frame
  | given message => message.frame
  | refused id payload => .body id payload
  | dropped id payload => .body id payload

/-- The frame as bytes. -/
def bytes (fate : Fate) : Bytes := fate.frame.bytes

/-- The fate is one that a decoder with this limit has in store for the frame. -/
def Fits (limit : Nat) : Fate → Prop
  | given message => message.frame.Acceptable limit
  | refused id payload =>
    Frame.Known (.body id payload) ∧ Frame.length (.body id payload) ≤ limit ∧
      Message.ofBody? id payload = none
  | dropped id payload => Frame.Foreign (.body id payload)

/-- What the decoder has answered about the frame; it says nothing about one that is dropped. -/
def answer? : Fate → Option Decoder.Answer
  | given message => some (.ok (some message))
  | refused id payload => some (.error (.payloadSize payload.length id.toNat))
  | dropped _ _ => none

/-- The frame, if it was dropped. -/
def dropped? : Fate → Option Frame
  | dropped id payload => some (.body id payload)
  | _ => none

end Fate

namespace Decoder

/-! ### Answers -/

/-- An answer is about a frame that is used up by it, rather than about one that is too long and is
left where it is, or about none. -/
def usesUp : Answer → Bool
  | .ok (some _) => true
  | .error (.payloadSize _ _) => true
  | _ => false

/-- The number of bytes that an answer uses up. -/
def answerSize : Answer → Nat
  | .ok (some message) => message.wireSize
  | .error (.payloadSize size _) => 5 + size
  | _ => 0

/-- What is left of a decoder to which bytes arrive or that is asked. -/
def perform (d : Decoder) : Handling → Decoder
  | .feed bytes => d.feed bytes
  | .ask => d.next.2

/-- What is left of a decoder after all that; it is asked again also after a fault. -/
def run (d : Decoder) (handlings : List Handling) : Decoder := handlings.foldl perform d

/-- What a decoder answers whenever it is asked. -/
def answers (d : Decoder) : List Handling → List Answer
  | [] => []
  | .feed bytes :: handlings => (d.feed bytes).answers handlings
  | .ask :: handlings => d.next.1 :: d.next.2.answers handlings

variable {d rest : Decoder}

/-! ### Waiting for more -/

/-- While a payload is being dropped nothing is held. -/
theorem buffer_discard_of_skip (h : 0 < d.discard.skip) : d.discard.buffer = [] := by
  have hskip : 0 < d.skip - d.buffer.length := h
  exact List.drop_eq_nil_of_le (by omega)

/-- Asking a decoder leaves its limit as it is. -/
theorem limit_next (d : Decoder) : d.next.2.limit = d.limit := by
  fun_induction next d with
  | case1 | case2 | case5 => rfl
  | case3 d _ passing hfront ih =>
    obtain ⟨id, -, -, -, hpassing⟩ := exists_id_of_unknown hfront
    rw [ih, hpassing]
    rfl
  | case4 d _ message passing hfront =>
    obtain ⟨-, -, -, hpassing⟩ := frame_of_message hfront
    rw [hpassing]
    rfl
  | case6 d _ size id passing hfront =>
    obtain ⟨payload, -, -, -, -, -, -, hpassing⟩ := exists_frame_of_badPayload hfront
    rw [hpassing]
    rfl

/-- Whatever is done with a decoder, its limit stays. -/
theorem limit_run (d : Decoder) (handlings : List Handling) :
    (d.run handlings).limit = d.limit := by
  induction handlings generalizing d with
  | nil => rfl
  | cons handling handlings ih =>
    have hfirst : (d.perform handling).limit = d.limit := by
      cases handling with
      | feed bytes => rfl
      | ask => exact d.limit_next
    exact (ih (d.perform handling)).trans hfirst

/-- A decoder that waits for more has a payload to drop and holds nothing, or holds too little to
tell. -/
theorem waits_of_next (h : d.next = (.ok none, rest)) :
    0 < rest.skip ∧ rest.buffer = [] ∨ rest.skip = 0 ∧ rest.front = .incomplete := by
  fun_induction next d with
  | case1 d hskip =>
    cases h
    exact .inl ⟨hskip, buffer_discard_of_skip hskip⟩
  | case2 d hskip hfront =>
    cases h
    exact .inr ⟨Nat.eq_zero_of_not_pos hskip, hfront⟩
  | case3 d hskip passing hfront ih => exact ih h
  | _ => cases h

/-- Too little to tell is less than a length number and a kind, or than a frame within the limit. -/
theorem length_of_incomplete (h : d.front = .incomplete) :
    d.buffer.length ≤ max 4 (d.limit + 3) := by
  rw [front] at h
  split at h
  · next a b c e behind hbuffer =>
    rw [frameFront.eq_def] at h
    rw [hbuffer]
    simp only [List.length_cons]
    split at h
    · cases h
    · split at h
      · exact Nat.le_max_left 4 _
      · next id behind =>
        split at h
        · cases h
        · rw [bodyFront] at h
          split at h
          · cases h
          · next hlimit =>
            split at h
            · next hshort =>
              have := Bytes.split?_eq_none_iff.mp hshort
              simp only [List.length_cons]
              omega
            · split at h <;> cases h
  · next hshort =>
    rcases hbuffer : d.buffer with _ | ⟨a, _ | ⟨b, _ | ⟨c, _ | ⟨e, behind⟩⟩⟩⟩
    case cons.cons.cons.cons => exact absurd hbuffer (hshort a b c e behind)
    all_goals
      simp only [List.length_cons, List.length_nil]
      omega

/-! ### Where the bytes are -/

/-- What has arrived of a frame of an unknown kind of which so many bytes are still to be dropped,
or nothing when there is none to be dropped. -/
inductive Begun : Nat → Bytes → Prop where
  /-- No frame is being dropped. -/
  | nothing : Begun 0 []
  /-- Its beginning was dropped, and some of its payload is missing. -/
  | unknown {id : UInt8} {arrived : Bytes} {missing : Nat} (unknown : Frame.lastKnown < id)
      (bound : 1 + (arrived.length + missing) < Bytes.wordBound) (some : 0 < missing) :
      Begun missing (Bytes.ofWord (1 + (arrived.length + missing)) ++ id :: arrived)

namespace Begun

variable {missing : Nat} {begun more : Bytes}

/-- When more of the payload arrives, but not all of it, less is to be dropped. -/
theorem append (h : Begun missing begun) (hmore : more.length < missing) :
    Begun (missing - more.length) (begun ++ more) := by
  cases h with
  | nothing => exact absurd hmore (Nat.not_lt_zero _)
  | @unknown id payload _ unknown bound some =>
    have hmissing : payload.length + missing =
        (payload ++ more).length + (missing - more.length) := by
      rw [List.length_append]
      omega
    rw [hmissing] at bound
    rw [List.append_assoc, List.cons_append, hmissing]
    exact .unknown unknown bound (Nat.sub_pos_of_lt hmore)

/-- With the rest of the payload it is a whole frame. -/
theorem complete (h : Begun missing begun) (hmissing : 0 < missing)
    (hmore : more.length = missing) :
    ∃ id payload, Frame.Foreign (.body id payload) ∧
      begun ++ more = (Fate.dropped id payload).bytes := by
  cases h with
  | nothing => exact absurd hmissing (Nat.lt_irrefl 0)
  | @unknown id payload _ unknown bound some =>
    refine ⟨id, payload ++ more, ⟨?_, by simpa [Frame.isKnown] using unknown⟩, ?_⟩
    · rw [Frame.length, List.length_append, hmore]
      exact bound
    · simp [Fate.bytes, Fate.frame, Frame.bytes, hmore]

end Begun

/-- All bytes that have arrived are accounted for: they are frames whose fate is known, which is
what was answered, what has arrived of a frame that is being dropped, and what is held. -/
structure Accounts (fates : List Fate) (begun arrived : Bytes) (given : List Answer) (d : Decoder) :
    Prop where
  /-- No byte is lost. -/
  arrived_eq : arrived = fates.flatMap Fate.bytes ++ (begun ++ d.buffer)
  /-- The fates are what was answered, but for the frames that were dropped. -/
  answers_eq : fates.filterMap Fate.answer? = given.filter usesUp
  /-- Each frame has the fate that the decoder has in store for it. -/
  fits : ∀ fate ∈ fates, fate.Fits d.limit
  /-- No more than one frame is being dropped. -/
  begun : Begun d.skip begun

variable {fates : List Fate} {begun arrived : Bytes} {given : List Answer}

/-- Nothing has arrived at a new decoder. -/
theorem accounts_start (limit : Nat) : Accounts [] [] [] [] (start limit) :=
  ⟨rfl, rfl, by simp, .nothing⟩

namespace Accounts

/-- Bytes that arrive are held. -/
theorem feed (h : Accounts fates begun arrived given d) (bytes : Bytes) :
    Accounts fates begun (arrived ++ bytes) given (d.feed bytes) where
  arrived_eq := by simp [h.arrived_eq]
  answers_eq := h.answers_eq
  fits := h.fits
  begun := h.begun

/-- When no frame is being dropped there is no beginning of one. -/
theorem begun_eq_nil (h : Accounts fates begun arrived given d) (hskip : d.skip = 0) :
    begun = [] := by
  have hbegun := h.begun
  rw [hskip] at hbegun
  cases hbegun with
  | nothing => rfl
  | unknown _ _ some => exact absurd some (Nat.lt_irrefl 0)

/-- A frame is used up, with an answer unless it is dropped. -/
theorem use (h : Accounts fates begun arrived given d) {fate : Fate} (hfits : fate.Fits d.limit)
    (hbytes : begun ++ d.buffer = fate.bytes ++ rest.buffer) (hlimit : rest.limit = d.limit)
    (hskip : rest.skip = 0) {more : List Answer}
    (hanswer : fate.answer?.toList = more.filter usesUp) :
    Accounts (fates ++ [fate]) [] arrived (given ++ more) rest where
  arrived_eq := by
    rw [h.arrived_eq, hbytes]
    simp
  answers_eq := by
    rw [List.filterMap_append, List.filter_append, h.answers_eq, ← hanswer]
    cases hfate : fate.answer? <;> simp [hfate]
  fits := by
    intro other hother
    rw [hlimit]
    obtain hother | hother := List.mem_append.mp hother
    · exact h.fits other hother
    · rwa [List.mem_singleton.mp hother]
  begun := hskip ▸ .nothing

/-- An answer that uses up nothing changes nothing. -/
theorem answer (h : Accounts fates begun arrived given d)
    {more : Answer} (hmore : usesUp more = false) :
    Accounts fates begun arrived (given ++ [more]) d where
  arrived_eq := h.arrived_eq
  answers_eq := by
    rw [h.answers_eq, List.filter_append, List.filter_cons_of_neg (by simp [hmore])]
    simp
  fits := h.fits
  begun := h.begun

/-- A frame is dropped without an answer. -/
theorem drop (h : Accounts fates begun arrived given d) {id : UInt8} {payload : Bytes}
    (hforeign : Frame.Foreign (.body id payload))
    (hbytes : begun ++ d.buffer = (Fate.dropped id payload).bytes ++ rest.buffer)
    (hlimit : rest.limit = d.limit) (hskip : rest.skip = 0) :
    Accounts (fates ++ [.dropped id payload]) [] arrived given rest := by
  have hnothing : (Fate.dropped id payload).answer?.toList = ([] : List Answer).filter usesUp := rfl
  have hfits : (Fate.dropped id payload).Fits d.limit := hforeign
  have hused := h.use hfits hbytes hlimit hskip hnothing
  rwa [List.append_nil] at hused

/-- What is dropped of a payload belongs to the frame that is being dropped, which is dropped
altogether when nothing is missing. -/
theorem discard (h : Accounts fates begun arrived given d) :
    ∃ fates' begun', Accounts fates' begun' arrived given d.discard := by
  by_cases hskip : d.skip = 0
  · rw [discard_of_skip_eq_zero hskip]
    exact ⟨fates, begun, h⟩
  · by_cases hwhole : d.skip ≤ d.buffer.length
    · obtain ⟨id, payload, hforeign, hframe⟩ := h.begun.complete (Nat.pos_of_ne_zero hskip)
        (List.length_take_of_le hwhole)
      have hbytes : begun ++ d.buffer = (Fate.dropped id payload).bytes ++ d.discard.buffer := by
        rw [← hframe, List.append_assoc, Decoder.discard, List.take_append_drop]
      exact ⟨_, _, h.drop hforeign hbytes rfl (Nat.sub_eq_zero_of_le hwhole)⟩
    · have hlt : d.buffer.length < d.skip := Nat.lt_of_not_le hwhole
      have hnil : d.discard.buffer = [] := List.drop_eq_nil_of_le (Nat.le_of_lt hlt)
      refine ⟨fates, begun ++ d.buffer, ?_, h.answers_eq, h.fits, h.begun.append hlt⟩
      rw [h.arrived_eq, hnil, List.append_nil]

/-- When the kind of a frame is unknown, what stands before its payload is dropped. -/
theorem pass (h : Accounts fates [] arrived given d) (hfront : d.front = .unknown rest) :
    ∃ fates' begun', Accounts fates' begun' arrived given rest := by
  obtain ⟨id, hunknown, hbound, hbuffer, hrest⟩ := exists_id_of_unknown hfront
  have hlimit : rest.limit = d.limit := by rw [hrest]
  by_cases hskip : rest.skip = 0
  · rw [hskip] at hbound hbuffer
    have hforeign : Frame.Foreign (.body id []) :=
      ⟨hbound, by simpa [Frame.isKnown] using hunknown⟩
    have hbytes : d.buffer = (Fate.dropped id []).bytes ++ rest.buffer := by
      rw [hbuffer, Fate.bytes, Fate.frame, Frame.bytes, List.append_assoc]
      rfl
    exact ⟨_, _, h.drop hforeign hbytes hlimit hskip⟩
  · refine ⟨fates, Bytes.ofWord (1 + rest.skip) ++ [id], ?_, h.answers_eq, hlimit ▸ h.fits, ?_⟩
    · rw [h.arrived_eq, hbuffer]
      simp
    · have hnone : ([] : Bytes).length + rest.skip = rest.skip := Nat.zero_add _
      have hbegun :
          Begun rest.skip (Bytes.ofWord (1 + (([] : Bytes).length + rest.skip)) ++ [id]) :=
        .unknown hunknown (by rwa [hnone]) (Nat.pos_of_ne_zero hskip)
      rwa [hnone] at hbegun

/-- Asking a decoder loses no byte. -/
theorem next (h : Accounts fates begun arrived given d) :
    ∃ fates' begun', Accounts fates' begun' arrived (given ++ [d.next.1]) d.next.2 := by
  -- what is dropped first leaves no frame that is being dropped, unless more is waited for
  obtain ⟨fates', begun', hdropped⟩ := h.discard
  have hnil (hskip : ¬0 < d.discard.skip) : begun' = [] :=
    hdropped.begun_eq_nil (Nat.eq_zero_of_not_pos hskip)
  fun_induction Decoder.next d generalizing fates begun fates' begun' with
  | case1 | case2 | case5 => exact ⟨_, _, hdropped.answer rfl⟩
  | case3 d hskip passing hfront ih =>
    obtain rfl := hnil hskip
    obtain ⟨_, _, hpassing⟩ := hdropped.pass hfront
    obtain ⟨_, _, hpassing'⟩ := hpassing.discard
    exact ih hpassing _ _ hpassing' fun hskip' ↦
      hpassing'.begun_eq_nil (Nat.eq_zero_of_not_pos hskip')
  | case4 d hskip message passing hfront =>
    obtain rfl := hnil hskip
    obtain ⟨hframe, -, hbuffer, hpassing⟩ := frame_of_message hfront
    have hfits : (Fate.given message).Fits d.discard.limit := hframe
    refine ⟨_, _, hdropped.use hfits hbuffer (by rw [hpassing]) ?_ rfl⟩
    rw [hpassing]
    exact Nat.eq_zero_of_not_pos hskip
  | case6 d hskip size id passing hfront =>
    obtain rfl := hnil hskip
    obtain ⟨payload, rfl, hknown, hbound, hlimit, hnone, hbuffer, hpassing⟩ :=
      exists_frame_of_badPayload hfront
    have hfits : (Fate.refused id payload).Fits d.discard.limit :=
      ⟨⟨hbound, by simpa [Frame.isKnown] using hknown⟩, hlimit, hnone⟩
    refine ⟨_, _, hdropped.use hfits hbuffer (by rw [hpassing]) ?_ rfl⟩
    rw [hpassing]
    exact Nat.eq_zero_of_not_pos hskip

/-- Whatever is done with a decoder, no byte is lost. -/
theorem run (h : Accounts fates begun arrived given d) (handlings : List Handling) :
    ∃ fates' begun', Accounts fates' begun' (arrived ++ handlings.flatMap Handling.bytes)
      (given ++ d.answers handlings) (d.run handlings) := by
  induction handlings generalizing d fates begun arrived given with
  | nil =>
    rw [List.flatMap_nil, answers, List.append_nil, List.append_nil]
    exact ⟨fates, begun, h⟩
  | cons handling handlings ih =>
    rw [List.flatMap_cons, ← List.append_assoc]
    cases handling with
    | feed bytes => exact ih (h.feed bytes)
    | ask =>
      obtain ⟨fates', begun', hnext⟩ := h.next
      rw [Handling.bytes, List.append_nil, answers, ← List.singleton_append, ← List.append_assoc]
      exact ih hnext

end Accounts

/-! ### How many bytes there are -/

/-- A refused frame or a message takes as many bytes as its answer says. -/
theorem answerSize_of_answer? {fate : Fate} {answer : Answer}
    (h : fate.answer? = some answer) : answerSize answer = fate.bytes.length := by
  cases fate with
  | given message =>
    cases h
    exact (Message.length_encode message).symm
  | refused id payload =>
    cases h
    rw [answerSize, Fate.bytes, Fate.frame, Frame.length_bytes, Frame.length]
    omega
  | dropped id payload => cases h

/-- The frames take as many bytes as the answers about them say, and as those take that were
dropped. -/
theorem length_flatMap_bytes (fates : List Fate) :
    (fates.flatMap Fate.bytes).length =
      ((fates.filterMap Fate.answer?).map answerSize).sum +
        ((fates.filterMap Fate.dropped?).map fun frame ↦ frame.bytes.length).sum := by
  induction fates with
  | nil => rfl
  | cons fate fates ih =>
    rw [List.flatMap_cons, List.length_append, ih]
    cases hanswer : fate.answer? with
    | none =>
      cases fate with
      | dropped id payload =>
        simp [hanswer, Fate.dropped?, Fate.bytes, Fate.frame]
        omega
      | _ => cases hanswer
    | some answer =>
      have hdropped : fate.dropped? = none := by
        cases fate with
        | dropped id payload => cases hanswer
        | _ => rfl
      have hsize := answerSize_of_answer? hanswer
      simp [hanswer, hdropped, hsize]
      omega

/-- An answer that uses up no frame uses up nothing. -/
theorem answerSize_of_not_usesUp {answer : Answer} (h : usesUp answer = false) :
    answerSize answer = 0 := by
  unfold usesUp at h
  split at h
  · cases h
  · cases h
  · next hmessage hpayload => rw [answerSize.eq_3 answer hmessage hpayload]

/-- The other answers use up nothing. -/
theorem sum_answerSize_filter (given : List Answer) :
    ((given.filter usesUp).map answerSize).sum = (given.map answerSize).sum := by
  induction given with
  | nil => rfl
  | cons answer given ih =>
    cases husesUp : usesUp answer with
    | true => simp [husesUp, ih]
    | false => simp [husesUp, answerSize_of_not_usesUp husesUp, ih]

/-- Whatever bytes arrive and whenever a new decoder is asked, also after a fault: when it waits for
more it holds no more bytes than a length number or a frame within the limit has that is not whole,
and none while it drops a payload. At any time the bytes that have arrived are, in order, the frames
that were given, refused or dropped, what has arrived of a frame that is being dropped, and what is
held; so they are as many as the answers use up, as were dropped, and as are held. -/
theorem held_accounted (limit : Nat) (handlings : List Handling) :
    let d := (start limit).run handlings
    let given := (start limit).answers handlings
    let arrived := handlings.flatMap Handling.bytes
    (∀ rest, d.next = (.ok none, rest) → rest.buffer.length ≤ max 4 (limit + 3) ∧
        (0 < rest.skip → rest.buffer = [])) ∧
      ∃ (fates : List Fate) (begun : Bytes),
        arrived = fates.flatMap Fate.bytes ++ (begun ++ d.buffer) ∧
        fates.filterMap Fate.answer? = given.filter usesUp ∧
        (∀ fate ∈ fates, fate.Fits limit) ∧ Begun d.skip begun ∧
        arrived.length = (given.map answerSize).sum +
          (((fates.filterMap Fate.dropped?).map fun frame ↦ frame.bytes.length).sum +
            begun.length) + d.buffer.length := by
  intro d given arrived
  have hdlimit : d.limit = limit := limit_run (start limit) handlings
  constructor
  · intro rest hnext
    have hrest : rest.limit = limit := by
      rw [← hdlimit, ← d.limit_next, hnext]
    rcases waits_of_next hnext with ⟨-, hnil⟩ | ⟨hskip, hfront⟩
    · exact ⟨by simp [hnil], fun _ ↦ hnil⟩
    · refine ⟨hrest ▸ length_of_incomplete hfront, fun hpos ↦ ?_⟩
      exact absurd hskip (Nat.ne_of_gt hpos)
  · obtain ⟨fates, begun, h⟩ := (accounts_start limit).run handlings
    have harrived : arrived = fates.flatMap Fate.bytes ++ (begun ++ d.buffer) := h.arrived_eq
    have hanswers : fates.filterMap Fate.answer? = given.filter usesUp := h.answers_eq
    refine ⟨fates, begun, harrived, hanswers, hdlimit ▸ h.fits, h.begun, ?_⟩
    rw [harrived, List.length_append, List.length_append, length_flatMap_bytes, hanswers,
      sum_answerSize_filter]
    omega

/-- The bound is reached by a frame of nine bytes of which the last one is missing. -/
example :
    ((start 9).run [.feed [0, 0, 0, 9, 7, 1], .ask, .feed [2, 3, 4, 5, 6, 7], .ask]).buffer.length =
      max 4 (9 + 3) := by decide +kernel

end Decoder

end PeerWire
