import PeerWire.Proofs.Grammar

/-!
# Each message has one encoding

What a decoder reads as a message is the message as it is written: behind frames of unknown kinds,
all of which are dropped, stands the frame of the message, and what is left is what stands behind
it. Main statement: bytes from which a message is read fall into these parts in one way only, so
that no two frames of known kinds are read as the same message, and writing the messages that were
read gives back the frames of known kinds.
-/

namespace PeerWire

namespace Frame

/-- A frame of a known kind, whose length can be told. -/
def Known (frame : Frame) : Prop := frame.length < Bytes.wordBound ∧ frame.isKnown = true

/-- A frame of an unknown kind, whose length can be told. -/
def Foreign (frame : Frame) : Prop := frame.length < Bytes.wordBound ∧ frame.isKnown = false

instance (frame : Frame) : Decidable frame.Known := inferInstanceAs (Decidable (_ ∧ _))

instance (frame : Frame) : Decidable frame.Foreign := inferInstanceAs (Decidable (_ ∧ _))

variable {frame other : Frame} {passed others : List Frame} {x y : Bytes}

/-- No frame is of a known and of an unknown kind. -/
theorem Known.not_foreign (h : frame.Known) : ¬frame.Foreign := by
  intro hforeign
  cases h.2.symm.trans hforeign.2

/-- The first frame of a known kind, those before it and the bytes behind it are told apart in one
way only. -/
theorem foreign_append_inj (hpassed : ∀ f ∈ passed, f.Foreign) (hothers : ∀ f ∈ others, f.Foreign)
    (hframe : frame.Known) (hother : other.Known)
    (h : passed.flatMap bytes ++ (frame.bytes ++ x) = others.flatMap bytes ++ (other.bytes ++ y)) :
    passed = others ∧ frame = other ∧ x = y := by
  induction passed generalizing others with
  | nil =>
    cases others with
    | nil => exact ⟨rfl, bytes_append_inj hframe.1 hother.1 h⟩
    | cons first others =>
      have hfirst := hothers first List.mem_cons_self
      rw [List.flatMap_cons, List.append_assoc] at h
      obtain ⟨rfl, -⟩ := bytes_append_inj hframe.1 hfirst.1 h
      exact absurd hfirst hframe.not_foreign
  | cons front passed ih =>
    have hfront := hpassed front List.mem_cons_self
    rw [List.flatMap_cons, List.append_assoc] at h
    cases others with
    | nil =>
      obtain ⟨rfl, -⟩ := bytes_append_inj hfront.1 hother.1 h
      exact absurd hfront hother.not_foreign
    | cons first others =>
      have hfirst := hothers first List.mem_cons_self
      rw [List.flatMap_cons, List.append_assoc] at h
      obtain ⟨rfl, hrest⟩ := bytes_append_inj hfront.1 hfirst.1 h
      obtain ⟨rfl, hsame⟩ := ih (fun f hf ↦ hpassed f (List.mem_cons_of_mem _ hf))
        (fun f hf ↦ hothers f (List.mem_cons_of_mem _ hf)) hrest
      exact ⟨rfl, hsame⟩

/-- The messages of allowed frames are written as the frames of known kinds. -/
theorem flatMap_encode_messages {limit : Nat} {frames : List Frame}
    (h : ∀ frame ∈ frames, frame.Acceptable limit) :
    (frames.filterMap message?).flatMap Message.encode = (frames.filter isKnown).flatMap bytes := by
  rw [← map_frame_messages h, List.flatMap_map]
  rfl

end Frame

namespace Decoder

variable {d rest : Decoder} {message : Message}

/-- The frame of a message that was read is of a known kind. -/
theorem known_of_acceptable {limit : Nat} (h : message.frame.Acceptable limit) :
    message.frame.Known := by
  refine ⟨h.1, ?_⟩
  cases message <;> rfl

/-- A message is read from its frame, which stands behind frames of unknown kinds, and what is left
is what stands behind it. -/
theorem exists_passed_of_next (h : d.next = (.ok (some message), rest)) :
    ∃ passed : List Frame,
      (∀ frame ∈ passed, frame.Acceptable d.limit ∧ frame.isKnown = false) ∧
      message.frame.Acceptable d.limit ∧
      d.discard.buffer = passed.flatMap Frame.bytes ++ (message.encode ++ rest.buffer) ∧
      rest = { d with skip := 0, buffer := rest.buffer } := by
  fun_induction next d with
  | case3 d hskip passing hfront ih =>
    -- a payload that had not arrived would be waited for
    have hwhole : passing.skip ≤ passing.buffer.length := by
      apply Nat.le_of_not_lt
      intro hmissing
      rw [next_of_skip (Nat.sub_pos_of_lt hmissing)] at h
      cases h
    obtain ⟨frame, hframe, hunknown, hbuffer, hpassing⟩ := exists_frame_of_unknown hfront hwhole
    obtain ⟨passed, hpassed, hread, hbehind, hrest⟩ := ih h
    have hlimit : passing.limit = d.limit := by
      rw [discard, Decoder.mk.injEq] at hpassing
      exact hpassing.1
    rw [hlimit] at hpassed hread hrest
    refine ⟨frame :: passed, ?_, hread, ?_, hrest⟩
    · intro other hother
      obtain rfl | hother := List.mem_cons.mp hother
      · exact ⟨hframe, hunknown⟩
      · exact hpassed other hother
    · rw [hbuffer, hbehind, List.flatMap_cons, List.append_assoc]
  | case4 d hskip message' rest' hfront =>
    cases h
    obtain ⟨hframe, -, hbuffer, hrest⟩ := frame_of_message hfront
    refine ⟨[], by simp, hframe, hbuffer, ?_⟩
    have hzero : d.discard.skip = 0 := Nat.eq_zero_of_not_pos hskip
    rw [hrest, hzero]
    rfl
  | _ => cases h

/-- A message that is found is read, whether or not the stream has ended. -/
theorem next_of_look {ended : Bool} (h : d.look ended = (.ok (some message), rest)) :
    d.next = (.ok (some message), rest) := by
  cases ended with
  | false => exact h
  | true =>
    have hend : d.nextAtEnd = (.ok (some message), rest) := h
    rw [nextAtEnd] at hend
    split at hend
    · split at hend <;> cases hend
    · exact hend

/-- Where no allowed frame stands no message is read. -/
theorem messages_of_blocked (hskip : d.skip = 0) (h : Frame.Blocked d.limit d.buffer)
    (ended : Bool) : (d.exhaust ended).messages = [] := by
  rw [exhaust_eq]
  split
  · next message rest hlook =>
    obtain ⟨passed, hpassed, hread, hbuffer, -⟩ := exists_passed_of_next (next_of_look hlook)
    rw [discard_of_skip_eq_zero hskip] at hbuffer
    cases passed with
    | nil => exact absurd ⟨_, hbuffer.symm⟩ (h message.frame hread)
    | cons front passed =>
      rw [List.flatMap_cons, List.append_assoc] at hbuffer
      exact absurd ⟨_, hbuffer.symm⟩ (h front (hpassed front List.mem_cons_self).1)
  · rfl
  · rfl

/-- With nothing to be dropped, bytes from which a message is read are frames of unknown kinds, the
frame of the message, and what is left. -/
theorem exists_foreign_of_next (hskip : d.skip = 0) (h : d.next = (.ok (some message), rest)) :
    ∃ passed : List Frame, (∀ frame ∈ passed, frame.Foreign) ∧ message.frame.Known ∧
      d.buffer = passed.flatMap Frame.bytes ++ (message.encode ++ rest.buffer) ∧
      rest = { d with buffer := rest.buffer } := by
  obtain ⟨passed, hpassed, hframe, hbuffer, hrest⟩ := exists_passed_of_next h
  rw [discard_of_skip_eq_zero hskip] at hbuffer
  rw [← hskip] at hrest
  have hforeign (frame : Frame) (hmem : frame ∈ passed) : frame.Foreign :=
    ⟨(hpassed frame hmem).1.1, (hpassed frame hmem).2⟩
  exact ⟨passed, hforeign, known_of_acceptable hframe, hbuffer, hrest⟩

/-- A frame of a known kind that stands first is that of the message that is read. -/
theorem frame_eq_of_next (hskip : d.skip = 0) (h : d.next = (.ok (some message), rest))
    {frame : Frame} {behind : Bytes} (hframe : frame.Known)
    (hbuffer : d.buffer = frame.bytes ++ behind) : frame = message.frame := by
  obtain ⟨passed, hpassed, hknown, hread, -⟩ := exists_foreign_of_next hskip h
  rw [hbuffer] at hread
  have hnone : ∀ f ∈ ([] : List Frame), f.Foreign := by simp
  exact (Frame.foreign_append_inj hnone hpassed hframe hknown hread).2.1

/-- Where a message is read the bytes are, in one way only, frames of unknown kinds, then a frame of
a known kind, and then something else. The frame is the message as it is written, and what is left
is what stands behind it. So a frame of a known kind that is read as the same message elsewhere is
the same frame. And when one message after the other is read from the bytes, to their end or as far
as they have come, the messages are written as the frames of known kinds in the longest sequence of
allowed frames at their front. -/
theorem next_canonical (d : Decoder) (hskip : d.skip = 0) :
    (∀ message rest, d.next = (.ok (some message), rest) →
      (∃ passed : List Frame, (∀ frame ∈ passed, frame.Foreign) ∧
        d.buffer = passed.flatMap Frame.bytes ++ (message.encode ++ rest.buffer) ∧
        rest = { d with buffer := rest.buffer } ∧
        ∀ (others : List Frame) (frame : Frame) (behind : Bytes),
          (∀ other ∈ others, other.Foreign) → frame.Known →
          d.buffer = others.flatMap Frame.bytes ++ (frame.bytes ++ behind) →
          others = passed ∧ frame = message.frame ∧ behind = rest.buffer) ∧
      ∀ (e left : Decoder) (frame other : Frame) (x y : Bytes), frame.Known → other.Known →
        d.buffer = frame.bytes ++ x → e.buffer = other.bytes ++ y → e.skip = 0 →
        e.next = (.ok (some message), left) → frame = other) ∧
      ∀ ended, ∃ frames : List Frame, Frame.Longest d.limit frames d.buffer ∧
        (d.exhaust ended).messages.flatMap Message.encode =
          (frames.filter Frame.isKnown).flatMap Frame.bytes := by
  refine ⟨fun message rest h ↦ ⟨?_, ?_⟩, fun ended ↦ ?_⟩
  · obtain ⟨passed, hpassed, hknown, hbuffer, hrest⟩ := exists_foreign_of_next hskip h
    refine ⟨passed, hpassed, hbuffer, hrest, ?_⟩
    intro others frame behind hothers hframe hsame
    exact Frame.foreign_append_inj hothers hpassed hframe hknown (hsame.symm.trans hbuffer)
  · intro e left frame other x y hframe hother hx hy hnone he
    exact (frame_eq_of_next hskip h hframe hx).trans (frame_eq_of_next hnone he hother hy).symm
  · obtain ⟨frames, behind, hframes, hbuffer, hblocked⟩ :=
      Frame.exists_frames_append d.limit d.buffer
    refine ⟨frames, hbuffer ▸ hblocked.longest hframes, ?_⟩
    have hbehind := messages_of_blocked (d := { d with buffer := behind }) hskip hblocked ended
    rw [exhaust_of_frames hskip hframes hbuffer, Reading.behind, hbehind, List.append_nil,
      Frame.flatMap_encode_messages hframes]

/-- A frame of an unknown kind, a bitfield of two bytes the last of which is zero, and one byte
more. The bitfield is read with all its bits. -/
theorem next_canonical_bitfield :
    let d : Decoder := ⟨9, 0, [0, 0, 0, 3, 20, 1, 2, 0, 0, 0, 3, 5, 160, 0, 7]⟩
    d.next = (.ok (some (.bitfield (Bitfield.ofBytes [160, 0]))), ⟨9, 0, [7]⟩) ∧
      ∀ (others : List Frame) (frame : Frame) (behind : Bytes),
        (∀ other ∈ others, other.Foreign) → frame.Known →
        d.buffer = others.flatMap Frame.bytes ++ (frame.bytes ++ behind) →
        frame = .body 5 [160, 0] ∧ behind = [7] := by
  intro d
  have hpassing : d.discard.front = .unknown ⟨9, 2, [1, 2, 0, 0, 0, 3, 5, 160, 0, 7]⟩ :=
    (front_of_word (n := 3) rfl (by decide)).trans rfl
  have hmessage : (⟨9, 2, [1, 2, 0, 0, 0, 3, 5, 160, 0, 7]⟩ : Decoder).discard.front =
      .message (.bitfield (Bitfield.ofBytes [160, 0])) ⟨9, 0, [7]⟩ :=
    (front_of_word (n := 3) rfl (by decide)).trans rfl
  have hnext : d.next = (.ok (some (.bitfield (Bitfield.ofBytes [160, 0]))), ⟨9, 0, [7]⟩) :=
    (next_of_unknown (by decide) hpassing).trans (next_of_message (by decide) hmessage)
  obtain ⟨⟨passed, -, -, -, honly⟩, -⟩ := (next_canonical d rfl).1 _ _ hnext
  refine ⟨hnext, fun others frame behind hothers hframe hbuffer ↦ ?_⟩
  obtain ⟨-, hsame, hbehind⟩ := honly others frame behind hothers hframe hbuffer
  exact ⟨hsame, hbehind⟩

end Decoder

end PeerWire
