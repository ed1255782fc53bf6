import PeerWire.Proofs.Grammar
import PeerWire.Proofs.Receiving

/-!
# Frames that hold the connection open

A frame that is a message is put out with its last byte, while a frame of an unknown kind is dropped
within the decoder and nobody who waits hears of it. Main statement: who waits for a message does
not give up before the last frame as long as each frame comes soon enough after the last one that is
a message. A frame of an unknown kind does not begin the time anew, so that it is not enough that
each frame comes soon after the one before.
-/

namespace PeerWire

/-- Bytes are frames, each of which is there with its last byte. -/
inductive Completes : List (Dated UInt8) → List (Dated Frame) → Prop where
  /-- There are no more. -/
  | nil : Completes [] []
  /-- There is a frame, and then others. -/
  | frame {front : List (Dated UInt8)} {byte : Dated UInt8} {frame : Frame}
      {bytes : List (Dated UInt8)} {frames : List (Dated Frame)}
      (bytes_eq : (front ++ [byte]).map Dated.value = frame.bytes) (rest : Completes bytes frames) :
      Completes (front ++ byte :: bytes) (⟨byte.moment, frame⟩ :: frames)

/-- A frame whose bytes come at once is there at their moment. -/
theorem Completes.atOnce {bytes : List (Dated UInt8)} {frames : List (Dated Frame)}
    (h : Completes bytes frames) (moment : Nat) (frame : Frame) :
    Completes (frame.bytes.map (⟨moment, ·⟩) ++ bytes) (⟨moment, frame⟩ :: frames) := by
  have hne : frame.bytes ≠ [] := by
    rw [Frame.bytes_eq]
    exact List.append_ne_nil_of_left_ne_nil (List.cons_ne_nil _ _) _
  obtain ⟨front, byte, hbytes⟩ := (List.eq_nil_or_concat frame.bytes).resolve_left hne
  rw [List.concat_eq_append] at hbytes
  have hwhole : (front.map (Dated.mk moment) ++ [Dated.mk moment byte]).map Dated.value =
      frame.bytes := by
    rw [hbytes, List.map_append, List.map_map]
    exact congrArg (· ++ [byte]) (List.map_id front)
  rw [hbytes, List.map_append, List.append_assoc]
  exact .frame hwhole h

namespace Decoder

variable {d : Decoder} {limit : Nat} {frame : Frame}

/-- A new decoder has a whole frame at its front. -/
theorem buffer_start_feed (limit : Nat) (frame : Frame) :
    ((start limit).feed frame.bytes).buffer = frame.bytes ++ [] := by
  rw [buffer_feed, List.append_nil]
  rfl

/-- A new decoder that is given an allowed frame is a new decoder again. -/
theorem exhaust_frame (hframe : frame.Acceptable limit) :
    ((start limit).feed frame.bytes).exhaust false =
      ⟨frame.message?.toList, none, start limit⟩ := by
  have hrest : (start limit).exhaust false = ⟨[], none, start limit⟩ := (spent_start limit).exhaust
  have hread := @exhaust_of_acceptable ((start limit).feed frame.bytes) false [] frame rfl hframe
    (buffer_start_feed limit frame)
  have hsame : ({ (start limit).feed frame.bytes with buffer := [] } : Decoder) = start limit := rfl
  rw [hread, hsame, hrest, Reading.behind, List.append_nil]

/-- Nothing is read from a part of an allowed frame. -/
theorem exhaust_part (hframe : frame.Acceptable limit) {part missing : Bytes}
    (h : part ++ missing = frame.bytes) (hmissing : missing ≠ []) :
    (((start limit).feed part).exhaust false).messages = [] ∧
      (((start limit).feed part).exhaust false).fault? = none := by
  have hwhole := exhaust_frame hframe
  have hnext := next_feed ((start limit).feed part) missing
  rw [feed_feed, h] at hnext
  rcases hfound : ((start limit).feed part).next with ⟨fault | _ | message, rest⟩
  · rw [hfound] at hnext
    rw [exhaust_of_fault hnext] at hwhole
    cases congrArg Reading.fault? hwhole
  · rw [exhaust_of_none hfound]
    exact ⟨rfl, rfl⟩
  · -- what was found would leave the missing bytes behind it, but a whole frame leaves nothing
    rw [hfound] at hnext
    rcases front_of_acceptable hframe (buffer_start_feed limit frame) with
      ⟨said, -, hfront⟩ | ⟨hnone, -⟩
    · have hskip : ((start limit).feed frame.bytes).discard = (start limit).feed frame.bytes :=
        discard_of_skip_eq_zero rfl
      have hsaid := next_of_message (by rw [hskip]; exact Nat.lt_irrefl 0) (hskip ▸ hfront)
      rw [hnext, Prod.mk.injEq] at hsaid
      have hbuffer : rest.buffer ++ missing = [] := congrArg buffer hsaid.2
      exact absurd (List.append_eq_nil_iff.mp hbuffer).2 hmissing
    · rw [exhaust_of_message hnext, hnone] at hwhole
      cases congrArg Reading.messages hwhole

/-- Where nothing is read from parts, the decoder puts out what it reads from the whole, with the
last byte. -/
theorem outputs_of_parts (ends : Option Nat) {front : List (Dated UInt8)} (byte : Dated UInt8)
    (others : List (Dated UInt8))
    (h : ∀ part missing, part ++ missing = front.map Dated.value →
      ((d.feed part).exhaust false).messages = [] ∧ ((d.feed part).exhaust false).fault? = none) :
    d.outputs ends (front ++ byte :: others) =
      let r := (d.feed ((front ++ [byte]).map Dated.value)).exhaust false
      r.outputs byte.moment ++ if r.fault? = none then r.decoder.outputs ends others else [] := by
  induction front generalizing d with
  | nil => rfl
  | cons first front ih =>
    obtain ⟨hmessages, hfault⟩ := h [first.value] (front.map Dated.value) rfl
    have hmore (bytes : Bytes) : (d.feed (first.value :: bytes)).exhaust false =
        (((d.feed [first.value]).exhaust false).decoder.feed bytes).exhaust false := by
      have hsplit : d.feed (first.value :: bytes) = (d.feed [first.value]).feed bytes :=
        (feed_feed d [first.value] bytes).symm
      rcases exhaust_feed (d.feed [first.value]) bytes with ⟨-, -, hread⟩ | ⟨hbad, -⟩
      · rw [hsplit, hread, hmessages, Reading.behind_nil]
      · exact absurd hfault hbad
    have hrest := @ih ((d.feed [first.value]).exhaust false).decoder fun part missing hpart ↦ by
      rw [← hmore]
      exact h (first.value :: part) missing (congrArg (first.value :: ·) hpart)
    have hnothing : ((d.feed [first.value]).exhaust false).outputs first.moment = [] := by
      rw [Reading.outputs, Reading.error?, hmessages, hfault]
      rfl
    rw [← hmore] at hrest
    rw [List.cons_append, outputs, hnothing, if_pos hfault, hrest]
    rfl

/-- What a frame puts out. -/
def said (frame : Dated Frame) : List (Dated Output) :=
  frame.value.message?.toList.map (⟨frame.moment, .ok ·⟩)

/-- What an end puts out behind whole frames. -/
def closing (ends : Option Nat) : List (Dated Output) :=
  ends.toList.map (⟨·, .error .connectionClosed⟩)

/-- A decoder puts out the messages among whole frames, each with the last byte of its frame. -/
theorem outputs_frames (ends : Option Nat) {bytes : List (Dated UInt8)}
    {frames : List (Dated Frame)}
    (hframes : ∀ frame ∈ frames, frame.value.Acceptable limit) (h : Completes bytes frames) :
    (start limit).outputs ends bytes = frames.flatMap said ++ closing ends := by
  induction h with
  | nil =>
    cases ends with
    | none => rfl
    | some moment =>
      simp only [outputs, exhaust_start]
      rfl
  | @frame front byte frame bytes frames bytes_eq rest ih =>
    obtain ⟨hframe, hothers⟩ := List.forall_mem_cons.mp hframes
    rw [outputs_of_parts ends byte bytes fun part missing hpart ↦ ?_]
    · simp only [bytes_eq, exhaust_frame hframe, Reading.outputs, Reading.error?, if_true]
      rw [ih hothers, List.flatMap_cons, List.append_assoc]
      simp [said]
    · rw [List.map_append, ← hpart, List.append_assoc] at bytes_eq
      exact exhaust_part hframe bytes_eq (by simp)

end Decoder

/-- Each thing comes within less than a limit after the last one before it that begins the time
anew, and else after a moment. -/
def Dated.Spaced {α : Type} (restarts : α → Bool) (limit : Nat) : Nat → List (Dated α) → Prop
  | _, [] => True
  | since, first :: others =>
    first.moment < since + limit ∧
      Spaced restarts limit (if restarts first.value then first.moment else since) others

open Decoder

/-- When frames come soon enough after those that are messages, a call whose time is over has waited
for all of them. -/
theorem lt_of_spaced {limit readTimeout since now : Nat} {frames : List (Dated Frame)}
    {ends : Option Nat} {idle rest : List (Dated Output)}
    (hframes : ∀ frame ∈ frames, frame.value.Acceptable limit)
    (hspaced : Dated.Spaced Frame.isKnown readTimeout since frames) (hsince : since ≤ now)
    (h : frames.flatMap said ++ closing ends = idle ++ rest)
    (hlater : ∀ first ∈ rest.head?, Dated.last now idle + readTimeout < first.moment) :
    ∀ frame ∈ frames, frame.moment < Dated.last now idle + readTimeout := by
  induction frames generalizing since now idle with
  | nil => simp
  | cons frame frames ih =>
    obtain ⟨hframe, hothers⟩ := List.forall_mem_cons.mp hframes
    obtain ⟨hfirst, hspaced⟩ := hspaced
    have hlast := Dated.le_last now idle
    refine List.forall_mem_cons.mpr ⟨by omega, ?_⟩
    have hknown := hframe.isSome_message?
    cases hmessage : frame.value.message? with
    | none =>
      rw [hmessage] at hknown
      rw [← hknown] at hspaced
      rw [List.flatMap_cons, said, hmessage] at h
      exact ih hothers hspaced hsince h hlater
    | some message =>
      rw [hmessage] at hknown
      rw [← hknown] at hspaced
      rw [List.flatMap_cons, said, hmessage] at h
      have h : ⟨frame.moment, .ok message⟩ :: (frames.flatMap said ++ closing ends) =
          idle ++ rest := h
      cases idle with
      | nil =>
        have hbehind : now + readTimeout < frame.moment :=
          hlater ⟨frame.moment, .ok message⟩ (by rw [← List.nil_append rest, ← h]; rfl)
        omega
      | cons first idle =>
        obtain ⟨rfl, hrest⟩ := List.cons.inj h
        have hmore : ∀ other ∈ frames,
            other.moment < Dated.last (max now frame.moment) idle + readTimeout :=
          ih hothers hspaced (Nat.le_max_right ..) hrest hlater
        exact hmore

namespace Framed

/-- A call on a stream of whole frames that are allowed, each of which is there at its moment: it
waits for the messages among them, and if each frame comes soon enough after the last one before it
that is a message, its time is not over before all of them are there. -/
theorem receive_frames {stream : ByteStream} {frames : List (Dated Frame)} {limit : Nat}
    (readTimeout : Nat) (clock : Clock) (hincoming : stream.incoming.Scheduled)
    (hframes : ∀ frame ∈ frames, frame.value.Acceptable limit)
    (hcompletes : Completes (stream.incoming.bytes clock.now) frames) :
    ∃ taken rest result finish f,
      Activity.attempt receive Scope.open clock (start stream limit readTimeout) =
          ⟨.done result, ⟨finish, clock.stopAt⟩, f⟩ ∧
        Serves readTimeout clock.now
          (frames.flatMap said ++ closing (stream.incoming.endsAt clock.now)) taken rest result
          finish ∧
        (Dated.Spaced Frame.isKnown readTimeout clock.now frames →
          result = .error (.readTimedOut readTimeout) →
            ∀ frame ∈ frames, frame.moment < finish) := by
  have hawaits := awaits_start hincoming limit readTimeout clock.now
  rw [outputs_frames _ hframes hcompletes] at hawaits
  obtain ⟨taken, rest, result, finish, f, hrun, hserves, -⟩ := serves_receive hawaits
  refine ⟨taken, rest, result, finish, f, hrun, hserves, fun hspaced hresult ↦ ?_⟩
  generalize houtputs : frames.flatMap said ++ closing _ = outputs at hserves
  cases hserves with
  | @gives idle rest output idle_of_mem more inTime =>
    -- the only failure among the outputs is the end
    have hmem : output ∈ frames.flatMap said ++ closing (stream.incoming.endsAt clock.now) := by
      rw [houtputs]
      simp
    obtain ⟨moment, result⟩ := output
    obtain rfl : result = .error (.readTimedOut readTimeout) := hresult
    rcases List.mem_append.mp hmem with hsaid | hend
    · obtain ⟨frame, -, hmem⟩ := List.mem_flatMap.mp hsaid
      obtain ⟨message, -, hmessage⟩ := List.mem_map.mp hmem
      cases hmessage
    · obtain ⟨end', -, hend⟩ := List.mem_map.mp hend
      cases hend
  | late idle_of_mem inTime later =>
    exact lt_of_spaced hframes hspaced (Nat.le_refl _) houtputs later

/-- A sign of life, a frame of an unknown kind, and a message: each of them comes soon enough after
the last one that is a message, and the call has the message. -/
theorem receive_frames_choke :
    let incoming : Timeline Bytes := [.pauseUntil 30, .item [0, 0, 0, 0], .pauseUntil 60,
      .item [0, 0, 0, 1, 9], .pauseUntil 70, .item [0, 0, 0, 1, 0], .hang]
    let frames : List (Dated Frame) := [⟨30, .empty⟩, ⟨60, .body 9 []⟩, ⟨70, .body 0 []⟩]
    Completes (incoming.bytes 0) frames ∧ Dated.Spaced Frame.isKnown 50 0 frames ∧
      ∃ f, Activity.attempt receive Scope.open Clock.zero (start (.start incoming none) 16 50) =
        ⟨.done (.ok .choke), ⟨70, none⟩, f⟩ := by
  intro incoming frames
  have hincoming : incoming.Scheduled :=
    .pauseUntil 30 (.item _ (.pauseUntil 60 (.item _ (.pauseUntil 70 (.item _ (.hang []))))))
  have hcompletes : Completes (incoming.bytes 0) frames :=
    .atOnce (.atOnce (.atOnce .nil 70 (.body 0 [])) 60 (.body 9 [])) 30 .empty
  obtain ⟨taken, rest, result, finish, f, hrun, hserves, -⟩ :=
    @receive_frames (.start incoming none) frames 16 50 Clock.zero hincoming (by decide) hcompletes
  have hchoke : Serves 50 0 [⟨30, .ok .keepAlive⟩, ⟨70, .ok .choke⟩] _ _ (.ok .choke) 70 :=
    .cons rfl (by decide) (.first [] rfl (by decide))
  have hserves : Serves 50 0 [⟨30, .ok .keepAlive⟩, ⟨70, .ok .choke⟩] taken rest result finish :=
    hserves
  obtain ⟨-, -, rfl, rfl⟩ := hserves.unique hchoke
  exact ⟨hcompletes, by simp [Dated.Spaced, frames, Frame.isKnown, Frame.lastKnown], f, hrun⟩

/-- Two allowed frames, each of which is there less than the time of a call after the one before it:
the first one is of an unknown kind, and the time of the call is over before the second one. -/
theorem receive_unknown_timedOut :
    let incoming : Timeline Bytes := [.pauseUntil 30, .item [0, 0, 0, 1, 9], .pauseUntil 60,
      .item [0, 0, 0, 2, 5, 224], .hang]
    let frames : List (Dated Frame) := [⟨30, .body 9 []⟩, ⟨60, .body 5 [224]⟩]
    (incoming.Scheduled ∧ (∀ frame ∈ frames, frame.value.Acceptable 16) ∧
        Completes (incoming.bytes 0) frames ∧ Dated.Spaced (fun _ ↦ true) 50 0 frames) ∧
      ∃ f, Activity.attempt receive Scope.open Clock.zero (start (.start incoming none) 16 50) =
          ⟨.done (.error (.readTimedOut 50)), ⟨50, none⟩, f⟩ ∧
        ∃ last ∈ frames.getLast?, 50 ≤ last.moment := by
  intro incoming frames
  have hincoming : incoming.Scheduled :=
    .pauseUntil 30 (.item _ (.pauseUntil 60 (.item _ (.hang []))))
  have hcompletes : Completes (incoming.bytes 0) frames :=
    .atOnce (.atOnce .nil 60 (.body 5 [224])) 30 (.body 9 [])
  have hframes : ∀ frame ∈ frames, frame.value.Acceptable 16 := by decide
  have hawaits : (start (.start incoming none) 16 50).Awaits 50 0
      ((Decoder.start 16).outputs none (incoming.bytes 0)) := awaits_start hincoming 16 50 0
  rw [outputs_frames none hframes hcompletes] at hawaits
  obtain ⟨taken, rest, result, finish, f, hrun, hserves, -⟩ :=
    @serves_receive Clock.zero _ _ _ hawaits
  have hlate : Serves 50 0 (frames.flatMap said ++ closing none) _ _
      (.error (.readTimedOut 50)) 50 := .nothing (by decide)
  have hserves : Serves 50 0 (frames.flatMap said ++ closing none) taken rest result finish :=
    hserves
  obtain ⟨-, -, rfl, rfl⟩ := hserves.unique hlate
  exact ⟨⟨hincoming, hframes, hcompletes, by simp [Dated.Spaced, frames]⟩, f, hrun, _, rfl,
    by decide⟩

end Framed

end PeerWire
