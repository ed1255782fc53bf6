import PeerWire.Link.Framed
import PeerWire.Proofs.Agreement
import PeerWire.Proofs.Reading

/-!
# What a framed stream will give

A framed stream has all its bytes ahead of it, so it can be told what it will give and when: the
messages that a chunk completes come with the chunk, after a fault the stream looks once as if it
had ended, and at its end there may be a fault as well. Main statement: waiting for the next message
of a framed stream is taking the next thing off the timeline of what it will give.
-/

namespace PeerWire

/-- What comes is the value; where nothing more comes the connection was closed. -/
def Ending.given {α : Type} : Ending (Option α) → Ending α
  | .done (some value) => .done value
  | .done none => .failed .connectionClosed
  | .failed error => .failed error
  | .expired => .expired
  | .interrupted => .interrupted
  | .stuck => .stuck

/-- Only a wait that has expired gives nothing in time. -/
theorem Ending.given_eq_expired {α : Type} {ending : Ending (Option α)} :
    ending.given = .expired ↔ ending = .expired := by
  rcases ending with (_ | value) | _ | _ | _ | _ <;> simp [given]

/-- Waits for the next thing that comes; at the end of the timeline the connection was closed. -/
def Timeline.take {α : Type} : Activity (Timeline α) α := fun scope clock cues ↦
  let r := Timeline.next scope clock cues
  ⟨r.ending.given, r.clock, r.state⟩

/-- A timeline has ended when nothing is left of it. -/
theorem Timeline.state_of_next_eq_none {α : Type} {scope : Scope} {clock : Clock}
    {cues : Timeline α} (h : (next scope clock cues).ending = .done none) :
    (next scope clock cues).state = [] := by
  induction cues generalizing clock with
  | nil => rfl
  | cons cue cues ih =>
    have hpause (moment : Nat) (hnext : next scope clock (cue :: cues) =
        after moment cues scope clock fun clock ↦ next scope clock cues) :
        (next scope clock (cue :: cues)).state = [] := by
      rw [hnext, after] at h ⊢
      generalize clock.waitUntil scope moment = wait at h ⊢
      obtain ⟨ending, after⟩ := wait
      cases ending with
      | done _ => exact ih h
      | _ => cases h
    have hnever (forever : Clock)
        (hnext : next scope clock (cue :: cues) = Activity.never scope forever (cue :: cues)) :
        (next scope clock (cue :: cues)).state = [] := by
      rw [hnext] at h
      obtain ⟨after, hnever | hnever | hnever⟩ := Activity.never_cases scope forever
      all_goals
        rw [hnever] at h
        cases h
    cases cue with
    | item value => cases h
    | pause length => exact hpause (clock.now + length) rfl
    | pauseUntil moment => exact hpause moment rfl
    | fail error => cases h
    | stop => exact hnever clock.stop rfl
    | hang => exact hnever clock rfl

/-! ### Decoders -/

namespace Decoder

/-- What the bytes that have arrived will give, and the decoder behind that. -/
def drain (ended : Bool) (d : Decoder) : Timeline Message × Decoder :=
  match _h : d.look ended with
  | (.ok (some message), rest) => (.item message :: (drain ended rest).1, (drain ended rest).2)
  | (.ok none, rest) => ([], rest)
  | (.error fault, rest) => ([.fail (.malformedMessage fault), .fail .connectionClosed], rest)
termination_by d.buffer.length
decreasing_by all_goals exact length_of_look _h

/-- What the bytes that are still to come will give. -/
def forecast (d : Decoder) : Timeline Bytes → Timeline Message
  | [] => (d.drain true).1
  | .item [] :: cues => d.forecast cues
  | .item (first :: others) :: cues =>
    let (now, d) := (d.feed (first :: others)).drain false
    now ++ d.forecast cues
  | .pause length :: cues => .pause length :: d.forecast cues
  | .pauseUntil moment :: cues => .pauseUntil moment :: d.forecast cues
  | .fail error :: cues => .fail error :: .fail .connectionClosed :: d.forecast cues
  | .stop :: cues => .stop :: d.forecast cues
  | .hang :: cues => .hang :: d.forecast cues

variable {ended : Bool} {d rest : Decoder}

/-- A message that is there will be given first. -/
theorem drain_of_message {message : Message} (h : d.look ended = (.ok (some message), rest)) :
    d.drain ended = (.item message :: (rest.drain ended).1, (rest.drain ended).2) := by
  rw [drain, h]

/-- Without a message nothing will be given. -/
theorem drain_of_none (h : d.look ended = (.ok none, rest)) : d.drain ended = ([], rest) := by
  rw [drain, h]

/-- After a fault the stream will look as if it had ended. -/
theorem drain_of_fault {fault : FrameFault} (h : d.look ended = (.error fault, rest)) :
    d.drain ended = ([.fail (.malformedMessage fault), .fail .connectionClosed], rest) := by
  rw [drain, h]

end Decoder

/-! ### Byte streams -/

namespace ByteStream

variable {scope : Scope} {clock : Clock} {cues : Timeline Bytes} {written : Bytes}
  {room : Option Nat}

/-- Reading waits for a moment and reads on. -/
theorem read_of_after {incoming : Timeline Bytes} {moment : Nat}
    (h : Timeline.next scope clock incoming =
      Timeline.after moment cues scope clock fun clock ↦ Timeline.next scope clock cues) :
    read scope clock ⟨incoming, written, room⟩ =
      match clock.waitUntil scope moment with
      | (.done (), clock) => read scope clock ⟨cues, written, room⟩
      | (ending, clock) =>
        ⟨ending.map fun _ ↦ none, clock, ⟨.pauseUntil moment :: cues, written, room⟩⟩ := by
  have hround : chunkRound scope clock ⟨incoming, written, room⟩ =
      match clock.waitUntil scope moment with
      | (.done (), clock) => chunkRound scope clock ⟨cues, written, room⟩
      | (ending, clock) =>
        ⟨ending.map fun _ ↦ none, clock, ⟨.pauseUntil moment :: cues, written, room⟩⟩ := by
    simp only [chunkRound, Activity.bind_apply, nextChunk, h, Timeline.after]
    generalize clock.waitUntil scope moment = wait
    obtain ⟨ending, after⟩ := wait
    cases ending <;> rfl
  unfold read
  rw [Activity.repeatUntil_apply, hround]
  generalize clock.waitUntil scope moment = wait
  obtain ⟨ending, after⟩ := wait
  cases ending with
  | done _ => exact (Activity.repeatUntil_apply ..).symm
  | _ => rfl

/-- Reading ends like the wait for something that never comes. -/
theorem read_of_never {incoming : Timeline Bytes} {forever : Clock}
    (h : Timeline.next scope clock incoming = Activity.never scope forever incoming) :
    read scope clock ⟨incoming, written, room⟩ =
      Activity.never scope forever ⟨incoming, written, room⟩ := by
  unfold read
  rw [Activity.repeatUntil_apply]
  simp only [chunkRound, Activity.bind_apply, nextChunk, h]
  obtain ⟨after, hnever | hnever | hnever⟩ := Activity.never_cases scope forever
  all_goals simp only [hnever]

/-- A stream has ended when nothing is left to read. -/
theorem incoming_of_read_eq_none (scope : Scope) (clock : Clock) (s : ByteStream)
    (h : (read scope clock s).ending = .done none) :
    (read scope clock s).state.incoming = [] := by
  have hround {clock : Clock} {s : ByteStream}
      (h : (chunkRound scope clock s).ending = .done (some none)) :
      (chunkRound scope clock s).state.incoming = [] := by
    simp only [chunkRound, Activity.bind_apply, nextChunk] at h ⊢
    cases hnext : (Timeline.next scope clock s.incoming).ending with
    | done chunk =>
      rw [hnext] at h
      rcases chunk with _ | _ | _
      · exact Timeline.state_of_next_eq_none hnext
      · cases h
      · cases h
    | _ =>
      rw [hnext] at h
      cases h
  unfold read at h ⊢
  fun_induction Activity.repeatUntil budget chunkRound _ scope clock s with
  | case1 clock s value hvalue =>
    cases h
    exact hround hvalue
  | case2 clock s _ ih => exact ih h
  | _ => cases h

/-- Reading leaves alone what was written and what room there is. -/
theorem maintains_read (g : ByteStream) :
    Activity.Maintains (fun s ↦ s.written = g.written ∧ s.room = g.room) read := by
  apply Activity.maintains_repeatUntil
  apply Activity.maintains_bind
  · intro scope clock s h
    exact h
  · intro chunk
    rcases chunk with _ | _ | _
    all_goals exact Activity.maintains_pure _

end ByteStream

/-- What a decoder will give after something was read. -/
def Decoder.afterRead (d : Decoder) (scope : Scope)
    (r : Outcome ByteStream (Option (UInt8 × Bytes))) :
    Outcome (Timeline Message) (Option Message) :=
  match r.ending with
  | .done none => Timeline.next scope r.clock (d.drain true).1
  | .done (some (first, others)) =>
    Timeline.next scope r.clock (d.forecast (.item (first :: others) :: r.state.incoming))
  | .failed error =>
    ⟨.failed error, r.clock, .fail .connectionClosed :: d.forecast r.state.incoming⟩
  | .expired => ⟨.expired, r.clock, d.forecast r.state.incoming⟩
  | .interrupted => ⟨.interrupted, r.clock, d.forecast r.state.incoming⟩
  | .stuck => ⟨.stuck, r.clock, d.forecast r.state.incoming⟩

/-- Reading is waiting for what the decoder will give. -/
theorem Decoder.next_forecast (d : Decoder) (scope : Scope) (clock : Clock) (cues : Timeline Bytes)
    (written : Bytes) (room : Option Nat) :
    Timeline.next scope clock (d.forecast cues) =
      d.afterRead scope (ByteStream.read scope clock ⟨cues, written, room⟩) := by
  induction cues generalizing clock with
  | nil =>
    unfold ByteStream.read
    rw [Activity.repeatUntil_apply]
    rfl
  | cons cue cues ih =>
    have hpause (moment : Nat)
        (h : Timeline.next scope clock (cue :: cues) = Timeline.after moment cues scope clock
          fun clock ↦ Timeline.next scope clock cues)
        (h' : Timeline.next scope clock (d.forecast (cue :: cues)) =
          Timeline.after moment (d.forecast cues) scope clock
            fun clock ↦ Timeline.next scope clock (d.forecast cues)) :
        Timeline.next scope clock (d.forecast (cue :: cues)) =
          d.afterRead scope (ByteStream.read scope clock ⟨cue :: cues, written, room⟩) := by
      rw [h', ByteStream.read_of_after h, Timeline.after]
      have hfailed := clock.waitUntil_ne_failed scope moment
      generalize clock.waitUntil scope moment = wait at hfailed ⊢
      obtain ⟨ending, after⟩ := wait
      cases ending with
      | done _ => exact ih after
      | failed error => exact absurd rfl (hfailed error)
      | _ => rfl
    have hnever (forever : Clock)
        (h : Timeline.next scope clock (cue :: cues) = Activity.never scope forever (cue :: cues))
        (h' : Timeline.next scope clock (d.forecast (cue :: cues)) =
          Activity.never scope forever (d.forecast (cue :: cues))) :
        Timeline.next scope clock (d.forecast (cue :: cues)) =
          d.afterRead scope (ByteStream.read scope clock ⟨cue :: cues, written, room⟩) := by
      rw [h', ByteStream.read_of_never h]
      obtain ⟨after, hnever | hnever | hnever⟩ := Activity.never_cases scope forever
      all_goals
        rw [hnever, hnever]
        rfl
    cases cue with
    | item chunk =>
      unfold ByteStream.read
      rw [Activity.repeatUntil_apply]
      cases chunk with
      | nil => exact ih clock
      | cons first others => rfl
    | pause length => exact hpause (clock.now + length) rfl rfl
    | pauseUntil moment => exact hpause moment rfl rfl
    | fail error =>
      unfold ByteStream.read
      rw [Activity.repeatUntil_apply]
      rfl
    | stop => exact hnever clock.stop rfl rfl
    | hang => exact hnever clock rfl rfl

/-! ### Framed streams -/

namespace Framed

/-- What a framed stream will give once there is nothing more to decode. -/
def later (f : Framed) (d : Decoder) : Timeline Message :=
  if f.ended then [] else d.forecast f.stream.incoming

/-- What a framed stream will give. -/
def forecast (f : Framed) : Timeline Message :=
  match f.phase with
  | .faulted => .fail .connectionClosed :: f.later f.decoder
  | .reading => f.later f.decoder
  | .decoding => (f.decoder.drain f.ended).1 ++ f.later (f.decoder.drain f.ended).2

/-- A framed stream will give this, and once its end was found nothing comes behind that. -/
structure Gives (f : Framed) (cues : Timeline Message) : Prop where
  /-- This is what it will give. -/
  forecast : f.forecast = cues
  /-- Nothing comes behind the end. -/
  incoming : f.ended = true → f.stream.incoming = []

variable {scope : Scope} {clock : Clock} {f : Framed} {cues : Timeline Message}

/-- A round of a framed stream gives what comes next or a fault, or goes on to where the same comes
next. -/
def RoundGives (scope : Scope) (clock : Clock) (f : Framed) (cues : Timeline Message) : Prop :=
  Outcome.Alike (fun _ ↦ False) Gives (round scope clock f)
      ((Timeline.take scope clock cues).map some) ∨
    ∃ after f' cues', round scope clock f = ⟨.done none, after, f'⟩ ∧ Gives f' cues' ∧
      Timeline.take scope clock cues = Timeline.take scope after cues'

/-- After a fault the stream looks as if it had ended. -/
theorem roundGives_of_faulted (h : f.Gives cues) (hphase : f.phase = .faulted) :
    RoundGives scope clock f cues := by
  obtain ⟨hforecast, hincoming⟩ := h
  left
  rw [forecast, hphase] at hforecast
  rw [← hforecast, round, hphase]
  exact .same ⟨rfl, hincoming⟩

/-- A message that has arrived is given. -/
theorem decode_of_message {message : Message} {rest : Decoder}
    (h : f.decoder.look f.ended = (.ok (some message), rest)) :
    f.decode = (.ok (some message), { f with decoder := rest }) := by
  unfold Decoder.look at h
  rw [decode, h]

/-- Without a message more has to be read, unless the stream has ended. -/
theorem decode_of_none {rest : Decoder} (h : f.decoder.look f.ended = (.ok none, rest)) :
    f.decode = (if f.ended then .error .connectionClosed else .ok none,
      { f with decoder := rest, phase := .reading }) := by
  unfold Decoder.look at h
  rw [decode, h]

/-- A fault is reported. -/
theorem decode_of_fault {fault : FrameFault} {rest : Decoder}
    (h : f.decoder.look f.ended = (.error fault, rest)) :
    f.decode = (.error (.malformedMessage fault),
      { f with decoder := rest, phase := .faulted }) := by
  unfold Decoder.look at h
  rw [decode, h]

/-- What has arrived gives the next message or a fault, or more has to be read. -/
theorem roundGives_of_decoding (h : f.Gives cues) (hphase : f.phase = .decoding) :
    RoundGives scope clock f cues := by
  obtain ⟨hforecast, hincoming⟩ := h
  have hforecast : (f.decoder.drain f.ended).1 ++ f.later (f.decoder.drain f.ended).2 = cues := by
    rw [← hforecast, forecast, hphase]
  have hround : round scope clock f = decodeNext scope clock f := by rw [round, hphase]
  unfold RoundGives
  rw [hround]
  simp only [decodeNext, Activity.bind_apply, Activity.change]
  rcases hlook : f.decoder.look f.ended with ⟨fault | _ | message, rest⟩
  · left
    rw [decode_of_fault hlook, ← hforecast, Decoder.drain_of_fault hlook]
    exact .same ⟨rfl, hincoming⟩
  · rw [Decoder.drain_of_none hlook] at hforecast
    rw [decode_of_none hlook]
    by_cases hended : f.ended = true
    · left
      rw [← hforecast, later, if_pos hended, if_pos hended]
      refine .same ⟨?_, hincoming⟩
      simp only [forecast, later, if_pos hended]
      rfl
    · right
      rw [if_neg hended]
      exact ⟨clock, _, cues, rfl, ⟨hforecast, hincoming⟩, rfl⟩
  · left
    rw [decode_of_message hlook, ← hforecast, Decoder.drain_of_message hlook]
    refine .same ⟨?_, hincoming⟩
    rw [forecast, hphase]
    rfl

/-- What is read is given in its turn. -/
theorem roundGives_of_reading (h : f.Gives cues) (hphase : f.phase = .reading) :
    RoundGives scope clock f cues := by
  obtain ⟨⟨incoming, written, room⟩, decoder, phase, ended, readTimeout, sent⟩ := f
  obtain ⟨hforecast, hincoming⟩ := h
  obtain rfl : phase = .reading := hphase
  unfold RoundGives
  simp only [round, readNext, Activity.bind_apply, Activity.attempt, readStream, Activity.onPart]
  cases ended with
  | true =>
    left
    obtain rfl : incoming = [] := hincoming rfl
    have hread : ByteStream.read scope clock ⟨[], written, room⟩ =
        ⟨.done none, clock, ⟨[], written, room⟩⟩ := by
      unfold ByteStream.read
      rw [Activity.repeatUntil_apply]
      rfl
    rw [hread, ← hforecast]
    exact .same ⟨rfl, fun _ ↦ rfl⟩
  | false =>
    have hnext : Timeline.next scope clock cues =
        decoder.afterRead scope (ByteStream.read scope clock ⟨incoming, written, room⟩) := by
      rw [← hforecast]
      exact decoder.next_forecast scope clock incoming written room
    have hnone := ByteStream.incoming_of_read_eq_none scope clock ⟨incoming, written, room⟩
    generalize ByteStream.read scope clock ⟨incoming, written, room⟩ = r at hnone hnext ⊢
    obtain ⟨ending, after, stream⟩ := r
    cases ending with
    | done chunk =>
      right
      rcases chunk with _ | ⟨first, others⟩
      · refine ⟨after, _, (decoder.drain true).1, rfl, ⟨List.append_nil _, fun _ ↦ hnone rfl⟩, ?_⟩
        rw [Timeline.take, hnext]
        rfl
      · refine ⟨after, _, _, rfl, ⟨rfl, fun h ↦ absurd h Bool.false_ne_true⟩, ?_⟩
        rw [Timeline.take, hnext]
        rfl
    | failed error =>
      left
      rw [Timeline.take, hnext]
      exact .same ⟨rfl, fun h ↦ absurd h Bool.false_ne_true⟩
    | _ =>
      left
      rw [Timeline.take, hnext]
      exact .same ⟨rfl, fun h ↦ absurd h Bool.false_ne_true⟩

/-- Waiting for the next message of a framed stream is taking the next thing off the timeline of
what it will give. -/
theorem agree_nextMessage :
    Activity.Agree (fun _ ↦ False) Gives nextMessage Timeline.take := by
  have hidle : Activity.AgreeOrIdle (fun _ ↦ False) Gives (fun _ _ ↦ False) .keepAlive nextMessage
      Timeline.take := by
    apply Activity.agreeOrIdle_repeatUntil
    · exact fun _ _ _ h ↦ h
    · intro scope clock f cues h
      have hround : RoundGives scope clock f cues := by
        cases hphase : f.phase with
        | decoding => exact roundGives_of_decoding h hphase
        | reading => exact roundGives_of_reading h hphase
        | faulted => exact roundGives_of_faulted h hphase
      obtain halike | ⟨after, f', cues', hgoes, hgives, hsame⟩ := hround
      · exact .inl halike
      · exact .inr ⟨after, f', cues', hgoes, hgives, .inl hsame⟩
  exact hidle.agree

/-- A framed stream has the same on its own side as another one. -/
structure Beside (g f : Framed) : Prop where
  /-- The same messages were sent. -/
  sent : f.sent = g.sent
  /-- The same bytes were written. -/
  written : f.stream.written = g.stream.written
  /-- There is as much room. -/
  room : f.stream.room = g.stream.room
  /-- A message may take as long to come. -/
  readTimeout : f.readTimeout = g.readTimeout

/-- Waiting for the next message leaves this side alone. -/
theorem maintains_nextMessage (g : Framed) : Activity.Maintains (Beside g) nextMessage := by
  apply Activity.maintains_repeatUntil
  intro scope clock f h
  unfold round
  split
  · exact ⟨h.sent, h.written, h.room, h.readTimeout⟩
  · have hdecode : Activity.Maintains (Beside g) decodeNext := by
      apply Activity.maintains_bind
      · apply Activity.maintains_change
        intro f h
        rw [decode]
        split <;> exact ⟨h.sent, h.written, h.room, h.readTimeout⟩
      · exact Activity.maintains_ofExcept
    exact hdecode scope clock f h
  · have hread : Activity.Maintains (Beside g) readNext := by
      apply Activity.maintains_bind
      · apply Activity.maintains_attempt
        refine Activity.maintains_onPart (ByteStream.maintains_read g.stream) ?_ ?_
        · exact fun f h ↦ ⟨h.written, h.room⟩
        · exact fun f stream h hstream ↦ ⟨h.sent, hstream.1, hstream.2, h.readTimeout⟩
      · intro result
        apply Activity.maintains_bind
        · apply Activity.maintains_change
          intro f h
          rw [takeIn.eq_def]
          split
          · exact ⟨h.sent, h.written, h.room, h.readTimeout⟩
          · split <;> exact ⟨h.sent, h.written, h.room, h.readTimeout⟩
          · exact ⟨h.sent, h.written, h.room, h.readTimeout⟩
        · intro outcome
          exact Activity.maintains_bind (Activity.maintains_ofExcept _) fun _ ↦
            Activity.maintains_pure none
    exact hread scope clock f h

end Framed

end PeerWire
