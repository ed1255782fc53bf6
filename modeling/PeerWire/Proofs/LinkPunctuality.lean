import PeerWire.Link.Framed
import PeerWire.Link.Queues
import PeerWire.Link.Script
import PeerWire.Proofs.Punctuality
import PeerWire.Proofs.Tapped

/-!
# Links and deadlines

A message that a link has by some moment is received by a deadline at that moment, and one that
comes later is not waited for any longer than that. Main statement: this holds of queues, of
scripts, of byte streams, whose own limits only come on top, and of each link that is tapped.
-/

namespace PeerWire

open Activity

namespace Timeline

variable {α : Type}

/-- What is left of a timeline after a wait for a moment; what was broken off goes on up to that
moment. -/
def left (moment : Nat) (cues : Timeline α) : Ending Unit → Timeline α
  | .done () => cues
  | _ => .pauseUntil moment :: cues

/-- Waits up to a moment before what comes next on a timeline. -/
def waiting (moment : Nat) (cues : Timeline α) : Activity (Timeline α) Unit := fun scope clock _ ↦
  let wait := clock.waitUntil scope moment
  ⟨wait.1, wait.2, left moment cues wait.1⟩

/-- Waits for what comes next on a timeline. -/
def awaitNext : Activity (Timeline α) (Option α) := next

/-- A wait on a timeline is a wait, and then what comes after it. -/
theorem after_eq_bind (moment : Nat) (cues s : Timeline α) (scope : Scope) (clock : Clock) :
    (after moment cues scope clock fun clock ↦ next scope clock cues) =
      (waiting moment cues >>= fun _ ↦ awaitNext) scope clock s := by
  rw [bind_apply, after, waiting]
  generalize clock.waitUntil scope moment = wait
  obtain ⟨ending, later⟩ := wait
  cases ending <;> rfl

/-- After a wait the rest of the timeline is there. -/
theorem state_of_waiting {moment : Nat} {cues s t : Timeline α} {scope : Scope}
    {clock later : Clock} (h : waiting moment cues scope clock s = ⟨.done (), later, t⟩) :
    t = cues := by
  rw [waiting] at h
  generalize clock.waitUntil scope moment = wait at h
  obtain ⟨ending, after⟩ := wait
  cases ending with
  | done _ =>
    cases h
    rfl
  | _ => cases h

/-- A wait on a timeline is punctual. -/
theorem punctual_waiting (moment : Nat) (cues : Timeline α) : Punctual (waiting moment cues) :=
  fun scope clock s ↦ (punctual_waitUntil moment scope clock s).map
    (fun o ↦ ⟨o.ending, o.clock, left moment cues o.ending⟩)
    (fun _ ↦ rfl) (fun _ ↦ Iff.rfl) fun _ _ h ↦ h

/-- Waiting for what comes next on a timeline is punctual. -/
theorem punctual_awaitNext : Punctual (awaitNext (α := α)) := by
  intro scope clock cues
  induction cues generalizing scope clock with
  | nil => exact punctual_pure (σ := Timeline α) none scope clock []
  | cons cue cues ih =>
    have hafter (moment : Nat) : Timely clock scope fun scope ↦
        (after moment cues scope clock fun clock ↦ next scope clock cues) := by
      simp only [after_eq_bind moment cues cues]
      apply timely_bind (punctual_waiting moment cues scope clock cues)
      intro _ middle t hwait
      rw [state_of_waiting hwait]
      exact ih scope middle
    cases cue with
    | item value => exact punctual_change (fun _ ↦ (some value, cues)) scope clock cues
    | pause length => exact hafter (clock.now + length)
    | pauseUntil moment => exact hafter moment
    | fail error => exact punctual_fail error scope clock cues
    | stop =>
      obtain ⟨hforward, hexpired, hcut⟩ :=
        punctual_never (α := Option α) scope clock.stop (.stop :: cues)
      exact ⟨hforward, hexpired, hcut⟩
    | hang => exact punctual_never scope clock (.hang :: cues)

end Timeline

/-- A deadline only cuts short what is received from queues. -/
theorem Queues.punctual_receive : Punctual (Link.receive (σ := Queues)) := by
  show Punctual Queues.receive
  apply punctual_bind (punctual_change _)
  intro message
  cases message with
  | some message => exact punctual_pure message
  | none => exact punctual_never

/-- A deadline only cuts short what is received from a script. -/
theorem Script.punctual_receive : Punctual (Link.receive (σ := Script)) := by
  have hnext : Punctual (onPart Script.acts (fun s acts ↦ { s with acts := acts })
      Timeline.awaitNext) := punctual_onPart Timeline.punctual_awaitNext
  apply punctual_repeatUntil
  apply punctual_bind hnext
  intro act
  cases act with
  | none => exact punctual_fail _
  | some act => exact punctual_change _

/-- A deadline only cuts short what is read from a byte stream. -/
theorem ByteStream.punctual_read : Punctual ByteStream.read := by
  have hnext : Punctual (onPart incoming (fun s incoming ↦ { s with incoming := incoming })
      Timeline.awaitNext) := punctual_onPart Timeline.punctual_awaitNext
  apply punctual_repeatUntil
  apply punctual_bind hnext
  intro chunk
  match chunk with
  | none => exact punctual_pure _
  | some [] => exact punctual_pure _
  | some (first :: others) => exact punctual_pure _

namespace Framed

/-- A deadline only cuts short a step towards a message. -/
theorem punctual_round : Punctual round := by
  have hclose : Punctual closeOnce :=
    punctual_bind (punctual_modify _) fun _ ↦ punctual_fail _
  have hdecode : Punctual decodeNext :=
    punctual_bind (punctual_change _) fun result ↦ punctual_ofExcept result
  have hread : Punctual readNext := by
    apply punctual_bind (punctual_attempt (punctual_onPart ByteStream.punctual_read))
    intro result
    apply punctual_bind (punctual_change _)
    intro outcome
    exact punctual_bind (punctual_ofExcept outcome) fun _ ↦ punctual_pure none
  intro scope clock f
  simp only [round]
  cases f.phase with
  | faulted => exact hclose scope clock f
  | decoding => exact hdecode scope clock f
  | reading => exact hread scope clock f

/-- A deadline only cuts short what is received over a byte stream, like the limit that the stream
has itself. -/
theorem punctual_receive : Punctual (Link.receive (σ := Framed)) := by
  have hround : Punctual receiveRound := by
    apply punctual_get_bind
    intro f
    apply punctual_bind punctual_now
    intro start
    apply punctual_bind
    · exact punctual_within (punctual_repeatUntil punctual_round) (punctual_fail _)
    · intro message
      split <;> exact punctual_pure _
  exact punctual_repeatUntil hround

end Framed

/-- A deadline only cuts short what is received over a tapped link, if it does so over the link. -/
theorem Tapped.punctual_receive {σ : Type} [Link σ] (h : Punctual (Link.receive (σ := σ))) :
    Punctual (Link.receive (σ := Tapped σ)) := by
  show Punctual Tapped.receive
  apply punctual_bind (punctual_onPart h)
  intro message
  exact punctual_bind (punctual_modify _) fun _ ↦ punctual_pure message

end PeerWire
