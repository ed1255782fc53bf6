import PeerWire.Link.Queues
import PeerWire.Proofs.Failures

/-!
# How links fail

Queues never fail. A script fails with what it says, at its end, and when sending breaks down. A
byte stream fails with what it brings, at its end, when frames cannot be read, when a message takes
too long, and when there is no more room. Main statement: if certain failures include these, then
the links have no others.
-/

namespace PeerWire

open Activity

variable {E : Error → Prop}

namespace Timeline

variable {α : Type}

/-- Every failure that a timeline brings is one of certain failures. -/
def FailsWith (E : Error → Prop) (cues : Timeline α) : Prop :=
  ∀ error, Cue.fail error ∈ cues → E error

/-- What is left of a timeline brings no other failures. -/
theorem FailsWith.of_cons {cue : Cue α} {cues : Timeline α} (h : FailsWith E (cue :: cues)) :
    FailsWith E cues :=
  fun error hmem ↦ h error (List.mem_cons_of_mem _ hmem)

/-- A cue that is no failure may stand in front. -/
theorem FailsWith.cons {cue : Cue α} {cues : Timeline α} (h : FailsWith E cues)
    (hcue : ∀ error, cue ≠ .fail error) : FailsWith E (cue :: cues) := by
  intro error hmem
  rcases List.mem_cons.mp hmem with heq | hmem
  · exact absurd heq.symm (hcue error)
  · exact h error hmem

/-- A wait within a timeline fails as what comes after it does. -/
theorem holds_after {moment : Nat} {cues : Timeline α} {scope : Scope} {clock : Clock}
    {rest : Clock → Outcome (Timeline α) (Option α)} (hcues : FailsWith E cues)
    (hrest : ∀ clock, (Aftermath.keeping E (FailsWith E)).Holds (rest clock)) :
    (Aftermath.keeping E (FailsWith E)).Holds (after moment cues scope clock rest) := by
  have hnever := Clock.waitUntil_ne_failed clock scope moment
  have hback : FailsWith E (.pauseUntil moment :: cues) := hcues.cons nofun
  rw [after]
  generalize clock.waitUntil scope moment = wait at hnever ⊢
  obtain ⟨ending, later⟩ := wait
  cases ending with
  | done value => exact hrest later
  | failed error => exact absurd rfl (hnever error)
  | expired => exact hback
  | interrupted => exact hback
  | stuck => exact hback

/-- Waiting for what comes fails only with the failures that the timeline brings. -/
theorem failsOnly_next : FailsOnly E (FailsWith E) (next (α := α)) := by
  have hnever :
      FailsOnly E (FailsWith E) (never : Activity (Timeline α) (Option α)) :=
    leads_never fun _ h ↦ h
  intro scope clock cues hcues
  induction cues generalizing clock with
  | nil => exact hcues
  | cons cue cues ih =>
    have hrest := hcues.of_cons
    cases cue with
    | item value => exact hrest
    | pause length => exact holds_after hrest fun clock ↦ ih clock hrest
    | pauseUntil moment => exact holds_after hrest fun clock ↦ ih clock hrest
    | fail error => exact ⟨hcues error List.mem_cons_self, hrest⟩
    | stop => exact hnever scope clock.stop _ hcues
    | hang => exact hnever scope clock _ hcues

end Timeline

namespace Queues

/-- Queues never fail. -/
theorem linkFailsOnly : LinkFailsOnly E fun _ : Queues ↦ True where
  receive := by
    apply leads_bind (M := fun _ _ ↦ True) (leads_change fun _ _ ↦ trivial)
    intro message
    cases message with
    | some message => exact leads_pure fun _ _ ↦ trivial
    | none => exact leads_never fun _ _ ↦ trivial
  send _ := leads_modify fun _ _ ↦ trivial

end Queues

namespace Script

/-- What a script fails with is among certain failures. -/
def FailsWith (E : Error → Prop) (s : Script) : Prop := s.acts.FailsWith E

/-- Performing an act leaves the failures that a script brings. -/
theorem failsWith_perform {act : Act} {s : Script} (h : s.FailsWith E) :
    (perform act s).2.FailsWith E := by
  rw [perform.eq_def]
  split
  · exact h
  · exact h
  · split
    · exact h
    · exact Timeline.FailsWith.cons h (by simp)
  · split <;> exact h
  · exact h

/-- A script fails with what it says, at its end, or when sending breaks down. -/
theorem linkFailsOnly (hend : E .connectionClosed) (hbreak : E (.scripted .brokenPipe)) :
    LinkFailsOnly E (FailsWith E) where
  receive := by
    have hnext : FailsOnly E (FailsWith E) nextAct := by
      intro scope clock s hs
      exact (Timeline.failsOnly_next scope clock s.acts hs).mono (fun _ _ h ↦ h) (fun _ _ h ↦ h)
        fun _ h ↦ h
    have hround : FailsOnly E (FailsWith E) round := by
      apply leads_bind hnext
      intro act
      cases act with
      | none => exact leads_fail fun _ h ↦ ⟨hend, h⟩
      | some act => exact leads_change fun _ h ↦ failsWith_perform h
    exact failsOnly_repeatUntil hround
  send message := by
    show FailsOnly E (FailsWith E) (Script.send message)
    apply failsOnly_get_bind
    intro s
    split
    · exact leads_fail fun _ h ↦ ⟨hbreak, h⟩
    · split
      · exact leads_never fun _ h ↦ h
      · exact leads_modify fun _ h ↦ h

end Script

namespace ByteStream

/-- What the bytes of a stream bring fails with certain failures. -/
def FailsWith (E : Error → Prop) (s : ByteStream) : Prop := s.incoming.FailsWith E

/-- Reading fails only with the failures that the stream brings. -/
theorem failsOnly_read : FailsOnly E (FailsWith E) read := by
  have hnext : FailsOnly E (FailsWith E) nextChunk := by
    intro scope clock s hs
    exact (Timeline.failsOnly_next scope clock s.incoming hs).mono (fun _ _ h ↦ h) (fun _ _ h ↦ h)
      fun _ h ↦ h
  have hround : FailsOnly E (FailsWith E) chunkRound := by
    apply leads_bind hnext
    intro chunk
    match chunk with
    | none => exact leads_pure fun _ h ↦ h
    | some [] => exact leads_pure fun _ h ↦ h
    | some (first :: others) => exact leads_pure fun _ h ↦ h
  exact failsOnly_repeatUntil hround

/-- Writing fails only when there is no more room. -/
theorem failsOnly_write (hbreak : E (.scripted .brokenPipe)) (bytes : Bytes) :
    FailsOnly E (FailsWith E) (write bytes) := by
  apply failsOnly_get_bind
  intro s
  split
  · exact leads_modify fun _ h ↦ h
  · apply leads_bind (M := fun _ ↦ FailsWith E)
    · exact leads_modify fun _ h ↦ h
    · intro _
      split
      · exact leads_pure fun _ h ↦ h
      · exact leads_fail fun _ h ↦ ⟨hbreak, h⟩

end ByteStream

namespace Framed

/-- What the stream beneath brings fails with certain failures. -/
def FailsWith (E : Error → Prop) (f : Framed) : Prop := f.stream.FailsWith E

/-- Working on the stream fails as the work does. -/
theorem failsOnly_onStream {α : Type} {x : Activity ByteStream α}
    (hx : FailsOnly E (ByteStream.FailsWith E) x) :
    FailsOnly E (FailsWith E) (onPart stream (fun f stream ↦ { f with stream := stream }) x) := by
  apply leads_onPart
  intro f hf
  apply hx.of_imp
  rintro _ rfl
  exact hf

/-- Looking for a message fails at the end or when a frame cannot be read. -/
theorem failsOnly_decodeNext (hend : E .connectionClosed)
    (hmalformed : ∀ fault, E (.malformedMessage fault)) :
    FailsOnly E (FailsWith E) decodeNext := by
  apply leads_bind (M := Reports E (FailsWith E))
  · apply leads_change
    intro f hf
    rw [decode]
    split
    · exact ⟨hf, by simp⟩
    · refine ⟨hf, ?_⟩
      intro error herror
      split at herror
      · cases herror
        exact hend
      · cases herror
    · refine ⟨hf, ?_⟩
      rintro _ ⟨⟩
      exact hmalformed _
  · intro result
    exact failsOnly_ofExcept result

/-- Reading what arrives fails at the end or as the stream does. -/
theorem failsOnly_readNext (hend : E .connectionClosed) :
    FailsOnly E (FailsWith E) readNext := by
  refine leads_bind (failsOnly_attempt (failsOnly_onStream ByteStream.failsOnly_read)) ?_
  intro result
  apply leads_bind (M := Reports E (FailsWith E))
  · apply leads_change
    rintro f ⟨hf, herror⟩
    rw [takeIn.eq_def]
    split
    · exact ⟨hf, by simp⟩
    · split
      · refine ⟨hf, ?_⟩
        rintro _ ⟨⟩
        exact hend
      · exact ⟨hf, by simp⟩
    · next error =>
      refine ⟨hf, ?_⟩
      rintro _ ⟨⟩
      exact herror error rfl
  · intro outcome
    exact leads_bind (failsOnly_ofExcept outcome) fun _ ↦ leads_pure fun _ h ↦ h

/-- Receiving keeps what waiting for a message of any kind keeps, and fails as that does or when a
message takes too long. -/
theorem failsOnly_receive {P : Framed → Prop} (hmessage : FailsOnly E P nextMessage)
    (hlate : ∀ limit, E (.connection (.timedOut .read limit))) :
    FailsOnly E P (Link.receive (σ := Framed)) := by
  have hround : FailsOnly E P receiveRound := by
    apply failsOnly_get_bind
    intro f
    apply leads_bind (M := fun _ ↦ P)
    · exact leads_now fun _ _ h ↦ h
    · intro start
      apply leads_bind (M := fun _ ↦ P)
      · exact leads_within hmessage (leads_fail fun _ h ↦ ⟨hlate _, h⟩) fun _ h ↦ h
      · intro message
        split <;> exact leads_pure fun _ h ↦ h
  exact failsOnly_repeatUntil hround

/-- Frames fail as the stream does, at its end, when they cannot be read, when a message takes too
long, and when there is no more room. -/
theorem linkFailsOnly (hend : E .connectionClosed)
    (hmalformed : ∀ fault, E (.malformedMessage fault))
    (hlate : ∀ limit, E (.connection (.timedOut .read limit)))
    (hbreak : E (.scripted .brokenPipe)) : LinkFailsOnly E (FailsWith E) where
  receive := by
    have hclose : FailsOnly E (FailsWith E) closeOnce := by
      apply leads_bind (M := fun _ ↦ FailsWith E)
      · exact leads_modify fun _ h ↦ h
      · exact fun _ ↦ leads_fail fun _ h ↦ ⟨hend, h⟩
    have hround : FailsOnly E (FailsWith E) round := by
      intro scope clock f hf
      rw [round]
      split
      · exact hclose scope clock f hf
      · exact failsOnly_decodeNext hend hmalformed scope clock f hf
      · exact failsOnly_readNext hend scope clock f hf
    exact failsOnly_receive (failsOnly_repeatUntil hround) hlate
  send message := by
    apply leads_bind (failsOnly_onStream (ByteStream.failsOnly_write hbreak _))
    exact fun _ ↦ leads_modify fun _ h ↦ h

end Framed

end PeerWire
