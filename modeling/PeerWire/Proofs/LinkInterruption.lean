import PeerWire.Link.Framed
import PeerWire.Link.Queues
import PeerWire.Link.Script
import PeerWire.Proofs.Interruption

/-!
# Links that are told to stop

What a link does may be broken off when the session is told to stop, and what was broken off can be
taken up again. A link may itself be what tells the session; a calm one does nothing any more at
that point. Saying something up to a deadline comes to an end in any case. Main statement: this
holds of queues, of scripts and of byte streams.
-/

namespace PeerWire

variable {σ α : Type}

/-- When the session is told to stop a link does what a calm one does, or is interrupted. Sending up
to a deadline comes to an end. -/
structure LinkStops [Link σ] (calm : σ → σ) : Prop where
  /-- Receiving may be interrupted. -/
  receive : Activity.Breakable calm (fun _ _ ↦ True) (Link.receive (σ := σ))
  /-- Sending may be interrupted. -/
  send : ∀ message, Activity.Breakable calm (fun _ _ ↦ True) (Link.send (σ := σ) message)
  /-- Sending up to a deadline comes to an end. -/
  prompt : ∀ message, Activity.Prompt (Link.send (σ := σ) message)

open Activity

/-- Where nothing is asked of states, each of them may come before each other one. -/
instance isPreorder_true : IsPreorder σ fun _ _ ↦ True where
  refl _ := trivial
  trans _ _ _ _ _ := trivial

namespace Timeline

/-- The same cue, except that nothing happens any more instead of telling the session to stop. -/
def calmCue : Cue α → Cue α
  | .stop => .hang
  | cue => cue

/-- The timeline on which nothing tells the session to stop. -/
def calm (cues : Timeline α) : Timeline α := cues.map calmCue

/-- A wait within a timeline may be interrupted, and what comes after it may be, too. -/
theorem cutShort_after {moment now : Nat} {stopAt : Option Nat} {cues s : Timeline α}
    {scope : Scope} {free cut : Clock → Outcome (Timeline α) (Option α)}
    (hrest : ∀ now stopAt, Outcome.CutShort calm (fun _ _ ↦ True) scope s (free ⟨now, none⟩)
      (cut ⟨now, stopAt⟩)) :
    Outcome.CutShort calm (fun _ _ ↦ True) scope s
      (after moment cues.calm scope ⟨now, none⟩ free)
      (after moment cues scope ⟨now, stopAt⟩ cut) := by
  have hwait := Clock.waitUntil_told scope now stopAt moment
  have hback : Timeline.calm (.pauseUntil moment :: cues) = .pauseUntil moment :: cues.calm := rfl
  rw [after, after, ← hback]
  generalize Clock.waitUntil ⟨now, none⟩ scope moment = waitFree at hwait ⊢
  generalize Clock.waitUntil ⟨now, stopAt⟩ scope moment = waitCut at hwait ⊢
  obtain ⟨ending, ⟨later, _⟩⟩ := waitFree
  obtain ⟨huninterrupted, rfl, rfl | ⟨hinterruptible, hcut⟩⟩ := hwait
  · cases ending with
    | done _ => exact hrest later stopAt
    | interrupted => exact absurd rfl huninterrupted
    | _ => exact .same (Ending.map_ne_interrupted huninterrupted) trivial
  · obtain ⟨cutEnding, clock⟩ := waitCut
    obtain rfl : cutEnding = .interrupted := hcut
    cases ending with
    | done _ => exact (hrest later none).of_interrupted trivial hinterruptible trivial
    | interrupted => exact absurd rfl huninterrupted
    | _ =>
      exact .interrupted (Ending.map_ne_interrupted huninterrupted) trivial hinterruptible trivial

/-- Waiting for what comes may be interrupted. -/
theorem breakable_next : Breakable calm (fun _ _ ↦ True) (next (α := α)) := by
  intro scope now stopAt cues
  suffices h : ∀ s, Outcome.CutShort calm (fun _ _ ↦ True) scope s
      (next scope ⟨now, none⟩ (calm cues)) (next scope ⟨now, stopAt⟩ cues) from h cues
  intro s
  induction cues generalizing now stopAt with
  | nil => exact .same (t := []) nofun trivial
  | cons cue cues ih =>
    have hforever (cue : Cue α) (stopAt : Option Nat) : Outcome.CutShort calm (fun _ _ ↦ True) scope
        s (never scope ⟨now, none⟩ (calm (cue :: cues)) : Outcome (Timeline α) (Option α))
        (never scope ⟨now, stopAt⟩ (cue :: cues)) :=
      (breakable_never scope now stopAt _).of_before trivial
    cases cue with
    | item value => exact .same nofun trivial
    | pause length => exact cutShort_after ih
    | pauseUntil moment => exact cutShort_after ih
    | fail error => exact .same nofun trivial
    | stop => exact hforever .stop _
    | hang => exact hforever .hang stopAt

end Timeline

namespace Queues

/-- Queues never tell anyone to stop, and may be told to at any time. -/
theorem linkStops : LinkStops fun q : Queues ↦ q where
  receive := by
    show Breakable _ _ Queues.receive
    apply breakable_bind (breakable_change (fun _ ↦ rfl) fun _ ↦ trivial)
    intro message
    cases message with
    | some message => exact breakable_pure message
    | none => exact breakable_never
  send _ := breakable_modify (fun _ ↦ rfl) fun _ ↦ trivial
  prompt _ := prompt_modify _

end Queues

namespace Script

/-- The script in which nothing tells the session to stop. -/
def calm (s : Script) : Script := { s with acts := s.acts.calm }

/-- An act is performed alike by a calm script. -/
theorem perform_calm (act : Act) (s : Script) :
    perform act s.calm = ((perform act s).1, (perform act s).2.calm) := by
  cases act with
  | say message => rfl
  | serve times corrupt =>
    cases times with
    | zero => rfl
    | succ times =>
      have hpending : s.calm.pending = s.pending := rfl
      cases h : s.pending with
      | nil => simp only [perform, hpending, h]
      | cons block pending =>
        simp only [perform, hpending, h]
        rfl
  | serveAt position =>
    have hpending : s.calm.pending = s.pending := rfl
    cases h : s.pending[position]? with
    | none => simp only [perform, hpending, h]
    | some block =>
      simp only [perform, hpending, h]
      rfl
  | drop => rfl

/-- A script may be told to stop, and may tell the session to. -/
theorem linkStops : LinkStops calm where
  receive := by
    have hnext : Breakable calm (fun _ _ ↦ True)
        (onPart acts (fun s acts ↦ { s with acts := acts }) Timeline.next) :=
      breakable_onPart Timeline.breakable_next (fun _ ↦ rfl) (fun _ _ ↦ rfl)
        (fun _ _ _ ↦ trivial) fun _ _ _ _ ↦ trivial
    apply breakable_repeatUntil
    apply breakable_bind hnext
    intro act
    cases act with
    | none => exact breakable_fail _
    | some act => exact breakable_change (perform_calm act) fun _ ↦ trivial
  send message := by
    show Breakable calm (fun _ _ ↦ True) (Script.send message)
    refine breakable_get_bind (fun _ ↦ rfl) ?_
    intro s
    split
    · exact breakable_fail _
    · split
      · exact breakable_never
      · exact breakable_modify (fun _ ↦ rfl) fun _ ↦ trivial
  prompt message := by
    show Prompt (Script.send message)
    apply prompt_get_bind
    intro s
    split
    · exact prompt_fail _
    · split
      · exact prompt_never
      · exact prompt_modify _

end Script

namespace ByteStream

/-- The stream of whose bytes none tell the session to stop. -/
def calm (s : ByteStream) : ByteStream := { s with incoming := s.incoming.calm }

/-- Reading may be interrupted. -/
theorem breakable_read : Breakable calm (fun _ _ ↦ True) read := by
  have hnext : Breakable calm (fun _ _ ↦ True)
      (onPart incoming (fun s incoming ↦ { s with incoming := incoming }) Timeline.next) :=
    breakable_onPart Timeline.breakable_next (fun _ ↦ rfl) (fun _ _ ↦ rfl)
      (fun _ _ _ ↦ trivial) fun _ _ _ _ ↦ trivial
  apply breakable_repeatUntil
  apply breakable_bind hnext
  intro chunk
  match chunk with
  | none => exact breakable_pure _
  | some [] => exact breakable_pure _
  | some (first :: others) => exact breakable_pure _

/-- Writing may be interrupted. -/
theorem breakable_write (bytes : Bytes) :
    Breakable calm (fun _ _ ↦ True) (write bytes) := by
  refine breakable_get_bind (fun _ ↦ rfl) ?_
  intro s
  split
  · exact breakable_modify (fun _ ↦ rfl) fun _ ↦ trivial
  · apply breakable_bind
    · exact breakable_modify (fun _ ↦ rfl) fun _ ↦ trivial
    · intro _
      split
      · exact breakable_pure ()
      · exact breakable_fail _

/-- Writing is prompt. -/
theorem prompt_write (bytes : Bytes) : Prompt (write bytes) := by
  apply prompt_get_bind
  intro s
  split
  · exact prompt_modify _
  · apply prompt_bind (prompt_modify _)
    intro _
    split
    · exact prompt_pure ()
    · exact prompt_fail _

end ByteStream

namespace Framed

/-- The framed stream of whose bytes none tell the session to stop. -/
def calm (f : Framed) : Framed := { f with stream := f.stream.calm }

/-- Working on the stream may be interrupted as the work may be. -/
theorem breakable_onStream {x : Activity ByteStream α}
    (hx : Breakable ByteStream.calm (fun _ _ ↦ True) x) :
    Breakable calm (fun _ _ ↦ True)
      (onPart stream (fun f stream ↦ { f with stream := stream }) x) :=
  breakable_onPart hx (fun _ ↦ rfl) (fun _ _ ↦ rfl) (fun _ _ _ ↦ trivial) fun _ _ _ _ ↦ trivial

/-- A calm stream looks for a message alike. -/
theorem decode_calm (f : Framed) : f.calm.decode = (f.decode.1, f.decode.2.calm) := by
  have hended : f.calm.ended = f.ended := rfl
  have hdecoder : f.calm.decoder = f.decoder := rfl
  rw [decode, decode, hended, hdecoder]
  split <;> rfl

/-- A calm stream takes in alike what was read. -/
theorem takeIn_calm (result : Except Error (Option (UInt8 × Bytes))) (f : Framed) :
    takeIn result f.calm = ((takeIn result f).1, (takeIn result f).2.calm) := by
  match result with
  | .ok (some (first, others)) => rfl
  | .ok none =>
    have hended : f.calm.ended = f.ended := rfl
    rw [takeIn, takeIn, hended]
    split <;> rfl
  | .error error => rfl

/-- A step towards a message may be interrupted. -/
theorem breakable_round : Breakable calm (fun _ _ ↦ True) round := by
  have hclose : Breakable calm (fun _ _ ↦ True) closeOnce :=
    breakable_bind (breakable_modify (fun _ ↦ rfl) fun _ ↦ trivial) fun _ ↦ breakable_fail _
  have hdecode : Breakable calm (fun _ _ ↦ True) decodeNext :=
    breakable_bind (breakable_change decode_calm fun _ ↦ trivial)
      fun result ↦ breakable_ofExcept result
  have hread : Breakable calm (fun _ _ ↦ True) readNext := by
    apply breakable_bind (breakable_attempt (breakable_onStream ByteStream.breakable_read))
    intro result
    apply breakable_bind (breakable_change (takeIn_calm result) fun _ ↦ trivial)
    intro outcome
    exact breakable_bind (breakable_ofExcept outcome) fun _ ↦ breakable_pure none
  intro scope now stopAt f
  have hphase : f.calm.phase = f.phase := rfl
  rw [round, round, hphase]
  split
  · exact hclose scope now stopAt f
  · exact hdecode scope now stopAt f
  · exact hread scope now stopAt f

/-- A byte stream with frames may be told to stop, and may tell the session to. -/
theorem linkStops : LinkStops calm where
  receive := by
    have hreceive : Breakable calm (fun _ _ ↦ True) receiveRound := by
      refine breakable_get_bind (fun _ ↦ rfl) ?_
      intro f
      apply breakable_bind breakable_now
      intro start
      apply breakable_bind
      · exact breakable_within (breakable_repeatUntil breakable_round) (breakable_fail _)
      · intro message
        split <;> exact breakable_pure _
    exact breakable_repeatUntil hreceive
  send message :=
    breakable_bind (breakable_onStream (ByteStream.breakable_write _))
      fun _ ↦ breakable_modify (fun _ ↦ rfl) fun _ ↦ trivial
  prompt message :=
    prompt_bind (prompt_onPart (ByteStream.prompt_write _)) fun _ ↦ prompt_modify _

end Framed

end PeerWire
