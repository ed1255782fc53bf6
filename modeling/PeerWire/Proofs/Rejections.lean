import PeerWire.Proofs.LinkFailures
import PeerWire.Proofs.Returning

/-!
# Why candidates are rejected

A candidate is rejected because it cannot be reached, because the handshakes do not fit, or because
it does not pass the gates. Main statement: if certain failures include these and those of the
network, then no candidate is rejected for anything else.
-/

namespace PeerWire

open Activity

variable {σ α : Type} {E : Error → Prop}

/-! ### What may go wrong -/

/-- Certain failures include those of a candidate that is rejected. -/
structure CoversMeeting (E : Error → Prop) : Prop extends CoversGates E where
  /-- The transport fails. -/
  transport : ∀ fault, E (.connection fault)
  /-- The stream ends. -/
  closed : E .connectionClosed
  /-- The handshake is not the expected one. -/
  mismatch : ∀ fault, E (.protocolMismatch fault)
  /-- A frame cannot be read. -/
  malformed : ∀ fault, E (.malformedMessage fault)
  /-- A bitfield has the wrong size. -/
  size : ∀ expected received, E (.bitfieldSize expected received)

namespace ByteStream

/-- Reading a byte fails only with the failures that the stream brings. -/
theorem failsOnly_readByte : FailsOnly E (FailsWith E) readByte := by
  apply leads_bind failsOnly_read
  intro chunk
  match chunk with
  | none => exact leads_pure fun _ h ↦ h
  | some (first, others) =>
    apply leads_bind (M := fun _ ↦ FailsWith E)
    · exact leads_modify fun s hs ↦ Timeline.FailsWith.cons hs nofun
    · exact fun _ ↦ leads_pure fun _ h ↦ h

/-- Reading so many bytes fails only with the failures that the stream brings. -/
theorem failsOnly_readExactly (n : Nat) : FailsOnly E (FailsWith E) (readExactly n) := by
  induction n with
  | zero => exact leads_pure fun _ h ↦ h
  | succ n ih =>
    apply leads_bind failsOnly_readByte
    intro first
    cases first with
    | none => exact leads_pure fun _ h ↦ h
    | some first => exact leads_bind ih fun _ ↦ leads_pure fun _ h ↦ h

end ByteStream

namespace Handshake

/-- A check of a handshake fails because it is not the expected one. -/
theorem failsOnly_checked (hE : CoversMeeting E) (result : Except HandshakeFault α) :
    FailsOnly E (ByteStream.FailsWith E) (checked result) := by
  apply leads_ofExcept
  · exact fun _ _ _ h ↦ h
  · intro error herror s hs
    cases result with
    | ok value => cases herror
    | error fault =>
      cases herror
      exact ⟨hE.mismatch fault, hs⟩

/-- Exchanging handshakes fails as the stream does, or because they do not fit. -/
theorem failsOnly_exchange (hE : CoversMeeting E) (handshake : Handshake) :
    FailsOnly E (ByteStream.FailsWith E) handshake.exchange := by
  have hreceive : FailsOnly E (ByteStream.FailsWith E) receive := by
    apply leads_bind ByteStream.failsOnly_readByte
    intro first
    cases first with
    | none => exact leads_fail fun _ h ↦ ⟨hE.transport _, h⟩
    | some first =>
      apply leads_bind (failsOnly_checked hE _)
      intro _
      apply leads_bind (ByteStream.failsOnly_readExactly _)
      intro others
      cases others with
      | none => exact leads_fail fun _ h ↦ ⟨hE.transport _, h⟩
      | some others => exact failsOnly_checked hE _
  apply leads_bind (ByteStream.failsOnly_write (hE.transport _) _)
  intro _
  apply leads_bind hreceive
  intro remote
  apply leads_bind (failsOnly_checked hE _)
  exact fun _ ↦ leads_pure fun _ h ↦ h

end Handshake

/-- The first steps with a candidate that was reached fail as the stream does, because handshakes do
not fit, or because the candidate does not pass the gates, and no notice is given of them. -/
theorem Job.failsOnly_meet (job : Job) (hE : CoversMeeting E) (outbox : Outbox) :
    FailsOnly E (fun s : Session Framed ↦ s.connection.link.FailsWith E ∧ s.outbox = outbox)
      job.meet := by
  have hgreet : FailsOnly E (fun c : Connection Framed ↦ c.link.FailsWith E)
      (Connection.greet job.config job.torrent.infoHash) := by
    apply leads_bind (M := fun _ c ↦ c.link.FailsWith E) (leads_now fun _ _ h ↦ h)
    intro start
    apply leads_bind (M := fun _ c ↦ c.link.FailsWith E)
    · apply leads_within (M := fun c ↦ c.link.FailsWith E)
      · apply leads_onPart
        intro c hc
        apply (Handshake.failsOnly_exchange hE _).of_imp
        rintro _ rfl
        exact hc
      · exact leads_fail fun _ h ↦ ⟨hE.transport _, h⟩
      · exact fun _ h ↦ h
    · exact fun _ ↦ leads_modify fun _ h ↦ h
  have hlink : LinkFailsOnly E (Framed.FailsWith E) :=
    Framed.linkFailsOnly hE.closed hE.malformed (fun _ ↦ hE.transport _) (hE.transport _)
  have hsenseless (peer : Peer) (message : Message) (error : Error)
      (h : peer.apply message = .error error) : E error := by
    obtain ⟨fault, rfl⟩ | ⟨expected, received, rfl⟩ := Peer.error_of_apply h
    · exact hE.malformed fault
    · exact hE.size expected received
  apply leads_onPart
  rintro s ⟨hs, houtbox⟩
  have hmeet : FailsOnly E (fun c : Connection Framed ↦ c.link.FailsWith E) (do
      Connection.greet job.config job.torrent.infoHash
      passGates) := by
    apply leads_bind hgreet
    intro _
    apply Connection.failsOnly_passGates hE.toCoversGates
    · exact Connection.failsOnly_receiveNext hlink.receive hsenseless
    · exact Connection.failsOnly_send (hlink.send _)
    · exact fun _ h ↦ h
    · exact fun _ _ h ↦ h
  apply hmeet.mono
  · rintro _ rfl
    exact hs
  · exact fun _ _ h ↦ ⟨h, houtbox⟩
  · exact fun _ _ h ↦ ⟨h.1, h.2, houtbox⟩
  · exact fun _ h ↦ ⟨h, houtbox⟩

namespace Dialing

/-- What goes wrong in dialing and on the stream is one of certain failures. -/
structure FailsWith (E : Error → Prop) (dialing : Dialing) : Prop where
  /-- In dialing. -/
  refused : ∀ error, dialing.stream = .error error → E error
  /-- On the stream. -/
  broken : ∀ stream, dialing.stream = .ok stream → stream.FailsWith E

/-- The stream does not tell the session to stop. -/
def Calm (dialing : Dialing) : Prop := ∀ stream, dialing.stream = .ok stream → stream.Calm

variable {dialing : Dialing}

/-- With a limit dialing may also take too long. -/
theorem FailsWith.within (h : dialing.FailsWith E) (hlate : ∀ fault, E (.connection fault))
    (limit : Nat) : (dialing.within limit).FailsWith E := by
  unfold Dialing.within
  split
  · exact h
  · constructor
    · rintro _ ⟨⟩
      exact hlate _
    · nofun

/-- With a limit there is no other stream. -/
theorem Calm.within (h : dialing.Calm) (limit : Nat) : (dialing.within limit).Calm := by
  unfold Dialing.within
  split
  · exact h
  · nofun

end Dialing

namespace Network

/-- What goes wrong on a network is one of certain failures. -/
def FailsWith (E : Error → Prop) (network : Network) : Prop :=
  ∀ index address, (network index address).FailsWith E

/-- Nothing on a network tells the session to stop. -/
def Calm (network : Network) : Prop := ∀ index address, (network index address).Calm

variable {network : Network} {limit : Nat} {addresses : List Address} {candidate : Candidate}

/-- A candidate is one of the addresses, at its position, and was dialed. -/
theorem exists_of_mem_inOrder (h : candidate ∈ network.inOrder limit addresses) :
    ∃ index address, candidate = ⟨index, address, (network index address).within limit⟩ := by
  obtain ⟨index, hindex, rfl⟩ := List.mem_mapIdx.mp h
  exact ⟨index, addresses[index], rfl⟩

end Network

end PeerWire
