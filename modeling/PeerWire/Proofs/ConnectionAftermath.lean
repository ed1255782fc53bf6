import PeerWire.Connection
import PeerWire.Proofs.Aftermath

/-!
# What connections leave behind

A connection that ends or fails leaves an error, and waiting leaves what each message leaves that is
listened to. Main statements: what is known about listening to one message, and about being too
late, is known about the waits for a description and for leave to request.
-/

namespace PeerWire

variable {σ α : Type}

namespace Connection

open Activity

variable {P : Connection σ → Prop} {F : Error → Connection σ → Prop}
  {q : Aftermath (Connection σ) α} {error : Error}

/-- Ending with an error leaves a connection that has ended. -/
theorem leads_endWith (h : ∀ c, P c → q.failed error (withPeer (·.endWith error) c)) :
    Leads P (endWith error) q := by
  apply leads_bind (M := fun _ ↦ q.failed error)
  · exact leads_modify h
  · exact fun _ ↦ leads_fail fun _ h ↦ h

/-- Failing with an error leaves a connection that has failed. -/
theorem leads_failWith (h : ∀ c, P c → q.failed error (withPeer Peer.fail c)) :
    Leads P (failWith error) q := by
  apply leads_bind (M := fun _ ↦ q.failed error)
  · exact leads_modify h
  · exact fun _ ↦ leads_fail fun _ h ↦ h

variable [Link σ]

/-- The wait for a description leaves what listening to each message leaves. -/
theorem leads_awaitDescriptor
    (hother : Leads P (receiveOther .availability) ⟨fun _ ↦ P, F, P⟩) :
    Leads P awaitDescriptor ⟨fun _ ↦ P, F, P⟩ := by
  apply leads_repeatUntil
  apply leads_get_bind
  intro c hc
  split
  · exact leads_pure fun _ heq ↦ heq ▸ hc
  · apply leads_bind (M := fun _ ↦ P)
    · exact hother.of_imp fun _ heq ↦ heq ▸ hc
    · exact fun _ ↦ leads_pure fun _ h ↦ h

/-- The wait for leave leaves what listening to each message and being too late leave. -/
theorem leads_awaitUnchoke (hother : Leads P (receiveOther .unchoke) ⟨fun _ ↦ P, F, P⟩)
    (hlate : ∀ limit c, P c → F (.unchokeTimeout limit) (withPeer Peer.fail c)) :
    Leads P awaitUnchoke ⟨fun _ ↦ P, F, P⟩ := by
  apply leads_get_bind
  intro c hc
  apply leads_bind (M := fun _ ↦ P) (leads_now fun _ _ heq ↦ heq ▸ hc)
  intro now
  apply leads_repeatUntil
  apply leads_get_bind
  intro c hc
  split
  · apply leads_bind (M := fun _ ↦ P)
    · apply Leads.of_imp (P := P)
      · exact leads_within hother (leads_failWith (hlate _)) fun _ h ↦ h
      · exact fun _ heq ↦ heq ▸ hc
    · exact fun _ ↦ leads_pure fun _ h ↦ h
  · exact leads_pure fun _ heq ↦ heq ▸ hc

end Connection

end PeerWire
