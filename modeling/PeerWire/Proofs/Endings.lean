import PeerWire.Link.Script
import PeerWire.Proofs.ConnectionAftermath

/-!
# How connections end

Everything that is done with a connection may fail, and what fails ends the connection. Only the end
of the stream, met while something is received, closes it; any other error leaves it failed, and a
connection that has failed is not closed later. Main statement: this is how each operation ends a
connection over any link, what does not fail never ends one, nothing brings it back, and a message
that could not be sent changes nothing else about the peer.
-/

namespace PeerWire

/-- What is left of the use of a connection when an error is met while something is received. -/
def Status.endWith (status : Status) : Error → Status
  | .connectionClosed => if status = .failed then .failed else .closed
  | _ => .failed

namespace Peer

variable {peer : Peer}

/-- A connection is shown as failed exactly when it has failed. -/
theorem stance_eq_failed_iff : peer.stance = .failed ↔ peer.status = .failed := by
  rw [stance]
  cases peer.status with
  | inUse => grind
  | closed => simp
  | failed => simp

/-- A connection is shown as closed exactly when it was closed. -/
theorem stance_eq_closed_iff : peer.stance = .closed ↔ peer.status = .closed := by
  rw [stance]
  cases peer.status with
  | inUse => grind
  | closed => simp
  | failed => simp

/-- An error met while something is received ends the use of the connection. -/
theorem status_endWith (peer : Peer) (error : Error) :
    (peer.endWith error).status = peer.status.endWith error := by
  cases error with
  | connectionClosed =>
    rw [endWith, close, Status.endWith]
    cases hstatus : peer.status <;> simp [hstatus]
  | _ => rfl

/-- No message ends the use of a connection, not even one that is rejected. -/
theorem status_learn (peer : Peer) (message : Message) :
    (peer.learn message).2.status = peer.status := by
  cases message with
  | announce piece =>
    simp only [learn, announce]
    split <;> rfl
  | bitfield field =>
    simp only [learn, describe]
    split
    · rfl
    · split <;> rfl
  | _ => rfl

end Peer

namespace Connection

open Activity

variable {σ α : Type}

/-- A connection over a link is used as it was before, or an error has ended its use. -/
def ending (status : Status) : Aftermath (Connection σ) α where
  done _ c := c.peer.status = status
  failed error c := c.peer.status = status.endWith error
  broken c := c.peer.status = status

/-- Ending with an error ends the use of a connection. -/
theorem ending_endWith (status : Status) (error : Error) :
    Leads (fun c : Connection σ ↦ c.peer.status = status) (endWith error)
      (ending status : Aftermath _ α) := by
  apply leads_endWith
  rintro c rfl
  exact Peer.status_endWith c.peer error

/-- Failing with an error other than the end of the stream ends the use of a connection. -/
theorem ending_failWith (status : Status) {error : Error} (h : error ≠ .connectionClosed) :
    Leads (fun c : Connection σ ↦ c.peer.status = status) (failWith error)
      (ending status : Aftermath _ α) := by
  have hend : status.endWith error = .failed := by
    cases error with
    | connectionClosed => exact absurd rfl h
    | _ => rfl
  exact leads_failWith fun _ _ ↦ hend.symm

variable [Link σ]

/-! ### Receiving -/

/-- Receiving a message ends the use of a connection only with an error. -/
theorem ending_receiveNext (status : Status) :
    Leads (fun c : Connection σ ↦ c.peer.status = status) receiveNext (ending status) := by
  apply leads_bind (M := fun _ c ↦ c.peer.status = status)
  · apply leads_attempt
    apply leads_onPart
    exact fun c hc ↦ leads_of_trivial (fun _ _ ↦ hc) (fun _ _ ↦ hc) fun _ ↦ hc
  · intro result
    cases result with
    | error error => exact ending_endWith status error
    | ok message =>
      apply leads_bind (M := fun _ c ↦ c.peer.status = status)
      · apply leads_change
        intro c hc
        exact (Peer.status_learn c.peer message).trans hc
      · intro taken
        cases taken with
        | error error => exact ending_endWith status error
        | ok incoming => exact leads_pure fun _ h ↦ h

/-- So does receiving a message that must not deliver a block. -/
theorem ending_receiveOther (status : Status) (awaited : Awaited) :
    Leads (fun c : Connection σ ↦ c.peer.status = status) (receiveOther awaited)
      (ending status) := by
  refine leads_bind (M := fun _ c ↦ c.peer.status = status) (ending_receiveNext status) ?_
  intro incoming
  cases incoming with
  | block fragment => exact ending_failWith status (by simp)
  | _ => exact leads_pure fun _ h ↦ h

/-- So does waiting for the peer's announcement. -/
theorem ending_awaitDescriptor (status : Status) :
    Leads (fun c : Connection σ ↦ c.peer.status = status) awaitDescriptor (ending status) :=
  leads_awaitDescriptor (ending_receiveOther status .availability)

/-- So does waiting for leave to request, also when that comes too late. -/
theorem ending_awaitUnchoke (status : Status) :
    Leads (fun c : Connection σ ↦ c.peer.status = status) awaitUnchoke (ending status) :=
  leads_awaitUnchoke (ending_receiveOther status .unchoke) fun _ _ _ ↦ rfl

/-! ### Sending -/

/-- A message that could not be sent leaves the connection failed and changes nothing else about the
peer. -/
theorem leads_send_peer (peer : Peer) (message : Message) :
    Leads (fun c : Connection σ ↦ c.peer = peer) (send message)
      ⟨fun _ c ↦ c.peer = peer, fun _ c ↦ c.peer = peer.fail, fun c ↦ c.peer = peer⟩ := by
  apply leads_bind (M := fun _ c ↦ c.peer = peer)
  · apply leads_attempt
    apply leads_onPart
    exact fun c hc ↦ leads_of_trivial (fun _ _ ↦ hc) (fun _ _ ↦ hc) fun _ ↦ hc
  · intro result
    cases result with
    | ok _ => exact leads_pure fun _ h ↦ h
    | error error =>
      apply leads_failWith
      rintro c rfl
      rfl

/-! ### Operations -/

/-- What may be done with a connection. -/
inductive Operation where
  /-- The next message is received. -/
  | receiveNext
  /-- Interest is declared. -/
  | sendInterested
  /-- Interest is withdrawn. -/
  | sendNotInterested
  /-- A block is asked for. -/
  | request (block : Block)
  /-- The peer's announcement is waited for. -/
  | awaitDescriptor
  /-- Leave to request is waited for. -/
  | awaitUnchoke
deriving DecidableEq, Repr

/-- Whether messages are received, and none is sent. -/
def Operation.receives : Operation → Bool
  | receiveNext | awaitDescriptor | awaitUnchoke => true
  | sendInterested | sendNotInterested | request _ => false

/-- Carries out an operation. -/
def perform : Operation → Activity (Connection σ) Unit
  | .receiveNext => do let _ ← receiveNext
  | .sendInterested => sendInterested
  | .sendNotInterested => sendNotInterested
  | .request block => request block
  | .awaitDescriptor => awaitDescriptor
  | .awaitUnchoke => awaitUnchoke

/-- One operation, the time at which it begins, and what limits it. -/
structure Move where
  /-- What limits it. -/
  scope : Scope
  /-- When it begins. -/
  clock : Clock
  /-- The operation. -/
  operation : Operation

/-- The connection after moves, however each of them ends. -/
def play (c : Connection σ) (moves : List Move) : Connection σ :=
  moves.foldl (fun c move ↦ (perform move.operation move.scope move.clock c).state) c

/-- How the use of a connection fares in an operation. -/
def fate (peer : Peer) (operation : Operation) : Aftermath (Connection σ) Unit where
  done _ c := c.peer.status = peer.status
  failed error c :=
    if operation.receives then c.peer.status = peer.status.endWith error else c.peer = peer.fail
  broken c := c.peer.status = peer.status

/-- Only an operation that fails ends the use of a connection, and it always does. -/
theorem leads_perform (peer : Peer) (operation : Operation) :
    Leads (fun c : Connection σ ↦ c.peer = peer) (perform operation) (fate peer operation) := by
  have hreceives {x : Activity (Connection σ) Unit}
      (hx : Leads (fun c ↦ c.peer.status = peer.status) x (ending peer.status)) :
      Leads (fun c : Connection σ ↦ c.peer = peer) x
        ⟨fun _ c ↦ c.peer.status = peer.status,
          fun error c ↦ c.peer.status = peer.status.endWith error,
          fun c ↦ c.peer.status = peer.status⟩ :=
    hx.of_imp fun c hc ↦ congrArg Peer.status hc
  have hsends (message : Message) : Leads (fun c : Connection σ ↦ c.peer = peer) (send message)
      ⟨fun _ c ↦ c.peer = peer, fun _ c ↦ c.peer = peer.fail,
        fun c ↦ c.peer.status = peer.status⟩ :=
    (leads_send_peer peer message).mono (fun _ h ↦ h) (fun _ _ h ↦ h) (fun _ _ h ↦ h)
      fun _ h ↦ congrArg Peer.status h
  cases operation with
  | receiveNext =>
    apply hreceives
    apply leads_bind (M := fun _ c ↦ c.peer.status = peer.status) (ending_receiveNext peer.status)
    exact fun _ ↦ leads_pure fun _ h ↦ h
  | awaitDescriptor => exact hreceives (ending_awaitDescriptor peer.status)
  | awaitUnchoke => exact hreceives (ending_awaitUnchoke peer.status)
  | request block =>
    exact (hsends (.request block)).mono (fun _ h ↦ h) (fun _ _ h ↦ congrArg Peer.status h)
      (fun _ _ h ↦ h) fun _ h ↦ h
  | sendInterested =>
    apply leads_bind (M := fun _ c ↦ c.peer = peer) (hsends .interested)
    intro _
    apply leads_get_bind
    rintro c rfl
    apply leads_bind (M := fun _ c' ↦ c' = c) (leads_now fun _ _ h ↦ h)
    intro moment
    apply leads_modify
    rintro _ rfl
    rfl
  | sendNotInterested =>
    apply leads_bind (M := fun _ c ↦ c.peer = peer) (hsends .notInterested)
    intro _
    apply leads_modify
    rintro c rfl
    rfl

/-- One move leaves the use of a connection as it was, or has it fail, or closes it if it has not
failed. -/
theorem status_perform (c : Connection σ) (move : Move) :
    let after := (perform move.operation move.scope move.clock c).state.peer.status
    after = c.peer.status ∨ after = .failed ∨ after = .closed ∧ c.peer.status ≠ .failed := by
  intro after
  have hfate := leads_perform c.peer move.operation move.scope move.clock c rfl
  simp only [after]
  generalize perform move.operation move.scope move.clock c = o at hfate ⊢
  obtain ⟨ending, clock, d⟩ := o
  cases ending with
  | failed error =>
    have hfailed : if move.operation.receives then d.peer.status = c.peer.status.endWith error
      else d.peer = c.peer.fail := hfate
    split at hfailed
    · rw [hfailed]
      cases error with
      | connectionClosed =>
        rw [Status.endWith]
        split
        · exact .inr (.inl rfl)
        · next hstatus => exact .inr (.inr ⟨rfl, hstatus⟩)
      | _ => exact .inr (.inl rfl)
    · rw [hfailed]
      exact .inr (.inl rfl)
  | _ => exact .inl hfate

/-- No moves bring back a connection that has failed, and one that was closed can only fail. -/
theorem status_play (c : Connection σ) (moves : List Move) :
    (c.peer.status = .failed → (c.play moves).peer.status = .failed) ∧
      (c.peer.status = .closed →
        (c.play moves).peer.status = .closed ∨ (c.play moves).peer.status = .failed) := by
  induction moves generalizing c with
  | nil => exact ⟨id, .inl⟩
  | cons move moves ih =>
    have hstep := status_perform c move
    obtain ⟨hfailed, hclosed⟩ := ih (perform move.operation move.scope move.clock c).state
    constructor
    · intro hc
      rcases hstep with hsame | hafter | ⟨-, hne⟩
      · exact hfailed (hsame.trans hc)
      · exact hfailed hafter
      · exact absurd hc hne
    · intro hc
      rcases hstep with hsame | hafter | ⟨hafter, -⟩
      · exact hclosed (hsame.trans hc)
      · exact .inr (hfailed hafter)
      · exact hclosed hafter

/-- Whatever was done with a connection over any link, once it has failed it stays failed, and once
it was closed it can only fail. An operation that fails leaves it closed exactly when messages were
received, their stream had ended, and the connection had not failed before, and failed otherwise. An
operation that does not fail leaves it closed or failed only if it was that before. A message that
could not be sent changes nothing else about the peer. -/
theorem endings_of_play (c : Connection σ) (moves : List Move) (move : Move) :
    let d := c.play moves
    let o := perform move.operation move.scope move.clock d
    (c.peer.stance = .failed → d.peer.stance = .failed) ∧
      (c.peer.stance = .closed → d.peer.stance = .closed ∨ d.peer.stance = .failed) ∧
      (∀ error, o.ending = .failed error →
        (o.state.peer.stance = .closed ∨ o.state.peer.stance = .failed) ∧
          (o.state.peer.stance = .closed ↔ move.operation.receives = true ∧
            error = .connectionClosed ∧ d.peer.stance ≠ .failed) ∧
          (move.operation.receives = false → o.state.peer = { d.peer with status := .failed })) ∧
      ((∀ error, o.ending ≠ .failed error) →
        (o.state.peer.stance = .closed ↔ d.peer.stance = .closed) ∧
          (o.state.peer.stance = .failed ↔ d.peer.stance = .failed)) := by
  intro d o
  obtain ⟨hfailed, hclosed⟩ := status_play c moves
  have hfate : (fate d.peer move.operation).Holds o :=
    leads_perform d.peer move.operation move.scope move.clock d rfl
  simp only [ne_eq, Peer.stance_eq_failed_iff, Peer.stance_eq_closed_iff]
  refine ⟨hfailed, hclosed, ?_, ?_⟩
  · intro error hending
    rw [Aftermath.Holds, hending] at hfate
    have hend : if move.operation.receives then o.state.peer.status = d.peer.status.endWith error
      else o.state.peer = d.peer.fail := hfate
    split at hend
    · next hreceives =>
      rw [hend]
      cases error with
      | connectionClosed => cases hstatus : d.peer.status <;> simp [Status.endWith, hreceives]
      | _ => simp [Status.endWith, hreceives]
    · next hreceives =>
      rw [hend]
      simp [hreceives, Peer.fail]
  · intro hending
    have hsame : o.state.peer.status = d.peer.status := by
      rw [Aftermath.Holds] at hfate
      split at hfate
      · exact hfate
      · next error heq => exact absurd heq (hending error)
      · exact hfate
    rw [hsame]
    exact ⟨Iff.rfl, Iff.rfl⟩

/-- A peer ends the stream, interest cannot be declared, and the end of the stream is met again. -/
example :
    let link : Script := ⟨[], [], 1, [], [], some 0, none⟩
    let c := Connection.start ⟨.octets 127 0 0 1, 6881⟩ link 1 30000
    let moves := [Operation.awaitDescriptor, .sendInterested, .receiveNext].map
      (Move.mk Scope.open Clock.zero)
    (c.play (moves.take 1)).peer.stance = .closed ∧
      (c.play (moves.take 2)).peer.stance = .failed ∧
      (c.play (moves.take 3)).peer.stance = .failed := by decide +kernel

end Connection

end PeerWire
