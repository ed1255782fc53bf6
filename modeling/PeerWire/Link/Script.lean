import PeerWire.Link
import PeerWire.Time.Timeline

/-!
# Scripted links

A scripted link plays a peer that follows a script. It says given messages, answers requests that
it remembers out of its own content, intact or corrupted, and forgets them. Sending may break down
or get stuck after some messages. Main statement: a scripted link is a link; what it gives takes
away from the script.
-/

namespace PeerWire

/-- What a scripted peer does next. -/
inductive Act where
  /-- It sends a message. -/
  | say (message : Message)
  /-- It answers the oldest requests, up to so many, as long as there are any. -/
  | serve (times : Nat) (corrupt : Bool)
  /-- It answers the request at a position, if there is one. -/
  | serveAt (position : Nat)
  /-- It forgets all requests. -/
  | drop
deriving DecidableEq, Repr

/-- How many rounds it takes at most until an act is over. -/
def Act.rounds : Act → Nat
  | serve times _ => times + 1
  | _ => 1

/-- A scripted link. -/
structure Script where
  /-- What the peer does. -/
  acts : Timeline Act
  /-- The content it answers from. -/
  content : Bytes
  /-- The length of a piece of it. -/
  pieceLength : Nat
  /-- The requests it remembers, the oldest first. -/
  pending : List Block
  /-- The messages sent to it, the first one first. -/
  sent : List Message
  /-- After how many messages sending breaks down. -/
  failAfter : Option Nat
  /-- After how many messages sending gets stuck. -/
  hangAfter : Option Nat

namespace Script

/-- The bytes with the first one inverted. -/
def corrupted : Bytes → Bytes
  | [] => []
  | b :: bytes => (255 - b) :: bytes

/-- The part of the content that a block names, as far as there is any. -/
def lookUp (s : Script) (block : Block) : Bytes :=
  (s.content.drop (block.piece * s.pieceLength + block.offset)).take block.length

/-- The answer to a request. -/
def answer (s : Script) (block : Block) (corrupt : Bool) : Message :=
  .piece ⟨block.piece, block.offset,
    if corrupt then corrupted (s.lookUp block) else s.lookUp block⟩

/-- Performs an act as far as one message, and what is left to do of it. -/
def perform (act : Act) (s : Script) : Option Message × Script :=
  match act with
  | .say message => (some message, s)
  | .serve 0 _ => (none, s)
  | .serve (times + 1) corrupt =>
    match s.pending with
    | [] => (none, s)
    | block :: pending =>
      (some (s.answer block corrupt),
        { s with pending := pending, acts := .item (.serve times corrupt) :: s.acts })
  | .serveAt position =>
    match s.pending[position]? with
    | none => (none, s)
    | some block =>
      (some (s.answer block false), { s with pending := s.pending.eraseIdx position })
  | .drop => (none, { s with pending := [] })

/-- What the peer still has to give. -/
def budget (s : Script) : Nat := Timeline.weight Act.rounds s.acts

/-- Waits for the next act; there is none when the script is over. -/
def nextAct : Activity Script (Option Act) := fun scope clock s ↦
  let r := Timeline.next scope clock s.acts
  ⟨r.ending, r.clock, { s with acts := r.state }⟩

/-- Performs the next act as far as one message; when the script is over the peer has ended the
stream. -/
def round : Activity Script (Option Message) := do
  match ← nextAct with
  | none => Activity.fail .connectionClosed
  | some act => Activity.change (perform act)

/-- Performing an act takes away from what is left to do of it. -/
theorem budget_perform (act : Act) (s : Script) :
    (perform act s).2.budget < s.budget + act.rounds := by
  rw [perform.eq_def]
  split
  · simp [Act.rounds]
  · simp [Act.rounds]
  · split
    · simp [Act.rounds]
    · simp [Act.rounds, budget, Timeline.weight]
      omega
  · split <;> simp [Act.rounds, budget]
  · simp [Act.rounds, budget]

/-- An act that comes takes its rounds away from what is left to do. -/
theorem costs_nextAct : Activity.Costs budget (Timeline.taken Act.rounds) nextAct :=
  fun scope clock s ↦ Timeline.costs_next scope clock s.acts

/-- A round takes away from the script. -/
theorem uses_round : Activity.Uses budget round := by
  refine Activity.costs_bind_spending costs_nextAct fun act _ _ s ↦ ?_
  cases act with
  | none => exact Nat.le_refl _
  | some act => exact budget_perform act s

/-- Waits for the next message. -/
def receive : Activity Script Message :=
  Activity.repeatUntil budget round (Activity.advances_of_uses uses_round)

/-- A message that comes takes away from the script. -/
theorem uses_receive : Activity.Uses budget receive :=
  Activity.uses_repeatUntil uses_round

/-- Notes a message that was sent, and remembers it if it is a request. -/
def note (message : Message) (s : Script) : Script where
  acts := s.acts
  content := s.content
  pieceLength := s.pieceLength
  pending :=
    match message with
    | .request block => s.pending ++ [block]
    | _ => s.pending
  sent := s.sent ++ [message]
  failAfter := s.failAfter
  hangAfter := s.hangAfter

/-- Sends a message, unless sending has broken down or got stuck. -/
def send (message : Message) : Activity Script Unit := do
  let s ← Activity.get
  if s.failAfter.any (· ≤ s.sent.length) then Activity.fail (.scripted .brokenPipe)
  else if s.hangAfter.any (· ≤ s.sent.length) then Activity.never
  else Activity.modify (note message)

/-- Sending adds nothing to the script. -/
theorem keeps_send (message : Message) : Activity.Keeps budget (send message) := by
  refine Activity.costs_bind Activity.keeps_get fun s ↦ ?_
  split
  · exact Activity.costs_fail _
  · split
    · exact Activity.costs_never
    · exact Activity.keeps_modify fun _ ↦ Nat.le_refl _

instance : Link Script where
  receive := receive
  send := send
  sent := Script.sent
  budget := budget
  uses_receive := uses_receive
  keeps_send := keeps_send

end Script

end PeerWire
