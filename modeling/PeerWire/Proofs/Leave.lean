import PeerWire.Proofs.LinkPunctuality
import PeerWire.Proofs.Listening
import PeerWire.Proofs.Settling

/-!
# Leave to request in time

When this side declares interest to a peer that withholds leave, the peer has a given time to give
it. Main statements: after any history a deadline is set only while this side is interested and the
peer withholds leave, and it is the one that was given with the last declaration of interest; and
the wait for leave ends with the first message that decides it, if that comes by the deadline, and
else it fails then, whatever other messages have come.
-/

namespace PeerWire

variable {σ : Type}

namespace Peer

variable {n moment : Nat} {history : List Event} {event : Event} {peer next : Peer}
  {message : Message} {awaited : Awaited}

/-! ### When a deadline is set -/

/-- The deadline that is given with a declaration of interest. -/
def Event.deadline? : Event → Option Nat
  | declareInterest moment => some moment
  | _ => none

/-- The deadline that was given with the last declaration of interest. -/
def Event.lastDeadline? (history : List Event) : Option Nat :=
  (history.filterMap deadline?).getLast?

/-- A deadline is set only while this side is interested and the peer withholds leave, and it is the
one that was given last. -/
def Armed (history : List Event) (peer : Peer) : Prop :=
  ∀ moment, peer.deadline = some moment →
    peer.interested = true ∧ peer.choking = true ∧ Event.lastDeadline? history = some moment

/-- A declaration of interest gives the last deadline. -/
theorem Event.lastDeadline?_append_declareInterest (history : List Event) (moment : Nat) :
    lastDeadline? (history ++ [.declareInterest moment]) = some moment := by
  rw [lastDeadline?, List.filterMap_append]
  exact List.getLast?_concat

/-- Nothing else gives one. -/
theorem Event.lastDeadline?_append_of_none (h : event.deadline? = none) (history : List Event) :
    lastDeadline? (history ++ [event]) = lastDeadline? history := by
  rw [lastDeadline?, List.filterMap_append, List.filterMap_cons_none h, List.filterMap_nil,
    List.append_nil]
  rfl

/-- What leaves the interest, the leave and the deadline as they are keeps a peer armed. -/
theorem Armed.of_eq (h : peer.Armed history) (hevent : event.deadline? = none)
    (hinterested : next.interested = peer.interested) (hchoking : next.choking = peer.choking)
    (hdeadline : next.deadline = peer.deadline) : next.Armed (history ++ [event]) := by
  intro moment hmoment
  rw [hinterested, hchoking, Event.lastDeadline?_append_of_none hevent]
  exact h moment (hdeadline ▸ hmoment)

/-- Where no deadline is set there is nothing to be said. -/
theorem armed_of_none (h : peer.deadline = none) : peer.Armed history := by
  intro moment hmoment
  rw [h] at hmoment
  cases hmoment

/-- A message that is taken in gives or takes away leave, or leaves interest, leave and deadline as
they are. -/
theorem cases_of_apply {incoming : Incoming} (h : peer.apply message = .ok (incoming, next)) :
    (message = .choke ∧ next = { peer with choking := true }) ∨
      (message = .unchoke ∧ next = { peer with choking := false, deadline := none }) ∨
      (message ≠ .choke ∧ message ≠ .unchoke ∧ next.interested = peer.interested ∧
        next.choking = peer.choking ∧ next.deadline = peer.deadline) := by
  cases message with
  | choke =>
    cases h
    exact .inl ⟨rfl, rfl⟩
  | unchoke =>
    cases h
    exact .inr (.inl ⟨rfl, rfl⟩)
  | announce piece =>
    rw [apply_announce] at h
    split at h
    · cases h
    · cases h
      exact .inr (.inr ⟨by simp, by simp, rfl, rfl, rfl⟩)
  | bitfield field =>
    rw [apply_bitfield] at h
    split at h
    · cases h
      exact .inr (.inr ⟨by simp, by simp, rfl, rfl, rfl⟩)
    · split at h
      · cases h
      · cases h
        exact .inr (.inr ⟨by simp, by simp, rfl, rfl, rfl⟩)
  | _ =>
    cases h
    exact .inr (.inr ⟨by simp, by simp, rfl, rfl, rfl⟩)

/-- One more event keeps a peer armed. -/
theorem Armed.perform (h : peer.Armed history) (event : Event) :
    (peer.perform event).Armed (history ++ [event]) := by
  cases event with
  | declareInterest moment =>
    intro other hother
    rw [Event.lastDeadline?_append_declareInterest]
    simp only [Peer.perform, Peer.declareInterest] at hother
    cases hchoking : peer.choking with
    | true =>
      rw [hchoking] at hother
      exact ⟨rfl, hchoking, hother⟩
    | false =>
      rw [hchoking] at hother
      have hbefore := (h other hother).2.1
      rw [hchoking] at hbefore
      cases hbefore
  | withdrawInterest => exact armed_of_none rfl
  | close =>
    have hclose : (peer.perform .close).interested = peer.interested ∧
        (peer.perform .close).choking = peer.choking ∧
        (peer.perform .close).deadline = peer.deadline := by
      simp only [Peer.perform, Peer.close]
      split <;> exact ⟨rfl, rfl, rfl⟩
    exact h.of_eq rfl hclose.1 hclose.2.1 hclose.2.2
  | takeIn message =>
    rw [Peer.perform, Peer.learn_eq]
    cases happly : peer.apply message with
    | error error => exact h.of_eq rfl rfl rfl rfl
    | ok result =>
      obtain ⟨incoming, next⟩ := result
      rcases cases_of_apply happly with
        ⟨rfl, rfl⟩ | ⟨rfl, rfl⟩ | ⟨-, -, hinterested, hchoking, hdeadline⟩
      · intro moment hmoment
        rw [Event.lastDeadline?_append_of_none rfl]
        obtain ⟨hinterested, -, hlast⟩ := h moment hmoment
        exact ⟨hinterested, rfl, hlast⟩
      · exact armed_of_none rfl
      · exact h.of_eq rfl hinterested hchoking hdeadline
  | _ => exact h.of_eq rfl rfl rfl rfl

/-- After any history a deadline is the one that was given last. -/
theorem armed_after (n : Nat) (history : List Event) : (after n history).Armed history := by
  induction history using List.reverseRecOn with
  | nil => exact armed_of_none rfl
  | append_singleton history event ih =>
    rw [after, List.foldl_append]
    exact ih.perform event

/-- Without leave no message moves the deadline of a peer that withholds it. -/
theorem deadline_perform (hchoking : peer.choking = true) (hmessage : message ≠ .unchoke) :
    (peer.perform (.takeIn message)).choking = true ∧
      (peer.perform (.takeIn message)).deadline = peer.deadline := by
  rw [perform, learn_eq]
  cases happly : peer.apply message with
  | error error => exact ⟨hchoking, rfl⟩
  | ok result =>
    obtain ⟨incoming, next⟩ := result
    rcases cases_of_apply happly with ⟨-, rfl⟩ | ⟨rfl, -⟩ | ⟨-, -, -, hsame, hdeadline⟩
    · exact ⟨rfl, rfl⟩
    · exact absurd rfl hmessage
    · exact ⟨hsame.trans hchoking, hdeadline⟩

/-- Without leave no messages move it. -/
theorem deadline_foldl_perform {messages : List Message} (hchoking : peer.choking = true)
    (h : .unchoke ∉ messages) :
    ((messages.map Event.takeIn).foldl perform peer).deadline = peer.deadline := by
  induction messages generalizing peer with
  | nil => rfl
  | cons message messages ih =>
    obtain ⟨hfirst, hrest⟩ := List.ne_and_not_mem_of_not_mem_cons h
    obtain ⟨hstill, hdeadline⟩ := deadline_perform hchoking hfirst.symm
    exact (ih hstill hrest).trans hdeadline

/-- A message that is heard and gives no leave leaves it withheld. -/
theorem choking_of_hear (h : peer.hear awaited message = .ok next) (hchoking : peer.choking = true)
    (hmessage : message ≠ .unchoke) : next.choking = true := by
  rw [hear] at h
  split at h
  · cases h
  · next happly =>
    cases h
    rcases cases_of_apply happly with ⟨-, rfl⟩ | ⟨rfl, -⟩ | ⟨-, -, -, hsame, -⟩
    · rfl
    · exact absurd rfl hmessage
    · exact hsame.trans hchoking
  · cases h

end Peer

/-! ### Links and a deadline -/

section

open Activity

/-- A queue that is empty is waited for up to a deadline. -/
theorem Queues.settles_receive :
    Settles (fun _ ↦ True) Scope.Limited (Link.receive (σ := Queues)) := by
  show Settles _ _ Queues.receive
  apply settles_bind (settles_change fun _ h ↦ h)
  intro message
  cases message with
  | some message => exact settles_pure message
  | none => exact settles_never

variable [Link σ] {clock after : Clock} {deadline : Nat}

/-- What comes over a link comes no earlier than it is waited for. -/
theorem forward_receive (hpunctual : Punctual (Link.receive (σ := σ)))
    {scope : Scope} {s t : σ} {ending : Ending Message}
    (h : Link.receive scope clock s = ⟨ending, after, t⟩) : clock.now ≤ after.now := by
  have hforward : clock.now ≤ (Link.receive scope clock s).clock.now :=
    (hpunctual scope clock s).forward
  rwa [h] at hforward

/-- What comes by a deadline comes with the deadline, too. -/
theorem receive_upTo_of_le (hpunctual : Punctual (Link.receive (σ := σ)))
    (hclock : clock.now ≤ deadline) {s : σ} {o : Outcome σ Message}
    (h : Link.receive Scope.open clock s = o) (hin : ¬o.Late deadline) :
    Link.receive (Scope.open.upTo deadline) clock s = o := by
  have hcut := (hpunctual Scope.open clock s).cut deadline hclock
  rw [h] at hcut
  generalize Link.receive (Scope.open.upTo deadline) clock s = o' at hcut ⊢
  cases hcut with
  | same inTime => rfl
  | expired first now late => exact absurd late hin

/-- What comes over a link up to a deadline, compared with what comes without it. -/
inductive ComesBy (deadline : Nat) (o : Outcome σ Message) : Outcome σ Message → Prop where
  /-- The message comes by then. -/
  | message {message : Message} {after : Clock} {t : σ} (o_eq : o = ⟨.done message, after, t⟩)
      (inTime : after.now ≤ deadline) : ComesBy deadline o ⟨.done message, after, t⟩
  /-- The failure comes by then. -/
  | failure {error : Error} {after : Clock} {t : σ} (o_eq : o = ⟨.failed error, after, t⟩)
      (inTime : after.now ≤ deadline) : ComesBy deadline o ⟨.failed error, after, t⟩
  /-- Nothing comes by then. -/
  | nothing {after : Clock} {t : σ} (now : after.now = deadline) :
      ComesBy deadline o ⟨.expired, after, t⟩

/-- Up to a deadline that has not passed something comes by then, or nothing until then. -/
theorem comesBy_receive {calm : σ → Prop} (hpunctual : Punctual (Link.receive (σ := σ)))
    (hsettles : Settles calm Scope.Limited (Link.receive (σ := σ))) (hclock : clock.now ≤ deadline)
    (s : σ) :
    ComesBy deadline (Link.receive Scope.open clock s)
      (Link.receive (Scope.open.upTo deadline) clock s) := by
  have hopen := (hpunctual Scope.open clock s).expired
  have hcut := (hpunctual Scope.open clock s).cut deadline hclock
  have hobserved : Scope.Observed Scope.open := rfl
  have hsettled := hsettles (Scope.open.upTo deadline) clock s (hobserved.upTo deadline)
  generalize Link.receive Scope.open clock s = o at hopen hcut ⊢
  generalize Link.receive (Scope.open.upTo deadline) clock s = o' at hcut hsettled ⊢
  cases hcut with
  | same inTime =>
    obtain ⟨ending, after, t⟩ := o
    cases ending with
    | done message => exact .message rfl inTime
    | failed error => exact .failure rfl inTime
    | expired => cases hopen rfl
    | interrupted => cases hsettled.interrupted rfl
    | stuck => exact absurd rfl hsettled.ended
  | expired first now late => exact .nothing now

end

/-! ### What decides a wait for leave -/

/-- What comes first over a link of leave, a block, a message that is wrong and a failure decides
how a wait for leave ends, and when. -/
inductive Decides [Link σ] : Clock → σ → Peer → Ending Unit → Clock → Prop where
  /-- There is leave. -/
  | leave {clock after : Clock} {s t : σ} {peer : Peer}
      (came : Link.receive Scope.open clock s = ⟨.done .unchoke, after, t⟩) :
      Decides clock s peer (.done ()) after
  /-- There is a block. -/
  | block {clock after : Clock} {s t : σ} {peer : Peer} {fragment : Fragment}
      (came : Link.receive Scope.open clock s = ⟨.done (.piece fragment), after, t⟩) :
      Decides clock s peer (.failed (.unexpectedMessage (.fragment fragment.block) .unchoke)) after
  /-- There is a message that is wrong. -/
  | wrong {clock after : Clock} {s t : σ} {peer : Peer} {message : Message} {error : Error}
      (came : Link.receive Scope.open clock s = ⟨.done message, after, t⟩)
      (rejected : peer.apply message = .error error) :
      Decides clock s peer (.failed error) after
  /-- There is a failure. -/
  | failure {clock after : Clock} {s t : σ} {peer : Peer} {error : Error}
      (came : Link.receive Scope.open clock s = ⟨.failed error, after, t⟩) :
      Decides clock s peer (.failed error) after
  /-- There is another message, and what comes behind it decides. -/
  | other {clock middle after : Clock} {s t : σ} {peer next : Peer} {message : Message}
      {verdict : Ending Unit}
      (came : Link.receive Scope.open clock s = ⟨.done message, middle, t⟩)
      (noLeave : message ≠ .unchoke) (heard : peer.hear .unchoke message = .ok next)
      (rest : Decides middle t next verdict after) : Decides clock s peer verdict after

/-- A wait is not decided before it begins. -/
theorem Decides.forward [Link σ] (hpunctual : Activity.Punctual (Link.receive (σ := σ)))
    {clock after : Clock} {s : σ} {peer : Peer} {verdict : Ending Unit}
    (h : Decides clock s peer verdict after) : clock.now ≤ after.now := by
  induction h with
  | leave came => exact forward_receive hpunctual came
  | block came => exact forward_receive hpunctual came
  | wrong came _ => exact forward_receive hpunctual came
  | failure came => exact forward_receive hpunctual came
  | other came _ _ _ ih => exact Nat.le_trans (forward_receive hpunctual came) ih

namespace Connection

open Activity

variable [Link σ] {clock after : Clock} {c c' : Connection σ} {deadline : Nat} {t : σ}

/-- Sending leaves what is known about the peer as it is. -/
theorem of_send {message : Message} {scope : Scope}
    (h : send message scope clock c = ⟨.done (), after, c'⟩) :
    c'.peer = c.peer ∧ c'.unchokeTimeout = c.unchokeTimeout := by
  simp only [send, bind_apply, attempt, onLink, onPart] at h
  generalize Link.send message scope clock c.link = o at h
  obtain ⟨ending, later, t⟩ := o
  cases ending with
  | done _ =>
    cases h
    exact ⟨rfl, rfl⟩
  | _ => cases h

/-- When interest is declared the time for leave runs from then. -/
theorem of_sendInterested {scope : Scope}
    (h : sendInterested scope clock c = ⟨.done (), after, c'⟩) :
    c'.peer = c.peer.declareInterest (after.now + c.unchokeTimeout) ∧
      c'.unchokeTimeout = c.unchokeTimeout := by
  obtain ⟨_, middle, c₁, hsend, hrest⟩ := bind_eq_done h
  obtain ⟨hpeer, htimeout⟩ := of_send hsend
  cases hrest
  exact ⟨by rw [← hpeer, ← htimeout]; rfl, htimeout⟩

/-! ### Waiting for leave -/

/-- The wait for leave up to a deadline. -/
def awaitUnchokeUntil (deadline : Nat) : Activity (Connection σ) Unit :=
  repeatUntil budget (unchokeRound deadline) (advances_unchokeRound deadline)

/-- The wait for leave is over when the peer has given it. -/
theorem awaitUnchokeUntil_of_leave (hpunctual : Punctual (Link.receive (σ := σ)))
    (h : c.peer.choking = false) (deadline : Nat) (scope : Scope) (clock : Clock) :
    awaitUnchokeUntil deadline scope clock c = ⟨.done (), clock, c⟩ := by
  have henough : (!c.peer.choking) = true := by
    rw [h]
    rfl
  rw [awaitUnchokeUntil, repeatUntil_eq_bind,
    bind_of_done ((listens_unchokeRound hpunctual deadline).done henough)]
  rfl

/-- While leave is withheld a round of the wait listens for one message up to the deadline. -/
theorem unchokeRound_of_choking (deadline : Nat) (scope : Scope) (clock : Clock)
    (h : c.peer.choking = true) :
    unchokeRound deadline scope clock c =
      (within deadline (receiveOther .unchoke)
        (failWith (.unchokeTimeout (.ofMillis c.unchokeTimeout))) >>= fun _ ↦ pure none)
        scope clock c := by
  show (if c.peer.choking then _ else _ : Activity (Connection σ) _) scope clock c = _
  rw [h]
  rfl

/-- A round of the wait is over with the message that comes by the deadline. -/
theorem unchokeRound_of_ne_expired (hchoking : c.peer.choking = true)
    {o : Outcome (Connection σ) Unit}
    (h : receiveOther .unchoke (Scope.open.upTo deadline) clock c = o) (hne : o.ending ≠ .expired) :
    unchokeRound deadline Scope.open clock c = ⟨o.ending.map fun _ ↦ none, o.clock, o.state⟩ := by
  have hin : (receiveOther .unchoke (Scope.open.upTo deadline) clock c).ending ≠ .expired := by
    rw [h]
    exact hne
  rw [unchokeRound_of_choking deadline Scope.open clock hchoking, bind_apply,
    within_of_ne_expired hin, h]
  obtain ⟨ending, after, c'⟩ := o
  cases ending <;> rfl

/-- If none comes the wait fails. -/
theorem unchokeRound_of_expired (hchoking : c.peer.choking = true)
    (h : receiveOther .unchoke (Scope.open.upTo deadline) clock c = ⟨.expired, after, c'⟩) :
    unchokeRound deadline Scope.open clock c =
      ⟨.failed (.unchokeTimeout (.ofMillis c.unchokeTimeout)), after, c'.withPeer Peer.fail⟩ := by
  rw [unchokeRound_of_choking deadline Scope.open clock hchoking, bind_apply, within_of_expired h]
  rfl

/-- The wait goes on behind a message that is heard by the deadline. -/
theorem awaitUnchokeUntil_of_heard {message : Message} {next : Peer}
    (hchoking : c.peer.choking = true)
    (hcame : Link.receive (Scope.open.upTo deadline) clock c.link = ⟨.done message, after, t⟩)
    (hheard : c.peer.hear .unchoke message = .ok next) :
    unchokeRound deadline Scope.open clock c =
        ⟨.done none, after, { c with link := t, peer := next }⟩ ∧
      awaitUnchokeUntil deadline Scope.open clock c =
        awaitUnchokeUntil deadline Scope.open after { c with link := t, peer := next } := by
  have hround := unchokeRound_of_ne_expired hchoking
    (receiveOther_eq_done_iff.mpr ⟨message, t, next, hcame, hheard, rfl⟩) nofun
  refine ⟨hround, ?_⟩
  rw [awaitUnchokeUntil, repeatUntil_eq_bind, bind_of_done hround]

/-- The wait fails where it fails to hear a message by the deadline. -/
theorem awaitUnchokeUntil_of_failed {error : Error} (hchoking : c.peer.choking = true)
    (h : receiveOther .unchoke (Scope.open.upTo deadline) clock c = ⟨.failed error, after, c'⟩) :
    awaitUnchokeUntil deadline Scope.open clock c = ⟨.failed error, after, c'⟩ := by
  rw [awaitUnchokeUntil, repeatUntil_apply, unchokeRound_of_ne_expired hchoking h nofun]
  rfl

/-- The wait fails with a message that must not come. -/
theorem awaitUnchokeUntil_of_wrong {message : Message} {error : Error}
    (hchoking : c.peer.choking = true)
    (hcame : Link.receive (Scope.open.upTo deadline) clock c.link = ⟨.done message, after, t⟩)
    (hwrong : c.peer.hear .unchoke message = .error error) :
    ∃ c', awaitUnchokeUntil deadline Scope.open clock c = ⟨.failed error, after, c'⟩ := by
  refine ⟨{ c with link := t, peer := c.peer.fail }, awaitUnchokeUntil_of_failed hchoking ?_⟩
  rw [receiveOther_apply, hcame]
  simp only [hwrong]

/-- What decides the wait by the deadline is how it ends. -/
theorem awaitUnchokeUntil_of_decides (hpunctual : Punctual (Link.receive (σ := σ)))
    {verdict : Ending Unit} (h : Decides clock c.link c.peer verdict after)
    (hchoking : c.peer.choking = true) (hafter : after.now ≤ deadline) :
    ∃ c', awaitUnchokeUntil deadline Scope.open clock c = ⟨verdict, after, c'⟩ := by
  have hclock := Nat.le_trans (h.forward hpunctual) hafter
  generalize hlink : c.link = s at h
  generalize hpeer : c.peer = peer at h
  induction h generalizing c with
  | leave came =>
    subst hlink hpeer
    have hcame := receive_upTo_of_le hpunctual hclock came (Nat.not_lt_of_le hafter)
    rw [(awaitUnchokeUntil_of_heard hchoking hcame rfl).2, awaitUnchokeUntil_of_leave hpunctual rfl]
    exact ⟨_, rfl⟩
  | block came =>
    subst hlink hpeer
    have hcame := receive_upTo_of_le hpunctual hclock came (Nat.not_lt_of_le hafter)
    exact awaitUnchokeUntil_of_wrong hchoking hcame rfl
  | wrong came rejected =>
    subst hlink hpeer
    have hcame := receive_upTo_of_le hpunctual hclock came (Nat.not_lt_of_le hafter)
    exact awaitUnchokeUntil_of_wrong hchoking hcame (by rw [Peer.hear, rejected])
  | @failure clock after s t peer error came =>
    subst hlink hpeer
    have hcame := receive_upTo_of_le hpunctual hclock came (Nat.not_lt_of_le hafter)
    have hfailed := receiveOther_apply .unchoke (Scope.open.upTo deadline) clock c
    rw [hcame] at hfailed
    exact ⟨_, awaitUnchokeUntil_of_failed hchoking hfailed⟩
  | @other clock middle after s t peer next message verdict came noLeave heard rest ih =>
    subst hlink hpeer
    have hmiddle := Nat.le_trans (rest.forward hpunctual) hafter
    have hcame := receive_upTo_of_le hpunctual hclock came (Nat.not_lt_of_le hmiddle)
    rw [(awaitUnchokeUntil_of_heard hchoking hcame heard).2]
    exact ih (Peer.choking_of_hear heard hchoking noLeave) hafter hmiddle rfl rfl

/-- A message that must not come decides the wait. -/
theorem decides_of_hear {message : Message} {error : Error}
    (hcame : Link.receive Scope.open clock c.link = ⟨.done message, after, t⟩)
    (hwrong : c.peer.hear .unchoke message = .error error) :
    Decides clock c.link c.peer (.failed error) after := by
  rw [Peer.hear] at hwrong
  split at hwrong
  · next happly =>
    cases hwrong
    obtain ⟨rfl, -⟩ := Peer.apply_eq_block happly
    exact .block hcame
  · cases hwrong
  · next happly =>
    cases hwrong
    exact .wrong hcame happly

/-- If nothing decides the wait by the deadline it fails then. -/
theorem awaitUnchokeUntil_of_not_decides {calm : σ → Prop}
    (hpunctual : Punctual (Link.receive (σ := σ)))
    (hsettles : Settles calm Scope.Limited (Link.receive (σ := σ)))
    (hchoking : c.peer.choking = true) (hclock : clock.now ≤ deadline)
    (h : ∀ verdict after, Decides clock c.link c.peer verdict after → deadline < after.now) :
    ∃ after c', awaitUnchokeUntil deadline Scope.open clock c =
        ⟨.failed (.unchokeTimeout (.ofMillis c.unchokeTimeout)), after, c'⟩ ∧
      after.now = deadline := by
  -- on what is left to be used up, which is less after a message
  induction hn : c.budget using Nat.strongRecOn generalizing clock c with
  | ind n ih =>
    have hby := comesBy_receive hpunctual hsettles hclock c.link
    generalize hcame : Link.receive (Scope.open.upTo deadline) clock c.link = o at hby
    cases hby with
    | @message message after t hopen hafter =>
      cases hheard : c.peer.hear .unchoke message with
      | error error =>
        exact absurd hafter (Nat.not_le_of_lt (h _ _ (decides_of_hear hopen hheard)))
      | ok next =>
        by_cases hleave : message = .unchoke
        · subst hleave
          exact absurd hafter (Nat.not_le_of_lt (h _ _ (.leave hopen)))
        · obtain ⟨hround, hrest⟩ := awaitUnchokeUntil_of_heard hchoking hcame hheard
          have hless := lt_of_advances (advances_unchokeRound deadline)
            (congrArg Outcome.ending hround)
          rw [hround, hn] at hless
          rw [hrest]
          exact ih _ hless (Peer.choking_of_hear hheard hchoking hleave) hafter
            (fun verdict later hdecides ↦ h _ _ (.other hopen hleave hheard hdecides)) rfl
    | failure hopen hafter => exact absurd hafter (Nat.not_le_of_lt (h _ _ (.failure hopen)))
    | @nothing after t hnow =>
      have hexpired := receiveOther_apply .unchoke (Scope.open.upTo deadline) clock c
      rw [hcame] at hexpired
      have hends : awaitUnchokeUntil deadline Scope.open clock c = _ := repeatUntil_apply ..
      rw [unchokeRound_of_expired hchoking hexpired] at hends
      exact ⟨after, _, hends, hnow⟩

/-- The rule for a wait for leave up to a deadline. -/
structure Waits (deadline : Nat) (clock : Clock) (c : Connection σ) : Prop where
  /-- It ends with leave exactly if leave comes first by the deadline. -/
  leave : (∃ after c', awaitUnchoke Scope.open clock c = ⟨.done (), after, c'⟩) ↔
    ∃ after, Decides clock c.link c.peer (.done ()) after ∧ after.now ≤ deadline
  /-- It ends with what decides it by the deadline, and then. -/
  decided : ∀ verdict after, Decides clock c.link c.peer verdict after → after.now ≤ deadline →
    ∃ c', awaitUnchoke Scope.open clock c = ⟨verdict, after, c'⟩
  /-- If nothing decides it by the deadline it fails then. -/
  late : (∀ verdict after, Decides clock c.link c.peer verdict after → deadline < after.now) →
    ∃ after c', awaitUnchoke Scope.open clock c =
        ⟨.failed (.unchokeTimeout (.ofMillis c.unchokeTimeout)), after, c'⟩ ∧ after.now = deadline

/-- Who withholds leave is waited for by the rule. -/
theorem waits_of_choking {calm : σ → Prop} (hpunctual : Punctual (Link.receive (σ := σ)))
    (hsettles : Settles calm Scope.Limited (Link.receive (σ := σ)))
    (hchoking : c.peer.choking = true) (hdeadline : c.peer.deadline = some deadline)
    (hclock : clock.now ≤ deadline) : Waits deadline clock c := by
  have hwait : awaitUnchoke Scope.open clock c =
      awaitUnchokeUntil deadline Scope.open clock c := by
    rw [awaitUnchoke_apply, hdeadline]
    rfl
  have hdecided (verdict : Ending Unit) (after : Clock)
      (h : Decides clock c.link c.peer verdict after) (hafter : after.now ≤ deadline) :
      ∃ c', awaitUnchoke Scope.open clock c = ⟨verdict, after, c'⟩ := by
    rw [hwait]
    exact awaitUnchokeUntil_of_decides hpunctual h hchoking hafter
  have hlate (h : ∀ verdict after, Decides clock c.link c.peer verdict after →
      deadline < after.now) :
      ∃ after c', awaitUnchoke Scope.open clock c =
        ⟨.failed (.unchokeTimeout (.ofMillis c.unchokeTimeout)), after, c'⟩ ∧
          after.now = deadline := by
    rw [hwait]
    exact awaitUnchokeUntil_of_not_decides hpunctual hsettles hchoking hclock h
  refine ⟨⟨?_, ?_⟩, hdecided, hlate⟩
  · rintro ⟨after, c', hdone⟩
    by_cases h : ∃ verdict after, Decides clock c.link c.peer verdict after ∧ after.now ≤ deadline
    · obtain ⟨verdict, later, hverdict, hlater⟩ := h
      obtain ⟨_, hends⟩ := hdecided verdict later hverdict hlater
      rw [hdone] at hends
      cases hends
      exact ⟨after, hverdict, hlater⟩
    · obtain ⟨_, _, hends, -⟩ := hlate fun verdict later hverdict ↦
        Nat.lt_of_not_le fun hlater ↦ h ⟨verdict, later, hverdict, hlater⟩
      rw [hdone] at hends
      cases hends
  · rintro ⟨after, hverdict, hafter⟩
    obtain ⟨c', hends⟩ := hdecided _ _ hverdict hafter
    exact ⟨after, c', hends⟩

/-- After any history of what is known about a peer a deadline is set only while this side is
interested and the peer withholds leave, and it is the one that was given last. When interest was
declared to a peer that withholds leave the deadline is the given time after that, no message but
leave moves it, and a wait for leave that begins by then follows the rule. -/
theorem awaitUnchoke_deadline {calm : σ → Prop} (hpunctual : Punctual (Link.receive (σ := σ)))
    (hsettles : Settles calm Scope.Limited (Link.receive (σ := σ))) :
    (∀ n history moment, (Peer.after n history).deadline = some moment →
        (Peer.after n history).interested = true ∧ (Peer.after n history).choking = true ∧
          Peer.Event.lastDeadline? history = some moment) ∧
      ∀ (scope : Scope) (before sent clock : Clock) (c c' : Connection σ),
        sendInterested scope before c = ⟨.done (), sent, c'⟩ → c.peer.choking = true →
        c'.unchokeTimeout = c.unchokeTimeout ∧
          c'.peer.deadline = some (sent.now + c.unchokeTimeout) ∧
          (∀ messages : List Message, .unchoke ∉ messages →
            ((messages.map Peer.Event.takeIn).foldl Peer.perform c'.peer).deadline =
              some (sent.now + c.unchokeTimeout)) ∧
          (clock.now ≤ sent.now + c.unchokeTimeout →
            Waits (sent.now + c.unchokeTimeout) clock c') := by
  refine ⟨Peer.armed_after, ?_⟩
  intro scope before sent clock c c' hsent hbefore
  obtain ⟨hpeer, htimeout⟩ := of_sendInterested hsent
  have hchoking : c'.peer.choking = true := by
    rw [hpeer]
    exact hbefore
  have hdeadline : c'.peer.deadline = some (sent.now + c.unchokeTimeout) := by
    rw [hpeer, Peer.declareInterest, hbefore]
    rfl
  exact ⟨htimeout, hdeadline, fun messages hmessages ↦
    (Peer.deadline_foldl_perform hchoking hmessages).trans hdeadline,
    waits_of_choking hpunctual hsettles hchoking hdeadline⟩

/-- A peer announces a piece and says once more that it withholds leave; it gives leave in time, and
what it says after that does not matter. -/
theorem awaitUnchoke_deadline_hesitantPeer :
    let c : Connection Queues := .start ⟨.octets 127 0 0 1, 6881⟩
      ⟨[.announce 1, .choke, .unchoke, .piece ⟨0, 0, []⟩], [], []⟩ 2 5
    ∃ c', sendInterested Scope.open Clock.zero c = ⟨.done (), Clock.zero, c'⟩ ∧
      c'.peer.deadline = some 5 ∧
      ∃ after c'', awaitUnchoke Scope.open ⟨3, none⟩ c' = ⟨.done (), after, c''⟩ := by
  intro c
  have hrule := (awaitUnchoke_deadline Queues.punctual_receive Queues.settles_receive).2
    Scope.open Clock.zero Clock.zero ⟨3, none⟩ c _ rfl rfl
  obtain ⟨-, hdeadline, -, hwaits⟩ := hrule
  have hwaits : Waits 5 ⟨3, none⟩ _ := hwaits (by decide)
  refine ⟨_, rfl, hdeadline, hwaits.leave.mpr ⟨⟨3, none⟩, ?_, by decide⟩⟩
  exact .other rfl nofun rfl (.other rfl nofun rfl (.leave rfl))

end Connection

end PeerWire
