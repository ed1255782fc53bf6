import PeerWire.Proofs.LinkPunctuality
import PeerWire.Proofs.Listening

/-!
# Who is admitted

A peer is admitted when it has announced every piece at once and gives leave to request in time.
Main statement: what a peer says decides alone whether it is admitted, what is sent to it and what
is taken from it. Nothing is sent before the peer has announced every piece, and then only interest;
no message is taken after the one that completes the admission; a delivered block always makes the
admission fail, and so does a peer that lacks pieces, which are counted.
-/

namespace PeerWire

variable {σ : Type}

/-! ### Links with a log -/

/-- Whether the entry says that something was sent, or was to be. -/
def Traffic.isSending : Traffic → Bool
  | came _ => false
  | _ => true

namespace Tapped

variable [Link σ] {scope : Scope} {clock after : Clock} {t u : Tapped σ} {message : Message}

/-- What comes over a tapped link comes over the link, and is noted. -/
theorem receive_eq_done_iff :
    Link.receive scope clock t = ⟨.done message, after, u⟩ ↔
      ∃ s, Link.receive scope clock t.link = ⟨.done message, after, s⟩ ∧
        u = ⟨s, t.log ++ [.came message]⟩ := by
  rw [receive_apply]
  generalize Link.receive scope clock t.link = o
  obtain ⟨ending, later, s⟩ := o
  constructor
  · intro h
    cases h
    exact ⟨s, rfl, rfl⟩
  · rintro ⟨s, heq, rfl⟩
    cases heq
    rfl

/-- Messages that come over a tapped link come over the link, and are noted. -/
theorem comes_iff {messages : List Message} :
    Comes scope clock t messages after u ↔
      ∃ s, Comes scope clock t.link messages after s ∧ u = ⟨s, t.log ++ messages.map .came⟩ := by
  induction messages generalizing clock t with
  | nil =>
    constructor
    · rintro ⟨⟩
      exact ⟨u.link, .nil _ _, by simp⟩
    · rintro ⟨_, ⟨⟩, rfl⟩
      simpa using Comes.nil after t
  | cons message messages ih =>
    constructor
    · rintro (_ | ⟨first, rest⟩)
      obtain ⟨s, hfirst, rfl⟩ := receive_eq_done_iff.mp first
      obtain ⟨s', hrest, rfl⟩ := ih.mp rest
      exact ⟨s', .cons hfirst hrest, by simp⟩
    · rintro ⟨s', _ | ⟨first, rest⟩, rfl⟩
      refine .cons (receive_eq_done_iff.mpr ⟨_, first, rfl⟩) (ih.mpr ⟨s', rest, ?_⟩)
      simp

end Tapped

/-! ### What listening leaves in the log -/

/-- The log says what was sent, and that no block came. -/
def Tapped.Clean (sends : List Traffic) (t : Tapped σ) : Prop :=
  t.log.filter Traffic.isSending = sends ∧ ∀ fragment, .came (.piece fragment) ∉ t.log

namespace Connection

open Activity

variable [Link σ] {scope : Scope} {clock after : Clock} {awaited : Awaited} {sends : List Traffic}

/-- Listening sends nothing, and fails when a block comes. -/
def listened (awaited : Awaited) (sends : List Traffic) :
    Aftermath (Connection (Tapped σ)) Unit where
  done _ c := c.link.Clean sends
  failed error c := c.link.log.filter Traffic.isSending = sends ∧
    ∀ fragment, .came (.piece fragment) ∈ c.link.log →
      error = .unexpectedMessage (.fragment fragment.block) awaited
  broken c := c.link.Clean sends

omit [Link σ] in
/-- A log without blocks says nothing wrong about them. -/
theorem failed_listened {error : Error} {c : Connection (Tapped σ)} (h : c.link.Clean sends) :
    (listened awaited sends).failed error c :=
  ⟨h.1, fun fragment hmem ↦ absurd hmem (h.2 fragment)⟩

omit [Link σ] in
/-- However listening ends, a block that came has made it fail. -/
theorem of_holds_listened {o : Outcome (Connection (Tapped σ)) Unit}
    (h : (listened awaited sends).Holds o) :
    o.state.link.log.filter Traffic.isSending = sends ∧
      ∀ fragment, .came (.piece fragment) ∈ o.state.link.log →
        o.ending = .failed (.unexpectedMessage (.fragment fragment.block) awaited) := by
  obtain ⟨ending, after, c⟩ := o
  cases ending with
  | failed error => exact ⟨h.1, fun fragment hmem ↦ congrArg Ending.failed (h.2 fragment hmem)⟩
  | _ => exact ⟨h.1, fun fragment hmem ↦ absurd hmem (h.2 fragment)⟩

/-- A message that comes is heard, or makes listening fail. -/
theorem leads_receiveOther :
    Leads (fun c : Connection (Tapped σ) ↦ c.link.Clean sends) (receiveOther awaited)
      (listened awaited sends) := by
  intro scope clock c hclean
  rw [receiveOther_apply, Tapped.receive_apply]
  generalize Link.receive scope clock c.link.link = o
  obtain ⟨ending, after, t⟩ := o
  cases ending with
  | done message =>
    have hsends : (c.link.log ++ [Traffic.came message]).filter Traffic.isSending = sends := by
      rw [List.filter_append, hclean.1]
      simp [Traffic.isSending]
    have hpiece {fragment : Fragment}
        (hmem : Traffic.came (.piece fragment) ∈ c.link.log ++ [Traffic.came message]) :
        message = .piece fragment := by
      rcases List.mem_append.mp hmem with hmem | hmem
      · exact absurd hmem (hclean.2 fragment)
      · cases List.mem_singleton.mp hmem
        rfl
    cases hheard : c.peer.hear awaited message with
    | ok peer =>
      simp only [hheard]
      refine ⟨hsends, fun fragment hmem ↦ ?_⟩
      rw [hpiece hmem] at hheard
      cases hheard
    | error error =>
      simp only [hheard]
      refine ⟨hsends, fun fragment hmem ↦ ?_⟩
      rw [hpiece hmem] at hheard
      cases hheard
      rfl
  | failed error => exact failed_listened hclean
  | _ => exact hclean

/-- The wait for a description listens. -/
theorem leads_awaitDescriptor_log :
    Leads (fun c : Connection (Tapped σ) ↦ c.link.Clean sends) awaitDescriptor
      (listened .availability sends) :=
  leads_awaitDescriptor leads_receiveOther

/-- The wait for leave listens. -/
theorem leads_awaitUnchoke_log :
    Leads (fun c : Connection (Tapped σ) ↦ c.link.Clean sends) awaitUnchoke
      (listened .unchoke sends) :=
  leads_awaitUnchoke leads_receiveOther fun _ _ h ↦ failed_listened h

/-! ### Declaring interest -/

variable {message : Message} {c : Connection σ}

/-- What is sent over the link is sent. -/
theorem send_of_done {t : σ} (h : Link.send message scope clock c.link = ⟨.done (), after, t⟩) :
    send message scope clock c = ⟨.done (), after, { c with link := t }⟩ := by
  simp only [send, bind_apply, attempt, onLink, onPart, h]
  rfl

/-- The time for leave runs from when the interest was sent. -/
theorem sendInterested_of_done {t : σ}
    (h : Link.send .interested scope clock c.link = ⟨.done (), after, t⟩) :
    sendInterested scope clock c = ⟨.done (), after, { c with
      link := t
      peer := c.peer.declareInterest (after.now + c.unchokeTimeout) }⟩ := by
  rw [sendInterested, bind_of_done (send_of_done h)]
  rfl

end Connection

/-! ### The gates -/

/-- A peer of so many pieces introduces itself: quiet messages come, and then a description. -/
structure Introduces [Link σ] (scope : Scope) (n : Nat) (clock : Clock) (s : σ)
    (quiet : List Message) (description : Message) (after : Clock) (t : σ) : Prop where
  /-- The messages come. -/
  comes : Comes scope clock s (quiet ++ [description]) after t
  /-- All but the last are quiet. -/
  quiet : ∀ message ∈ quiet, message.isQuiet = true
  /-- The last one describes the peer. -/
  describes : Peer.Event.describes n (.takeIn description) = true

/-- A peer introduces itself with every piece. -/
def IntroducesAll [Link σ] (scope : Scope) (n : Nat) (clock : Clock) (s : σ) : Prop :=
  ∃ quiet description middle t, Introduces scope n clock s quiet description middle t ∧
    ∀ piece < n, piece ∈ description.pieces

/-- What comes from a peer of so many pieces, and is sent to it, until it is admitted: it introduces
itself with every piece, and gives leave before that and does not take it back, or in a certain time
after interest was sent. -/
inductive Admits [Link σ] (scope : Scope) (n timeout : Nat) (clock : Clock) (s : σ) :
    Clock → σ → List Traffic → Prop where
  /-- There was leave before. -/
  | already {quiet : List Message} {description : Message} {middle after : Clock} {t u : σ}
      (introduces : Introduces scope n clock s quiet description middle t)
      (complete : ∀ piece < n, piece ∈ description.pieces)
      (went : Link.send .interested scope middle t = ⟨.done (), after, u⟩)
      (leave : quiet.foldl Message.leave false = true) :
      Admits scope n timeout clock s after u
        ((quiet ++ [description]).map .came ++ [.started .interested, .went .interested])
  /-- There is leave later, and no wrong message before. -/
  | later {quiet others : List Message} {description : Message} {middle later after : Clock}
      {t u v : σ}
      (introduces : Introduces scope n clock s quiet description middle t)
      (complete : ∀ piece < n, piece ∈ description.pieces)
      (went : Link.send .interested scope middle t = ⟨.done (), later, u⟩)
      (noLeave : quiet.foldl Message.leave false = false)
      (comes : Comes scope later u (others ++ [Message.unchoke]) after v)
      (fitting : ∀ message ∈ others, message.isFitting n = true ∧ message ≠ .unchoke)
      (inTime : after.now ≤ later.now + timeout) :
      Admits scope n timeout clock s after v
        ((quiet ++ [description]).map .came ++ [.started .interested, .went .interested] ++
          (others ++ [Message.unchoke]).map .came)

namespace Job

open Activity

variable [Link σ] {scope : Scope} {clock middle later after : Clock} {s t u : σ} {n timeout : Nat}
  {address : Address} {quiet : List Message} {description : Message}

/-- A connection to a peer that has introduced itself. -/
def introduced (address : Address) (n timeout : Nat) (quiet : List Message) (description : Message)
    (t : σ) : Connection (Tapped σ) where
  address := address
  remoteId := none
  unchokeTimeout := timeout
  peer := .introduced n (quiet.foldl Message.leave false) description
  link := ⟨t, (quiet ++ [description]).map .came⟩

/-- After an introduction it is known which pieces the peer has. -/
theorem awaitDescriptor_of_introduces (hpunctual : Punctual (Link.receive (σ := σ)))
    (h : Introduces scope n clock s quiet description middle t) :
    Connection.awaitDescriptor scope clock (.start address (⟨s, []⟩ : Tapped σ) n timeout) =
      ⟨.done (), middle, introduced address n timeout quiet description t⟩ :=
  (Connection.awaitDescriptor_eq_done_iff (Tapped.punctual_receive hpunctual) rfl).mpr
    ⟨quiet, description, _, Tapped.comes_iff.mpr ⟨t, h.comes, rfl⟩, h.quiet, h.describes, rfl⟩

/-- A peer that introduces itself with some pieces only is refused, and they are counted. -/
theorem passGates_of_incomplete (hpunctual : Punctual (Link.receive (σ := σ)))
    (h : Introduces scope n clock s quiet description middle t)
    (hincomplete : ¬∀ piece < n, piece ∈ description.pieces) :
    passGates scope clock (.start address (⟨s, []⟩ : Tapped σ) n timeout) =
      ⟨.failed (.incompleteFile ((List.range n).filter (· ∉ description.pieces)).length n), middle,
        introduced address n timeout quiet description t⟩ := by
  have hgate : Connection.ensureComplete scope middle
        (introduced address n timeout quiet description t) =
      ⟨.failed (.incompleteFile ((List.range n).filter (· ∉ description.pieces)).length n), middle,
        introduced address n timeout quiet description t⟩ := by
    show ofExcept (Peer.introduced _ _ _).ensureComplete scope middle _ = _
    rw [Peer.ensureComplete_of_incomplete hincomplete]
    rfl
  rw [passGates, bind_of_done (awaitDescriptor_of_introduces hpunctual h), bind_apply, hgate]

/-- The connection to a peer that has introduced itself with every piece after interest was sent. -/
def interested (address : Address) (n timeout : Nat) (quiet : List Message)
    (description : Message) (later : Clock) (u : σ) : Connection (Tapped σ) where
  address := address
  remoteId := none
  unchokeTimeout := timeout
  peer := (Peer.introduced n (quiet.foldl Message.leave false) description).declareInterest
    (later.now + timeout)
  link := ⟨u, (quiet ++ [description]).map .came ++ [.started .interested, .went .interested]⟩

/-- A peer that introduces itself with every piece is told of interest, and leave is waited for. -/
theorem passGates_of_complete (hpunctual : Punctual (Link.receive (σ := σ)))
    (h : Introduces scope n clock s quiet description middle t)
    (hcomplete : ∀ piece < n, piece ∈ description.pieces)
    (hwent : Link.send .interested scope middle t = ⟨.done (), later, u⟩) :
    passGates scope clock (.start address (⟨s, []⟩ : Tapped σ) n timeout) =
      Connection.awaitUnchoke scope later
        (interested address n timeout quiet description later u) := by
  have hgate : Connection.ensureComplete scope middle
        (introduced address n timeout quiet description t) =
      ⟨.done (), middle, introduced address n timeout quiet description t⟩ := by
    show ofExcept (Peer.introduced _ _ _).ensureComplete scope middle _ = _
    rw [Peer.ensureComplete_eq_ok_iff.mpr (Peer.missing_introduced_eq_zero_iff.mpr hcomplete)]
    rfl
  have hsend : Connection.sendInterested scope middle
        (introduced address n timeout quiet description t) =
      ⟨.done (), later, interested address n timeout quiet description later u⟩ := by
    rw [Connection.sendInterested_of_done (t := ⟨u, (quiet ++ [description]).map .came ++
      [.started .interested, .went .interested]⟩)]
    · rfl
    · rw [Tapped.send_apply]
      simp only [introduced, hwent]
  rw [passGates, bind_of_done (awaitDescriptor_of_introduces hpunctual h), bind_of_done hgate,
    bind_of_done hsend]

/-- A peer that never introduces itself is sent nothing, and is refused. -/
theorem passGates_of_not_introduces (address : Address) (timeout : Nat)
    (hpunctual : Punctual (Link.receive (σ := σ)))
    (h : ∀ quiet description middle t, ¬Introduces scope n clock s quiet description middle t) :
    let o := passGates scope clock (.start address (⟨s, []⟩ : Tapped σ) n timeout)
    o.ending ≠ .done () ∧ (Connection.listened .availability []).Holds o := by
  intro o
  have hpeer :
      (Connection.start address (⟨s, []⟩ : Tapped σ) n timeout).peer = .fresh n false := rfl
  have hrun : o = (Connection.awaitDescriptor >>= fun _ ↦ _) scope clock _ := rfl
  have hlistened : (Connection.listened .availability []).Holds
      (Connection.awaitDescriptor scope clock (.start address (⟨s, []⟩ : Tapped σ) n timeout)) :=
    Connection.leads_awaitDescriptor_log scope clock _ ⟨rfl, by simp [Connection.start]⟩
  rw [hrun, bind_apply]
  cases hawait : Connection.awaitDescriptor scope clock
    (.start address (⟨s, []⟩ : Tapped σ) n timeout) with
  | mk ending middle c =>
    rw [hawait] at hlistened
    cases ending with
    | done _ =>
      obtain ⟨quiet, description, t, hcomes, hquiet, hdescribes, -⟩ :=
        (Connection.awaitDescriptor_eq_done_iff (Tapped.punctual_receive hpunctual) hpeer).mp hawait
      obtain ⟨s', hbare, -⟩ := Tapped.comes_iff.mp hcomes
      exact absurd ⟨hbare, hquiet, hdescribes⟩ (h quiet description middle s')
    | _ => exact ⟨by simp, hlistened⟩

/-- The messages of an introduction deliver no block. -/
theorem clean_introduced (address : Address) (timeout : Nat)
    (h : Introduces scope n clock s quiet description middle t) :
    (introduced address n timeout quiet description t).link.Clean [] := by
  constructor
  · rw [List.filter_eq_nil_iff]
    intro event hmem
    obtain ⟨message, -, rfl⟩ := List.mem_map.mp hmem
    simp [Traffic.isSending]
  · intro fragment hmem
    obtain ⟨message, hmem, heq⟩ := List.mem_map.mp hmem
    cases heq
    rcases List.mem_append.mp hmem with hmem | hmem
    · exact absurd (h.quiet _ hmem) (by simp [Message.isQuiet])
    · have hdescribes := h.describes
      rw [← List.mem_singleton.mp hmem] at hdescribes
      cases hdescribes

/-- After interest was sent the log says that it was, and no more. -/
theorem clean_interested (address : Address) (timeout : Nat) (later : Clock) (u : σ)
    (h : Introduces scope n clock s quiet description middle t) :
    (interested address n timeout quiet description later u).link.Clean
      [.started .interested, .went .interested] := by
  obtain ⟨hsends, hpieces⟩ := clean_introduced address timeout h
  constructor
  · show List.filter _ (_ ++ _) = _
    rw [List.filter_append]
    exact congrArg (· ++ _) hsends
  · intro fragment hmem
    rcases List.mem_append.mp hmem with hmem | hmem
    · exact hpieces fragment hmem
    · simp at hmem

omit [Link σ] in
/-- A peer that gives no leave before interest was sent has time to give it. -/
theorem withholding_interested (address : Address) (timeout : Nat) (later : Clock) (u : σ)
    (hcomplete : ∀ piece < n, piece ∈ description.pieces)
    (hleave : quiet.foldl Message.leave false = false) :
    (interested address n timeout quiet description later u).peer.Withholding ∧
      (interested address n timeout quiet description later u).peer.deadline =
        some (later.now + timeout) := by
  refine ⟨⟨rfl, ?_, ?_⟩, ?_⟩
  · intro piece hlt
    exact List.mem_filter.mpr ⟨hcomplete piece hlt, decide_eq_true hlt⟩
  · simp [interested, Peer.declareInterest, Peer.introduced, Peer.fresh, hleave]
  · simp [interested, Peer.declareInterest, Peer.introduced, Peer.fresh, hleave]

omit [Link σ] in
/-- A peer that gave leave before interest was sent may be asked at once. -/
theorem unchoked_interested (address : Address) (n timeout : Nat) (description : Message)
    (later : Clock) (u : σ) (hleave : quiet.foldl Message.leave false = true) :
    let peer := (interested address n timeout quiet description later u).peer
    peer.choking = false ∧ peer.stance = .unchoked ∧ peer.deadline = none := by
  simp [interested, Peer.declareInterest, Peer.introduced, Peer.fresh, Peer.unknown, Peer.connect,
    Peer.greet, Peer.stance, hleave]

/-- The gates are passed when the peer is admitted, with what is on the link until then. -/
theorem passGates_of_admits (address : Address) (hpunctual : Punctual (Link.receive (σ := σ)))
    {log : List Traffic} (h : Admits scope n timeout clock s after u log) :
    ∃ c, passGates scope clock (.start address (⟨s, []⟩ : Tapped σ) n timeout) =
      ⟨.done (), after, c⟩ ∧ c.link = ⟨u, log⟩ := by
  cases h with
  | @already quiet description middle _ t _ introduces complete went leave =>
    rw [passGates_of_complete hpunctual introduces complete went,
      Connection.awaitUnchoke_of_leave (unchoked_interested _ _ _ _ _ _ leave).1]
    exact ⟨_, rfl, rfl⟩
  | @later quiet others description middle later _ t u' _ introduces complete went noLeave comes
      fitting inTime =>
    obtain ⟨hwithholding, hdeadline⟩ := withholding_interested address timeout later u' complete
      noLeave
    rw [passGates_of_complete hpunctual introduces complete went]
    refine ⟨_, (Connection.awaitUnchoke_eq_done_iff (Tapped.punctual_receive hpunctual)
      hwithholding hdeadline (Nat.le_add_right _ _)).mpr
      ⟨others, _, Tapped.comes_iff.mpr ⟨_, comes, rfl⟩, fitting, inTime, rfl⟩, rfl⟩

/-- The gates are passed by an admitted peer only, and then requests may be made. -/
theorem admits_of_passGates (hpunctual : Punctual (Link.receive (σ := σ)))
    (hsend : ∀ messages after t, Comes scope clock s messages after t →
      ∃ later u, Link.send .interested scope after t = ⟨.done (), later, u⟩)
    {c : Connection (Tapped σ)}
    (h : passGates scope clock (.start address (⟨s, []⟩ : Tapped σ) n timeout) =
      ⟨.done (), after, c⟩) :
    Admits scope n timeout clock s after c.link.link c.link.log ∧
      c.peer.stance = .unchoked ∧ c.peer.missing = 0 ∧ c.peer.deadline = none := by
  by_cases hintroduces : ∃ quiet description middle t,
    Introduces scope n clock s quiet description middle t
  · obtain ⟨quiet, description, middle, t, hintroduces⟩ := hintroduces
    by_cases hcomplete : ∀ piece < n, piece ∈ description.pieces
    · obtain ⟨later, u, hwent⟩ := hsend _ _ _ hintroduces.comes
      have hmissing :
          (Peer.introduced n (quiet.foldl Message.leave false) description).missing = 0 :=
        Peer.missing_introduced_eq_zero_iff.mpr hcomplete
      rw [passGates_of_complete hpunctual hintroduces hcomplete hwent] at h
      cases hleave : quiet.foldl Message.leave false with
      | true =>
        obtain ⟨hchoking, hstance, hdeadline⟩ := unchoked_interested address n timeout description
          later u hleave
        rw [Connection.awaitUnchoke_of_leave hchoking] at h
        cases h
        exact ⟨.already hintroduces hcomplete hwent hleave, hstance, hmissing, hdeadline⟩
      | false =>
        obtain ⟨hwithholding, hdeadline⟩ := withholding_interested address timeout later u
          hcomplete hleave
        obtain ⟨others, t', hcomes, hfitting, hinTime, rfl⟩ :=
          (Connection.awaitUnchoke_eq_done_iff (Tapped.punctual_receive hpunctual)
            hwithholding hdeadline (Nat.le_add_right _ _)).mp h
        obtain ⟨v, hbare, rfl⟩ := Tapped.comes_iff.mp hcomes
        exact ⟨.later hintroduces hcomplete hwent hleave hbare hfitting hinTime, rfl, hmissing, rfl⟩
    · rw [passGates_of_incomplete hpunctual hintroduces hcomplete] at h
      cases h
  · simp only [not_exists] at hintroduces
    have hrefused := passGates_of_not_introduces address timeout hpunctual hintroduces
    exact absurd (congrArg Outcome.ending h) hrefused.1

/-- A peer that introduces itself with every piece is told of interest and else listened to. -/
theorem holds_listened_of_complete (address : Address) (timeout : Nat)
    (hpunctual : Punctual (Link.receive (σ := σ)))
    (h : Introduces scope n clock s quiet description middle t)
    (hcomplete : ∀ piece < n, piece ∈ description.pieces)
    (hwent : Link.send .interested scope middle t = ⟨.done (), later, u⟩) :
    (Connection.listened .unchoke [.started .interested, .went .interested]).Holds
      (passGates scope clock (.start address (⟨s, []⟩ : Tapped σ) n timeout)) := by
  rw [passGates_of_complete hpunctual h hcomplete hwent]
  exact Connection.leads_awaitUnchoke_log scope later _ (clean_interested address timeout later u h)

/-- Any other peer is only listened to. -/
theorem holds_listened_of_not_complete (address : Address) (timeout : Nat)
    (hpunctual : Punctual (Link.receive (σ := σ)))
    (h : ¬IntroducesAll scope n clock s) :
    (Connection.listened .availability []).Holds
      (passGates scope clock (.start address (⟨s, []⟩ : Tapped σ) n timeout)) := by
  by_cases hintroduces : ∃ quiet description middle t,
    Introduces scope n clock s quiet description middle t
  · obtain ⟨quiet, description, middle, t, hintroduces⟩ := hintroduces
    rw [passGates_of_incomplete hpunctual hintroduces fun hcomplete ↦
      h ⟨quiet, description, middle, t, hintroduces, hcomplete⟩]
    exact Connection.failed_listened (clean_introduced address timeout hintroduces)
  · simp only [not_exists] at hintroduces
    exact (passGates_of_not_introduces address timeout hpunctual hintroduces).2

/-- Over a link that sends without failing, what comes from a fresh peer decides whether it passes
the gates. It passes exactly if it introduces itself with every piece, after quiet messages only,
and gives leave before that or in time; then requests may be made, no piece is missing, no deadline
is set, and nothing was taken from the link after what completed the admission. Interest is sent
once, to a peer that introduces itself with every piece, and nothing else is sent. A block that
comes makes it fail, and so does an introduction that leaves pieces out, which are counted. -/
theorem passGates_admission (scope : Scope) (clock : Clock) (s : σ) (address : Address)
    (n timeout : Nat) (hpunctual : Punctual (Link.receive (σ := σ)))
    (hsend : ∀ messages after t, Comes scope clock s messages after t →
      ∃ later u, Link.send .interested scope after t = ⟨.done (), later, u⟩) :
    let o := passGates scope clock (.start address (⟨s, []⟩ : Tapped σ) n timeout)
    (∀ after u log, o.ending = .done () ∧ o.clock = after ∧ o.state.link = ⟨u, log⟩ ↔
        Admits scope n timeout clock s after u log) ∧
      (o.ending = .done () → o.state.peer.stance = .unchoked ∧ o.state.peer.missing = 0 ∧
        o.state.peer.deadline = none) ∧
      (IntroducesAll scope n clock s →
        o.state.link.log.filter Traffic.isSending = [.started .interested, .went .interested]) ∧
      (¬IntroducesAll scope n clock s → o.state.link.log.filter Traffic.isSending = []) ∧
      (∀ fragment, .came (.piece fragment) ∈ o.state.link.log →
        o.ending = .failed (.unexpectedMessage (.fragment fragment.block)
          (if .went .interested ∈ o.state.link.log then .unchoke else .availability))) ∧
      ∀ quiet description middle t, Introduces scope n clock s quiet description middle t →
        (¬∀ piece < n, piece ∈ description.pieces) →
        o.ending = .failed (.incompleteFile
          ((List.range n).filter (· ∉ description.pieces)).length n) := by
  intro o
  have hadmits (hdone : o.ending = .done ()) :=
    admits_of_passGates hpunctual hsend (show o = ⟨.done (), o.clock, o.state⟩ by rw [← hdone])
  have hcomplete (h : IntroducesAll scope n clock s) :
      (Connection.listened .unchoke [.started .interested, .went .interested]).Holds o := by
    obtain ⟨quiet, description, middle, t, hintroduces, hcomplete⟩ := h
    obtain ⟨later, u, hwent⟩ := hsend _ _ _ hintroduces.comes
    exact holds_listened_of_complete address timeout hpunctual hintroduces hcomplete hwent
  have hother (h : ¬IntroducesAll scope n clock s) :
      (Connection.listened .availability []).Holds o :=
    holds_listened_of_not_complete address timeout hpunctual h
  refine ⟨fun after u log ↦ ⟨?_, fun h ↦ ?_⟩, fun hdone ↦ (hadmits hdone).2,
    fun h ↦ (Connection.of_holds_listened (hcomplete h)).1,
    fun h ↦ (Connection.of_holds_listened (hother h)).1, ?_, ?_⟩
  · rintro ⟨hdone, rfl, hlink⟩
    have hadmits := (hadmits hdone).1
    rwa [hlink] at hadmits
  · obtain ⟨c, hrun, hlink⟩ := passGates_of_admits address hpunctual h
    have ho : o = ⟨.done (), after, c⟩ := hrun
    rw [ho]
    exact ⟨rfl, rfl, hlink⟩
  · intro fragment hmem
    by_cases h : IntroducesAll scope n clock s
    · obtain ⟨hsends, hpiece⟩ := Connection.of_holds_listened (hcomplete h)
      have hwent : .went .interested ∈ o.state.link.log :=
        (List.mem_filter.mp (hsends ▸ List.mem_cons_of_mem _ (List.mem_singleton_self _))).1
      rw [if_pos hwent, hpiece fragment hmem]
    · obtain ⟨hsends, hpiece⟩ := Connection.of_holds_listened (hother h)
      have hwent : .went .interested ∉ o.state.link.log := fun hwent ↦
        List.filter_eq_nil_iff.mp hsends _ hwent rfl
      rw [if_neg hwent, hpiece fragment hmem]
  · intro quiet description middle t hintroduces hincomplete
    exact congrArg Outcome.ending (passGates_of_incomplete hpunctual hintroduces hincomplete)

/-- A peer that takes leave back, describes itself and gives leave at last is admitted, and what it
says after that is still to be received. -/
theorem passGates_admission_hesitantPeer :
    let s : Queues := ⟨[.unchoke, .choke, .bitfield (Bitfield.ofBytes [192]), .announce 1,
      .bitfield (Bitfield.ofBytes [0]), .unchoke, .choke], [], []⟩
    let o := passGates Scope.open Clock.zero
      (.start ⟨.octets 127 0 0 1, 6881⟩ (⟨s, []⟩ : Tapped Queues) 2 5)
    o.ending = .done () ∧ o.state.link.link = ⟨[.choke], [.interested], [.interested]⟩ := by
  intro s o
  have hsend : ∀ messages after t, Comes Scope.open Clock.zero s messages after t →
      ∃ later u, Link.send .interested Scope.open after t = ⟨.done (), later, u⟩ :=
    fun _ after t _ ↦ ⟨after, t.put [.interested], rfl⟩
  have hintroduces : Introduces Scope.open 2 Clock.zero s [.unchoke, .choke]
      (.bitfield (Bitfield.ofBytes [192])) Clock.zero ⟨s.incoming.drop 3, [], []⟩ :=
    ⟨.cons rfl (.cons rfl (.cons rfl (.nil _ _))), by decide, by decide⟩
  have hcomes : Comes Scope.open Clock.zero
      (⟨s.incoming.drop 3, [.interested], [.interested]⟩ : Queues)
      ([.announce 1, .bitfield (Bitfield.ofBytes [0])] ++ [.unchoke]) Clock.zero
      ⟨[.choke], [.interested], [.interested]⟩ :=
    .cons rfl (.cons rfl (.cons rfl (.nil _ _)))
  have hadmits := Admits.later hintroduces (by decide) rfl rfl hcomes (by decide)
    (Nat.le_add_right _ 5)
  obtain ⟨hdone, -, hlink⟩ := ((passGates_admission Scope.open Clock.zero s _ 2 5
    Queues.punctual_receive hsend).1 _ _ _).mpr hadmits
  exact ⟨hdone, congrArg Tapped.link hlink⟩

end Job

end PeerWire
