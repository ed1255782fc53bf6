import PeerWire.Proofs.Tallies

/-!
# The discipline of requests

A download that is not told to stop sends nothing but requests, and only while it has leave to. What
ties the window and the peer's record to the log is that the connection takes the leave to be what
the log says, and that the window has outstanding what the account of the log has. Main statement:
over any link and with any messages the log of a download shows requests for blocks of the file
only, sent while there is leave, no more of them outstanding than may be; a download that finishes
has asked for each block once in the order of the file, not counting what became void.
-/

namespace PeerWire

/-! ### What a connection takes the leave to be -/

namespace Connection

open Activity

variable {σ : Type} {c : Connection (Tapped σ)}

/-- What a connection takes the leave to be is what its log says. -/
def Faithful (c : Connection (Tapped σ)) : Prop :=
  c.peer.choking = !Traffic.leaveAfter c.link.log

/-- A connection that starts has heard nothing. -/
theorem faithful_start (address : Address) (link : σ) (pieceCount unchokeTimeout : Nat) :
    (start address (⟨link, []⟩ : Tapped σ) pieceCount unchokeTimeout).Faithful := rfl

/-- A connection stays faithful when an entry of the log changes what it takes the leave to be. -/
theorem Faithful.concat (h : c.Faithful) {c' : Connection (Tapped σ)} {event : Traffic}
    (hlog : c'.link.log = c.link.log ++ [event])
    (hpeer : c'.peer.choking = !Traffic.leave (!c.peer.choking) event) : c'.Faithful := by
  rw [Faithful, hlog, Traffic.leaveAfter_concat, hpeer, h, Bool.not_not]

variable [Link σ]

/-- Sending keeps a connection faithful. -/
theorem faithful_send (message : Message) :
    FailsOnly (fun _ ↦ True) (Faithful (σ := σ)) (send message) := by
  apply leads_of_forall
  intro c hc
  have hstarted {c' : Connection (Tapped σ)} (hlog : c'.link.log = c.link.log ++ [.started message])
      (hpeer : c'.peer.choking = c.peer.choking) : c'.Faithful :=
    hc.concat hlog (by rw [hpeer]; exact (Bool.not_not _).symm)
  apply (leads_send c.link.log c.peer message).mono
  · rintro _ rfl
    exact ⟨rfl, rfl⟩
  · rintro _ c' ⟨hlog, hpeer⟩
    rw [List.append_assoc] at hlog
    show c'.peer.choking = !Traffic.leaveAfter c'.link.log
    rw [hlog, hpeer, hc, ← List.append_assoc, Traffic.leaveAfter_concat, Traffic.leaveAfter_concat]
    rfl
  · rintro _ c' ⟨hlog, hpeer⟩
    exact ⟨trivial, hstarted hlog (by rw [hpeer]; rfl)⟩
  · rintro c' ⟨hlog, hpeer⟩
    exact hstarted hlog (by rw [hpeer])

/-- Ending with an error changes nothing about the leave. -/
theorem choking_endWith (peer : Peer) (error : Error) :
    (peer.endWith error).choking = peer.choking := by
  rw [Peer.endWith.eq_def]
  split
  · rw [Peer.close]
    split <;> rfl
  · rfl

/-- Receiving keeps a connection faithful. -/
theorem faithful_receiveNext :
    FailsOnly (fun _ ↦ True) (Faithful (σ := σ)) receiveNext := by
  apply leads_of_forall
  intro c hc
  apply (leads_receiveNext c.link.log c.peer).mono
  · rintro _ rfl
    exact ⟨rfl, rfl⟩
  · rintro incoming c' ⟨message, hlog, happly⟩
    obtain ⟨hchoking, -, hleave⟩ := Peer.heard_of_apply happly
    exact hc.concat hlog (by rw [hchoking, hleave, Bool.not_not])
  · rintro error c' ⟨hpeer, hlog⟩
    have hchoking : c'.peer.choking = c.peer.choking := by rw [hpeer, choking_endWith]
    refine ⟨trivial, ?_⟩
    obtain hlog | ⟨message, hlog, happly⟩ := hlog
    · show c'.peer.choking = !Traffic.leaveAfter c'.link.log
      rw [hlog, hchoking]
      exact hc
    · obtain ⟨-, hleave⟩ := Peer.unheard_of_apply happly
      exact hc.concat hlog (by rw [hchoking, hleave, Bool.not_not])
  · rintro c' ⟨hlog, hpeer⟩
    show c'.peer.choking = !Traffic.leaveAfter c'.link.log
    rw [hlog, hpeer]
    exact hc

/-- Passing the gates keeps a connection faithful. -/
theorem faithful_passGates :
    FailsOnly (fun _ ↦ True) (Faithful (σ := σ)) Job.passGates :=
  failsOnly_passGates coversGates_true faithful_receiveNext (faithful_send _) (fun _ h ↦ h)
    fun _ _ h ↦ h

end Connection

namespace Job

variable {job : Job} {a : Account} {choking : Bool}

/-! ### What a run puts into the log -/

/-- What an entry in the log of a download has to be, behind what was in the log before. -/
structure Orderly (job : Job) (base before : List Traffic) (event : Traffic) : Prop where
  /-- Nothing is sent but requests for blocks of the file, while there is leave to. -/
  sends : ∀ message, event = .started message ∨ event = .went message →
    Traffic.leaveAfter (base ++ before) = true ∧ ∃ block ∈ job.blocks, message = .request block
  /-- No more of them are outstanding than may be. -/
  bounded : (Account.of (before ++ [event])).outstanding.length ≤ max job.config.queueDepth 1

variable {σ : Type} {base events : List Traffic} {c : Connection (Tapped σ)}

/-- These entries of a log are behind what was in it before, and each of them is what it has to
be. -/
structure Record (job : Job) (base events log : List Traffic) : Prop where
  /-- They are behind what was in the log before. -/
  log_eq : log = base ++ events
  /-- Each of them is what it has to be. -/
  orderly : Traffic.Throughout (job.Orderly base) events

/-- The log of a connection is in order. -/
def Kept (job : Job) (base : List Traffic) (c : Connection (Tapped σ)) : Prop :=
  ∃ events, job.Record base events c.link.log

/-- The log of a connection is in order, with an account and a leave. -/
structure Standing (job : Job) (base : List Traffic) (a : Account) (choking : Bool)
    (c : Connection (Tapped σ)) : Prop where
  /-- The log is in order and has the account. -/
  record : ∃ events, job.Record base events c.link.log ∧ Account.of events = a
  /-- The leave is what the connection takes it to be. -/
  choking : c.peer.choking = choking
  /-- It is what the log says. -/
  faithful : c.Faithful

/-- An account and a leave are nothing that a log has to have. -/
theorem Standing.kept (h : job.Standing base a choking c) : job.Kept base c := by
  obtain ⟨events, hrecord, -⟩ := h.record
  exact ⟨events, hrecord⟩

/-- A log in order goes on with an entry as it has to be. -/
theorem Record.concat {log : List Traffic} (h : job.Record base events log) {event : Traffic}
    (hevent : job.Orderly base events event) :
    job.Record base (events ++ [event]) (log ++ [event]) where
  log_eq := by rw [h.log_eq, List.append_assoc]
  orderly := h.orderly.concat hevent

variable [Link σ]

open Activity

/-- A request for a block of the file may be sent when there is leave and room for it. -/
theorem leads_request {block : Block} (hblock : block ∈ job.blocks)
    (hroom : a.outstanding.length + 1 ≤ max job.config.queueDepth 1) :
    Leads (job.Standing (σ := σ) base a false) (Connection.request block)
      ⟨fun _ ↦ job.Standing base (a.ask block) false, fun _ ↦ job.Kept base, job.Kept base⟩ := by
  apply leads_of_forall
  rintro c ⟨⟨events, hrecord, rfl⟩, hchoking, hfaithful⟩
  have hleave : Traffic.leaveAfter (base ++ events) = true := by
    rw [Connection.Faithful, hchoking, hrecord.log_eq] at hfaithful
    simpa using hfaithful
  have hbegin : job.Orderly base events (.started (.request block)) := by
    constructor
    · intro message hmessage
      simp only [Traffic.started.injEq, reduceCtorEq, or_false] at hmessage
      exact ⟨hleave, block, hblock, hmessage.symm⟩
    · rw [Account.of_concat]
      exact Nat.le_of_succ_le hroom
  have hend : job.Orderly base (events ++ [.started (.request block)])
      (.went (.request block)) := by
    constructor
    · intro message hmessage
      simp only [Traffic.went.injEq, reduceCtorEq, false_or] at hmessage
      refine ⟨?_, block, hblock, hmessage.symm⟩
      rw [← List.append_assoc, Traffic.leaveAfter_concat]
      exact hleave
    · rw [Account.of_concat, Account.of_concat]
      show ((Account.of events).outstanding ++ [block]).length ≤ _
      rw [List.length_append]
      exact hroom
  have hstarted := hrecord.concat hbegin
  apply (Connection.leads_send c.link.log c.peer (.request block)).mono
  · rintro _ rfl
    exact ⟨rfl, rfl⟩
  · rintro _ c' ⟨hlog, hpeer⟩
    refine ⟨⟨_, hlog ▸ hstarted.concat hend, ?_⟩, by rw [hpeer, hchoking], ?_⟩
    · rw [Account.of_concat, Account.of_concat]
      rfl
    · show c'.peer.choking = !Traffic.leaveAfter c'.link.log
      rw [hlog, hpeer, Traffic.leaveAfter_concat, Traffic.leaveAfter_concat]
      exact hfaithful
  · rintro _ c' ⟨hlog, -⟩
    exact ⟨_, hlog ▸ hstarted⟩
  · rintro c' ⟨hlog, -⟩
    exact ⟨_, hlog ▸ hstarted⟩

/-- Requests may be sent when there is leave and room for all of them. -/
theorem leads_requestAll {requests : List Block} (hblocks : ∀ block ∈ requests, block ∈ job.blocks)
    (hroom : a.outstanding.length + requests.length ≤ max job.config.queueDepth 1)
    (hleave : requests ≠ [] → choking = false) :
    Leads (job.Standing (σ := σ) base a choking) (Connection.requestAll requests)
      ⟨fun _ ↦ job.Standing base (requests.foldl Account.ask a) choking, fun _ ↦ job.Kept base,
        job.Kept base⟩ := by
  induction requests generalizing a with
  | nil => exact leads_pure fun _ h ↦ h
  | cons block rest ih =>
    obtain rfl := hleave (List.cons_ne_nil _ _)
    rw [List.length_cons] at hroom
    apply leads_bind
    · exact leads_request (hblocks block List.mem_cons_self) (by omega)
    · intro _
      apply ih (fun other hother ↦ hblocks other (List.mem_cons_of_mem _ hother))
      · show (a.outstanding ++ [block]).length + rest.length ≤ _
        rw [List.length_append, List.length_singleton]
        omega
      · exact fun _ ↦ rfl

/-- A message that is received counts in the account and for the leave. -/
theorem leads_receiveNext (hbounded : a.outstanding.length ≤ max job.config.queueDepth 1) :
    Leads (job.Standing (σ := σ) base a choking) Connection.receiveNext
      ⟨fun incoming ↦ job.Standing base (a.hear incoming) (incoming.choking choking),
        fun _ ↦ job.Kept base, job.Kept base⟩ := by
  apply leads_of_forall
  rintro c ⟨⟨events, hrecord, rfl⟩, rfl, hfaithful⟩
  have hcame (message : Message) : job.Orderly base events (.came message) := by
    constructor
    · nofun
    · rw [Account.of_concat]
      exact Nat.le_trans (Account.length_note_came_le _ _) hbounded
  apply (Connection.leads_receiveNext c.link.log c.peer).mono
  · rintro _ rfl
    exact ⟨rfl, rfl⟩
  · rintro incoming c' ⟨message, hlog, happly⟩
    obtain ⟨hchoking, haccount, hleave⟩ := Peer.heard_of_apply happly
    refine ⟨⟨_, hlog ▸ hrecord.concat (hcame message), ?_⟩, hchoking, hfaithful.concat hlog ?_⟩
    · rw [Account.of_concat, haccount]
    · rw [hchoking, hleave, Bool.not_not]
  · rintro error c' ⟨-, hlog | ⟨message, hlog, -⟩⟩
    · exact ⟨events, hlog ▸ hrecord⟩
    · exact ⟨_, hlog ▸ hrecord.concat (hcame message)⟩
  · rintro c' ⟨hlog, -⟩
    exact ⟨events, hlog ▸ hrecord⟩

/-- Between two rounds of a download the log is in order, and its account and leave are those of
the download. -/
def Settled (job : Job) (base : List Traffic) (s : Session (Tapped σ) × Transfer) : Prop :=
  ∃ a choking, job.Standing base a choking s.1.connection ∧ job.Tallies a choking s.2

/-- A reaction that is allowed may be carried out. -/
theorem leads_carryOut {reaction : Reaction} (h : job.Allows a choking reaction) :
    Leads (fun s : Session (Tapped σ) × Transfer ↦ job.Standing base a choking s.1.connection)
      (carryOut reaction)
      ⟨fun _ ↦ job.Settled base, fun _ s ↦ job.Kept base s.1.connection,
        fun s ↦ job.Kept base s.1.connection⟩ := by
  apply leads_bind (M := fun _ s ↦
    job.Standing base (reaction.requests.foldl Account.ask a) choking s.1.connection)
  · apply leads_onPart
    intro s hs
    apply (leads_requestAll h.blocks h.bounded h.leave).of_imp
    rintro _ rfl
    exact hs
  · intro _
    apply leads_bind (M := fun result s ↦ job.Standing base
      (reaction.requests.foldl Account.ask a) choking s.1.connection ∧
      job.Tallies (reaction.requests.foldl Account.ask a) choking result.1)
    · apply leads_ofExcept
      · rintro ⟨next, notice⟩ hverdict s hs
        exact ⟨hs, h.goesOn next notice hverdict⟩
      · exact fun _ _ s hs ↦ hs.kept
    · rintro ⟨next, notice⟩
      apply leads_modify
      rintro s ⟨hstanding, htallies⟩
      cases notice with
      | none => exact ⟨_, _, hstanding, htallies⟩
      | some notice => exact ⟨_, _, hstanding, htallies⟩

/-- A round leaves the log in order, and gives a content only when the download is complete. -/
theorem leads_transferRound (job : Job) (base : List Traffic) :
    Leads (job.Settled (σ := σ) base) job.transferRound
      ⟨fun result s ↦ result.elim (job.Settled base s) fun _ ↦ job.Settled base s ∧
          s.2.isComplete = true,
        fun _ s ↦ job.Kept base s.1.connection, fun s ↦ job.Kept base s.1.connection⟩ := by
  apply leads_get_bind
  rintro ⟨s, t⟩ hs
  by_cases hcomplete : t.isComplete = true
  · simp only [hcomplete, if_true]
    apply leads_pure
    rintro _ rfl
    exact ⟨hs, hcomplete⟩
  · simp only [hcomplete, Bool.false_eq_true, if_false]
    obtain ⟨a, choking, hstanding, htallies⟩ := hs
    have hbounded : a.outstanding.length ≤ max job.config.queueDepth 1 := by
      rw [← htallies.outstanding, ← htallies.depth]
      exact htallies.bounded
    apply leads_bind (M := fun incoming s ↦
      job.Standing base (a.hear incoming) (incoming.choking choking) s.1.connection)
    · apply leads_onPart
      rintro _ rfl
      apply (leads_receiveNext hbounded).of_imp
      rintro _ rfl
      exact hstanding
    · intro incoming
      apply leads_bind (M := fun _ ↦ job.Settled base)
      · exact leads_carryOut (htallies.allows incoming)
      · exact fun _ ↦ leads_pure fun _ h ↦ h

/-- Asking for the first blocks leaves the log in order. -/
theorem leads_askFirst (job : Job) (base : List Traffic) :
    Leads (job.Settled (σ := σ) base) askFirst
      ⟨fun _ ↦ job.Settled base, fun _ s ↦ job.Kept base s.1.connection,
        fun s ↦ job.Kept base s.1.connection⟩ := by
  apply leads_get_bind
  rintro ⟨s, t⟩ ⟨a, choking, hstanding, htallies⟩
  have hchoking : s.connection.peer.choking = choking := hstanding.choking
  cases choking with
  | true =>
    simp only [hchoking, if_true]
    apply leads_pure
    rintro _ rfl
    exact ⟨a, true, hstanding, htallies⟩
  | false =>
    simp only [hchoking, Bool.false_eq_true, if_false]
    apply (leads_carryOut htallies.allows_unchoked).of_imp
    rintro _ rfl
    exact hstanding

/-- The log of a finished download is in order, each block of the file was answered, and nothing is
outstanding. -/
def Finished (job : Job) (base : List Traffic) (c : Connection (Tapped σ)) : Prop :=
  ∃ events, job.Record base events c.link.log ∧ (Account.of events).answered = job.blocks ∧
    (Account.of events).outstanding = []

/-- Fetching every piece leaves the log in order. -/
theorem leads_transfer (job : Job) (base : List Traffic) :
    Leads (fun s : Session (Tapped σ) ↦ s.connection.link.log = base ∧ s.connection.Faithful)
      job.transfer
      ⟨fun _ s ↦ job.Finished base s.connection, fun _ s ↦ job.Kept base s.connection,
        fun s ↦ job.Kept base s.connection⟩ := by
  apply leads_withOwn
  have hall : Leads (job.Settled (σ := σ) base) job.transferAll
      ⟨fun _ s ↦ job.Settled base s ∧ s.2.isComplete = true,
        fun _ s ↦ job.Kept base s.1.connection, fun s ↦ job.Kept base s.1.connection⟩ := by
    apply leads_bind (M := fun _ ↦ job.Settled base) (leads_askFirst job base)
    intro _
    exact leads_repeatUntil (leads_transferRound job base)
  apply hall.mono
  · rintro ⟨s, t⟩ ⟨⟨hlog, hfaithful⟩, rfl⟩
    have hrecord : job.Record base [] s.connection.link.log := by
      refine ⟨?_, Traffic.throughout_nil⟩
      rw [hlog, List.append_nil]
    exact ⟨_, _, ⟨⟨[], hrecord, rfl⟩, rfl, hfaithful⟩, tallies_start job _⟩
  · rintro _ s ⟨⟨a, choking, ⟨⟨events, hrecord, rfl⟩, -, -⟩, htallies⟩, hcomplete⟩
    obtain ⟨hanswered, houtstanding⟩ := htallies.answered_of_isComplete hcomplete
    exact ⟨events, hrecord, hanswered, houtstanding⟩
  · exact fun _ _ h ↦ h
  · exact fun _ h ↦ h

omit [Link σ] in
/-- A download that is not told to stop leaves what fetching every piece leaves. -/
theorem holds_of_unstopped [Link σ] {scope : Scope} {clock : Clock} {s : Session σ}
    {P : Session σ → Prop} {q : Aftermath (Session σ) Bytes}
    (hrun : (untilStopped job.transfer scope clock s).ending ≠ .done none)
    (htransfer : Leads P job.transfer q) (hs : P s) : q.Holds (job.downloadFrom scope clock s) := by
  have hstopped : Leads P (untilStopped job.transfer)
      (q.after fun result s ↦ ∀ content, result = some content → q.done content s) := by
    apply leads_untilStopped
    · apply htransfer.mono
      · exact fun _ h ↦ h
      · rintro content s h _ ⟨⟩
        exact h
      · exact fun _ _ h ↦ h
      · exact fun _ h ↦ ⟨h, nofun⟩
    · exact fun _ _ ↦ nofun
  have hholds := hstopped scope clock s hs
  rw [downloadFrom, bind_apply]
  generalize untilStopped job.transfer scope clock s = o at hrun hholds ⊢
  obtain ⟨ending, after, s'⟩ := o
  cases ending with
  | done result =>
    cases result with
    | none => exact absurd rfl hrun
    | some content => exact hholds content rfl
  | failed error => exact hholds
  | expired => exact hholds
  | interrupted => exact hholds
  | stuck => exact hholds

/-- Tapping the link changes nothing about a download. If the session is not told to stop, the log
of the download is in order: nothing is sent but requests for blocks of the file, each while the
last that was heard about leave is that there is, and at every moment no more of them are
outstanding than may be. If the download finishes, the requests that were sent are those for the
blocks of the file, in this order, and those that became void. -/
theorem log_of_downloadFrom (job : Job) {scope : Scope} {clock : Clock} {s : Session (Tapped σ)}
    (hfaithful : s.connection.Faithful)
    (hrun : (untilStopped job.transfer scope clock s).ending ≠ .done none) :
    let o := job.downloadFrom scope clock s
    let blocks := (Blocks.ofTorrent job.torrent job.config.blockLength).toList
    job.downloadFrom scope clock s.bare = ⟨o.ending, o.clock, o.state.bare⟩ ∧
    ∃ events, o.state.connection.link.log = s.connection.link.log ++ events ∧
      (∀ before event after, events = before ++ event :: after →
        (∀ message, event = .started message ∨ event = .went message →
          Traffic.leaveAfter (s.connection.link.log ++ before) = true ∧
            ∃ block ∈ blocks, message = .request block) ∧
        (Account.of (before ++ [event])).outstanding.length ≤ max job.config.queueDepth 1) ∧
      ∀ content, o.ending = .done content →
        (Account.of events).answered = blocks ∧
        (Account.of events).outstanding = [] ∧
        blocks.Sublist (Traffic.requested events) ∧
        (Traffic.requested events).Perm (blocks ++ (Account.of events).voided) ∧
        (Traffic.requested events).length =
          blocks.length + (Account.of events).voided.length := by
  intro o blocks
  refine ⟨downloadFrom_bare job scope clock s, ?_⟩
  have hholds : Aftermath.Holds _ o :=
    holds_of_unstopped hrun (leads_transfer job s.connection.link.log) ⟨rfl, hfaithful⟩
  have hlog : ∃ events, job.Record s.connection.link.log events o.state.connection.link.log ∧
      ∀ content, o.ending = .done content →
        (Account.of events).answered = blocks ∧ (Account.of events).outstanding = [] := by
    generalize o = outcome at hholds ⊢
    obtain ⟨ending, after, s'⟩ := outcome
    cases ending with
    | done content =>
      obtain ⟨events, hrecord, hanswered, houtstanding⟩ := hholds
      exact ⟨events, hrecord, fun _ _ ↦ ⟨hanswered, houtstanding⟩⟩
    | failed error =>
      obtain ⟨events, hrecord⟩ := hholds
      exact ⟨events, hrecord, nofun⟩
    | _ =>
      obtain ⟨events, hrecord⟩ := hholds
      exact ⟨events, hrecord, nofun⟩
  obtain ⟨events, hrecord, hdone⟩ := hlog
  refine ⟨events, hrecord.log_eq, ?_, ?_⟩
  · intro before event after heq
    have horderly := hrecord.orderly before event after heq
    exact ⟨horderly.sends, horderly.bounded⟩
  · intro content hcontent
    obtain ⟨hanswered, houtstanding⟩ := hdone content hcontent
    have hcovers := Account.covers_of events
    have hperm := hcovers.perm
    have hsublist := hcovers.sublist
    rw [hanswered, houtstanding, List.append_nil] at hperm hsublist
    refine ⟨hanswered, houtstanding, hsublist, hperm, ?_⟩
    rw [hperm.length_eq, List.length_append]

/-- The peer that gives leave, withdraws it and gives it again, over a tapped link. -/
def tappedPeer : Session (Tapped Script) where
  connection := {
    address := waveringPeer.connection.address
    remoteId := waveringPeer.connection.remoteId
    unchokeTimeout := waveringPeer.connection.unchokeTimeout
    peer := waveringPeer.connection.peer
    link := ⟨waveringPeer.connection.link, []⟩ }
  outbox := waveringPeer.outbox

/-- The three bytes are fetched from that peer with a request for each, and those that became
void. -/
theorem log_of_downloadFrom_tappedPeer : ∃ events,
    (threeBytes.downloadFrom Scope.open Clock.zero tappedPeer).state.connection.link.log =
        events ∧
      (Account.of events).answered = [⟨0, 0, 1⟩, ⟨0, 1, 1⟩, ⟨1, 0, 1⟩] ∧
      (Traffic.requested events).length = 3 + (Account.of events).voided.length := by
  have hdone : (untilStopped threeBytes.transfer Scope.open Clock.zero tappedPeer).ending =
      .done (some [7, 8, 9]) := by with_unfolding_all rfl
  have hrun : (untilStopped threeBytes.transfer Scope.open Clock.zero tappedPeer).ending ≠
      .done none := by
    rw [hdone]
    nofun
  have hfaithful : tappedPeer.connection.Faithful := rfl
  obtain ⟨-, events, hlog, -, hfinished⟩ := log_of_downloadFrom threeBytes hfaithful hrun
  obtain ⟨hanswered, -, -, -, hlength⟩ := hfinished [7, 8, 9] (by with_unfolding_all rfl)
  refine ⟨events, hlog, ?_, ?_⟩
  · rw [hanswered]
    with_unfolding_all rfl
  · rw [hlength]
    with_unfolding_all rfl

end Job

end PeerWire
