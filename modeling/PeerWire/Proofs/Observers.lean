import PeerWire.Proofs.Reports
import PeerWire.Proofs.Tapped

/-!
# Downloads and their observers

Notices are given in the middle of a search and of a download, but never waited for and never looked
at. Two runs that are observed by different observers therefore go through the same steps and give
the same notices, of which each observer keeps what there is room for. Main statement: whoever
observes, a download ends alike at the same time and leaves the same connections as one that is
observed by somebody with room for everything, and an observer who does not read before the end is
left with the first notices of that one, as many as there is room for.
-/

namespace PeerWire

open Activity

variable {σ α : Type} {a b : Observer}

/-! ### Notices -/

/-- What is kept of notices for an observer who reads none of them before the end. -/
def Observer.sees : Observer → List Notice → List Notice
  | .absent, _ => []
  | .gone, _ => []
  | .bounded room, notices => notices.take room
  | .unbounded, notices => notices

namespace Outbox

/-- The same notices were given to two observers. -/
def Alike (a b : Observer) (o o' : Outbox) : Prop :=
  ∃ notices : List Notice, o = notices.foldl post (start a) ∧ o' = notices.foldl post (start b)

/-- At the start none was given to either. -/
theorem alike_start (a b : Observer) : Alike a b (start a) (start b) := ⟨[], rfl, rfl⟩

/-- One more notice is given to both. -/
theorem Alike.post {o o' : Outbox} (h : Alike a b o o') (notice : Notice) :
    Alike a b (o.post notice) (o'.post notice) := by
  obtain ⟨notices, rfl, rfl⟩ := h
  exact ⟨notices ++ [notice], by simp, by simp⟩

/-- Giving notices does not change who observes. -/
theorem observer_foldl_post (o : Outbox) (notices : List Notice) :
    (notices.foldl post o).observer = o.observer := by
  induction notices generalizing o with
  | nil => rfl
  | cons notice notices ih => exact (ih (o.post notice)).trans (observer_post o notice)

/-- An observer without room is kept nothing for. -/
theorem foldl_post_of_not_hasRoom {o : Outbox} (h : hasRoom o.observer o.waiting.length = false)
    (notices : List Notice) : notices.foldl post o = o := by
  induction notices with
  | nil => rfl
  | cons notice notices ih =>
    have hpost : o.post notice = o := by simp [Outbox.post, h]
    rw [List.foldl_cons, hpost, ih]

/-- What waits is what is kept for the observer. -/
theorem foldl_post_start (observer : Observer) (notices : List Notice) :
    notices.foldl post (start observer) = ⟨observer, observer.sees notices⟩ := by
  have hobserver : (notices.foldl post (start observer)).observer = observer :=
    observer_foldl_post _ notices
  have hwaiting : (notices.foldl post (start observer)).waiting = observer.sees notices := by
    cases observer with
    | absent => rw [foldl_post_of_not_hasRoom rfl]; rfl
    | gone => rw [foldl_post_of_not_hasRoom rfl]; rfl
    | bounded room => exact waiting_foldl_post room notices
    | unbounded => exact waiting_foldl_post_unbounded notices
  exact congrArg₂ mk hobserver hwaiting

/-- An observer is left with what is kept of the notices that are given to one with room for
everything. -/
theorem Alike.eq_sees {observer : Observer} {o full : Outbox}
    (h : Alike observer .unbounded o full) : o = ⟨observer, observer.sees full.waiting⟩ := by
  obtain ⟨notices, rfl, rfl⟩ := h
  rw [foldl_post_start, foldl_post_start]
  rfl

end Outbox

/-! ### Fetching the file -/

/-- Activities agree with themselves on the same state. -/
theorem Activity.agree_eq (x : Activity σ α) : Agree (fun _ ↦ False) Eq x x := by
  rintro scope clock s _ rfl
  exact .same rfl

/-- Two sessions are the same but for who observes them. -/
structure Session.Observed (a b : Observer) (s t : Session σ) : Prop where
  /-- The connections are the same. -/
  connection : s.connection = t.connection
  /-- The same notices were given. -/
  outbox : Outbox.Alike a b s.outbox t.outbox

/-- Such a session is the other one with what the observer is left with. -/
theorem Session.Observed.eq_sees {observer : Observer} {s full : Session σ}
    (h : Observed observer .unbounded s full) :
    s = ⟨full.connection, ⟨observer, observer.sees full.outbox.waiting⟩⟩ := by
  obtain ⟨connection, outbox⟩ := s
  exact congrArg₂ Session.mk h.connection h.outbox.eq_sees

/-- What is done to the connection agrees, whatever it is. -/
theorem Session.agree_onConnection_observed (x : Activity (Connection σ) α) :
    Agree (fun _ ↦ False) (Observed a b) (onConnection x) (onConnection x) :=
  agree_onPart (fun _ _ h ↦ h.connection) (fun _ _ _ _ h hconnection ↦ ⟨hconnection, h.outbox⟩)
    (agree_eq x)

namespace Job

/-- Two sessions are the same but for who observes them, and have the same download. -/
def Observed (a b : Observer) (s t : Session σ × Transfer) : Prop :=
  Session.Observed a b s.1 t.1 ∧ s.2 = t.2

/-- What is done to the connection of a session that has a download agrees, whatever it is. -/
theorem agree_besides_observed (x : Activity (Connection σ) α) :
    Agree (fun _ ↦ False) (Observed a b) (besides x) (besides x) :=
  agree_onPart (fun _ _ h ↦ h.1.connection)
    (fun _ _ _ _ h hconnection ↦ ⟨⟨hconnection, h.1.outbox⟩, h.2⟩) (agree_eq x)

/-- Going on with a download agrees. -/
theorem agree_goOn_observed (t : Transfer) (notice : Option Notice) :
    Agree (fun _ ↦ False) (Observed (σ := σ) a b) (modify (goOn t notice))
      (modify (goOn t notice)) := by
  apply agree_modify
  intro s s' h
  cases notice with
  | none => exact ⟨h.1, rfl⟩
  | some notice => exact ⟨⟨h.1.connection, h.1.outbox.post notice⟩, rfl⟩

variable [Link σ]

/-- Carrying out a reaction agrees. -/
theorem agree_carryOut_observed (reaction : Reaction) :
    Agree (fun _ ↦ False) (Observed (σ := σ) a b) (carryOut reaction) (carryOut reaction) := by
  apply agree_bind (agree_besides_observed _)
  intro _
  apply agree_bind (agree_ofExcept _)
  rintro ⟨t, notice⟩
  exact agree_goOn_observed t notice

/-- A round of a download agrees. -/
theorem agree_transferRound_observed (job : Job) :
    Agree (fun _ ↦ False) (Observed (σ := σ) a b) job.transferRound job.transferRound := by
  apply agree_get_bind
  rintro ⟨s, t⟩ ⟨s', _⟩ ⟨-, rfl⟩
  by_cases hcomplete : t.isComplete = true
  · simp only [hcomplete, if_true]
    exact agree_pure _
  · simp only [hcomplete]
    apply agree_bind (agree_besides_observed _)
    intro incoming
    exact agree_bind (agree_carryOut_observed _) fun _ ↦ agree_pure none

/-- Asking for the first blocks agrees. -/
theorem agree_askFirst_observed :
    Agree (fun _ ↦ False) (Observed (σ := σ) a b) askFirst askFirst := by
  apply agree_get_bind
  rintro ⟨s, t⟩ ⟨s', _⟩ ⟨hsession, rfl⟩
  show Agree _ _ (if s.connection.peer.choking then pure () else carryOut t.fill)
    (if s'.connection.peer.choking then pure () else carryOut t.fill)
  rw [hsession.connection]
  split
  · exact agree_pure ()
  · exact agree_carryOut_observed _

/-- Fetching every piece agrees. -/
theorem agree_transfer_observed (job : Job) :
    Agree (fun _ ↦ False) (Session.Observed (σ := σ) a b) job.transfer job.transfer := by
  have hround : AgreeOrIdle (fun _ ↦ False) (Observed (σ := σ) a b) (fun _ _ ↦ False) none
      job.transferRound job.transferRound := (agree_transferRound_observed job).orIdle none
  exact agree_withOwn (agree_bind agree_askFirst_observed fun _ ↦ agree_repeatUntil hround)

/-- Downloading agrees. -/
theorem agree_downloadFrom_observed (job : Job) :
    Agree (fun _ ↦ False) (Session.Observed (σ := σ) a b) job.downloadFrom job.downloadFrom := by
  apply agree_bind (agree_untilStopped (agree_transfer_observed job))
  intro content
  cases content with
  | some content => exact agree_pure content
  | none =>
    apply agree_bind (Session.agree_onConnection_observed _)
    intro _
    exact agree_fail .cancelled

end Job

/-! ### Searching for a peer -/

/-- Two searches are the same but for who observes them. -/
structure Search.Observed (a b : Observer) (s t : Search) : Prop where
  /-- The same notices were given. -/
  outbox : Outbox.Alike a b s.outbox t.outbox
  /-- The same addresses were dialed. -/
  dialed : s.dialed = t.dialed
  /-- The same connections were given up. -/
  dropped : s.dropped = t.dropped

namespace Search

/-- Such a search is the other one with what the observer is left with. -/
theorem Observed.eq_sees {observer : Observer} {s full : Search}
    (h : Observed observer .unbounded s full) :
    s = { full with outbox := ⟨observer, observer.sees full.outbox.waiting⟩ } := by
  obtain ⟨outbox, dialed, dropped⟩ := s
  rw [← h.outbox.eq_sees, ← h.dialed, ← h.dropped]

/-- Giving notice agrees. -/
theorem agree_post (notice : Notice) :
    Agree (fun _ ↦ False) (Observed a b) (modify (post notice)) (modify (post notice)) :=
  agree_modify fun _ _ h ↦ ⟨h.outbox.post notice, h.dialed, h.dropped⟩

/-- Noting that addresses were dialed agrees. -/
theorem agree_noteDialed (indices : List Nat) :
    Agree (fun _ ↦ False) (Observed a b) (modify (noteDialed indices))
      (modify (noteDialed indices)) :=
  agree_modify fun _ _ h ↦ ⟨h.outbox, congrArg (· ++ indices) h.dialed, h.dropped⟩

/-- Giving up a connection agrees. -/
theorem agree_drop (connection : Connection Framed) :
    Agree (fun _ ↦ False) (Observed a b) (modify (drop connection)) (modify (drop connection)) :=
  agree_modify fun _ _ h ↦ ⟨h.outbox, h.dialed, congrArg (· ++ [connection]) h.dropped⟩

/-- What agrees on the sessions agrees on a connection that is given back. -/
theorem agree_lend (connection : Connection Framed) {x : Activity (Session Framed) α}
    (h : Agree (fun _ ↦ False) (Session.Observed a b) x x) :
    Agree (fun _ ↦ False) (Observed a b) (lend connection x) (lend connection x) := by
  intro scope clock s t hst
  have halike := h scope clock ⟨connection, s.outbox⟩ ⟨connection, t.outbox⟩ ⟨rfl, hst.outbox⟩
  simp only [lend]
  generalize x scope clock ⟨connection, s.outbox⟩ = o at halike ⊢
  generalize x scope clock ⟨connection, t.outbox⟩ = o' at halike ⊢
  cases halike with
  | excused excuse => exact excuse.elim
  | @same ending after s' t' related =>
    obtain ⟨connection', outbox⟩ := s'
    obtain ⟨_, outbox'⟩ := t'
    obtain ⟨rfl, houtbox⟩ := related
    have hback : Observed a b { s with outbox := outbox } { t with outbox := outbox' } :=
      ⟨houtbox, hst.dialed, hst.dropped⟩
    cases ending with
    | done value => exact .same hback
    | _ => exact .same ⟨houtbox, hst.dialed, congrArg (· ++ [_]) hst.dropped⟩

end Search

namespace Job

/-- What agrees also does unless the session is told to stop. -/
theorem agree_unlessStopped {R : σ → σ → Prop} {x : Activity σ α}
    (h : Agree (fun _ ↦ False) R x x) :
    Agree (fun _ ↦ False) R (unlessStopped x) (unlessStopped x) := by
  apply agree_bind (agree_untilStopped h)
  intro value
  cases value with
  | some value => exact agree_pure value
  | none => exact agree_fail .cancelled

variable (job : Job)

/-- Waiting for what comes of dialing agrees. -/
theorem agree_awaitDialing (start : Nat) (candidate : Candidate) :
    Agree (fun _ ↦ False) (Search.Observed a b) (job.awaitDialing start candidate)
      (job.awaitDialing start candidate) := by
  unfold awaitDialing
  split
  · apply agree_bind (Search.agree_noteDialed _)
    intro _
    exact agree_bind agree_now fun _ ↦ agree_waitUntil _
  · exact agree_waitUntil _

/-- Trying a candidate agrees. -/
theorem agree_tryCandidate (candidate : Candidate) :
    Agree (fun _ ↦ False) (Search.Observed a b) (job.tryCandidate candidate)
      (job.tryCandidate candidate) := by
  have hmeet : Agree (fun _ ↦ False) (Session.Observed a b) job.meet job.meet :=
    Session.agree_onConnection_observed _
  unfold tryCandidate
  split
  · exact agree_pure _
  · apply agree_bind (agree_unlessStopped (Search.agree_lend _ (agree_attempt hmeet)))
    rintro ⟨result, connection⟩
    cases result with
    | ok _ => exact agree_pure _
    | error error => exact agree_bind (Search.agree_drop connection) fun _ ↦ agree_pure _

/-- Trying candidates one after the other agrees. -/
theorem agree_selectAmong (start total : Nat) (rejections : List (Address × Error))
    (candidates : List Candidate) :
    Agree (fun _ ↦ False) (Search.Observed a b)
      (job.selectAmong start total rejections candidates)
      (job.selectAmong start total rejections candidates) := by
  induction candidates generalizing rejections with
  | nil => exact agree_bind (agree_unlessStopped (agree_pure ())) fun _ ↦ agree_fail _
  | cons candidate rest ih =>
    apply agree_bind (agree_unlessStopped (job.agree_awaitDialing start candidate))
    intro _
    apply agree_bind (Search.agree_post _)
    intro _
    apply agree_bind (job.agree_tryCandidate candidate)
    intro result
    split
    · exact agree_bind (Search.agree_post _) fun _ ↦ agree_pure _
    · exact agree_fail .cancelled
    · exact agree_bind (Search.agree_post _) fun _ ↦ ih _

/-- Selecting a peer agrees. -/
theorem agree_select (network : Network) (addresses : List Address) :
    Agree (fun _ ↦ False) (Search.Observed a b) (job.select network addresses)
      (job.select network addresses) := by
  have hselect (candidates : List Candidate) : Agree (fun _ ↦ False) (Search.Observed a b)
      (do let start ← Activity.now; job.selectAmong start addresses.length [] candidates)
      (do let start ← Activity.now; job.selectAmong start addresses.length [] candidates) :=
    agree_bind agree_now fun start ↦ job.agree_selectAmong start _ [] candidates
  unfold select selectFrom
  split
  · exact agree_bind (Search.agree_noteDialed _) fun _ ↦ hselect _
  · exact hselect _

/-- Selecting a peer and fetching the file from it agrees. -/
theorem agree_fetch (network : Network) (addresses : List Address) :
    Agree (fun _ ↦ False) (Search.Observed a b) (job.fetch network addresses)
      (job.fetch network addresses) := by
  apply agree_bind (job.agree_select network addresses)
  intro connection
  apply agree_bind (Search.agree_lend connection job.agree_downloadFrom_observed)
  rintro ⟨content, connection⟩
  exact agree_bind (Search.agree_drop connection) fun _ ↦ agree_pure _

/-- A whole download agrees. -/
theorem agree_download (network : Network) (addresses : List Address) :
    Agree (fun _ ↦ False) (Search.Observed a b) (job.download network addresses)
      (job.download network addresses) := by
  apply agree_bind agree_now
  intro start
  apply agree_bind (agree_attempt (job.agree_fetch network addresses))
  intro result
  cases result with
  | ok fetched =>
    apply agree_bind agree_now
    intro now
    exact agree_bind (Search.agree_post _) fun _ ↦ agree_pure fetched
  | error error => exact agree_bind (Search.agree_post _) fun _ ↦ agree_fail error

/-- Whoever observes, and whenever the session is told to stop, a download ends alike at the same
time as one that is observed by somebody with room for everything, and leaves the same connection:
the same was sent on it, and the same is known about the peer. The observer is left with as many of
the first notices of that one as there is room for. The same goes for a download with the search for
a peer before it, which dials the same addresses and gives up the same connections. -/
theorem download_observed (observer : Observer) (scope : Scope) (clock : Clock) :
    (∀ {σ : Type} [Link σ] (connection : Connection σ),
      let full := job.downloadFrom scope clock ⟨connection, .start .unbounded⟩
      job.downloadFrom scope clock ⟨connection, .start observer⟩ =
        full.withState
          ⟨full.state.connection, ⟨observer, observer.sees full.state.outbox.waiting⟩⟩) ∧
    ∀ (network : Network) (addresses : List Address),
      let full := job.download network addresses scope clock (.start .unbounded)
      job.download network addresses scope clock (.start observer) =
        full.withState
          { full.state with outbox := ⟨observer, observer.sees full.state.outbox.waiting⟩ } := by
  constructor
  · intro σ _ connection full
    obtain ⟨s, hrun, hobserved⟩ :=
      (job.agree_downloadFrom_observed scope clock ⟨connection, .start observer⟩
        ⟨connection, .start .unbounded⟩ ⟨rfl, Outbox.alike_start _ _⟩).exists_state
    exact hrun.trans (congrArg full.withState hobserved.eq_sees)
  · intro network addresses full
    obtain ⟨s, hrun, hobserved⟩ :=
      (job.agree_download network addresses scope clock (.start observer) (.start .unbounded)
        ⟨Outbox.alike_start _ _, rfl, rfl⟩).exists_state
    exact hrun.trans (congrArg full.withState hobserved.eq_sees)

end Job

end PeerWire
