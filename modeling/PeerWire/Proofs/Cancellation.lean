import PeerWire.Proofs.LinkFailures
import PeerWire.Proofs.LinkInterruption
import PeerWire.Proofs.Tapped

/-!
# Cancelled downloads

A download that is told to stop is compared with the same download that nobody tells. What carries
the comparison is that the log of the link and the notices only ever go on, so that the one that is
interrupted has done the first part of what the other one does. After that it takes leave of the
peer and fails, however long the peer takes. Main statement: a download that is cancelled has sent
and received what the other one has sent and received by some point of it, and after that tries to
withdraw its interest once, if there was any; one that is not cancelled is the same as the other.
-/

namespace PeerWire

variable {σ α : Type} {calm : σ → σ}

open Activity

/-! ### Logs that go on -/

namespace Tapped

/-- The same with a link that was changed. -/
def mapLink (f : σ → σ) (t : Tapped σ) : Tapped σ := { t with link := f t.link }

/-- A log goes on. -/
def Before (t t' : Tapped σ) : Prop := t.log <+: t'.log

/-- Whatever is done to the link may be interrupted, and leaves the log as it is. -/
theorem breakable_onLink {x : Activity σ α} (hx : Breakable calm (fun _ _ ↦ True) x) :
    Breakable (mapLink calm) Before (onLink x) :=
  breakable_onPart hx (fun _ ↦ rfl) (fun _ _ ↦ rfl) (fun _ _ _ ↦ List.prefix_rfl)
    fun _ _ _ _ ↦ List.prefix_rfl

/-- A log that goes on may do so several times. -/
instance isPreorder_before : IsPreorder (Tapped σ) Before where
  refl _ := List.prefix_rfl
  trans _ _ _ := List.IsPrefix.trans

/-- A note cannot be interrupted. -/
theorem breakable_note (event : Traffic) :
    Breakable (mapLink calm) Before (Activity.modify (note event)) :=
  breakable_modify (fun _ ↦ rfl) fun t ↦ List.prefix_append t.log [event]

variable [Link σ]

/-- Receiving may be interrupted. -/
theorem breakable_receive (hstops : LinkStops calm) :
    Breakable (mapLink calm) Before (Link.receive (σ := Tapped σ)) := by
  show Breakable _ _ receive
  apply breakable_bind (breakable_onLink hstops.receive)
  intro message
  exact breakable_bind (breakable_note _) fun _ ↦ breakable_pure message

/-- Sending may be interrupted. -/
theorem breakable_send (hstops : LinkStops calm) (message : Message) :
    Breakable (mapLink calm) Before (Link.send (σ := Tapped σ) message) := by
  show Breakable _ _ (send message)
  apply breakable_bind (breakable_note _)
  intro _
  exact breakable_bind (breakable_onLink (hstops.send message)) fun _ ↦ breakable_note _

/-- Sending up to a deadline comes to an end. -/
theorem prompt_send (hstops : LinkStops calm) (message : Message) :
    Prompt (Link.send (σ := Tapped σ) message) := by
  show Prompt (send message)
  apply prompt_bind (prompt_modify _)
  intro _
  exact prompt_bind (prompt_onPart (hstops.prompt message)) fun _ ↦ prompt_modify _

/-- A tapped link fails as the link does. -/
theorem linkFailsOnly {E : Error → Prop} {I : σ → Prop} (hlink : LinkFailsOnly E I) :
    LinkFailsOnly E fun t : Tapped σ ↦ I t.link := by
  have honLink {β : Type} {x : Activity σ β} (hx : FailsOnly E I x) :
      FailsOnly E (fun t : Tapped σ ↦ I t.link) (onLink x) := by
    apply leads_onPart
    intro t ht
    apply hx.of_imp
    rintro _ rfl
    exact ht
  have hnote (event : Traffic) :
      FailsOnly E (fun t : Tapped σ ↦ I t.link) (Activity.modify (note event)) :=
    leads_modify fun _ h ↦ h
  constructor
  · show FailsOnly _ _ receive
    apply leads_bind (honLink hlink.receive)
    intro message
    exact leads_bind (hnote _) fun _ ↦ leads_pure fun _ h ↦ h
  · intro message
    show FailsOnly _ _ (send message)
    apply leads_bind (hnote _)
    intro _
    exact leads_bind (honLink (hlink.send message)) fun _ ↦ hnote _

end Tapped

namespace Connection

/-- The same with a link that was changed. -/
def mapLink (f : σ → σ) (c : Connection (Tapped σ)) : Connection (Tapped σ) :=
  { c with link := c.link.mapLink f }

/-- The log of the link goes on. -/
def Before (c c' : Connection (Tapped σ)) : Prop := c.link.Before c'.link

/-- A log that goes on may do so several times. -/
instance isPreorder_before : IsPreorder (Connection (Tapped σ)) Before where
  refl _ := List.prefix_rfl
  trans _ _ _ := List.IsPrefix.trans

/-- What may be interrupted on the link may be on the connection. -/
theorem breakable_onLink {x : Activity (Tapped σ) α}
    (hx : Breakable (Tapped.mapLink calm) Tapped.Before x) :
    Breakable (mapLink calm) Before (onLink x) :=
  breakable_onPart hx (fun _ ↦ rfl) (fun _ _ ↦ rfl) (fun _ _ h ↦ h) fun _ _ _ h ↦ h

/-- What changes only the peer cannot be interrupted. -/
theorem breakable_withPeer (f : Peer → Peer) :
    Breakable (mapLink calm) Before (Activity.modify (withPeer f)) :=
  breakable_modify (fun _ ↦ rfl) fun _ ↦ List.prefix_rfl

/-- Ending with an error cannot be interrupted. -/
theorem breakable_endWith (error : Error) :
    Breakable (mapLink calm) Before (endWith error : Activity (Connection (Tapped σ)) α) :=
  breakable_bind (breakable_withPeer _) fun _ ↦ breakable_fail error

/-- A calm connection takes in a message alike. -/
theorem takeIn_mapLink (message : Message) (c : Connection (Tapped σ)) :
    takeIn message (c.mapLink calm) =
      ((takeIn message c).1, (takeIn message c).2.mapLink calm) := rfl

/-- Taking in a message leaves the log as it is. -/
theorem before_takeIn (message : Message) (c : Connection (Tapped σ)) :
    c.Before (takeIn message c).2 := List.prefix_rfl

variable [Link σ]

/-- Receiving may be interrupted. -/
theorem breakable_receiveNext (hstops : LinkStops calm) :
    Breakable (mapLink calm) Before (receiveNext (σ := Tapped σ)) := by
  apply breakable_bind (breakable_attempt (breakable_onLink (Tapped.breakable_receive hstops)))
  intro result
  cases result with
  | error error => exact breakable_endWith error
  | ok message =>
    apply breakable_bind (breakable_change (takeIn_mapLink message) (before_takeIn message))
    intro taken
    cases taken with
    | error error => exact breakable_endWith error
    | ok incoming => exact breakable_pure incoming

/-- Sending may be interrupted. -/
theorem breakable_send (hstops : LinkStops calm) (message : Message) :
    Breakable (mapLink calm) Before (send (σ := Tapped σ) message) := by
  apply breakable_bind
    (breakable_attempt (breakable_onLink (Tapped.breakable_send hstops message)))
  intro result
  cases result with
  | ok _ => exact breakable_pure ()
  | error error => exact breakable_bind (breakable_withPeer _) fun _ ↦ breakable_fail error

/-- Asking for blocks may be interrupted, between two of them or within one. -/
theorem breakable_requestAll (hstops : LinkStops calm) (blocks : List Block) :
    Breakable (mapLink calm) Before (requestAll (σ := Tapped σ) blocks) := by
  induction blocks with
  | nil => exact breakable_pure ()
  | cons block blocks ih => exact breakable_bind (breakable_send hstops _) fun _ ↦ ih

end Connection

namespace Session

/-- The same with a link that was changed. -/
def mapLink (f : σ → σ) (s : Session (Tapped σ)) : Session (Tapped σ) :=
  { s with connection := s.connection.mapLink f }

/-- The log and the notices go on. -/
def Before (s s' : Session (Tapped σ)) : Prop :=
  s.connection.Before s'.connection ∧ s.outbox.waiting <+: s'.outbox.waiting

/-- What goes on may do so several times. -/
instance isPreorder_before : IsPreorder (Session (Tapped σ)) Before where
  refl _ := ⟨List.prefix_rfl, List.prefix_rfl⟩
  trans _ _ _ h h' := ⟨h.1.trans h'.1, h.2.trans h'.2⟩

/-- Notices go on when one is given. -/
theorem before_post (notice : Notice) (s : Session (Tapped σ)) : s.Before (s.post notice) := by
  refine ⟨List.prefix_rfl, ?_⟩
  show s.outbox.waiting <+: (s.outbox.post notice).waiting
  rw [Outbox.post]
  split
  · exact List.prefix_append _ _
  · exact List.prefix_rfl

end Session

/-! ### Downloads -/

namespace Job

variable {job : Job}

/-- The same with a link that was changed, beside a download. -/
def calmBeside (calm : σ → σ) (s : Session (Tapped σ) × Transfer) : Session (Tapped σ) × Transfer :=
  (s.1.mapLink calm, s.2)

/-- The log and the notices go on beside a download. -/
def BeforeBeside (s s' : Session (Tapped σ) × Transfer) : Prop := s.1.Before s'.1

/-- What goes on may do so several times. -/
instance isPreorder_beforeBeside :
    IsPreorder (Session (Tapped σ) × Transfer) BeforeBeside where
  refl s := refl_of Session.Before s.1
  trans _ _ _ h h' := trans_of Session.Before h h'

/-- What may be interrupted on the connection may be beside a download. -/
theorem breakable_besides {x : Activity (Connection (Tapped σ)) α}
    (hx : Breakable (Connection.mapLink calm) Connection.Before x) :
    Breakable (calmBeside calm) BeforeBeside (besides x) :=
  breakable_onPart hx (fun _ ↦ rfl) (fun _ _ ↦ rfl) (fun _ _ h ↦ ⟨h, List.prefix_rfl⟩)
    fun _ _ _ h ↦ ⟨h, List.prefix_rfl⟩

variable [Link σ] (hstops : LinkStops calm)
include hstops

/-- Carrying out a reaction may be interrupted while requests go out. -/
theorem breakable_carryOut (reaction : Reaction) :
    Breakable (calmBeside calm) BeforeBeside (carryOut (σ := Tapped σ) reaction) := by
  apply breakable_bind (breakable_besides (Connection.breakable_requestAll hstops _))
  intro _
  apply breakable_bind (breakable_ofExcept _)
  rintro ⟨next, notice⟩
  apply breakable_modify
  · intro s
    cases notice <;> rfl
  · intro s
    cases notice with
    | none => exact refl_of Session.Before s.1
    | some notice => exact s.1.before_post notice

/-- A round may be interrupted. -/
theorem breakable_transferRound :
    Breakable (calmBeside calm) BeforeBeside (job.transferRound (σ := Tapped σ)) := by
  refine breakable_get_bind (fun _ ↦ rfl) ?_
  rintro ⟨s, t⟩
  by_cases hcomplete : t.isComplete = true
  · simp only [hcomplete, if_true]
    exact breakable_pure _
  · simp only [hcomplete, Bool.false_eq_true, if_false]
    apply breakable_bind (breakable_besides (Connection.breakable_receiveNext hstops))
    intro incoming
    exact breakable_bind (breakable_carryOut hstops _) fun _ ↦ breakable_pure none

/-- Asking for the first blocks may be interrupted. -/
theorem breakable_askFirst :
    Breakable (calmBeside calm) BeforeBeside (askFirst (σ := Tapped σ)) := by
  refine breakable_get_bind (fun _ ↦ rfl) ?_
  rintro ⟨s, t⟩
  by_cases hchoking : s.connection.peer.choking = true
  · simp only [hchoking, if_true]
    exact breakable_pure ()
  · simp only [hchoking, Bool.false_eq_true, if_false]
    exact breakable_carryOut hstops _

/-- Fetching every piece may be interrupted. -/
theorem breakable_transfer (job : Job) :
    Breakable (Session.mapLink calm) Session.Before (job.transfer (σ := Tapped σ)) := by
  have hall : Breakable (calmBeside calm) BeforeBeside (job.transferAll (σ := Tapped σ)) :=
    breakable_bind (breakable_askFirst hstops) fun _ ↦
      breakable_repeatUntil (breakable_transferRound hstops)
  exact breakable_withOwn hall (fun _ _ ↦ rfl) fun _ _ h ↦ h

omit hstops

end Job

/-! ### Taking leave -/

/-- What taking leave of a peer adds to a log: nothing if there was no interest, and else one try to
withdraw it, which may succeed. -/
inductive Goodbye : Bool → List Traffic → Prop where
  /-- There was no interest. -/
  | silent : Goodbye false []
  /-- The try did not succeed. -/
  | tried : Goodbye true [.started .notInterested]
  /-- The try succeeded. -/
  | said : Goodbye true [.started .notInterested, .went .notInterested]

namespace Job

variable [Link σ] {job : Job}

/-- Withdrawing interest puts the try into the log. -/
theorem leads_attempt_sendNotInterested (log : List Traffic) :
    Leads (fun c : Connection (Tapped σ) ↦ c.link.log = log)
      (attempt Connection.sendNotInterested)
      ⟨fun _ c ↦ ∃ goodbye, Goodbye true goodbye ∧ c.link.log = log ++ goodbye, fun _ _ ↦ False,
        fun c ↦ ∃ goodbye, Goodbye true goodbye ∧ c.link.log = log ++ goodbye⟩ := by
  apply leads_attempt
  have htried {c : Connection (Tapped σ)} (h : c.link.log = log ++ [.started .notInterested]) :
      ∃ goodbye, Goodbye true goodbye ∧ c.link.log = log ++ goodbye := ⟨_, .tried, h⟩
  apply leads_bind (M := fun _ c ↦ ∃ goodbye, Goodbye true goodbye ∧
    c.link.log = log ++ goodbye)
  · apply leads_of_forall
    rintro c rfl
    apply (Connection.leads_send c.link.log c.peer .notInterested).mono
    · rintro _ rfl
      exact ⟨rfl, rfl⟩
    · rintro _ c' ⟨hlog, -⟩
      rw [List.append_assoc] at hlog
      exact ⟨_, .said, hlog⟩
    · exact fun _ _ h ↦ htried h.1
    · exact fun _ h ↦ htried h.1
  · intro _
    exact leads_modify fun _ h ↦ h

/-- Withdrawing interest comes to an end up to a deadline. -/
theorem prompt_sendNotInterested (hstops : LinkStops calm) :
    Prompt (Connection.sendNotInterested (σ := Tapped σ)) := by
  have hsend : Prompt (Connection.send (σ := Tapped σ) .notInterested) := by
    apply prompt_bind (prompt_attempt (prompt_onPart (Tapped.prompt_send hstops .notInterested)))
    intro result
    cases result with
    | ok _ => exact prompt_pure ()
    | error error => exact prompt_bind (prompt_modify _) fun _ ↦ prompt_fail error
  exact prompt_bind hsend fun _ ↦ prompt_modify _

/-- Taking leave comes to its end in the time allowed, whatever becomes of it. -/
theorem farewell_eq_done (job : Job) (hstops : LinkStops calm) (clock : Clock)
    (c : Connection (Tapped σ)) :
    ∃ after c', job.farewell Scope.open clock c = ⟨.done (), after, c'⟩ ∧
      after.now ≤ clock.now + job.config.shutdownTimeout ∧
      ∃ goodbye, Goodbye c.peer.interested goodbye ∧ c'.link.log = c.link.log ++ goodbye := by
  have hfarewell : job.farewell Scope.open clock c =
      (if c.peer.interested then
        within (clock.now + job.config.shutdownTimeout)
          (do let _ ← attempt Connection.sendNotInterested) (pure ())
      else pure () : Activity (Connection (Tapped σ)) Unit) Scope.open clock c := rfl
  rw [hfarewell]
  by_cases hinterested : c.peer.interested = true
  · rw [if_pos hinterested, within_apply, hinterested]
    have hscope : Scope.open.upTo (clock.now + job.config.shutdownTimeout) =
        ⟨some (clock.now + job.config.shutdownTimeout), none, false⟩ := by
      simp [Scope.upTo, Scope.open]
    have hleads : Leads (fun c' : Connection (Tapped σ) ↦ c'.link.log = c.link.log)
        (do let _ ← attempt Connection.sendNotInterested)
        ⟨fun _ c' ↦ ∃ goodbye, Goodbye true goodbye ∧ c'.link.log = c.link.log ++ goodbye,
          fun _ _ ↦ False,
          fun c' ↦ ∃ goodbye, Goodbye true goodbye ∧ c'.link.log = c.link.log ++ goodbye⟩ :=
      leads_bind (leads_attempt_sendNotInterested c.link.log) fun _ ↦ leads_pure fun _ h ↦ h
    have hprompt : Prompt (do let _ ← attempt (Connection.sendNotInterested (σ := Tapped σ))) :=
      prompt_bind (prompt_attempt (prompt_sendNotInterested hstops)) fun _ ↦ prompt_pure ()
    have hholds := hleads ⟨some (clock.now + job.config.shutdownTimeout), none, false⟩ clock c rfl
    obtain ⟨hinTime, huninterrupted, hended⟩ :=
      hprompt (clock.now + job.config.shutdownTimeout) clock c
    rw [hscope]
    rw [Nat.max_eq_right (Nat.le_add_right _ _)] at hinTime
    generalize (do let _ ← attempt Connection.sendNotInterested : Activity _ Unit)
      ⟨some (clock.now + job.config.shutdownTimeout), none, false⟩ clock c = o at *
    obtain ⟨ending, after, c'⟩ := o
    cases ending with
    | done _ => exact ⟨after, c', rfl, hinTime, hholds⟩
    | failed error => exact hholds.elim
    | expired => exact ⟨after, c', rfl, hinTime, hholds⟩
    | interrupted => exact absurd rfl huninterrupted
    | stuck => exact absurd rfl hended
  · rw [if_neg hinterested, Bool.eq_false_iff.mpr hinterested]
    exact ⟨clock, c, rfl, Nat.le_add_right _ _, [], .silent, (List.append_nil _).symm⟩

/-- A download that was told to stop takes leave and fails. -/
theorem downloadFrom_of_told (hstops : LinkStops calm) {clock after : Clock}
    {s u : Session (Tapped σ)}
    (h : untilStopped job.transfer Scope.open clock s = ⟨.done none, after, u⟩) :
    ∃ later c, job.downloadFrom Scope.open clock s =
        ⟨.failed .cancelled, later, { u with connection := c }⟩ ∧
      later.now ≤ after.now + job.config.shutdownTimeout ∧
      ∃ goodbye, Goodbye u.connection.peer.interested goodbye ∧
        c.link.log = u.connection.link.log ++ goodbye := by
  obtain ⟨later, c, hfarewell, hinTime, hgoodbye⟩ :=
    farewell_eq_done job hstops after u.connection
  refine ⟨later, c, ?_, hinTime, hgoodbye⟩
  have hleave : job.downloadFrom Scope.open clock s =
      (do
        Session.onConnection job.farewell
        Activity.fail .cancelled : Activity (Session (Tapped σ)) Bytes) Scope.open after u :=
    bind_of_done h
  rw [hleave]
  simp only [bind_apply, Session.onConnection, onPart, hfarewell, fail]

/-- A download that nobody is told to stop is nothing but the fetching. -/
theorem downloadFrom_of_untold (job : Job) {clock : Clock} {s : Session (Tapped σ)}
    (hstopped : clock.isStopped = false)
    (hending : (job.transfer ⟨none, none, true⟩ clock s).ending ≠ .interrupted) :
    job.downloadFrom Scope.open clock s = job.transfer ⟨none, none, true⟩ clock s ∧
      (untilStopped job.transfer Scope.open clock s).ending ≠ .done none := by
  rw [downloadFrom, bind_apply]
  simp only [untilStopped, Scope.open, hstopped, Bool.false_eq_true, if_false]
  generalize job.transfer ⟨none, none, true⟩ clock s = o at hending ⊢
  obtain ⟨ending, after, t⟩ := o
  cases ending with
  | interrupted => exact absurd rfl hending
  | _ => exact ⟨rfl, Ending.map_some_ne_done_none _⟩

/-- A download does not fail of itself as if it was cancelled. -/
theorem coversDownload_ne_cancelled : CoversDownload (· ≠ .cancelled) where
  senseless peer message error h := by
    rintro rfl
    obtain ⟨fault, h⟩ | ⟨expected, received, h⟩ := Peer.error_of_apply h
    · cases h
    · cases h
  refused _ _ _ _ := nofun
  mismatch _ := nofun

/-- A download was cancelled, compared with the same one that nobody tells to stop. By the time at
which that was observed the log and the notices were a part of those of the other one, and what came
after that is nothing but taking leave. -/
structure CutOff (job : Job) (free : Outcome (Session (Tapped σ)) Bytes)
    (observed : Outcome (Session (Tapped σ)) (Option Bytes))
    (cut : Outcome (Session (Tapped σ)) Bytes) : Prop where
  /-- The other log went on from there. -/
  log_prefix : observed.state.connection.link.log <+: free.state.connection.link.log
  /-- After that there is nothing in the log but a try to withdraw interest, if there was any. -/
  log_eq : ∃ goodbye, Goodbye observed.state.connection.peer.interested goodbye ∧
    cut.state.connection.link.log = observed.state.connection.link.log ++ goodbye
  /-- No notice was given after that. -/
  outbox_eq : cut.state.outbox = observed.state.outbox
  /-- The other notices went on from there. -/
  notices_prefix : cut.state.outbox.waiting <+: free.state.outbox.waiting
  /-- Taking leave took no longer than allowed. -/
  inTime : cut.clock.now ≤ observed.clock.now + job.config.shutdownTimeout

/-- What was interrupted on the way of another download is cut off. -/
theorem cutOff_of_told (hstops : LinkStops calm) {clock after : Clock} {s u t : Session (Tapped σ)}
    {free : Outcome (Session (Tapped σ)) Bytes}
    (hobserved : untilStopped job.transfer Scope.open clock s = ⟨.done none, after, u⟩)
    (hfree : free.state = t.mapLink calm) (hbefore : u.Before t) :
    (job.downloadFrom Scope.open clock s).ending = .failed .cancelled ∧
      job.CutOff free (untilStopped job.transfer Scope.open clock s)
        (job.downloadFrom Scope.open clock s) := by
  obtain ⟨later, c, hcut, hinTime, hgoodbye⟩ := downloadFrom_of_told hstops hobserved
  rw [hcut, hobserved]
  refine ⟨rfl, ?_, hgoodbye, rfl, ?_, hinTime⟩
  · rw [hfree]
    exact hbefore.1
  · rw [hfree]
    exact hbefore.2

/-- Somebody may tell a download to stop, at any moment, and so may something on the link; on a calm
link nothing happens any more instead. If that is what the download fails for, then it was the first
part of the same download that nobody tells to stop when that was observed, and after that it took
leave. Otherwise it is the same as the other one. -/
theorem downloadFrom_told (job : Job) {J : σ → Prop} (hstops : LinkStops calm)
    (hlink : LinkFailsOnly (· ≠ .cancelled) J) {s : Session (Tapped σ)}
    (hs : J s.connection.link.link) (now : Nat) (stopAt : Option Nat) :
    let free := job.downloadFrom Scope.open ⟨now, none⟩ (s.mapLink calm)
    let observed := untilStopped job.transfer Scope.open ⟨now, stopAt⟩ s
    let cut := job.downloadFrom Scope.open ⟨now, stopAt⟩ s
    job.downloadFrom Scope.open ⟨now, none⟩ (s.mapLink calm).bare =
        free.withState free.state.bare ∧
      job.downloadFrom Scope.open ⟨now, stopAt⟩ s.bare = cut.withState cut.state.bare ∧
      (observed.ending = .done none ↔ cut.ending = .failed .cancelled) ∧
      (cut.ending = .failed .cancelled → job.CutOff free observed cut) ∧
      (cut.ending ≠ .failed .cancelled →
        free = ⟨cut.ending, ⟨cut.clock.now, none⟩, cut.state.mapLink calm⟩) := by
  intro free observed cut
  refine ⟨downloadFrom_bare job _ _ _, downloadFrom_bare job _ _ _, ?_⟩
  have hruns := breakable_transfer hstops job ⟨none, none, true⟩ now stopAt s
  have htransfer : FailsOnly (· ≠ .cancelled)
      (fun s : Session (Tapped σ) ↦ J s.connection.link.link) job.transfer :=
    failsOnly_transfer coversDownload_ne_cancelled (Tapped.linkFailsOnly hlink)
  have hfails := htransfer ⟨none, none, true⟩ ⟨now, stopAt⟩ s hs
  have hfree : free = job.transfer ⟨none, none, true⟩ ⟨now, none⟩ (s.mapLink calm) :=
    (downloadFrom_of_untold job rfl hruns.uninterrupted).1
  have htold {after : Clock} {u t : Session (Tapped σ)}
      (hobserved : observed = ⟨.done none, after, u⟩) (hstate : free.state = t.mapLink calm)
      (hbefore : u.Before t) :
      (observed.ending = .done none ↔ cut.ending = .failed .cancelled) ∧
        (cut.ending = .failed .cancelled → job.CutOff free observed cut) ∧
        (cut.ending ≠ .failed .cancelled →
          free = ⟨cut.ending, ⟨cut.clock.now, none⟩, cut.state.mapLink calm⟩) := by
    obtain ⟨hending, hcutOff⟩ := cutOff_of_told hstops hobserved hstate hbefore
    refine ⟨iff_of_true ?_ hending, fun _ ↦ hcutOff, fun hne ↦ absurd hending hne⟩
    rw [hobserved]
  by_cases hstopped : (⟨now, stopAt⟩ : Clock).isStopped = true
  · obtain ⟨t, hstate, hlater⟩ := hruns.exists_later
    have hobserved : observed = ⟨.done none, ⟨now, stopAt⟩, s⟩ := if_pos hstopped
    exact htold hobserved (hfree ▸ hstate) hlater
  · rw [Bool.not_eq_true] at hstopped
    have hgoesOn := downloadFrom_of_untold job (s := s) hstopped
    have hbroken {after : Clock} {u : Session (Tapped σ)}
        (h : job.transfer ⟨none, none, true⟩ ⟨now, stopAt⟩ s = ⟨.interrupted, after, u⟩) :
        observed = ⟨.done none, after, u⟩ := untilStopped_of_interrupted hstopped h
    generalize job.transfer ⟨none, none, true⟩ ⟨now, none⟩ (s.mapLink calm) = transferFree
      at hruns hfree
    generalize job.transfer ⟨none, none, true⟩ ⟨now, stopAt⟩ s = transferCut
      at hruns hfails hgoesOn hbroken
    cases hruns with
    | @same ending later _ t uninterrupted =>
      obtain ⟨hcut, hobserved⟩ := hgoesOn uninterrupted
      have hcut : cut = ⟨ending, ⟨later, _⟩, t⟩ := hcut
      have hne : cut.ending ≠ .failed .cancelled := by
        rw [hcut]
        rintro rfl
        exact hfails.1 rfl
      refine ⟨iff_of_false hobserved hne, fun h ↦ absurd h hne, fun _ ↦ ?_⟩
      rw [hfree, hcut]
    | interrupted uninterrupted later interruptible onTheWay =>
      exact htold (hbroken rfl) (by rw [hfree]) onTheWay

/-- A peer that gives leave, and says the blocks in order with a pause after the first one. Interest
was declared, and sending gets stuck after three messages. -/
def slowPeer : Session (Tapped Script) where
  connection :=
    let acts : Timeline Act := [.item (.say .unchoke), .item (.say (.piece ⟨0, 0, [7]⟩)), .pause 10,
      .item (.say (.piece ⟨0, 1, [8]⟩)), .item (.say (.piece ⟨1, 0, [9]⟩))]
    let link : Script := ⟨acts, [], 2, [], [], none, some 3⟩
    (Connection.start ⟨.octets 127 0 0 1, 6881⟩ ⟨link, []⟩ 2 30000).withPeer
      (Peer.declareInterest · 30000)
  outbox := Outbox.start .unbounded

/-- Told to stop in the pause, the download from that peer is cut off, and taking leave gets
stuck. -/
theorem downloadFrom_told_slowPeer :
    let free := threeBytes.downloadFrom Scope.open ⟨0, none⟩ (slowPeer.mapLink Script.calm)
    let observed := untilStopped threeBytes.transfer Scope.open ⟨0, some 5⟩ slowPeer
    let cut := threeBytes.downloadFrom Scope.open ⟨0, some 5⟩ slowPeer
    free.ending = .done [7, 8, 9] ∧ cut.ending = .failed .cancelled ∧
      threeBytes.CutOff free observed cut := by
  intro free observed cut
  have hfails : slowPeer.connection.link.link.FailsWith (· ≠ .cancelled) := by
    intro error hmem
    simp [slowPeer, Connection.withPeer, Connection.start] at hmem
  have hcancelled : cut.ending = .failed .cancelled := by with_unfolding_all rfl
  refine ⟨by with_unfolding_all rfl, hcancelled, ?_⟩
  obtain ⟨-, -, -, hcutOff, -⟩ := downloadFrom_told threeBytes Script.linkStops
    (Script.linkFailsOnly nofun nofun) (s := slowPeer) hfails 0 (some 5)
  exact hcutOff hcancelled

end Job

end PeerWire
