import PeerWire.Proofs.Rejections

/-!
# How candidates are examined

A candidate that is examined is admitted, or it is rejected for the first thing that goes wrong: it
cannot be reached, the handshakes do not fit, or it does not pass the gates. Candidates are examined
one after the other until one is admitted. Main statement: unless the session is told to stop, a
search ends with the connection to the first candidate that is admitted, each one before it rejected
for an error of its own, or with these errors if there is none; and where candidates are dialed one
after the other, those behind the one that is selected are never dialed.
-/

namespace PeerWire

open Activity

variable {α : Type}

/-- Without a deadline, up to the moment at which the session is told to stop. -/
def Scope.free : Scope := { Scope.open with interruptible := true }

/-- A moment of a session that nobody tells to stop. -/
def Clock.at (moment : Nat) : Clock := ⟨moment, none⟩

/-- What settles while nobody is told to stop is finished or fails at some moment. -/
theorem Outcome.Settled.cases_at {σ : Type} {calm : σ → Prop} {moment : Nat} {s : σ}
    {o : Outcome σ α} (h : o.Settled calm Scope.free (Clock.at moment) s) (hs : calm s) :
    ∃ after t, calm t ∧ ((∃ value, o = ⟨.done value, Clock.at after, t⟩) ∨
      ∃ error, o = ⟨.failed error, Clock.at after, t⟩) := by
  obtain ⟨ending, ⟨after, stopAt⟩, t⟩ := o
  obtain ⟨huninterrupted, huntold, ht⟩ := h.undisturbed rfl hs
  obtain rfl : stopAt = none := huntold
  refine ⟨after, t, ht, ?_⟩
  cases ending with
  | done value => exact .inl ⟨value, rfl⟩
  | failed error => exact .inr ⟨error, rfl⟩
  | expired => exact absurd rfl (h.expired rfl)
  | interrupted => exact absurd rfl huninterrupted
  | stuck => exact absurd rfl h.ended

namespace Job

variable {job : Job} {start total moment after : Nat} {candidate : Candidate}

/-- The connection to a candidate that was reached, before handshakes are exchanged. -/
def reached (job : Job) (candidate : Candidate) (stream : ByteStream) : Connection Framed :=
  Connection.opened job.config candidate.address job.torrent.pieceCount stream

/-- Examining a candidate from a moment on has a result at another moment. -/
inductive Examined (job : Job) (candidate : Candidate) (moment : Nat) :
    Except Error (Connection Framed) → Nat → Prop where
  /-- It cannot be reached. -/
  | unreachable {error : Error} (dialing : candidate.dialing.stream = .error error) :
      Examined job candidate moment (.error error) moment
  /-- The exchange of handshakes fails. -/
  | ungreeted {stream : ByteStream} {error : Error} {after : Nat} {c : Connection Framed}
      (dialing : candidate.dialing.stream = .ok stream)
      (greeting : Connection.greet job.config job.torrent.infoHash Scope.free (Clock.at moment)
        (job.reached candidate stream) = ⟨.failed error, Clock.at after, c⟩) :
      Examined job candidate moment (.error error) after
  /-- It does not pass the gates. -/
  | refused {stream : ByteStream} {error : Error} {middle after : Nat} {c c' : Connection Framed}
      (dialing : candidate.dialing.stream = .ok stream)
      (greeting : Connection.greet job.config job.torrent.infoHash Scope.free (Clock.at moment)
        (job.reached candidate stream) = ⟨.done (), Clock.at middle, c⟩)
      (gates : passGates Scope.free (Clock.at middle) c = ⟨.failed error, Clock.at after, c'⟩) :
      Examined job candidate moment (.error error) after
  /-- It passes the gates. -/
  | admitted {stream : ByteStream} {middle after : Nat} {c c' : Connection Framed}
      (dialing : candidate.dialing.stream = .ok stream)
      (greeting : Connection.greet job.config job.torrent.infoHash Scope.free (Clock.at moment)
        (job.reached candidate stream) = ⟨.done (), Clock.at middle, c⟩)
      (gates : passGates Scope.free (Clock.at middle) c = ⟨.done (), Clock.at after, c'⟩) :
      Examined job candidate moment (.ok c') after

/-- The moment at which it is known what came of dialing a candidate: one that is dialed in its turn
is dialed now, and one that is dialed at once was dialed at a given start. -/
def answered (job : Job) (start : Nat) (candidate : Candidate) (moment : Nat) : Nat :=
  match job.config.strategy with
  | .sequential => moment + candidate.dialing.delay
  | .parallel => max moment (start + candidate.dialing.delay)

/-- Candidates are examined one after the other, and each is rejected for an error of its own. -/
inductive AllRejected (job : Job) (start : Nat) : Nat → List (Candidate × Error) → Nat → Prop
  where
  /-- There are none. -/
  | none {moment : Nat} : AllRejected job start moment [] moment
  /-- The first one is rejected, and then the others are. -/
  | next {candidate : Candidate} {error : Error} {others : List (Candidate × Error)}
      {moment middle after : Nat}
      (examined : job.Examined candidate (job.answered start candidate moment) (.error error)
        middle)
      (rejected : AllRejected job start middle others after) :
      AllRejected job start moment ((candidate, error) :: others) after

/-- The notices about candidates that are rejected. -/
def rejectionNotices (total : Nat) (rejected : List (Candidate × Error)) : List Notice :=
  rejected.flatMap fun (candidate, error) ↦
    [.probing candidate.address candidate.index total, .rejected candidate.address error.message]

/-- Which addresses are dialed before any candidate is examined. -/
def dialedAtOnce (job : Job) (order : List Candidate) : List Nat :=
  match job.config.strategy with
  | .sequential => []
  | .parallel => order.map Candidate.index

/-- Which addresses are dialed in order to examine candidates. -/
def dialedInTurn (job : Job) (examined : List Candidate) : List Nat :=
  match job.config.strategy with
  | .sequential => examined.map Candidate.index
  | .parallel => []

/-! ### One candidate -/

/-- What is finished before the session is told to stop is finished. -/
theorem unlessStopped_of_done {σ : Type} {x : Activity σ α} {s t : σ} {value : α}
    (h : x Scope.free (Clock.at moment) s = ⟨.done value, Clock.at after, t⟩) :
    unlessStopped x Scope.open (Clock.at moment) s = ⟨.done value, Clock.at after, t⟩ := by
  have huntil : untilStopped x Scope.open (Clock.at moment) s =
      ⟨.done (some value), Clock.at after, t⟩ := by
    have hstopped : (Clock.at moment).isStopped = false := rfl
    have hfree : ({ Scope.open with interruptible := true } : Scope) = Scope.free := rfl
    simp only [untilStopped, hstopped, hfree, h, Bool.false_eq_true, if_false, Ending.map]
  rw [unlessStopped, bind_of_done huntil]
  rfl

/-- The first steps with a candidate leave the notices alone. -/
theorem meet_apply (job : Job) (scope : Scope) (clock : Clock) (c : Connection Framed)
    (outbox : Outbox) :
    job.meet scope clock ⟨c, outbox⟩ =
      let r := (do Connection.greet job.config job.torrent.infoHash; passGates) scope clock c
      ⟨r.ending, r.clock, ⟨r.state, outbox⟩⟩ := rfl

/-- Trying a candidate has the result that examining it has. -/
theorem tryCandidate_of_examined {result : Except Error (Connection Framed)}
    (h : job.Examined candidate moment result after) (s : Search) :
    ∃ t, job.tryCandidate candidate Scope.open (Clock.at moment) s =
        ⟨.done result, Clock.at after, t⟩ ∧
      t.outbox = s.outbox ∧ t.dialed = s.dialed := by
  have hlent {stream : ByteStream} {value : Except Error Unit} {c : Connection Framed}
      (hmeet : attempt job.meet Scope.free (Clock.at moment)
        ⟨job.reached candidate stream, s.outbox⟩ = ⟨.done value, Clock.at after, ⟨c, s.outbox⟩⟩) :
      unlessStopped (Search.lend (job.reached candidate stream) (attempt job.meet)) Scope.open
        (Clock.at moment) s = ⟨.done (value, c), Clock.at after, s⟩ := by
    apply unlessStopped_of_done
    simp only [Search.lend, hmeet]
  cases h with
  | unreachable dialing =>
    refine ⟨s, ?_, rfl, rfl⟩
    rw [tryCandidate, dialing]
    rfl
  | @ungreeted stream error after c dialing greeting =>
    refine ⟨s.drop c, ?_, rfl, rfl⟩
    have hmeet : attempt job.meet Scope.free (Clock.at moment)
        ⟨job.reached candidate stream, s.outbox⟩ =
          ⟨.done (.error error), Clock.at after, ⟨c, s.outbox⟩⟩ := by
      simp only [attempt, meet_apply, bind_apply, greeting]
    rw [tryCandidate, dialing]
    exact bind_of_done (hlent hmeet)
  | @refused stream error middle after c c' dialing greeting gates =>
    refine ⟨s.drop c', ?_, rfl, rfl⟩
    have hmeet : attempt job.meet Scope.free (Clock.at moment)
        ⟨job.reached candidate stream, s.outbox⟩ =
          ⟨.done (.error error), Clock.at after, ⟨c', s.outbox⟩⟩ := by
      simp only [attempt, meet_apply, bind_apply, greeting, gates]
    rw [tryCandidate, dialing]
    exact bind_of_done (hlent hmeet)
  | @admitted stream middle after c c' dialing greeting gates =>
    refine ⟨s, ?_, rfl, rfl⟩
    have hmeet : attempt job.meet Scope.free (Clock.at moment)
        ⟨job.reached candidate stream, s.outbox⟩ =
          ⟨.done (.ok ()), Clock.at after, ⟨c', s.outbox⟩⟩ := by
      simp only [attempt, meet_apply, bind_apply, greeting, gates]
    rw [tryCandidate, dialing]
    exact bind_of_done (hlent hmeet)

/-- A candidate that is examined while nobody is told to stop is admitted or rejected, the latter
for one of certain failures. -/
theorem exists_examined (job : Job) {E : Error → Prop} (hE : CoversMeeting E)
    (hcalm : candidate.dialing.Calm) (hfails : candidate.dialing.FailsWith E) (moment : Nat) :
    ∃ result after, job.Examined candidate moment result after ∧
      ∀ error, result = .error error → E error := by
  cases hdialing : candidate.dialing.stream with
  | error error =>
    refine ⟨_, moment, .unreachable hdialing, ?_⟩
    rintro _ ⟨⟩
    exact hfails.refused error hdialing
  | ok stream =>
    have hfailed := job.failsOnly_meet hE (Outbox.start .absent) Scope.free (Clock.at moment)
      ⟨job.reached candidate stream, _⟩ ⟨hfails.broken stream hdialing, rfl⟩
    rw [meet_apply, bind_apply] at hfailed
    have hgreet := Connection.settles_greet job.config job.torrent.infoHash Scope.free
      (Clock.at moment) (job.reached candidate stream) rfl
    obtain ⟨middle, c, hc, ⟨_, hgreeting⟩ | ⟨error, hgreeting⟩⟩ :=
      hgreet.cases_at (hcalm stream hdialing)
    · have hpass := Connection.settles_passGates Framed.linkSettles Scope.free (Clock.at middle) c
        rfl
      simp only [hgreeting] at hfailed
      obtain ⟨after, c', -, ⟨_, hgates⟩ | ⟨error, hgates⟩⟩ := hpass.cases_at hc
      · exact ⟨_, after, .admitted hdialing hgreeting hgates, nofun⟩
      · refine ⟨_, after, .refused hdialing hgreeting hgates, ?_⟩
        rintro _ ⟨⟩
        rw [hgates] at hfailed
        exact hfailed.1
    · refine ⟨_, middle, .ungreeted hdialing hgreeting, ?_⟩
      rintro _ ⟨⟩
      rw [hgreeting] at hfailed
      exact hfailed.1

/-! ### One candidate after the other -/

/-- Candidates are dialed in turn one after the other. -/
theorem dialedInTurn_cons (job : Job) (candidate : Candidate) (others : List Candidate) :
    job.dialedInTurn (candidate :: others) =
      job.dialedInTurn [candidate] ++ job.dialedInTurn others := by
  unfold dialedInTurn
  split <;> rfl

/-- Who is not told to stop waits until it is known what comes of dialing a candidate. -/
theorem awaitDialing_apply (job : Job) (start : Nat) (candidate : Candidate) (moment : Nat)
    (s : Search) :
    unlessStopped (job.awaitDialing start candidate) Scope.open (Clock.at moment) s =
      ⟨.done (), Clock.at (job.answered start candidate moment),
        s.noteDialed (job.dialedInTurn [candidate])⟩ := by
  have hwait (later : Nat) : (Clock.at moment).waitUntil Scope.free later =
      (.done (), Clock.at (max moment later)) := rfl
  have hnow : (Clock.at moment).now = moment := rfl
  have hnone : s.noteDialed [] = s := by
    rw [Search.noteDialed, List.append_nil]
  apply unlessStopped_of_done
  cases hstrategy : job.config.strategy with
  | sequential =>
    simp only [awaitDialing, answered, dialedInTurn, hstrategy, bind_apply, Activity.modify, now,
      waitUntil, hwait, hnow, Nat.max_eq_right (Nat.le_add_right _ _), List.map_cons, List.map_nil]
  | parallel =>
    simp only [awaitDialing, answered, dialedInTurn, hstrategy, waitUntil, hwait, hnone]

variable {earlier : List (Address × Error)} {rest : List Candidate}

/-- A candidate is probed and then tried. -/
theorem selectAmong_cons (s : Search) :
    job.selectAmong start total earlier (candidate :: rest) Scope.open (Clock.at moment) s =
      (do
        match ← job.tryCandidate candidate with
        | .ok connection =>
          Activity.modify (Search.post (.selected candidate.address))
          pure connection
        | .error .cancelled => Activity.fail .cancelled
        | .error error =>
          Activity.modify (Search.post (.rejected candidate.address error.message))
          job.selectAmong start total (earlier ++ [(candidate.address, error)]) rest :
        Activity Search (Connection Framed))
        Scope.open (Clock.at (job.answered start candidate moment))
        ((s.noteDialed (job.dialedInTurn [candidate])).post
          (.probing candidate.address candidate.index total)) := by
  rw [selectAmong, bind_of_done (awaitDialing_apply job start candidate moment s)]
  rfl

/-- What was noted of a search: the notices and the addresses that were dialed. -/
structure Noted (notices : List Notice) (dialed : List Nat) (s t : Search) : Prop where
  /-- The notices were given. -/
  outbox : t.outbox = notices.foldl Outbox.post s.outbox
  /-- The addresses were dialed. -/
  dialed : t.dialed = s.dialed ++ dialed

/-- After a candidate that is rejected the search goes on with the others. -/
theorem selectAmong_of_rejected (total : Nat) (earlier : List (Address × Error))
    (rest : List Candidate) {error : Error}
    (h : job.Examined candidate (job.answered start candidate moment) (.error error) after)
    (herror : error ≠ .cancelled) (s : Search) :
    ∃ t, Noted (rejectionNotices total [(candidate, error)]) (job.dialedInTurn [candidate]) s t ∧
      job.selectAmong start total earlier (candidate :: rest) Scope.open (Clock.at moment) s =
        job.selectAmong start total (earlier ++ [(candidate.address, error)]) rest Scope.open
          (Clock.at after) t := by
  obtain ⟨t, htry, houtbox, hdialed⟩ := tryCandidate_of_examined h
    ((s.noteDialed (job.dialedInTurn [candidate])).post
      (.probing candidate.address candidate.index total))
  refine ⟨t.post (.rejected candidate.address error.message), ⟨?_, hdialed⟩, ?_⟩
  · show t.outbox.post _ = _
    rw [houtbox]
    rfl
  · rw [selectAmong_cons, bind_of_done htry]
    cases error with
    | cancelled => exact absurd rfl herror
    | _ => rfl

/-- A candidate that is admitted is selected. -/
theorem selectAmong_of_admitted (total : Nat) (earlier : List (Address × Error))
    (rest : List Candidate) {connection : Connection Framed}
    (h : job.Examined candidate (job.answered start candidate moment) (.ok connection) after)
    (s : Search) :
    ∃ t, Noted [.probing candidate.address candidate.index total, .selected candidate.address]
        (job.dialedInTurn [candidate]) s t ∧
      job.selectAmong start total earlier (candidate :: rest) Scope.open (Clock.at moment) s =
        ⟨.done connection, Clock.at after, t⟩ := by
  obtain ⟨t, htry, houtbox, hdialed⟩ := tryCandidate_of_examined h
    ((s.noteDialed (job.dialedInTurn [candidate])).post
      (.probing candidate.address candidate.index total))
  refine ⟨t.post (.selected candidate.address), ⟨?_, hdialed⟩, ?_⟩
  · show t.outbox.post _ = _
    rw [houtbox]
    rfl
  · rw [selectAmong_cons, bind_of_done htry]
    rfl

variable {order : List Candidate} {s t u : Search} {o : Outcome Search (Connection Framed)}

/-- The reasons for which candidates were rejected, with their addresses. -/
def reasons (rejected : List (Candidate × Error)) : List (Address × Error) :=
  rejected.map fun (candidate, error) ↦ (candidate.address, error)

/-- A search among candidates in their order has come to its end, and what was noted on the way. -/
inductive Selects (job : Job) (start total : Nat) (earlier : List (Address × Error))
    (order : List Candidate) (moment : Nat) (s : Search) :
    Outcome Search (Connection Framed) → Prop where
  /-- The first candidate that is admitted is selected, and those behind it are left alone. -/
  | selected {rejected : List (Candidate × Error)} {chosen : Candidate} {others : List Candidate}
      {connection : Connection Framed} {middle after : Nat} {t : Search}
      (order_eq : order = rejected.map Prod.fst ++ chosen :: others)
      (allRejected : job.AllRejected start moment rejected middle)
      (admitted : job.Examined chosen (job.answered start chosen middle) (.ok connection) after)
      (noted : Noted (rejectionNotices total rejected ++
          [.probing chosen.address chosen.index total, .selected chosen.address])
        (job.dialedInTurn (rejected.map Prod.fst ++ [chosen])) s t) :
      Selects job start total earlier order moment s ⟨.done connection, Clock.at after, t⟩
  /-- All of them are rejected, and the search fails with their reasons. -/
  | exhausted {rejected : List (Candidate × Error)} {after : Nat} {t : Search}
      (order_eq : order = rejected.map Prod.fst)
      (allRejected : job.AllRejected start moment rejected after)
      (noted : Noted (rejectionNotices total rejected) (job.dialedInTurn order) s t) :
      Selects job start total earlier order moment s
        ⟨.failed (.noEligiblePeer (earlier ++ reasons rejected)), Clock.at after, t⟩

/-- What was noted first and what was noted then was noted. -/
theorem Noted.trans {notices later : List Notice} {dialed next : List Nat}
    (h : Noted notices dialed s t) (h' : Noted later next t u) :
    Noted (notices ++ later) (dialed ++ next) s u where
  outbox := by rw [h'.outbox, h.outbox, List.foldl_append]
  dialed := by rw [h'.dialed, h.dialed, List.append_assoc]

/-- A candidate that is rejected comes before the others. -/
theorem Selects.of_rejected {error : Error} {middle : Nat}
    (hexamined : job.Examined candidate (job.answered start candidate moment) (.error error) middle)
    (hnoted : Noted (rejectionNotices total [(candidate, error)])
      (job.dialedInTurn [candidate]) s t)
    (h : job.Selects start total (earlier ++ [(candidate.address, error)]) rest middle t o) :
    job.Selects start total earlier (candidate :: rest) moment s o := by
  have hnotices (rejected : List (Candidate × Error)) :
      rejectionNotices total ((candidate, error) :: rejected) =
        rejectionNotices total [(candidate, error)] ++ rejectionNotices total rejected := rfl
  cases h with
  | @selected rejected chosen others connection _ after u order_eq allRejected admitted noted =>
    have horder : candidate :: rest =
        ((candidate, error) :: rejected).map Prod.fst ++ chosen :: others := by
      rw [order_eq]
      rfl
    apply Selects.selected horder (.next hexamined allRejected) admitted
    have htrans := hnoted.trans noted
    rw [← List.append_assoc, ← hnotices, ← dialedInTurn_cons] at htrans
    exact htrans
  | @exhausted rejected after u order_eq allRejected noted =>
    have horder : candidate :: rest = ((candidate, error) :: rejected).map Prod.fst := by
      rw [order_eq]
      rfl
    have htrans := hnoted.trans noted
    rw [← hnotices, ← dialedInTurn_cons] at htrans
    rw [List.append_assoc]
    exact Selects.exhausted horder (.next hexamined allRejected) htrans

/-- Unless anyone is told to stop, a search among candidates ends with the first one that is
admitted, or with the reasons for which all of them were rejected. -/
theorem selects_selectAmong {E : Error → Prop} (hE : CoversMeeting E)
    (hcancelled : ∀ error, E error → error ≠ .cancelled)
    (horder : ∀ candidate ∈ order, candidate.dialing.Calm ∧ candidate.dialing.FailsWith E)
    (moment : Nat) (s : Search) :
    job.Selects start total earlier order moment s
      (job.selectAmong start total earlier order Scope.open (Clock.at moment) s) := by
  induction order generalizing earlier moment s with
  | nil =>
    have hnone : job.Selects start total earlier [] moment s
        ⟨.failed (.noEligiblePeer (earlier ++ reasons [])), Clock.at moment, s⟩ :=
      .exhausted rfl .none ⟨rfl, by rw [dialedInTurn]; split <;> exact (List.append_nil _).symm⟩
    have hstopped : unlessStopped (pure ()) Scope.open (Clock.at moment) s =
        ⟨.done (), Clock.at moment, s⟩ := unlessStopped_of_done rfl
    rw [selectAmong, bind_of_done hstopped]
    rw [reasons, List.map_nil, List.append_nil] at hnone
    exact hnone
  | cons candidate rest ih =>
    obtain ⟨hcalm, hfails⟩ := horder candidate List.mem_cons_self
    have hrest := fun c hc ↦ horder c (List.mem_cons_of_mem _ hc)
    obtain ⟨result, after, hexamined, herror⟩ :=
      job.exists_examined hE hcalm hfails (job.answered start candidate moment)
    cases result with
    | error error =>
      obtain ⟨t, hnoted, hrun⟩ := selectAmong_of_rejected total earlier rest hexamined
        (hcancelled error (herror error rfl)) s
      rw [hrun]
      exact (ih hrest after t).of_rejected hexamined hnoted
    | ok connection =>
      obtain ⟨t, hnoted, hrun⟩ := selectAmong_of_admitted total earlier rest hexamined s
      rw [hrun]
      exact .selected (List.nil_append _).symm .none hexamined hnoted

/-- The orders in which the candidates for addresses may come: that of the list if they are dialed
one after the other, and any order if they are dialed at once. -/
def Yields (job : Job) (network : Network) (addresses : List Address) (order : List Candidate) :
    Prop :=
  match job.config.strategy with
  | .sequential => order = network.inOrder job.config.connectTimeout addresses
  | .parallel => order.Perm (network.inOrder job.config.connectTimeout addresses)

/-- In whatever order candidates come, each address is one of them once. -/
theorem Yields.perm {network : Network} {addresses : List Address}
    (h : job.Yields network addresses order) :
    order.Perm (network.inOrder job.config.connectTimeout addresses) := by
  unfold Yields at h
  split at h
  · rw [h]
  · exact h

/-- Whatever becomes of the candidates, a search that nobody tells to stop selects the first one
that is admitted, in whatever order they come; those before it are rejected, each for an error of
its own, and none behind it is dialed in its turn. If there is none, the search fails with the
reason for each address. -/
theorem selects_select (job : Job) (network : Network) (hcalm : network.Calm)
    (hfails : network.FailsWith (· ≠ .cancelled)) (addresses : List Address) (now : Nat)
    (observer : Observer) :
    let search (order : List Candidate) : Search :=
      ⟨Outbox.start observer, job.dialedAtOnce order, []⟩
    let candidates :=
      network.candidates job.config.strategy job.config.connectTimeout addresses
    (∀ order, job.Yields network addresses order →
      job.Selects now addresses.length [] order now (search order)
        (job.selectFrom addresses.length order Scope.open (Clock.at now) (Search.start observer))) ∧
    job.Yields network addresses candidates ∧
    job.Selects now addresses.length [] candidates now (search candidates)
      (job.select network addresses Scope.open (Clock.at now) (Search.start observer)) := by
  intro search candidates
  have hE : CoversMeeting (· ≠ .cancelled) :=
    ⟨⟨by simp, by simp, by simp⟩, by simp, by simp, by simp, by simp, by simp⟩
  have hsearch (order : List Candidate) :
      job.selectFrom addresses.length order Scope.open (Clock.at now) (Search.start observer) =
        job.selectAmong now addresses.length [] order Scope.open (Clock.at now) (search order) := by
    cases hstrategy : job.config.strategy with
    | sequential =>
      simp only [selectFrom, search, dialedAtOnce, hstrategy]
      rfl
    | parallel =>
      simp only [selectFrom, search, dialedAtOnce, hstrategy]
      rfl
  have hany (order : List Candidate) (horder : job.Yields network addresses order) :
      job.Selects now addresses.length [] order now (search order)
        (job.selectFrom addresses.length order Scope.open (Clock.at now)
          (Search.start observer)) := by
    rw [hsearch]
    apply selects_selectAmong hE (fun _ h ↦ h)
    intro candidate hmem
    obtain ⟨index, address, rfl⟩ := Network.exists_of_mem_inOrder (horder.perm.mem_iff.mp hmem)
    exact ⟨(hcalm index address).within _, (hfails index address).within hE.transport _⟩
  have hyields : job.Yields network addresses candidates := by
    cases hstrategy : job.config.strategy with
    | sequential => simp only [Yields, candidates, Network.candidates, hstrategy]
    | parallel =>
      simp only [Yields, candidates, hstrategy]
      exact network.candidates_perm _ _ _
  exact ⟨hany, hyields, hany candidates hyields⟩

/-! ### Peers of several kinds -/

/-- What comes from a peer that greets and then says some messages. -/
def talkingPeer (messages : List Message) : ByteStream :=
  let greeting : Handshake := ⟨threeBytes.torrent.infoHash, nobody⟩
  ByteStream.start (.item greeting.toBytes :: messages.map fun message ↦ .item message.encode) none

/-- Nothing but bytes comes from such a peer. -/
theorem eq_item_of_talkingPeer {messages : List Message} {cue : Cue Bytes}
    (h : cue ∈ (talkingPeer messages).incoming) : ∃ bytes, cue = .item bytes := by
  rcases List.mem_cons.mp h with rfl | h
  · exact ⟨_, rfl⟩
  · obtain ⟨message, -, rfl⟩ := List.mem_map.mp h
    exact ⟨_, rfl⟩

/-- A network on which the first peer cannot be reached, the second one lacks a piece of the three
bytes, and all others have them, give leave to request, and send them. -/
def mixedPeers : Network := fun index _ ↦
  match index with
  | 0 => ⟨3, .error (.connection .unreachable)⟩
  | 1 => ⟨0, .ok (talkingPeer [.bitfield (Bitfield.ofBytes [64])])⟩
  | _ => ⟨2, .ok (talkingPeer [.bitfield (Bitfield.ofBytes [192]), .unchoke, .piece ⟨0, 0, [7]⟩,
      .piece ⟨0, 1, [8]⟩, .piece ⟨1, 0, [9]⟩])⟩

/-- Nothing on that network tells the session to stop. -/
theorem calm_mixedPeers : mixedPeers.Calm := by
  have htalking (messages : List Message) : (talkingPeer messages).Calm := by
    intro hstop
    obtain ⟨bytes, hcue⟩ := eq_item_of_talkingPeer hstop
    cases hcue
  intro index address stream hstream
  match index with
  | 0 => cases hstream
  | 1 =>
    cases hstream
    exact htalking _
  | _ + 2 =>
    cases hstream
    exact htalking _

/-- That network fails with transport errors only. -/
theorem failsWith_mixedPeers {E : Error → Prop} (hE : ∀ fault, E (.connection fault)) :
    mixedPeers.FailsWith E := by
  have htalking (messages : List Message) : (talkingPeer messages).FailsWith E := by
    intro error hfail
    obtain ⟨bytes, hcue⟩ := eq_item_of_talkingPeer hfail
    cases hcue
  intro index address
  match index with
  | 0 =>
    constructor
    · rintro _ ⟨⟩
      exact hE _
    · rintro _ ⟨⟩
  | 1 =>
    constructor
    · rintro _ ⟨⟩
    · rintro _ ⟨⟩
      exact htalking _
  | _ + 2 =>
    constructor
    · rintro _ ⟨⟩
    · rintro _ ⟨⟩
      exact htalking _

/-- Four times the same address. -/
def fourAddresses : List Address := List.replicate 4 ⟨.octets 127 0 0 1, 6881⟩

/-- Among four peers of that network the third one is selected, and the fourth one is never
dialed. -/
theorem selects_select_mixedPeers :
    threeBytes.Selects 0 4 [] (mixedPeers.candidates .sequential 5000 fourAddresses) 0
        ⟨Outbox.start .unbounded, [], []⟩
        (threeBytes.select mixedPeers fourAddresses Scope.open (Clock.at 0)
          (Search.start .unbounded)) ∧
      (threeBytes.select mixedPeers fourAddresses Scope.open (Clock.at 0)
          (Search.start .unbounded)).state.dialed = [0, 1, 2] :=
  ⟨(threeBytes.selects_select mixedPeers calm_mixedPeers
      (failsWith_mixedPeers (by simp)) fourAddresses 0 .unbounded).2.2, by decide +kernel⟩

end Job

end PeerWire
