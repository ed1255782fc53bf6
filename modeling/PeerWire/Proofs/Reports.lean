import PeerWire.Proofs.Candidates
import PeerWire.Proofs.Examination

/-!
# What an observer is told

An observer is told of each candidate that it is tried and then that it was rejected or selected.
While the file is fetched each piece is reported when it was checked, and at last that the download
is complete or why it has failed. Main statement: for an observer who has room for everything, the
notices of a download tell just this, and agree with its result.
-/

namespace PeerWire

open Activity

variable {σ α : Type}

/-- Who has room for everything is given every notice. -/
theorem Outbox.waiting_foldl_post_unbounded (notices : List Notice) :
    (notices.foldl post (start .unbounded)).waiting = notices := by
  have hgrow (before : List Notice) :
      (notices.foldl post ⟨.unbounded, before⟩).waiting = before ++ notices := by
    induction notices generalizing before with
    | nil => exact (List.append_nil before).symm
    | cons notice notices ih =>
      have hpost : post ⟨.unbounded, before⟩ notice = ⟨.unbounded, before ++ [notice]⟩ := by
        simp [post, hasRoom]
      rw [List.foldl_cons, hpost, ih, List.append_assoc]
      rfl
  exact hgrow []

/-! ### While the file is fetched -/

namespace Torrent

/-- The notices that the first pieces, so many of them, were checked. -/
def verifiedNotices (torrent : Torrent) (count : Nat) : List Notice :=
  (List.range count).map fun piece ↦
    .verified piece (min ((piece + 1) * torrent.pieceLength) torrent.totalLength)
      torrent.totalLength

/-- The notice that one more piece was checked is the last one. -/
theorem verifiedNotices_succ (torrent : Torrent) (count : Nat) :
    torrent.verifiedNotices (count + 1) = torrent.verifiedNotices count ++
      [.verified count (torrent.lengthBefore (count + 1)) torrent.totalLength] := by
  have hlength : torrent.lengthBefore (count + 1) =
      min ((count + 1) * torrent.pieceLength) torrent.totalLength := by
    rw [lengthBefore, pieceOffset, Tiling.start, Nat.mul_comm]
  rw [verifiedNotices, verifiedNotices, List.range_succ, List.map_append, hlength]
  rfl

end Torrent

/-- A piece that is put together is the current one. -/
theorem Assembly.index_of_append {a after : Assembly} {fragment : Fragment} {piece : Piece}
    (h : a.append fragment = .ok (some piece, after)) : piece.info.index = a.index := by
  have happended := appended a fragment
  rw [h] at happended
  cases happended with
  | completed fits _ => exact (Torrent.of_piece?_eq_some fits.described).2.1

namespace Transfer

variable {hash : Bytes → Digest} {t next : Transfer} {notice : Option Notice} {incoming : Incoming}

/-- What a reaction gives notice of: one more piece was checked, or nothing. -/
def Reports (t next : Transfer) (notice : Option Notice) : Prop :=
  notice = none ∧ next.verified = t.verified ∨
    notice = some (.verified t.assembly.index next.downloaded next.assembly.torrent.totalLength) ∧
      next.verified = t.verified + 1

/-- Putting a fragment to those before it gives notice of a piece that was checked. -/
theorem reports_of_append {fragment : Fragment}
    (h : append hash fragment t = .ok (next, notice)) : t.Reports next notice := by
  rw [append] at h
  split at h
  · cases h
  · cases h
    exact .inl ⟨rfl, rfl⟩
  · next piece assembly happend =>
    rw [check] at h
    split at h
    · cases h
      right
      rw [Assembly.index_of_append happend]
      exact ⟨rfl, rfl⟩
    · cases h

/-- A reaction gives notice of a piece that was checked. -/
theorem reports_of_react (h : (t.react hash incoming).verdict = .ok (next, notice)) :
    t.Reports next notice := by
  cases incoming with
  | block fragment =>
    simp only [react, deliver] at h
    split at h
    · cases h
    · cases h
      exact .inl ⟨rfl, rfl⟩
    · next backfill window _ =>
      have hreports : ({ t with window := window } : Transfer).Reports next notice :=
        reports_of_append h
      exact hreports
  | choked =>
    cases h
    exact .inl ⟨rfl, rfl⟩
  | unchoked =>
    cases h
    exact .inl ⟨rfl, rfl⟩
  | announced piece =>
    cases h
    exact .inl ⟨rfl, rfl⟩
  | consumed =>
    cases h
    exact .inl ⟨rfl, rfl⟩

end Transfer

/-- The failure is no piece without its digest. -/
def Error.NoMismatch (error : Error) : Prop := ∀ piece, error ≠ .hashMismatch piece

namespace Job

variable {job : Job}

/-- What was reported of a download since there were certain notices. -/
structure Reported (job : Job) (outbox : Outbox) (after : Outbox) (t : Transfer) : Prop where
  /-- The download is on course. -/
  course : job.OnCourse t
  /-- The pieces that were checked were reported. -/
  outbox_eq : after = (job.torrent.verifiedNotices t.assembly.index).foldl Outbox.post outbox

/-- Some pieces were reported. If the failure is a piece without its digest, then these are the
pieces before it. -/
def ReportedBefore (job : Job) (outbox after : Outbox) (error : Error) : Prop :=
  ∃ count ≤ job.torrent.pieceCount,
    after = (job.torrent.verifiedNotices count).foldl Outbox.post outbox ∧
      ∀ piece, error = .hashMismatch piece → count = piece

variable {outbox after : Outbox} {t next : Transfer} {incoming : Incoming}

/-- Some other failure comes at any time. -/
theorem Reported.before (h : job.Reported outbox after t) {error : Error}
    (herror : error.NoMismatch) :
    job.ReportedBefore outbox after error := by
  obtain ⟨text, hprogress⟩ := h.course
  exact ⟨_, hprogress.index_le, h.outbox_eq, fun piece heq ↦ absurd heq (herror piece)⟩

/-- What a reaction reports is reported. -/
theorem Reported.goesOn (h : job.Reported outbox after t) {notice : Option Notice}
    (hcourse : job.OnCourse next)
    (hverdict : (t.react job.hash incoming).verdict = .ok (next, notice)) :
    job.Reported outbox (notice.elim after after.post) next := by
  obtain ⟨text, hprogress⟩ := h.course
  obtain ⟨text', hprogress'⟩ := hcourse
  refine ⟨⟨text', hprogress'⟩, ?_⟩
  have hindex := hprogress.verified
  have hindex' := hprogress'.verified
  obtain ⟨rfl, hverified⟩ | ⟨rfl, hverified⟩ := Transfer.reports_of_react hverdict
  · rw [← hindex', hverified, hindex]
    exact h.outbox_eq
  · have hnext : next.assembly.index = t.assembly.index + 1 := by omega
    rw [hnext, Torrent.verifiedNotices_succ, List.foldl_append, ← h.outbox_eq,
      hprogress'.downloaded, hprogress'.torrent_eq, hnext]
    rfl

/-- A reaction that ends the download reports nothing. If a piece does not have its digest, it is
the first one that was not reported. -/
theorem Reported.ends (h : job.Reported outbox after t) {error : Error}
    (hverdict : (t.react job.hash incoming).verdict = .error error) :
    job.ReportedBefore outbox after error := by
  obtain ⟨text, hprogress⟩ := h.course
  have hreacted := hprogress.react incoming
  rw [hverdict] at hreacted
  cases hreacted with
  | refused hdelivers hrefuses => exact h.before nofun
  | @mismatch fragment hdelivers hfirst hlength hrefuted =>
    obtain ⟨rest, hdue⟩ := hfirst
    obtain ⟨hindex, position, -, -, hblock, -⟩ := hprogress.first_due hdue
    refine ⟨_, hprogress.index_le, h.outbox_eq, ?_⟩
    rintro _ ⟨⟩
    exact (congrArg Block.piece hblock).symm

variable [Link σ] {I : σ → Prop}

/-- Carrying out a reaction reports what that reports. -/
theorem leads_carryOut_reports (hlink : LinkFailsOnly Error.NoMismatch I)
    (h : job.Reported outbox after t) (incoming : Incoming) :
    Leads (fun s : Session σ × Transfer ↦
        I s.1.connection.link ∧ s.1.outbox = after ∧ s.2 = t)
      (carryOut (t.react job.hash incoming))
      ⟨fun _ s ↦ I s.1.connection.link ∧ job.Reported outbox s.1.outbox s.2,
        fun error s ↦ job.ReportedBefore outbox s.1.outbox error,
        fun s ↦ job.Reported outbox s.1.outbox s.2⟩ := by
  have hcovers : CoversDownload fun _ ↦ True :=
    ⟨fun _ _ _ _ ↦ trivial, fun _ _ _ _ ↦ trivial, fun _ ↦ trivial⟩
  apply leads_bind (M := fun _ s ↦ I s.1.connection.link ∧ s.1.outbox = after ∧ s.2 = t)
  · apply (failsOnly_besides (fun outbox' t' ↦ outbox' = after ∧ t' = t)
      (Connection.failsOnly_requestAll hlink _)).mono
    · exact fun _ hs ↦ hs
    · exact fun _ _ hs ↦ hs
    · rintro error s ⟨herror, -, houtbox, -⟩
      show job.ReportedBefore outbox s.1.outbox error
      rw [houtbox]
      exact h.before herror
    · rintro s ⟨-, houtbox, ht⟩
      show job.Reported outbox s.1.outbox s.2
      rw [houtbox, ht]
      exact h
  · intro _
    apply leads_bind (M := fun result s ↦ (I s.1.connection.link ∧ s.1.outbox = after ∧ s.2 = t) ∧
      (t.react job.hash incoming).verdict = .ok result)
    · apply leads_ofExcept
      · exact fun result hverdict s hs ↦ ⟨hs, hverdict⟩
      · rintro error hverdict s ⟨-, houtbox, -⟩
        show job.ReportedBefore outbox s.1.outbox error
        rw [houtbox]
        exact h.ends hverdict
    · rintro ⟨next, notice⟩
      apply leads_modify
      rintro s ⟨⟨hlinked, rfl, -⟩, hverdict⟩
      have hnext := h.goesOn ((verdict_of_react hcovers h.course incoming).1 _ _ hverdict) hverdict
      cases notice with
      | none => exact ⟨hlinked, hnext⟩
      | some notice => exact ⟨hlinked, hnext⟩

/-- A round reports the piece that it completes. -/
theorem leads_transferRound_reports (hlink : LinkFailsOnly Error.NoMismatch I) :
    Leads (fun s : Session σ × Transfer ↦
        I s.1.connection.link ∧ job.Reported outbox s.1.outbox s.2) job.transferRound
      ⟨fun result s ↦ (I s.1.connection.link ∧ job.Reported outbox s.1.outbox s.2) ∧
          ∀ content, result = some content → s.2.isComplete = true ∧ content = s.2.content,
        fun error s ↦ job.ReportedBefore outbox s.1.outbox error,
        fun s ↦ job.Reported outbox s.1.outbox s.2⟩ := by
  have hsenseless (peer : Peer) (message : Message) (error : Error)
      (h : peer.apply message = .error error) : error.NoMismatch := by
    obtain ⟨fault, rfl⟩ | ⟨expected, received, rfl⟩ := Peer.error_of_apply h
    · nofun
    · nofun
  apply leads_get_bind
  rintro ⟨s, t⟩ ⟨hlinked, hreported⟩
  by_cases hcomplete : t.isComplete = true
  · simp only [hcomplete, if_true]
    apply leads_pure
    rintro _ rfl
    refine ⟨⟨hlinked, hreported⟩, ?_⟩
    rintro _ ⟨⟩
    exact ⟨hcomplete, rfl⟩
  · simp only [hcomplete, Bool.false_eq_true, if_false]
    apply leads_bind (M := fun _ s' ↦ I s'.1.connection.link ∧ s'.1.outbox = s.outbox ∧ s'.2 = t)
    · apply (failsOnly_besides (fun outbox' t' ↦ outbox' = s.outbox ∧ t' = t)
        (Connection.failsOnly_receiveNext hlink.receive hsenseless)).mono
      · rintro _ rfl
        exact ⟨hlinked, rfl, rfl⟩
      · exact fun _ _ hs ↦ hs
      · rintro error s' ⟨herror, -, houtbox, -⟩
        show job.ReportedBefore outbox s'.1.outbox error
        rw [houtbox]
        exact hreported.before herror
      · rintro s' ⟨-, houtbox, ht⟩
        show job.Reported outbox s'.1.outbox s'.2
        rw [houtbox, ht]
        exact hreported
    · intro incoming
      apply leads_bind (leads_carryOut_reports hlink hreported incoming)
      intro _
      exact leads_pure fun _ hs ↦ ⟨hs, nofun⟩

/-- Fetching every piece reports each of them. -/
theorem leads_transfer_reports (hlink : LinkFailsOnly Error.NoMismatch I) :
    Leads (fun s : Session σ ↦ I s.connection.link ∧ s.outbox = outbox) job.transfer
      ⟨fun content s ↦ content.length = job.torrent.totalLength ∧
          s.outbox = (job.torrent.verifiedNotices job.torrent.pieceCount).foldl Outbox.post outbox,
        fun error s ↦ job.ReportedBefore outbox s.outbox error,
        fun s ↦ job.ReportedBefore outbox s.outbox .cancelled⟩ := by
  have hfirst : Leads (fun s : Session σ × Transfer ↦
        I s.1.connection.link ∧ job.Reported outbox s.1.outbox s.2) askFirst
      ⟨fun _ s ↦ I s.1.connection.link ∧ job.Reported outbox s.1.outbox s.2,
        fun error s ↦ job.ReportedBefore outbox s.1.outbox error,
        fun s ↦ job.Reported outbox s.1.outbox s.2⟩ := by
    apply leads_get_bind
    rintro ⟨s, t⟩ ⟨hlinked, hreported⟩
    by_cases hchoking : s.connection.peer.choking = true
    · simp only [hchoking, if_true]
      apply leads_pure
      rintro _ rfl
      exact ⟨hlinked, hreported⟩
    · simp only [hchoking, Bool.false_eq_true, if_false]
      apply (leads_carryOut_reports hlink hreported .unchoked).of_imp
      rintro _ rfl
      exact ⟨hlinked, rfl, rfl⟩
  have hrest : Leads (fun s : Session σ × Transfer ↦
        I s.1.connection.link ∧ job.Reported outbox s.1.outbox s.2) job.transferRest
      ⟨fun content s ↦ job.Reported outbox s.1.outbox s.2 ∧ s.2.isComplete = true ∧
          content = s.2.content,
        fun error s ↦ job.ReportedBefore outbox s.1.outbox error,
        fun s ↦ job.Reported outbox s.1.outbox s.2⟩ := by
    apply leads_repeatUntil
    apply (leads_transferRound_reports hlink).mono
    · exact fun _ hs ↦ hs
    · rintro result s ⟨hs, hcontent⟩
      cases result with
      | none => exact hs
      | some content => exact ⟨hs.2, hcontent content rfl⟩
    · exact fun _ _ hs ↦ hs
    · exact fun _ hs ↦ hs
  apply leads_withOwn
  refine Leads.mono (leads_bind hfirst fun _ ↦ hrest) ?_ ?_ ?_ ?_
  · rintro ⟨s, t⟩ ⟨⟨hlinked, houtbox⟩, rfl⟩
    exact ⟨hlinked, ⟨[], Transfer.progress_start _ _ _ _⟩, houtbox⟩
  · rintro _ ⟨s, t⟩ ⟨hreported, hcomplete, rfl⟩
    obtain ⟨text, hprogress⟩ := hreported.course
    have hindex := hprogress.isComplete_iff.mp hcomplete
    obtain ⟨hcontent, hlength, -⟩ := hprogress.content_of_index_eq hindex
    exact ⟨hcontent ▸ hlength, hindex ▸ hreported.outbox_eq⟩
  · exact fun _ _ hs ↦ hs
  · exact fun _ hs ↦ hs.before nofun

/-- A download reports each piece when it was checked. -/
theorem leads_downloadFrom_reports (hlink : LinkFailsOnly Error.NoMismatch I) :
    Leads (fun s : Session σ ↦ I s.connection.link ∧ s.outbox = outbox) job.downloadFrom
      ⟨fun content s ↦ content.length = job.torrent.totalLength ∧
          s.outbox = (job.torrent.verifiedNotices job.torrent.pieceCount).foldl Outbox.post outbox,
        fun error s ↦ job.ReportedBefore outbox s.outbox error, fun _ ↦ True⟩ := by
  apply leads_bind (M := fun result s ↦ result.elim (job.ReportedBefore outbox s.outbox .cancelled)
    fun content : Bytes ↦ content.length = job.torrent.totalLength ∧
      s.outbox = (job.torrent.verifiedNotices job.torrent.pieceCount).foldl Outbox.post outbox)
  · apply leads_untilStopped
    · apply (leads_transfer_reports hlink).mono
      · exact fun _ hs ↦ hs
      · exact fun _ _ hs ↦ hs
      · exact fun _ _ hs ↦ hs
      · exact fun _ hs ↦ ⟨trivial, hs⟩
    · exact fun s hs ↦ ⟨0, Nat.zero_le _, hs.2, nofun⟩
  · intro result
    cases result with
    | some content => exact leads_pure fun _ hs ↦ hs
    | none =>
      apply leads_bind (M := fun _ s ↦ job.ReportedBefore outbox s.outbox .cancelled)
      · apply leads_onPart
        intro s hs
        apply leads_farewell.mono
        · exact fun _ _ ↦ trivial
        · exact fun _ _ _ ↦ hs
        · exact fun _ _ h ↦ h.elim
        · exact fun _ _ ↦ trivial
      · exact fun _ ↦ leads_fail fun _ hs ↦ hs

/-! ### While a peer is searched for -/

variable {E : Error → Prop} {candidate : Candidate} {order : List Candidate} {total start : Nat}
  {base : Outbox}

/-- Nothing is reported while a candidate is tried. That is broken off only when the session is
told to stop. -/
theorem leads_tryCandidate_reports (hE : CoversMeeting E)
    (hcandidate : candidate.dialing.FailsWith E) :
    Leads (fun s ↦ s.outbox = outbox) (job.tryCandidate candidate)
      ⟨fun result s ↦ s.outbox = outbox ∧ ∀ c, result = .ok c → c.link.FailsWith E,
        fun error s ↦ s.outbox = outbox ∧ error = .cancelled, fun _ ↦ True⟩ := by
  rw [tryCandidate]
  split
  · exact leads_pure fun _ hs ↦ ⟨hs, by simp⟩
  · next stream hdialing =>
    have hstream : stream.FailsWith E := hcandidate.broken stream hdialing
    apply leads_bind (M := fun result s ↦ s.outbox = outbox ∧ result.2.link.FailsWith E)
    · apply leads_unlessStopped
      · apply Search.leads_lend
        intro s hs
        apply leads_attempt
        apply (job.failsOnly_meet hE outbox).mono
        · rintro _ rfl
          exact ⟨hstream, hs⟩
        · exact fun _ t ht ↦ ⟨ht.2, ht.1⟩
        · exact fun _ t ht ↦ ⟨ht.2.2, ht.2.1⟩
        · exact fun t ht ↦ ⟨trivial, ht.2, rfl⟩
      · exact fun _ hs ↦ ⟨hs, rfl⟩
    · rintro ⟨result, connection⟩
      cases result with
      | ok _ =>
        apply leads_pure
        rintro s ⟨hs, hconnection⟩
        refine ⟨hs, ?_⟩
        rintro _ ⟨⟩
        exact hconnection
      | error error =>
        apply leads_bind (M := fun _ s ↦ s.outbox = outbox)
        · exact leads_modify fun _ hs ↦ hs.1
        · exact fun _ ↦ leads_pure fun _ hs ↦ ⟨hs, by simp⟩

/-- The notices of a search that failed, and the reason for that: the candidates that were rejected,
and perhaps one that was being tried when the session was told to stop. -/
inductive Unselected (total : Nat) (order : List Candidate) : List Notice → Error → Prop where
  /-- Every candidate that was tried was rejected. -/
  | rejected {rejected : List (Candidate × Error)} {error : Error}
      (tried : rejected.map Prod.fst <+: order)
      (reason : error = .cancelled ∨ error = .noEligiblePeer (reasons rejected)) :
      Unselected total order (rejectionNotices total rejected) error
  /-- The last one was still being tried. -/
  | abandoned {rejected : List (Candidate × Error)} {candidate : Candidate}
      (tried : rejected.map Prod.fst ++ [candidate] <+: order) :
      Unselected total order
        (rejectionNotices total rejected ++ [.probing candidate.address candidate.index total])
        .cancelled

/-- The notices of a search that was successful: the candidates that were rejected, and the one that
was selected. -/
inductive Selected (total : Nat) (order : List Candidate) : List Notice → Prop where
  /-- The last candidate that was tried was selected. -/
  | selected {rejected : List (Candidate × Error)} {chosen : Candidate}
      (tried : rejected.map Prod.fst ++ [chosen] <+: order) :
      Selected total order (rejectionNotices total rejected ++
        [.probing chosen.address chosen.index total, .selected chosen.address])

/-- What an observer has been told when a search comes to its end. -/
def searched (E : Error → Prop) (total : Nat) (order : List Candidate) (base : Outbox) :
    Aftermath Search (Connection Framed) where
  done c s := c.link.FailsWith E ∧
    ∃ notices, Selected total order notices ∧ s.outbox = notices.foldl Outbox.post base
  failed error s :=
    ∃ notices, Unselected total order notices error ∧ s.outbox = notices.foldl Outbox.post base
  broken _ := True

/-- A search among candidates reports each of them in its turn. -/
theorem leads_selectAmong_reports (hE : CoversMeeting E) {rest : List Candidate}
    (hrest : ∀ candidate ∈ rest, candidate.dialing.FailsWith E)
    (rejected : List (Candidate × Error)) (horder : order = rejected.map Prod.fst ++ rest) :
    Leads (fun s ↦ s.outbox = (rejectionNotices total rejected).foldl Outbox.post base)
      (job.selectAmong start total (reasons rejected) rest) (searched E total order base) := by
  induction rest generalizing rejected with
  | nil =>
    have hprefix : rejected.map Prod.fst <+: order := ⟨[], horder.symm⟩
    apply leads_bind (M := fun _ s ↦
      s.outbox = (rejectionNotices total rejected).foldl Outbox.post base)
    · apply leads_unlessStopped
      · exact leads_pure fun _ hs ↦ hs
      · exact fun _ hs ↦ ⟨_, .rejected hprefix (.inl rfl), hs⟩
    · exact fun _ ↦ leads_fail fun _ hs ↦ ⟨_, .rejected hprefix (.inr rfl), hs⟩
  | cons candidate rest ih =>
    have hprefix : rejected.map Prod.fst <+: order := ⟨_, horder.symm⟩
    have htried : rejected.map Prod.fst ++ [candidate] <+: order :=
      ⟨rest, by rw [horder, List.append_assoc, List.singleton_append]⟩
    let probing : Notice := .probing candidate.address candidate.index total
    apply leads_bind (M := fun _ s ↦
      s.outbox = (rejectionNotices total rejected).foldl Outbox.post base)
    · apply leads_unlessStopped
      · have hdialed (indices : List Nat) (s : Search)
            (hs : s.outbox = (rejectionNotices total rejected).foldl Outbox.post base) :
            (s.noteDialed indices).outbox =
              (rejectionNotices total rejected).foldl Outbox.post base := hs
        apply (leads_awaitDialing hdialed start candidate).mono
        · exact fun _ hs ↦ hs
        · exact fun _ _ hs ↦ hs
        · exact fun _ _ hs ↦ hs.elim
        · exact fun _ hs ↦ ⟨trivial, _, .rejected hprefix (.inl rfl), hs⟩
      · exact fun _ hs ↦ ⟨_, .rejected hprefix (.inl rfl), hs⟩
    intro _
    apply leads_bind (M := fun _ s ↦
      s.outbox = (rejectionNotices total rejected ++ [probing]).foldl Outbox.post base)
    · apply leads_modify
      intro s hs
      rw [List.foldl_append, ← hs]
      rfl
    intro _
    apply leads_bind (M := fun result s ↦
      s.outbox = (rejectionNotices total rejected ++ [probing]).foldl Outbox.post base ∧
        ∀ c, result = .ok c → c.link.FailsWith E)
    · apply (leads_tryCandidate_reports hE (hrest candidate List.mem_cons_self)).mono
      · exact fun _ hs ↦ hs
      · exact fun _ _ hs ↦ hs
      · rintro error s ⟨hs, rfl⟩
        exact ⟨_, .abandoned htried, hs⟩
      · exact fun _ _ ↦ trivial
    intro result
    cases result with
    | ok connection =>
      apply leads_bind (M := fun _ s ↦ s.outbox = (rejectionNotices total rejected ++
        [probing, .selected candidate.address]).foldl Outbox.post base ∧
          connection.link.FailsWith E)
      · apply leads_modify
        rintro s ⟨hs, hconnection⟩
        refine ⟨?_, hconnection connection rfl⟩
        show s.outbox.post _ = _
        rw [hs, List.foldl_append, List.foldl_append]
        rfl
      · exact fun _ ↦ leads_pure fun _ hs ↦ ⟨hs.2, _, .selected htried, hs.1⟩
    | error error =>
      have hnext : Leads (fun s ↦
          s.outbox = (rejectionNotices total rejected ++ [probing]).foldl Outbox.post base ∧
            ∀ c, (.error error : Except Error (Connection Framed)) = .ok c → c.link.FailsWith E)
          (do
            Activity.modify (Search.post (.rejected candidate.address error.message))
            job.selectAmong start total (reasons rejected ++ [(candidate.address, error)]) rest)
          (searched E total order base) := by
        have hreasons : reasons rejected ++ [(candidate.address, error)] =
            reasons (rejected ++ [(candidate, error)]) := by
          rw [reasons, reasons, List.map_append]
          rfl
        have hnotices : rejectionNotices total (rejected ++ [(candidate, error)]) =
            rejectionNotices total rejected ++
              [probing, .rejected candidate.address error.message] := by
          rw [rejectionNotices, rejectionNotices, List.flatMap_append]
          rfl
        rw [hreasons]
        apply leads_bind (M := fun _ s ↦ s.outbox =
          (rejectionNotices total (rejected ++ [(candidate, error)])).foldl Outbox.post base)
        · apply leads_modify
          rintro s ⟨hs, -⟩
          show s.outbox.post _ = _
          rw [hs, hnotices, List.foldl_append, List.foldl_append]
          rfl
        · intro _
          apply ih (fun c hc ↦ hrest c (List.mem_cons_of_mem _ hc))
          rw [horder, List.map_append, List.append_assoc]
          rfl
      cases error with
      | cancelled => exact leads_fail fun _ hs ↦ ⟨_, .abandoned htried, hs.1⟩
      | _ => exact hnext

/-- Selecting a peer reports each candidate in its turn. -/
theorem leads_select_reports (hE : CoversMeeting E) {network : Network}
    (hnetwork : network.FailsWith E) (addresses : List Address) :
    Leads (fun s ↦ s.outbox = base) (job.select network addresses)
      (searched E addresses.length
        (network.candidates job.config.strategy job.config.connectTimeout addresses) base) := by
  have hcandidates : ∀ candidate ∈
      network.candidates job.config.strategy job.config.connectTimeout addresses,
      candidate.dialing.FailsWith E := by
    intro candidate hmem
    obtain ⟨index, address, rfl⟩ :=
      Network.exists_of_mem_inOrder ((network.candidates_perm _ _ _).mem_iff.mp hmem)
    exact (hnetwork index address).within hE.transport _
  have hrest : Leads (fun s ↦ s.outbox = base)
      (do
        let start ← Activity.now
        job.selectAmong start addresses.length []
          (network.candidates job.config.strategy job.config.connectTimeout addresses))
      (searched E addresses.length
        (network.candidates job.config.strategy job.config.connectTimeout addresses) base) := by
    apply leads_bind (M := fun _ s ↦ s.outbox = base)
    · exact leads_now fun _ _ hs ↦ hs
    · exact fun start ↦ leads_selectAmong_reports hE hcandidates [] rfl
  rw [select, selectFrom]
  split
  · apply leads_bind (M := fun _ s ↦ s.outbox = base)
    · exact leads_modify fun _ hs ↦ hs
    · exact fun _ ↦ hrest
  · exact hrest

/-! ### All of it -/

/-- The notices of a download and its result: candidates are tried until one is selected, pieces are
checked one after the other, and at last the result is told. -/
inductive Tells (job : Job) (total : Nat) (order : List Candidate) :
    List Notice → Ending (Bytes × Address) → Prop where
  /-- No candidate was selected, and the reason for that is told. -/
  | unselected {notices : List Notice} {error : Error}
      (search : Unselected total order notices error) :
      Tells job total order (notices ++ [.failed error.kind error.message]) (.failed error)
  /-- A candidate was selected and some pieces were checked, but something went wrong. If a piece
  does not have its digest, then those before it were checked. -/
  | broken {notices : List Notice} {count : Nat} {error : Error}
      (search : Selected total order notices) (count_le : count ≤ job.torrent.pieceCount)
      (mismatch : ∀ piece, error = .hashMismatch piece → count = piece) :
      Tells job total order
        (notices ++ job.torrent.verifiedNotices count ++ [.failed error.kind error.message])
        (.failed error)
  /-- A candidate was selected and all pieces were checked. -/
  | completed {notices : List Notice} {content : Bytes} {address : Address}
      (search : Selected total order notices) (elapsed : Duration)
      (length : content.length = job.torrent.totalLength) :
      Tells job total order
        (notices ++ job.torrent.verifiedNotices job.torrent.pieceCount ++
          [.completed job.torrent.totalLength elapsed])
        (.done (content, address))

/-- What an observer has been told before the result of a download. -/
def fetched (job : Job) (total : Nat) (order : List Candidate) (base : Outbox) :
    Aftermath Search (Bytes × Address) where
  done result s := result.1.length = job.torrent.totalLength ∧
    ∃ notices, Selected total order notices ∧ s.outbox =
      (notices ++ job.torrent.verifiedNotices job.torrent.pieceCount).foldl Outbox.post base
  failed error s :=
    ∃ notices, job.Tells total order (notices ++ [.failed error.kind error.message])
      (.failed error) ∧ s.outbox = notices.foldl Outbox.post base
  broken _ := True

/-- Fetching the file reports the search and then the pieces. -/
theorem leads_fetch_reports {network : Network} (hnetwork : network.FailsWith Error.NoMismatch)
    (addresses : List Address) :
    Leads (fun s ↦ s.outbox = base) (job.fetch network addresses)
      (job.fetched addresses.length
        (network.candidates job.config.strategy job.config.connectTimeout addresses) base) := by
  have hE : CoversMeeting Error.NoMismatch :=
    ⟨⟨nofun, nofun, nofun⟩, nofun, nofun, nofun, nofun, nofun⟩
  have hlink : LinkFailsOnly Error.NoMismatch (Framed.FailsWith Error.NoMismatch) :=
    Framed.linkFailsOnly hE.closed hE.malformed (fun _ ↦ hE.transport _) (hE.transport _)
  generalize horder :
    network.candidates job.config.strategy job.config.connectTimeout addresses = order
  apply leads_bind (M := (searched Error.NoMismatch addresses.length order base).done)
  · apply (leads_select_reports hE hnetwork addresses).mono
    · exact fun _ hs ↦ hs
    · exact fun _ _ hs ↦ horder ▸ hs
    · rintro error s ⟨notices, hunselected, hs⟩
      exact ⟨notices, .unselected (horder ▸ hunselected), hs⟩
    · exact fun _ _ ↦ trivial
  intro connection
  apply leads_of_forall
  rintro s ⟨hconnection, notices, hselected, hs⟩
  apply leads_bind (M := fun result s ↦ result.1.length = job.torrent.totalLength ∧
    s.outbox = (notices ++ job.torrent.verifiedNotices job.torrent.pieceCount).foldl
      Outbox.post base)
  · apply Search.leads_lend
    rintro _ rfl
    apply (leads_downloadFrom_reports hlink).mono
    · rintro _ rfl
      exact ⟨hconnection, hs⟩
    · rintro content t ⟨hlength, ht⟩
      rw [← List.foldl_append] at ht
      exact ⟨hlength, ht⟩
    · rintro error t ⟨count, hcount, ht, hmismatch⟩
      rw [← List.foldl_append] at ht
      exact ⟨_, .broken hselected hcount hmismatch, ht⟩
    · exact fun _ _ ↦ trivial
  · rintro ⟨content, connection⟩
    apply leads_bind (M := fun _ s ↦ content.length = job.torrent.totalLength ∧
      s.outbox = (notices ++ job.torrent.verifiedNotices job.torrent.pieceCount).foldl
        Outbox.post base)
    · exact leads_modify fun _ hs ↦ hs
    · exact fun _ ↦ leads_pure fun _ hs ↦ ⟨hs.1, notices, hselected, hs.2⟩

/-- A download tells its observer what became of the candidates, which pieces were checked, and at
last its result. -/
theorem exists_tells {network : Network} (hnetwork : network.FailsWith Error.NoMismatch)
    (addresses : List Address) (clock : Clock) (observer : Observer) :
    let o := job.download network addresses Scope.open clock (Search.start observer)
    ∃ notices, job.Tells addresses.length
        (network.candidates job.config.strategy job.config.connectTimeout addresses) notices
        o.ending ∧
      o.state.outbox = notices.foldl Outbox.post (Outbox.start observer) := by
  generalize horder :
    network.candidates job.config.strategy job.config.connectTimeout addresses = order
  have hdownload : Leads (fun s ↦ s.outbox = Outbox.start observer) (job.download network addresses)
      ⟨fun result s ↦ ∃ notices, job.Tells addresses.length order notices (.done result) ∧
          s.outbox = notices.foldl Outbox.post (Outbox.start observer),
        fun error s ↦ ∃ notices, job.Tells addresses.length order notices (.failed error) ∧
          s.outbox = notices.foldl Outbox.post (Outbox.start observer),
        fun _ ↦ True⟩ := by
    apply leads_bind (M := fun _ s ↦ s.outbox = Outbox.start observer)
    · exact leads_now fun _ _ hs ↦ hs
    intro start
    apply leads_bind (M := fun (result : Except Error (Bytes × Address)) s ↦ match result with
      | .ok result =>
        (job.fetched addresses.length order (Outbox.start observer)).done result s
      | .error error =>
        (job.fetched addresses.length order (Outbox.start observer)).failed error s)
    · apply leads_attempt
      exact horder ▸ leads_fetch_reports hnetwork addresses
    intro result
    cases result with
    | ok result =>
      apply leads_of_forall
      rintro s ⟨hlength, notices, hselected, hs⟩
      apply leads_bind (M := fun _ s' ↦ s' = s)
      · exact leads_now fun _ _ h ↦ h
      intro now
      apply leads_bind (M := fun _ s' ↦ ∃ notices,
        job.Tells addresses.length order notices (.done result) ∧
          s'.outbox = notices.foldl Outbox.post (Outbox.start observer))
      · apply leads_modify
        rintro _ rfl
        refine ⟨_, .completed hselected (.ofMillis (now - start)) hlength, ?_⟩
        rw [List.foldl_append, ← hs, ← hlength]
        rfl
      · exact fun _ ↦ leads_pure fun _ h ↦ h
    | error error =>
      apply leads_bind (M := fun _ s ↦ ∃ notices,
        job.Tells addresses.length order notices (.failed error) ∧
          s.outbox = notices.foldl Outbox.post (Outbox.start observer))
      · apply leads_modify
        rintro s ⟨notices, htells, hs⟩
        refine ⟨_, htells, ?_⟩
        rw [List.foldl_append, ← hs]
        rfl
      · exact fun _ ↦ leads_fail fun _ h ↦ h
  intro o
  have hholds := hdownload Scope.open clock (Search.start observer) rfl
  obtain ⟨result, hending⟩ | ⟨error, hending⟩ :=
    job.download_returns network addresses clock (Search.start observer)
  · simp only [Aftermath.Holds, hending] at hholds
    exact hending ▸ hholds
  · simp only [Aftermath.Holds, hending] at hholds
    exact hending ▸ hholds

/-- Whatever becomes of the candidates and whenever the session is told to stop, a download returns,
and an observer who has room for everything is told how each candidate fared in its turn, which
pieces were checked one after the other, and at last what the download returns. -/
theorem tells_of_download (job : Job) {network : Network}
    (hnetwork : network.FailsWith Error.NoMismatch) (addresses : List Address) (clock : Clock) :
    let o := job.download network addresses Scope.open clock (Search.start .unbounded)
    job.Tells addresses.length
      (network.candidates job.config.strategy job.config.connectTimeout addresses)
      o.state.outbox.waiting o.ending := by
  intro o
  obtain ⟨notices, htells, houtbox⟩ := exists_tells hnetwork addresses clock .unbounded
  have hwaiting : o.state.outbox.waiting = notices := by
    rw [houtbox, Outbox.waiting_foldl_post_unbounded]
  exact hwaiting ▸ htells

/-- Among four peers of different kinds two are rejected, the third one is selected, both pieces are
checked, and the download is complete. -/
theorem tells_of_download_mixedPeers :
    let o := threeBytes.download mixedPeers fourAddresses Scope.open Clock.zero
      (Search.start .unbounded)
    threeBytes.Tells 4 (mixedPeers.candidates .sequential 5000 fourAddresses)
        o.state.outbox.waiting o.ending ∧
      o.state.outbox.waiting.drop 6 =
        [.verified 0 2 3, .verified 1 3 3, .completed 3 (.ofMillis 5)] := by
  intro o
  exact ⟨threeBytes.tells_of_download (failsWith_mixedPeers nofun) fourAddresses Clock.zero,
    by decide +kernel⟩

end Job

end PeerWire
