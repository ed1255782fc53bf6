import PeerWire.Proofs.Accounts
import PeerWire.Proofs.Failures

/-!
# The account of a download

The window knows what is outstanding, and the peer's record knows whether there is leave. Read off
the log, the one is the account of the requests, and without the other nothing is outstanding. Main
statement: with every message a download of which this holds asks for blocks of the file only, for
no more than there is room for and only while there is leave, and when these requests are sent the
same holds again.
-/

namespace PeerWire

/-- Whether the peer withholds leave after a message. -/
def Incoming.choking (before : Bool) : Incoming → Bool
  | .choked => true
  | .unchoked => false
  | _ => before

/-- What a message makes of an account. -/
def Account.hear (a : Account) : Incoming → Account
  | .choked => a.void
  | .block fragment => a.answer fragment.block
  | _ => a

/-- Requests that are sent one after the other are outstanding in this order. -/
theorem Account.foldl_ask (a : Account) (blocks : List Block) :
    blocks.foldl ask a = { a with outstanding := a.outstanding ++ blocks } := by
  induction blocks generalizing a with
  | nil => simp
  | cons block blocks ih =>
    rw [List.foldl_cons, ih]
    simp [ask]

/-- What a message means is what it makes of the account and of the leave. -/
theorem Peer.heard_of_apply {peer after : Peer} {message : Message} {incoming : Incoming}
    (h : peer.apply message = .ok (incoming, after)) :
    after.choking = incoming.choking peer.choking ∧
      (∀ a : Account, a.note (.came message) = a.hear incoming) ∧
      ∀ before, (!Traffic.leave before (.came message)) = incoming.choking !before := by
  cases message with
  | announce piece =>
    rw [apply_announce] at h
    split at h
    · cases h
    · cases h
      exact ⟨rfl, fun _ ↦ rfl, fun _ ↦ rfl⟩
  | bitfield field =>
    rw [apply_bitfield] at h
    split at h
    · cases h
      exact ⟨rfl, fun _ ↦ rfl, fun _ ↦ rfl⟩
    · split at h
      · cases h
      · cases h
        exact ⟨rfl, fun _ ↦ rfl, fun _ ↦ rfl⟩
  | _ =>
    cases h
    exact ⟨rfl, fun _ ↦ rfl, fun _ ↦ rfl⟩

/-- A message that makes no sense changes neither the account nor the leave. -/
theorem Peer.unheard_of_apply {peer : Peer} {message : Message} {error : Error}
    (h : peer.apply message = .error error) :
    (∀ a : Account, a.note (.came message) = a) ∧
      ∀ before, Traffic.leave before (.came message) = before := by
  cases message with
  | announce piece => exact ⟨fun _ ↦ rfl, fun _ ↦ rfl⟩
  | bitfield field => exact ⟨fun _ ↦ rfl, fun _ ↦ rfl⟩
  | _ => cases h

namespace Job

/-- The blocks of the file, as the window walks through them. -/
def blocks (job : Job) : List Block :=
  (Blocks.ofTorrent job.torrent job.config.blockLength).toList

/-- The account and the leave are those of a download. -/
structure Tallies (job : Job) (a : Account) (choking : Bool) (t : Transfer) : Prop where
  /-- What the window has outstanding is. -/
  outstanding : t.window.inFlight = a.outstanding
  /-- What was answered and what is due are the blocks of the file. -/
  answered : a.answered ++ t.window.due = job.blocks
  /-- Without leave nothing is outstanding. -/
  choked : choking = true → t.window.inFlight = []
  /-- The window is as wide as it should be. -/
  depth : t.window.depth = max job.config.queueDepth 1
  /-- It is not exceeded. -/
  bounded : t.window.inFlight.length ≤ t.window.depth
  /-- Everything that the download keeps about bytes is a part of some text. -/
  onCourse : job.OnCourse t

/-- A reaction may be carried out with an account and a leave. -/
structure Allows (job : Job) (a : Account) (choking : Bool) (reaction : Reaction) : Prop where
  /-- It asks for blocks of the file. -/
  blocks : ∀ block ∈ reaction.requests, block ∈ job.blocks
  /-- There is room for them. -/
  bounded : a.outstanding.length + reaction.requests.length ≤ max job.config.queueDepth 1
  /-- There is leave to ask for them. -/
  leave : reaction.requests ≠ [] → choking = false
  /-- Where the download goes on the account is its account. -/
  goesOn : ∀ next notice, reaction.verdict = .ok (next, notice) →
    job.Tallies (reaction.requests.foldl Account.ask a) choking next

variable {job : Job} {a : Account} {choking : Bool} {t : Transfer}

/-- At the start nothing was asked for. -/
theorem tallies_start (job : Job) (choking : Bool) :
    job.Tallies Account.start choking
      (Transfer.start job.torrent job.config.blockLength job.config.queueDepth) where
  outstanding := rfl
  answered := rfl
  choked _ := rfl
  depth := rfl
  bounded := Nat.zero_le _
  onCourse := ⟨[], Transfer.progress_start _ _ _ _⟩

/-- What is to be asked for is among the blocks of the file. -/
theorem Tallies.mem_blocks (h : job.Tallies a choking t) {block : Block}
    (hblock : block ∈ t.window.pending) : block ∈ job.blocks := by
  rw [← h.answered, Window.due]
  exact List.mem_append_right _ (List.mem_append_right _ hblock)

/-- A reaction without requests may be carried out if the download stays as the account says. -/
theorem allows_of_nil {verdict : Except Error (Transfer × Option Notice)}
    (hbounded : a.outstanding.length ≤ max job.config.queueDepth 1)
    (hgoesOn : ∀ next notice, verdict = .ok (next, notice) → job.Tallies a choking next) :
    job.Allows a choking ⟨[], verdict⟩ where
  blocks := nofun
  bounded := hbounded
  leave h := absurd rfl h
  goesOn := hgoesOn

/-- Being choked may be reacted to: nothing is outstanding any more. -/
theorem Tallies.allows_choked (h : job.Tallies a choking t) :
    job.Allows a.void true (t.react job.hash .choked) := by
  apply allows_of_nil (Nat.zero_le _)
  rintro _ _ ⟨⟩
  obtain ⟨text, hprogress⟩ := h.onCourse
  exact {
    outstanding := rfl
    answered := by rw [Window.due_void]; exact h.answered
    choked := fun _ ↦ rfl
    depth := h.depth
    bounded := Nat.zero_le _
    onCourse := ⟨text, hprogress.withWindow (Window.due_void t.window)⟩ }

/-- Being given leave may be reacted to: the window is filled. -/
theorem Tallies.allows_unchoked (h : job.Tallies a choking t) :
    job.Allows a false (t.react job.hash .unchoked) := by
  obtain ⟨hasked, htake⟩ := Window.asked_fill t.window
  have hlength : a.outstanding.length + t.window.fill.1.length ≤ t.window.depth := by
    have hbounded := h.bounded
    have hfill := congrArg List.length htake
    rw [List.length_take] at hfill
    rw [← h.outstanding]
    omega
  constructor
  · intro block hblock
    have hmem : block ∈ t.window.fill.1 := hblock
    rw [htake] at hmem
    exact h.mem_blocks (List.mem_of_mem_take hmem)
  · rw [← h.depth]
    exact hlength
  · exact fun _ ↦ rfl
  · rintro _ _ ⟨⟩
    obtain ⟨text, hprogress⟩ := h.onCourse
    rw [Account.foldl_ask]
    exact {
      outstanding := by rw [hasked.inFlight, h.outstanding]; rfl
      answered := by rw [hasked.due]; exact h.answered
      choked := nofun
      depth := hasked.depth.trans h.depth
      bounded := by
        rw [hasked.inFlight, hasked.depth, h.outstanding, List.length_append]
        exact hlength
      onCourse := ⟨text, hprogress.withWindow hasked.due⟩ }

/-- A delivered block may be reacted to: if it answers the oldest request, there was leave to send
that, and another request takes its place. -/
theorem Tallies.allows_block (h : job.Tallies a choking t) (fragment : Fragment) :
    job.Allows (a.answer fragment.block) choking (t.react job.hash (.block fragment)) := by
  have hbounded : a.outstanding.length ≤ max job.config.queueDepth 1 := by
    rw [← h.outstanding, ← h.depth]
    exact h.bounded
  have hunanswered (hother : t.window.inFlight.head? ≠ some fragment.block) :
      a.answer fragment.block = a := by
    apply Account.answer_of_ne
    rw [← h.outstanding]
    exact hother
  have harrived := t.window.arrived fragment.block
  simp only [Transfer.react, Transfer.deliver]
  cases harrive : t.window.arrive fragment.block with
  | error violation =>
    rw [harrive] at harrived
    cases harrived with
    | refused hother huntaken =>
      rw [hunanswered hother]
      exact allows_of_nil hbounded (by simp)
  | ok result =>
    rw [harrive] at harrived
    cases harrived with
    | stale hother htaken =>
      rw [hunanswered hother]
      apply allows_of_nil hbounded
      rintro _ _ ⟨⟩
      obtain ⟨text, hprogress⟩ := h.onCourse
      exact ⟨h.outstanding, h.answered, h.choked, h.depth, h.bounded,
        ⟨text, hprogress.withWindow rfl⟩⟩
    | @accepted rest window holdest hasked =>
      have houtstanding : a.outstanding = fragment.block :: rest := by
        rw [← h.outstanding, holdest]
      have hleave : choking = false := by
        rw [Bool.eq_false_iff]
        intro hchoking
        rw [h.choked hchoking] at holdest
        cases holdest
      have hroom : rest.length + t.window.pending.head?.toList.length ≤
          max job.config.queueDepth 1 := by
        have hone : t.window.pending.head?.toList.length ≤ 1 := by
          cases t.window.pending.head? <;> simp
        rw [houtstanding, List.length_cons] at hbounded
        omega
      have hdue := Window.due_of_accepted harrive
      rw [Account.answer_of_eq houtstanding]
      constructor
      · intro block hblock
        exact h.mem_blocks (List.mem_of_mem_head? (Option.mem_toList.mp hblock))
      · exact hroom
      · exact fun _ ↦ hleave
      · intro next notice hverdict
        obtain ⟨text, hprogress⟩ := h.onCourse
        have htaken := hprogress.append hdue
        have happend : Transfer.append job.hash fragment { t with window := window } =
            .ok (next, notice) := hverdict
        rw [happend] at htaken
        cases htaken with
        | kept hwindow hafter =>
          have hanswered := h.answered
          rw [hdue] at hanswered
          rw [Account.foldl_ask]
          exact {
            outstanding := by rw [hwindow, hasked.inFlight]
            answered := by rw [hwindow, ← hanswered, List.append_assoc]; rfl
            choked := by simp [hleave]
            depth := by rw [hwindow, hasked.depth, h.depth]
            bounded := by
              rw [hwindow, hasked.inFlight, hasked.depth, h.depth, List.length_append]
              exact hroom
            onCourse := ⟨_, hafter⟩ }

/-- Every message may be reacted to. -/
theorem Tallies.allows (h : job.Tallies a choking t) (incoming : Incoming) :
    job.Allows (a.hear incoming) (incoming.choking choking) (t.react job.hash incoming) := by
  have hbounded : a.outstanding.length ≤ max job.config.queueDepth 1 := by
    rw [← h.outstanding, ← h.depth]
    exact h.bounded
  cases incoming with
  | block fragment => exact h.allows_block fragment
  | choked => exact h.allows_choked
  | unchoked => exact h.allows_unchoked
  | announced piece =>
    apply allows_of_nil hbounded
    rintro _ _ ⟨⟩
    exact h
  | consumed =>
    apply allows_of_nil hbounded
    rintro _ _ ⟨⟩
    exact h

/-- A complete download has every block of the file answered and nothing outstanding. -/
theorem Tallies.answered_of_isComplete (h : job.Tallies a choking t)
    (hcomplete : t.isComplete = true) : a.answered = job.blocks ∧ a.outstanding = [] := by
  obtain ⟨text, hprogress⟩ := h.onCourse
  obtain ⟨-, -, hdue⟩ := hprogress.content_of_index_eq (hprogress.isComplete_iff.mp hcomplete)
  have hanswered := h.answered
  rw [hdue, List.append_nil] at hanswered
  rw [Window.due, List.append_eq_nil_iff] at hdue
  exact ⟨hanswered, h.outstanding ▸ hdue.1⟩

end Job

end PeerWire
