import PeerWire.Proofs.Ledger
import PeerWire.Proofs.Progress

/-!
# Downloads that tolerate more

Nothing that a download does with a message depends on how many late answers it tolerates, but
whether an answer to no outstanding request is passed over or refused. Main statement: where a
download goes on with a message, one that tolerates more and is the same otherwise goes on too,
asks for the same blocks and gives the same notice, and remains the same but for what it tolerates.
-/

namespace PeerWire

namespace Window

variable (voided : Tally) (w : Window)

/-- The window with another tally of the late answers that are tolerated. -/
def tolerating : Window := { w with voided := voided }

/-- What is tolerated does not matter for the next block to ask for. -/
theorem nextBlock?_tolerating :
    (w.tolerating voided).nextBlock? =
      w.nextBlock?.map fun (block, rest) ↦ (block, rest.tolerating voided) := by
  obtain ⟨depth, fresh, requeued, inFlight, _⟩ := w
  simp only [nextBlock?, tolerating]
  cases requeued with
  | nil => cases fresh.next? <;> rfl
  | cons block rest => rfl

/-- What is tolerated does not matter for asking. -/
theorem ask_tolerating :
    (w.tolerating voided).ask = (w.ask.1, w.ask.2.tolerating voided) := by
  rw [ask, ask, nextBlock?_tolerating]
  cases w.nextBlock? <;> rfl

/-- What is tolerated does not matter for asking for several blocks. -/
theorem askUpTo_tolerating (n : Nat) :
    askUpTo n (w.tolerating voided) = ((askUpTo n w).1, (askUpTo n w).2.tolerating voided) := by
  induction n generalizing w with
  | zero => rfl
  | succ n ih =>
    rw [askUpTo, askUpTo, ask_tolerating]
    obtain ⟨_ | block, rest⟩ := w.ask
    · rfl
    · simp only [ih]

/-- What is tolerated does not matter for filling the window. -/
theorem fill_tolerating :
    (w.tolerating voided).fill = (w.fill.1, w.fill.2.tolerating voided) :=
  askUpTo_tolerating voided w _

/-- What is tolerated does not matter for the answer to the oldest request. -/
theorem arrive_tolerating {block : Block} {backfill : Option Block} {after : Window}
    (h : w.arrive block = .ok (.accepted backfill, after)) :
    (w.tolerating voided).arrive block = .ok (.accepted backfill, after.tolerating voided) := by
  have holdest := arrive_accepted_iff.mp ⟨_, _, h⟩
  obtain ⟨depth, fresh, requeued, inFlight, tally⟩ := w
  obtain ⟨rest, rfl⟩ : ∃ rest, inFlight = block :: rest := List.head?_eq_some_iff.mp holdest
  rw [arrive_of_oldest rfl] at h
  cases h
  have hask := ask_tolerating voided ⟨depth, fresh, requeued, rest, tally⟩
  rw [arrive_of_oldest rfl]
  simp only [tolerating] at hask ⊢
  rw [hask]

end Window

namespace Transfer

/-- The download with another tally of the late answers that are tolerated. -/
def tolerating (voided : Tally) (t : Transfer) : Transfer :=
  { t with window := t.window.tolerating voided }

variable {hash : Bytes → Digest}

/-- What is tolerated does not matter for putting blocks together and checking pieces. -/
theorem append_tolerating (voided : Tally) (fragment : Fragment) (t : Transfer) :
    append hash fragment (t.tolerating voided) =
      (append hash fragment t).map fun (next, notice) ↦ (next.tolerating voided, notice) := by
  have hsame : (t.tolerating voided).assembly = t.assembly := rfl
  rw [append, append, hsame]
  cases t.assembly.append fragment with
  | error violation => rfl
  | ok result =>
    obtain ⟨_ | piece, assembly⟩ := result
    · rfl
    · simp only [check]
      split <;> rfl

/-- A download tolerates at least the late answers that another one does, and is the same as that
one otherwise. -/
structure Laxer (t t' : Transfer) : Prop where
  /-- What the other one tolerates is kept in order. -/
  tidy : t.window.voided.Tidy
  /-- What it tolerates is kept in order. -/
  tidy_laxer : t'.window.voided.Tidy
  /-- It tolerates what the other one does. -/
  count_le : ∀ block, t.window.voided.count block ≤ t'.window.voided.count block
  /-- It is the same otherwise. -/
  eq_tolerating : t' = t.tolerating t'.window.voided

/-- A laxer download follows a reaction with which the other one goes on: it asks for the same
blocks, gives the same notice, and remains laxer. -/
def Follows (reaction : Reaction) (next : Transfer) (notice : Option Notice)
    (reaction' : Reaction) : Prop :=
  ∃ next', reaction' = ⟨reaction.requests, .ok (next', notice)⟩ ∧ Laxer next next'

namespace Laxer

variable {t t' : Transfer}

/-- A download tolerates what it tolerates. -/
theorem refl (h : t.window.voided.Tidy) : Laxer t t := ⟨h, h, fun _ ↦ Nat.le_refl _, rfl⟩

/-- A download that tolerates the same as before is followed by one that does. -/
theorem withVoided (h : Laxer t t') {next : Transfer}
    (hvoided : next.window.voided = t.window.voided) :
    Laxer next (next.tolerating t'.window.voided) where
  tidy := hvoided ▸ h.tidy
  tidy_laxer := h.tidy_laxer
  count_le := hvoided ▸ h.count_le
  eq_tolerating := rfl

/-- A laxer download is complete when the other one is. -/
theorem isComplete_eq (h : Laxer t t') : t'.isComplete = t.isComplete := by
  rw [h.eq_tolerating]
  rfl

/-- A laxer download has the same content. -/
theorem content_eq (h : Laxer t t') : t'.content = t.content := by
  rw [h.eq_tolerating]
  rfl

/-- A laxer download has the same requests outstanding. -/
theorem inFlight_eq (h : Laxer t t') : t'.window.inFlight = t.window.inFlight := by
  rw [h.eq_tolerating]
  rfl

/-- A download tolerates less than before after it has passed over a late answer. -/
theorem ofLate (h : Laxer t t') {block : Block} {after : Window}
    (hlate : t.window.arrive block = .ok (.stale, after)) :
    Laxer { t with window := after } t' := by
  have harrived := Window.arrived t.window block
  rw [hlate] at harrived
  cases harrived with
  | @stale voided other taken =>
    refine ⟨h.tidy.take taken, h.tidy_laxer, fun other ↦ ?_, h.eq_tolerating⟩
    calc voided.count other ≤ t.window.voided.count other := by
          rw [h.tidy.count_take taken other]
          exact Nat.le_add_right _ _
      _ ≤ t'.window.voided.count other := h.count_le other

/-- A laxer download passes over the late answers that the other one does. -/
theorem late (h : Laxer t t') {block : Block} {after : Window}
    (hlate : t.window.arrive block = .ok (.stale, after)) :
    ∃ after', t'.window.arrive block = .ok (.stale, after') ∧
      Laxer { t with window := after } { t' with window := after' } := by
  obtain ⟨hother, hcount⟩ := (Window.arrive_stale_iff h.tidy).mp ⟨after, hlate⟩
  obtain ⟨after', hlate'⟩ := (Window.arrive_stale_iff h.tidy_laxer).mpr
    ⟨h.inFlight_eq ▸ hother, Nat.lt_of_lt_of_le hcount (h.count_le block)⟩
  refine ⟨after', hlate', ?_⟩
  have harrived := Window.arrived t.window block
  have harrived' := Window.arrived t'.window block
  rw [hlate] at harrived
  rw [hlate'] at harrived'
  cases harrived with
  | @stale voided _ taken =>
    cases harrived' with
    | @stale voided' _ taken' =>
      refine ⟨h.tidy.take taken, h.tidy_laxer.take taken', fun other ↦ ?_, ?_⟩
      · have hle := h.count_le other
        rw [h.tidy.count_take taken other, h.tidy_laxer.count_take taken' other] at hle
        exact Nat.le_of_add_le_add_right hle
      · rw [h.eq_tolerating]
        rfl

/-- A laxer download follows the reaction to a delivered block. -/
theorem deliver (h : Laxer t t') {fragment : Fragment} {next : Transfer} {notice : Option Notice}
    (hverdict : (Transfer.deliver hash fragment t).verdict = .ok (next, notice)) :
    Follows (Transfer.deliver hash fragment t) next notice
      (Transfer.deliver hash fragment t') := by
  cases harrive : t.window.arrive fragment.block with
  | error violation =>
    simp only [Transfer.deliver, harrive] at hverdict
    cases hverdict
  | ok result =>
    obtain ⟨arrival, after⟩ := result
    cases arrival with
    | stale =>
      obtain ⟨after', harrive', hlaxer⟩ := h.late harrive
      simp only [Transfer.deliver, harrive, harrive'] at hverdict ⊢
      cases hverdict
      exact ⟨_, rfl, hlaxer⟩
    | accepted backfill =>
      have hvoided : after.voided = t.window.voided := by
        have harrived := Window.arrived t.window fragment.block
        rw [harrive] at harrived
        cases harrived with
        | accepted oldest asked => exact asked.voided
      have harrive' : t'.window.arrive fragment.block =
          .ok (.accepted backfill, after.tolerating t'.window.voided) := by
        rw [h.eq_tolerating]
        exact Window.arrive_tolerating _ _ harrive
      simp only [Transfer.deliver, harrive, harrive'] at hverdict ⊢
      have happend : Transfer.append hash fragment
          { t' with window := after.tolerating t'.window.voided } =
            .ok (next.tolerating t'.window.voided, notice) := by
        have hsame : ({ t' with window := after.tolerating t'.window.voided } : Transfer) =
            Transfer.tolerating t'.window.voided { t with window := after } := by
          rw [h.eq_tolerating]
          rfl
        rw [hsame, append_tolerating, hverdict]
        rfl
      rw [happend]
      refine ⟨_, rfl, h.withVoided ?_⟩
      rw [window_of_append hverdict, hvoided]

/-- A laxer download follows when the window is filled. -/
theorem fill (h : Laxer t t') :
    Follows t.fill { t with window := t.window.fill.2 } none t'.fill := by
  have hfill : t'.window.fill =
      (t.window.fill.1, t.window.fill.2.tolerating t'.window.voided) := by
    rw [h.eq_tolerating]
    exact Window.fill_tolerating _ _
  refine ⟨_, ?_, h.withVoided (Window.asked_fill t.window).1.voided⟩
  simp only [Transfer.fill, hfill]
  rw [h.eq_tolerating]
  rfl

/-- Where a download goes on with a message, a laxer one follows. -/
theorem react (h : Laxer t t') {incoming : Incoming} {next : Transfer} {notice : Option Notice}
    (hverdict : (t.react hash incoming).verdict = .ok (next, notice)) :
    Follows (t.react hash incoming) next notice (t'.react hash incoming) := by
  cases incoming with
  | block fragment => exact h.deliver hverdict
  | choked =>
    cases hverdict
    refine ⟨_, rfl, h.tidy.addAll _, h.tidy_laxer.addAll _, fun block ↦ ?_, ?_⟩
    · simp only [Window.void, Tally.count_addAll, h.inFlight_eq]
      exact Nat.add_le_add_right (h.count_le block) _
    · rw [h.eq_tolerating]
      rfl
  | unchoked =>
    cases hverdict
    exact h.fill
  | announced piece =>
    cases hverdict
    exact ⟨_, rfl, h⟩
  | consumed =>
    cases hverdict
    exact ⟨_, rfl, h⟩

end Laxer

end Transfer

end PeerWire
