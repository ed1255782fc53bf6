import PeerWire.Proofs.Window

/-!
# What became of each request

Every request that is sent can be answered once: in time, which is when it is the oldest one, or
late, after it became void. The ledger of a window says of each block how often it was asked for
and what became of that. Main statement: after any calls each block was asked for as often as it
was accepted, came late, is outstanding and is still tolerated, and this decides what becomes of it
when it arrives next.
-/

namespace PeerWire

namespace Tally

/-- Each block has at most one entry, and no entry says that nothing is tolerated. -/
structure Tidy (tally : Tally) : Prop where
  /-- The blocks are distinct. -/
  nodup : (tally.entries.map Prod.fst).Nodup
  /-- The numbers are positive. -/
  pos : ∀ entry ∈ tally.entries, 0 < entry.2

/-- The tally of nothing is tidy. -/
theorem tidy_empty : empty.Tidy where
  nodup := List.nodup_nil
  pos := by simp [empty]

/-- Adding keeps the blocks that have an entry, and puts a block without one at the end. -/
theorem keys_addTo (block : Block) (entries : List (Block × Nat)) :
    (addTo block entries).map Prod.fst =
      if block ∈ entries.map Prod.fst then entries.map Prod.fst
      else entries.map Prod.fst ++ [block] := by
  induction entries with
  | nil => simp [addTo]
  | cons entry rest ih =>
    obtain ⟨other, n⟩ := entry
    by_cases h : other = block
    · simp [addTo, h]
    · simp only [addTo, if_neg h, List.map_cons, ih, List.mem_cons, Ne.symm h, false_or]
      split <;> rfl

/-- Adding writes nothing but positive numbers. -/
theorem mem_or_pos_of_mem_addTo {block : Block} {entries : List (Block × Nat)}
    {entry : Block × Nat} (h : entry ∈ addTo block entries) : entry ∈ entries ∨ 0 < entry.2 := by
  induction entries with
  | nil =>
    right
    simp_all [addTo]
  | cons first rest ih =>
    obtain ⟨other, n⟩ := first
    by_cases hother : other = block
    · simp only [addTo, if_pos hother, List.mem_cons] at h ⊢
      rcases h with rfl | h
      · exact .inr (Nat.succ_pos n)
      · exact .inl (.inr h)
    · simp only [addTo, if_neg hother, List.mem_cons] at h ⊢
      rcases h with h | h
      · exact .inl (.inl h)
      · exact (ih h).imp_left .inr

/-- Adding to a tidy tally leaves it tidy. -/
theorem Tidy.add {tally : Tally} (h : tally.Tidy) (block : Block) : (tally.add block).Tidy where
  nodup := by
    show ((addTo block tally.entries).map Prod.fst).Nodup
    rw [keys_addTo]
    split
    · exact h.nodup
    · next hnew =>
      rw [← List.concat_eq_append]
      exact h.nodup.concat hnew
  pos entry hentry := (mem_or_pos_of_mem_addTo hentry).elim (h.pos entry) id

/-- Adding blocks to a tidy tally leaves it tidy. -/
theorem Tidy.addAll {tally : Tally} (h : tally.Tidy) (blocks : List Block) :
    (tally.addAll blocks).Tidy := by
  induction blocks generalizing tally with
  | nil => exact h
  | cons block blocks ih => exact ih (h.add block)

/-- Taking from a tidy tally leaves it tidy. -/
theorem Tidy.take {tally rest : Tally} {block : Block} (h : tally.Tidy)
    (htake : tally.take? block = some rest) : rest.Tidy := by
  obtain ⟨left, hleft, rfl⟩ := Option.map_eq_some_iff.mp htake
  obtain ⟨before, n, after, hentries, -, rfl⟩ := exists_of_takeFrom? hleft
  have hnodup := h.nodup
  have hpos := h.pos
  rw [hentries] at hnodup hpos
  by_cases hone : n = 1
  · rw [if_pos hone]
    constructor
    · refine List.Nodup.sublist ?_ hnodup
      simp
    · intro entry hentry
      apply hpos
      simp only [List.mem_append, List.mem_cons] at hentry ⊢
      exact hentry.imp_right .inr
  · rw [if_neg hone]
    constructor
    · simpa using hnodup
    · intro entry hentry
      simp only [List.mem_append, List.mem_cons] at hentry
      rcases hentry with hentry | rfl | hentry
      · exact hpos entry (by simp [hentry])
      · have : 0 < n := hpos (block, n) (by simp)
        show 0 < n - 1
        omega
      · exact hpos entry (by simp [hentry])

/-- Taking from a tidy tally counts one less for the block and none for others. -/
theorem Tidy.count_take {tally rest : Tally} {block : Block} (h : tally.Tidy)
    (htake : tally.take? block = some rest) (other : Block) :
    tally.count other = rest.count other + [block].count other := by
  by_cases hother : other = block
  · subst hother
    obtain ⟨left, hleft, rfl⟩ := Option.map_eq_some_iff.mp htake
    obtain ⟨before, n, after, hentries, hbefore, rfl⟩ := exists_of_takeFrom? hleft
    have hpos : 0 < n := h.pos (other, n) (by simp [hentries])
    have hafter : other ∉ after.map Prod.fst := by
      have hnodup := h.nodup
      rw [hentries, List.map_append, List.map_cons, List.nodup_append] at hnodup
      exact (List.nodup_cons.mp hnodup.2.1).1
    simp only [count, hentries, List.lookup_append, lookup_eq_none_of_not_mem hbefore,
      List.count_singleton_self]
    by_cases hone : n = 1
    · simp [hone, lookup_eq_none_of_not_mem hafter]
    · simp [hone]
      omega
  · have hcount : [block].count other = 0 := List.count_eq_zero.mpr (by simpa using hother)
    rw [count_take?_of_ne htake hother, hcount, Nat.add_zero]

/-- Nothing can be taken from a tidy tally exactly for a block that does not count. -/
theorem Tidy.take?_eq_none_iff_count {tally : Tally} (h : tally.Tidy) {block : Block} :
    tally.take? block = none ↔ tally.count block = 0 := by
  constructor
  · exact count_of_take?_eq_none
  · intro hcount
    cases htake : tally.take? block with
    | none => rfl
    | some rest =>
      have := h.count_take htake block
      rw [List.count_singleton_self] at this
      omega

end Tally

namespace Window

/-- A block that answers no request and is not tolerated is refused. -/
theorem arrive_of_untaken {w : Window} {block : Block} (hother : w.inFlight.head? ≠ some block)
    (huntaken : w.voided.take? block = none) : w.arrive block = .error (w.refusal block) := by
  rw [arrive_of_other hother, huntaken]

/-- A block is accepted exactly when it answers the oldest request. -/
theorem arrive_accepted_iff {w : Window} {block : Block} :
    (∃ backfill after, w.arrive block = .ok (.accepted backfill, after)) ↔
      w.inFlight.head? = some block := by
  have harrived := arrived w block
  constructor
  · rintro ⟨backfill, after, hresult⟩
    rw [hresult] at harrived
    cases harrived with
    | accepted oldest asked => rw [oldest, List.head?_cons]
  · intro holdest
    generalize w.arrive block = result at harrived
    cases harrived with
    | accepted oldest asked => exact ⟨_, _, rfl⟩
    | stale other taken => exact absurd holdest other
    | refused other untaken => exact absurd holdest other

/-- A block is late exactly when it does not answer the oldest request, but a void one that is still
tolerated. -/
theorem arrive_stale_iff {w : Window} (htidy : w.voided.Tidy) {block : Block} :
    (∃ after, w.arrive block = .ok (.stale, after)) ↔
      w.inFlight.head? ≠ some block ∧ 0 < w.voided.count block := by
  have harrived := arrived w block
  constructor
  · rintro ⟨after, hresult⟩
    rw [hresult] at harrived
    cases harrived with
    | stale other taken =>
      have hcount := htidy.count_take taken block
      rw [List.count_singleton_self] at hcount
      exact ⟨other, by omega⟩
  · rintro ⟨hother, hcount⟩
    generalize w.arrive block = result at harrived
    cases harrived with
    | accepted oldest asked => exact absurd (by rw [oldest, List.head?_cons]) hother
    | stale other taken => exact ⟨_, rfl⟩
    | refused other untaken =>
      have := htidy.take?_eq_none_iff_count.mp untaken
      omega

/-- A block is refused exactly when it answers neither. -/
theorem arrive_refused_iff {w : Window} (htidy : w.voided.Tidy) {block : Block} :
    w.arrive block = .error (w.refusal block) ↔
      w.inFlight.head? ≠ some block ∧ w.voided.count block = 0 := by
  constructor
  · intro hresult
    have harrived := arrived w block
    rw [hresult] at harrived
    cases harrived with
    | refused other untaken => exact ⟨other, htidy.take?_eq_none_iff_count.mp untaken⟩
  · rintro ⟨hother, hcount⟩
    exact arrive_of_untaken hother (htidy.take?_eq_none_iff_count.mpr hcount)

namespace History

/-- Every request that was sent was answered in time or late, is outstanding, or is void and may
still be answered. -/
structure Balanced (h : History) : Prop where
  /-- What is tolerated is kept in order. -/
  tidy : h.window.voided.Tidy
  /-- Each block was asked for as often as something became of it. -/
  asked : ∀ block, h.asked.count block = h.accepted.count block + h.late.count block +
    h.window.inFlight.count block + h.window.voided.count block

/-- At the start nothing was asked for. -/
theorem balanced_start (fresh : Blocks) (depth : Nat) :
    (start (Window.start fresh depth)).Balanced where
  tidy := Tally.tidy_empty
  asked _ := rfl

/-- An arrived block keeps the balance. -/
theorem Balanced.arrive {h : History} (hbalanced : h.Balanced) (block : Block) :
    (h.arrive block).Balanced := by
  have harrived := arrived h.window block
  rw [History.arrive_eq]
  generalize h.window.arrive block = result at harrived ⊢
  cases harrived with
  | accepted oldest asked =>
    constructor
    · rw [asked.voided]
      exact hbalanced.tidy
    · intro other
      have := hbalanced.asked other
      simp only [asked.voided, asked.inFlight, oldest, List.count_append, List.count_cons,
        List.count_nil] at this ⊢
      omega
  | stale other taken =>
    refine ⟨hbalanced.tidy.take taken, fun b ↦ ?_⟩
    have hasked := hbalanced.asked b
    have hcount := hbalanced.tidy.count_take taken b
    simp only [List.count_append]
    omega
  | refused other untaken => exact hbalanced

/-- A call keeps the balance. -/
theorem Balanced.perform {h : History} (hbalanced : h.Balanced) (call : Call) :
    (h.perform call).Balanced := by
  cases call with
  | fill =>
    obtain ⟨hasked, -⟩ := asked_fill h.window
    constructor
    · show h.window.fill.2.voided.Tidy
      rw [hasked.voided]
      exact hbalanced.tidy
    · intro block
      have := hbalanced.asked block
      simp only [History.perform, hasked.voided, hasked.inFlight, List.count_append]
      omega
  | arrive block => exact hbalanced.arrive block
  | void =>
    refine ⟨hbalanced.tidy.addAll _, fun block ↦ ?_⟩
    have := hbalanced.asked block
    simp only [History.perform, Window.void, Tally.count_addAll, List.count_nil]
    omega

/-- Calls keep the balance. -/
theorem Balanced.run {h : History} (hbalanced : h.Balanced) (calls : List Call) :
    (h.run calls).Balanced := by
  induction calls generalizing h with
  | nil => exact hbalanced
  | cons call calls ih => exact ih (hbalanced.perform call)

/-- A block that is refused changes nothing. -/
theorem perform_arrive_of_error {h : History} {block : Block} {violation : Violation}
    (herror : h.window.arrive block = .error violation) : h.perform (.arrive block) = h := by
  rw [perform, arrive_eq, herror]

end History

/-- After any calls on a window over a file, each block was asked for as often as it was accepted,
came late, is outstanding and is still tolerated, and it was accepted at most once. When it arrives
next, it is accepted if it answers the oldest request; else it is late if it is still tolerated;
else it is refused, and nothing changes. -/
theorem count_asked (torrent : Torrent) (blockSize depth : Nat) (calls : List Call)
    (block : Block) :
    let h := (History.start (start (Blocks.ofTorrent torrent blockSize) depth)).run calls
    h.asked.count block = h.accepted.count block + h.late.count block +
        (if block ∈ h.window.inFlight then 1 else 0) + h.window.voided.count block ∧
      h.accepted.count block ≤ 1 ∧
      (∀ entry ∈ h.window.voided.entries, entry.2 ≠ 0) ∧
      ((∃ backfill after, h.window.arrive block = .ok (.accepted backfill, after)) ↔
        h.window.inFlight.head? = some block) ∧
      ((∃ after, h.window.arrive block = .ok (.stale, after)) ↔
        h.window.inFlight.head? ≠ some block ∧ 0 < h.window.voided.count block) ∧
      (h.window.arrive block = .error (h.window.refusal block) ∧ h.perform (.arrive block) = h ↔
        h.window.inFlight.head? ≠ some block ∧ h.window.voided.count block = 0) := by
  intro h
  have hbalanced : h.Balanced := (History.balanced_start _ depth).run calls
  -- the accepted, outstanding and pending blocks are always those of the file, in its order
  have hnodup : (h.accepted ++ (h.window.inFlight ++ h.window.pending)).Nodup := by
    have hsequence : h.sequence = torrent.blocks blockSize :=
      (History.sequence_run _ calls).trans (History.sequence_start torrent blockSize depth)
    show h.sequence.Nodup
    rw [hsequence]
    exact Torrent.nodup_blocks
  have hflight : h.window.inFlight.Nodup := hnodup.of_append_right.of_append_left
  refine ⟨?_, ?_, ?_, arrive_accepted_iff, arrive_stale_iff hbalanced.tidy, ?_⟩
  · rw [hbalanced.asked block, hflight.count]
  · exact List.nodup_iff_count_le_one.mp hnodup.of_append_left block
  · intro entry hentry
    exact Nat.ne_of_gt (hbalanced.tidy.pos entry hentry)
  · rw [← arrive_refused_iff hbalanced.tidy]
    exact ⟨And.left, fun hrefused ↦ ⟨hrefused, History.perform_arrive_of_error hrefused⟩⟩

end Window

end PeerWire
