import PeerWire.Proofs.Integrity
import PeerWire.Proofs.Window

/-!
# A window that is kept full

A window is full when as many requests are outstanding as may be, or all the blocks that are due.
Filling makes it full, and an arrived block keeps it so: the place of an answered request is taken
by the next block to be asked for, or there is none. Main statement: over a file, from a fill up to
the next time that its requests become void, the two numbers that a window tells follow from how
many blocks were accepted; and a fill asks for void requests first.
-/

namespace PeerWire

namespace Window

variable {w after : Window} {block : Block}

/-- As many requests are outstanding as may be, or all the blocks that are due. -/
def IsFull (w : Window) : Prop := w.inFlight.length = min w.depth w.due.length

/-- In a full window no more requests are outstanding than may be. -/
theorem IsFull.length_le (h : w.IsFull) : w.inFlight.length ≤ w.depth := by
  rw [h]
  exact Nat.min_le_left _ _

/-- Filling makes a window full. -/
theorem isFull_fill (h : w.inFlight.length ≤ w.depth) : w.fill.2.IsFull := by
  obtain ⟨hasked, htake⟩ := asked_fill w
  rw [IsFull, hasked.due, hasked.depth, hasked.inFlight, htake, due, List.length_append,
    List.length_append, List.length_take]
  omega

/-- An arrived block keeps a window full. -/
theorem IsFull.arrive (h : w.IsFull) {arrival : Arrival}
    (harrive : w.arrive block = .ok (arrival, after)) : after.IsFull := by
  have harrived := arrived w block
  rw [harrive] at harrived
  cases harrived with
  | @accepted rest _ oldest asked =>
    have hdue : after.due = rest ++ w.pending := asked.due
    have hdepth : after.depth = w.depth := asked.depth
    have hflight : after.inFlight = rest ++ w.pending.head?.toList := asked.inFlight
    rw [IsFull, due, oldest] at h
    rw [IsFull, hdue, hdepth, hflight]
    -- the request that is gone is replaced, or there is none left to replace it
    cases hpending : w.pending with
    | nil =>
      rw [hpending] at h
      simp only [List.length_append, List.length_cons, List.length_nil, List.head?_nil,
        Option.toList_none] at h ⊢
      omega
    | cons next others =>
      rw [hpending] at h
      simp only [List.length_append, List.length_cons, List.length_nil, List.head?_cons,
        Option.toList_some] at h ⊢
      omega
  | stale _ _ => exact h

/-- Without a block to be asked for, asking changes nothing. -/
theorem askUpTo_of_pending_eq_nil (n : Nat) (h : w.pending = []) : askUpTo n w = ([], w) := by
  cases n with
  | zero => rfl
  | succ n =>
    have hnext : w.nextBlock? = none := by
      cases hnext : w.nextBlock? with
      | none => rfl
      | some result =>
        rw [pending_of_nextBlock? hnext] at h
        cases h
    rw [askUpTo, ask, hnext]

/-- Filling a full window asks for nothing, and changes nothing. -/
theorem IsFull.fill_eq (h : w.IsFull) : w.fill = ([], w) := by
  rw [IsFull, due, List.length_append] at h
  rw [fill]
  -- a full window has no block left to be asked for, or no room
  by_cases hpending : w.pending = []
  · exact askUpTo_of_pending_eq_nil _ hpending
  · have hpos := List.length_pos_iff.mpr hpending
    have hroom : w.depth - w.inFlight.length = 0 := by omega
    rw [hroom]
    rfl

/-- In the place of an answered request another block is asked for exactly when one was left. -/
theorem isSome_backfill_iff {backfill : Option Block}
    (h : w.arrive block = .ok (.accepted backfill, after)) :
    backfill.isSome = true ↔ 0 < w.unrequested := by
  have harrived := arrived w block
  rw [h] at harrived
  cases harrived with
  | accepted _ _ => rw [List.isSome_head?, ← length_pending, List.length_pos_iff]

/-! ### Histories -/

namespace History

variable {h : History} {calls : List Call}

/-- A call that does not make requests void keeps a window full. -/
theorem isFull_perform (hfull : h.window.IsFull) {call : Call} (hcall : call ≠ .void) :
    (h.perform call).window.IsFull := by
  cases call with
  | fill => exact isFull_fill hfull.length_le
  | arrive block =>
    rw [perform, arrive_eq]
    split
    · next harrive => exact hfull.arrive harrive
    · next harrive => exact hfull.arrive harrive
    · exact hfull
  | void => exact absurd rfl hcall

/-- As long as no request becomes void a window stays full. -/
theorem isFull_run (hfull : h.window.IsFull) (hcalls : .void ∉ calls) :
    (h.run calls).window.IsFull := by
  induction calls generalizing h with
  | nil => exact hfull
  | cons call calls ih =>
    obtain ⟨hne, hrest⟩ := List.ne_and_not_mem_of_not_mem_cons hcalls
    exact ih (isFull_perform hfull (Ne.symm hne)) hrest

/-- While nothing is outstanding, all calls but a fill leave what is still to be asked for. -/
theorem pending_run_of_idle (hidle : h.window.inFlight = []) (hcalls : .fill ∉ calls) :
    (h.run calls).window.inFlight = [] ∧ (h.run calls).window.pending = h.window.pending := by
  induction calls generalizing h with
  | nil => exact ⟨hidle, rfl⟩
  | cons call calls ih =>
    obtain ⟨hne, hrest⟩ := List.ne_and_not_mem_of_not_mem_cons hcalls
    have hstep : (h.perform call).window.inFlight = [] ∧
        (h.perform call).window.pending = h.window.pending := by
      cases call with
      | fill => exact absurd rfl hne
      | arrive block =>
        have harrived := arrived h.window block
        rw [perform, arrive_eq]
        cases hresult : h.window.arrive block with
        | error violation => exact ⟨hidle, rfl⟩
        | ok result =>
          rw [hresult] at harrived
          cases harrived with
          | accepted oldest _ =>
            rw [hidle] at oldest
            cases oldest
          | stale _ _ => exact ⟨hidle, rfl⟩
      | void =>
        refine ⟨rfl, ?_⟩
        rw [perform, pending_void, hidle]
        rfl
    obtain ⟨hflight, hpending⟩ := ih hstep.1 hrest
    exact ⟨hflight, hpending.trans hstep.2⟩

/-- Calls behind others are carried out on what those left. -/
theorem run_append (h : History) (calls others : List Call) :
    h.run (calls ++ others) = (h.run calls).run others := List.foldl_append

end History

/-- Take a window over a file and any calls on it. If it is then filled, and no request becomes void
in what follows, as many requests are outstanding as may be, or as blocks were not accepted; all
other blocks that were not accepted are still to be asked for, and another fill does nothing. An
accepted block has another one asked for exactly if one is left. And if the requests become void
instead, the next fill asks for their blocks, in their order, and where there is more room, first
for other blocks that are to be asked for again and then for those never asked for. -/
theorem keeps_full (torrent : Torrent) (blockSize depth : Nat) (calls : List Call) :
    let start := History.start (start (Blocks.ofTorrent torrent blockSize) depth)
    let w := (start.run calls).window
    (∀ later, .void ∉ later →
      let h := start.run (calls ++ .fill :: later)
      let missing := (torrent.blocks blockSize).length - h.accepted.length
      h.window.outstanding = min (max depth 1) missing ∧
        h.window.unrequested = missing - h.window.outstanding ∧
        h.window.fill = ([], h.window)) ∧
      (∀ block backfill after, w.arrive block = .ok (.accepted backfill, after) →
        (backfill.isSome = true ↔ 0 < w.unrequested)) ∧
      ∀ between, .fill ∉ between →
        (start.run (calls ++ .void :: between)).window.fill.1 =
          w.inFlight ++ (w.requeued ++ w.fresh.toList).take (max depth 1 - w.outstanding) := by
  intro start w
  have hstart : start.Bounded := Nat.zero_le _
  obtain ⟨hbounded, hdepth⟩ := hstart.run calls
  refine ⟨?_, fun block backfill after ↦ isSome_backfill_iff, ?_⟩
  · intro later hlater h missing
    have hrun : h = ((start.run calls).perform .fill).run later := History.run_append _ _ _
    have hfull : h.window.IsFull := by
      rw [hrun]
      exact History.isFull_run (isFull_fill hbounded) hlater
    have hlengths : h.accepted.length + h.window.due.length =
        (torrent.blocks blockSize).length := by
      rw [← History.sequence_start torrent blockSize depth, ← List.length_append]
      exact congrArg List.length (History.sequence_run start _)
    have hsame : h.window.depth = max depth 1 := (hstart.run _).2
    have houtstanding : h.window.outstanding = min h.window.depth h.window.due.length := hfull
    rw [length_due] at hlengths houtstanding
    rw [hsame] at houtstanding
    exact ⟨by omega, by omega, hfull.fill_eq⟩
  · intro between hbetween
    have hrun : start.run (calls ++ .void :: between) =
        ((start.run calls).perform .void).run between := History.run_append _ _ _
    obtain ⟨hflight, hpending⟩ :=
      History.pending_run_of_idle (h := (start.run calls).perform .void) rfl hbetween
    have hsame : (start.run (calls ++ .void :: between)).window.depth = max depth 1 :=
      (hstart.run _).2
    have hle : w.inFlight.length ≤ max depth 1 := Nat.le_trans hbounded (Nat.le_of_eq hdepth)
    rw [(asked_fill _).2, hsame, hrun, hflight, hpending, History.perform, pending_void,
      List.length_nil, Nat.sub_zero, List.take_append, List.take_of_length_le hle]
    rfl

/-- Two of the three bytes are outstanding after a fill, also when the first has come and something
else was refused; then all of them were asked for. If both requests become void and the answer to
the first comes late, that one is asked for again, and then the second. -/
theorem keeps_full_threeBytes :
    let start := History.start (start (Blocks.ofTorrent Job.threeBytes.torrent 1) 2)
    let h := start.run [.fill, .arrive ⟨0, 0, 1⟩, .arrive ⟨7, 0, 1⟩]
    h.window.outstanding = 2 ∧ h.window.unrequested = 0 ∧ h.window.fill = ([], h.window) ∧
      (start.run [.fill, .void, .arrive ⟨0, 0, 1⟩]).window.fill.1 = [⟨0, 0, 1⟩, ⟨0, 1, 1⟩] := by
  obtain ⟨hfull, -, -⟩ := keeps_full Job.threeBytes.torrent 1 2 []
  obtain ⟨houtstanding, hunrequested, hfill⟩ :=
    hfull [.arrive ⟨0, 0, 1⟩, .arrive ⟨7, 0, 1⟩] (by decide)
  obtain ⟨-, -, hvoid⟩ := keeps_full Job.threeBytes.torrent 1 2 [.fill]
  exact ⟨houtstanding, hunrequested, hfill, hvoid [.arrive ⟨0, 0, 1⟩] (by decide)⟩

end Window

end PeerWire
