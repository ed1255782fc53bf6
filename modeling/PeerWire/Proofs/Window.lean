import PeerWire.Proofs.FileOrder
import PeerWire.Window

/-!
# What a window does to the order of the blocks

A window is seen as the outstanding requests followed by the blocks to be asked for. Asking moves
blocks from the second part to the end of the first, an accepted block leaves at the front, and
voiding moves the border back. Main statement: after any calls the accepted blocks, the outstanding
ones, those to be asked for again and those never asked for are the blocks of the file, in order.
-/

namespace PeerWire

namespace Window

/-- The blocks that were not accepted yet, in the order in which they are to be accepted. -/
def due (w : Window) : List Block := w.inFlight ++ w.pending

/-- There are as many blocks due as are outstanding or still to be asked for. -/
theorem length_due (w : Window) : w.due.length = w.outstanding + w.unrequested := by
  rw [due, List.length_append, length_pending, outstanding]

/-- A window is drained exactly when nothing is due. -/
theorem isDrained_iff {w : Window} : w.isDrained = true ↔ w.due = [] := by
  rw [← List.length_eq_zero_iff, length_due, isDrained, Bool.and_eq_true, beq_iff_eq, beq_iff_eq]
  omega

/-- Without a next block nothing is to be asked for. -/
theorem pending_of_nextBlock?_eq_none {w : Window} (h : w.nextBlock? = none) : w.pending = [] := by
  rw [nextBlock?] at h
  split at h
  · cases h
  · next hrequeued =>
    rw [Option.map_eq_none_iff] at h
    rw [pending, hrequeued, Blocks.toList_of_next?_eq_none h, List.append_nil]

/-- Taking the next block leaves all but the blocks to be asked for. -/
theorem others_of_nextBlock? {w rest : Window} {block : Block}
    (h : w.nextBlock? = some (block, rest)) :
    rest.depth = w.depth ∧ rest.inFlight = w.inFlight ∧ rest.voided = w.voided := by
  rw [nextBlock?] at h
  split at h
  · cases h
    exact ⟨rfl, rfl, rfl⟩
  · obtain ⟨_, _, heq⟩ := Option.map_eq_some_iff.mp h
    cases heq
    exact ⟨rfl, rfl, rfl⟩

/-- One window after some blocks of another were asked for, which were the first to be. -/
structure Asked (before : Window) (blocks : List Block) (after : Window) : Prop where
  /-- The bound on the requests stays. -/
  depth : after.depth = before.depth
  /-- The late answers that are tolerated stay. -/
  voided : after.voided = before.voided
  /-- The blocks are outstanding, behind those that were. -/
  inFlight : after.inFlight = before.inFlight ++ blocks
  /-- They were the first to be asked for. -/
  pending : before.pending = blocks ++ after.pending

/-- Asking for nothing changes nothing. -/
theorem Asked.refl (w : Window) : Asked w [] w :=
  ⟨rfl, rfl, (List.append_nil _).symm, rfl⟩

/-- Blocks are asked for one after the other. -/
theorem Asked.trans {u v w : Window} {blocks others : List Block} (huv : Asked u blocks v)
    (hvw : Asked v others w) : Asked u (blocks ++ others) w where
  depth := hvw.depth.trans huv.depth
  voided := hvw.voided.trans huv.voided
  inFlight := by rw [hvw.inFlight, huv.inFlight, List.append_assoc]
  pending := by rw [huv.pending, hvw.pending, List.append_assoc]

/-- Asking leaves the same blocks due in the same order. -/
theorem Asked.due {before after : Window} {blocks : List Block} (h : Asked before blocks after) :
    after.due = before.due := by
  rw [Window.due, Window.due, h.inFlight, h.pending, List.append_assoc]

/-- One call asks for the first of the blocks to be asked for, if there is one. -/
theorem asked_ask (w : Window) :
    Asked w w.ask.1.toList w.ask.2 ∧ w.ask.1 = w.pending.head? := by
  cases hnext : w.nextBlock? with
  | none =>
    have hask : w.ask = (none, w) := by rw [ask, hnext]
    rw [hask, pending_of_nextBlock?_eq_none hnext]
    exact ⟨Asked.refl w, rfl⟩
  | some result =>
    obtain ⟨block, rest⟩ := result
    have hask : w.ask = (some block, { rest with inFlight := rest.inFlight ++ [block] }) := by
      rw [ask, hnext]
    obtain ⟨hdepth, hflight, hvoided⟩ := others_of_nextBlock? hnext
    have hpending := pending_of_nextBlock? hnext
    rw [hask, hpending]
    refine ⟨⟨hdepth, hvoided, ?_, hpending⟩, rfl⟩
    simp only [hflight, Option.toList_some]

/-- Asking up to a number of times asks for so many blocks, or for all. -/
theorem asked_askUpTo (n : Nat) (w : Window) :
    Asked w (askUpTo n w).1 (askUpTo n w).2 ∧ (askUpTo n w).1 = w.pending.take n := by
  induction n generalizing w with
  | zero => exact ⟨Asked.refl w, rfl⟩
  | succ n ih =>
    obtain ⟨hasked, hhead⟩ := asked_ask w
    rw [askUpTo]
    split
    · next rest hask =>
      rw [hask] at hasked hhead
      have hnone : w.pending = [] := List.head?_eq_none_iff.mp hhead.symm
      exact ⟨hasked, by rw [hnone, List.take_nil]⟩
    · next block rest hask =>
      rw [hask] at hasked
      obtain ⟨hmore, htake⟩ := ih rest
      refine ⟨hasked.trans hmore, ?_⟩
      have hpending : w.pending = block :: rest.pending := hasked.pending
      rw [hpending, List.take_succ_cons, ← htake]

/-- Filling asks for as many blocks as there is room for. -/
theorem asked_fill (w : Window) :
    Asked w w.fill.1 w.fill.2 ∧ w.fill.1 = w.pending.take (w.depth - w.inFlight.length) :=
  asked_askUpTo _ w

/-- What an arrived block did to a window. -/
inductive Arrived (w : Window) (block : Block) : Except Violation (Arrival × Window) → Prop where
  /-- It answered the oldest request, in whose place the first block to be asked for was asked
  for. -/
  | accepted {rest : List Block} {after : Window} (oldest : w.inFlight = block :: rest)
      (asked : Asked { w with inFlight := rest } w.pending.head?.toList after) :
      Arrived w block (.ok (.accepted w.pending.head?, after))
  /-- It did not, and answered a void request. -/
  | stale {voided : Tally} (other : w.inFlight.head? ≠ some block)
      (taken : w.voided.take? block = some voided) :
      Arrived w block (.ok (.stale, { w with voided := voided }))
  /-- It did neither. -/
  | refused {violation : Violation} (other : w.inFlight.head? ≠ some block)
      (untaken : w.voided.take? block = none) : Arrived w block (.error violation)

/-- An arrived block is accepted, stale or refused. -/
theorem arrived (w : Window) (block : Block) : Arrived w block (w.arrive block) := by
  by_cases holdest : w.inFlight.head? = some block
  · obtain ⟨rest, hflight⟩ := List.head?_eq_some_iff.mp holdest
    obtain ⟨hasked, hhead⟩ := asked_ask { w with inFlight := rest }
    have hfirst : (ask { w with inFlight := rest }).1 = w.pending.head? := hhead
    rw [arrive_of_oldest hflight, hfirst]
    exact .accepted hflight (hfirst ▸ hasked)
  · rw [arrive_of_other holdest]
    cases htake : w.voided.take? block with
    | some voided => exact .stale holdest htake
    | none => exact .refused holdest htake

/-- An accepted block is the first one due, and leaves the others due. -/
theorem due_of_accepted {w after : Window} {block : Block} {backfill : Option Block}
    (h : w.arrive block = .ok (.accepted backfill, after)) : w.due = block :: after.due := by
  have harrived := arrived w block
  rw [h] at harrived
  cases harrived with
  | accepted oldest asked =>
    rw [asked.due, due, oldest]
    rfl

/-- A late answer leaves all but what is tolerated. -/
theorem due_of_stale {w after : Window} {block : Block}
    (h : w.arrive block = .ok (.stale, after)) : after.due = w.due ∧
      after.inFlight = w.inFlight ∧ after.depth = w.depth := by
  have harrived := arrived w block
  rw [h] at harrived
  cases harrived with
  | stale other taken => exact ⟨rfl, rfl, rfl⟩

/-- Voiding leaves the same blocks due in the same order. -/
theorem due_void (w : Window) : w.void.due = w.due := by
  rw [due, pending_void]
  rfl

/-! ### Histories -/

/-- One call on a window. -/
inductive Call where
  /-- It is filled. -/
  | fill
  /-- A block arrives. -/
  | arrive (block : Block)
  /-- Its outstanding requests become void. -/
  | void
deriving DecidableEq, Repr

/-- A window and what has become of its requests. -/
structure History where
  /-- The window. -/
  window : Window
  /-- The blocks that were asked for, in order. -/
  asked : List Block
  /-- The blocks that were accepted, in order. -/
  accepted : List Block
  /-- The blocks that came late, in order. -/
  late : List Block
deriving DecidableEq, Repr

namespace History

/-- A window of which nothing has happened. -/
def start (window : Window) : History := ⟨window, [], [], []⟩

/-- Receives a block, and goes on with the window as it is left, whatever became of the block. -/
def arrive (block : Block) (h : History) : History :=
  match h.window.receive block with
  | (.ok (.accepted backfill), window) =>
    { h with
      window := window
      asked := h.asked ++ backfill.toList
      accepted := h.accepted ++ [block] }
  | (.ok .stale, window) => { h with window := window, late := h.late ++ [block] }
  | (.error _, window) => { h with window := window }

/-- Carries out a call. -/
def perform (h : History) : Call → History
  | .fill => { h with window := h.window.fill.2, asked := h.asked ++ h.window.fill.1 }
  | .arrive block => h.arrive block
  | .void => { h with window := h.window.void }

/-- Carries out calls one after the other. -/
def run (h : History) (calls : List Call) : History := calls.foldl perform h

/-- The accepted blocks and those that are due. -/
def sequence (h : History) : List Block := h.accepted ++ h.window.due

/-- No more requests are outstanding than may be. -/
def Bounded (h : History) : Prop := h.window.inFlight.length ≤ h.window.depth

/-- A block that is refused changes nothing. -/
theorem arrive_eq (h : History) (block : Block) :
    h.arrive block =
      match h.window.arrive block with
      | .ok (.accepted backfill, window) =>
        { h with
          window := window
          asked := h.asked ++ backfill.toList
          accepted := h.accepted ++ [block] }
      | .ok (.stale, window) => { h with window := window, late := h.late ++ [block] }
      | .error _ => h := by
  rw [arrive, receive_eq]
  cases h.window.arrive block with
  | error violation => rfl
  | ok result =>
    obtain ⟨arrival, after⟩ := result
    cases arrival <;> rfl

/-- An arrived block leaves the sequence as it is. -/
theorem sequence_arrive (h : History) (block : Block) : (h.arrive block).sequence = h.sequence := by
  rw [arrive_eq]
  split
  · next backfill window harrive =>
    rw [sequence, sequence, due_of_accepted harrive, List.append_assoc]
    rfl
  · next window harrive => rw [sequence, sequence, (due_of_stale harrive).1]
  · rfl

/-- A call leaves the sequence as it is. -/
theorem sequence_perform (h : History) (call : Call) : (h.perform call).sequence = h.sequence := by
  cases call with
  | fill => rw [perform, sequence, sequence, (asked_fill h.window).1.due]
  | arrive block => exact sequence_arrive h block
  | void => rw [perform, sequence, sequence, due_void]

/-- Calls leave the sequence as it is. -/
theorem sequence_run (h : History) (calls : List Call) : (h.run calls).sequence = h.sequence := by
  induction calls generalizing h with
  | nil => rfl
  | cons call calls ih => exact (ih (h.perform call)).trans (sequence_perform h call)

/-- A call leaves the bound on the requests as it is. -/
theorem depth_perform (h : History) (call : Call) :
    (h.perform call).window.depth = h.window.depth := by
  cases call with
  | fill => exact (asked_fill h.window).1.depth
  | arrive block =>
    have harrived := arrived h.window block
    rw [perform, arrive_eq]
    cases hresult : h.window.arrive block with
    | error violation => rfl
    | ok result =>
      rw [hresult] at harrived
      cases harrived with
      | accepted oldest asked => exact asked.depth
      | stale other taken => rfl
  | void => rfl

/-- A call does not exceed the bound on the requests. -/
theorem Bounded.perform {h : History} (hbounded : h.Bounded) (call : Call) :
    (h.perform call).Bounded := by
  rw [Bounded, depth_perform]
  rw [Bounded] at hbounded
  cases call with
  | fill =>
    obtain ⟨hasked, htake⟩ := asked_fill h.window
    have hlength := congrArg List.length htake
    rw [List.length_take] at hlength
    rw [History.perform, hasked.inFlight, List.length_append]
    omega
  | arrive block =>
    have harrived := arrived h.window block
    rw [History.perform, arrive_eq]
    cases hresult : h.window.arrive block with
    | error violation => exact hbounded
    | ok result =>
      rw [hresult] at harrived
      cases harrived with
      | accepted oldest asked =>
        have hone : h.window.pending.head?.toList.length ≤ 1 := by
          cases h.window.pending.head? <;> simp
        rw [oldest, List.length_cons] at hbounded
        simp only [asked.inFlight, List.length_append]
        omega
      | stale other taken => exact hbounded
  | void => exact Nat.zero_le _

/-- Calls leave the bound on the requests as it is, and do not exceed it. -/
theorem Bounded.run {h : History} (hbounded : h.Bounded) (calls : List Call) :
    (h.run calls).Bounded ∧ (h.run calls).window.depth = h.window.depth := by
  induction calls generalizing h with
  | nil => exact ⟨hbounded, rfl⟩
  | cons call calls ih =>
    obtain ⟨hrest, hdepth⟩ := ih (hbounded.perform call)
    exact ⟨hrest, hdepth.trans (depth_perform h call)⟩

/-- At the start every block of the file is due. -/
theorem sequence_start (torrent : Torrent) (blockSize depth : Nat) :
    (start (Window.start (Blocks.ofTorrent torrent blockSize) depth)).sequence =
      torrent.blocks blockSize := Blocks.toList_ofTorrent

end History

/-- The front part of the file's blocks is all of them exactly when it has each of them once. -/
theorem eq_nil_iff_count {torrent : Torrent} {blockSize : Nat} {front rest : List Block}
    (h : front ++ rest = torrent.blocks blockSize) :
    rest = [] ↔ ∀ block ∈ torrent.blocks blockSize, front.count block = 1 := by
  have hnodup : (front ++ rest).Nodup := h ▸ Torrent.nodup_blocks
  constructor
  · rintro rfl block hblock
    rw [List.append_nil] at h hnodup
    exact List.count_eq_one_of_mem hnodup (h ▸ hblock)
  · intro hcount
    apply List.eq_nil_iff_forall_not_mem.mpr
    intro block hrest
    have hmem : block ∈ torrent.blocks blockSize := h ▸ List.mem_append_right front hrest
    have hfront : block ∈ front := List.count_pos_iff.mp (by rw [hcount block hmem]; omega)
    exact List.disjoint_of_nodup_append hnodup hfront hrest

/-- After any calls on a window over a file, the accepted blocks, the outstanding ones, those to be
asked for again and those never asked for are the blocks of the file in order. No more requests are
outstanding than may be, the two numbers that a window tells add up to the blocks not accepted, and
it is drained exactly when every block was accepted once. -/
theorem accepted_append_due (torrent : Torrent) (blockSize depth : Nat) (calls : List Call) :
    let h := (History.start (start (Blocks.ofTorrent torrent blockSize) depth)).run calls
    h.accepted ++ h.window.inFlight ++ h.window.requeued ++ h.window.fresh.toList =
        torrent.blocks blockSize ∧
      h.window.inFlight.length ≤ max depth 1 ∧
      h.window.outstanding + h.window.unrequested + h.accepted.length =
        (torrent.blocks blockSize).length ∧
      (h.window.isDrained = true ↔
        ∀ block ∈ torrent.blocks blockSize, h.accepted.count block = 1) := by
  intro h
  have hsequence : h.accepted ++ h.window.due = torrent.blocks blockSize :=
    (History.sequence_run _ calls).trans (History.sequence_start torrent blockSize depth)
  obtain ⟨hbounded, hdepth⟩ := History.Bounded.run (h := History.start
    (start (Blocks.ofTorrent torrent blockSize) depth)) (Nat.zero_le _) calls
  refine ⟨?_, Nat.le_trans hbounded (Nat.le_of_eq hdepth), ?_, ?_⟩
  · rw [← hsequence, due, pending, List.append_assoc, List.append_assoc]
  · rw [← hsequence, List.length_append, length_due]
    omega
  · rw [isDrained_iff]
    exact eq_nil_iff_count hsequence

end Window

end PeerWire
