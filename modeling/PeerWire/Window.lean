import PeerWire.Blocks
import PeerWire.Error

/-!
# The window of outstanding requests

A bounded number of blocks is asked for at a time, and blocks come back in the order in which they
were asked for. When the peer withdraws its leave, every outstanding request is void: its block is
asked for again, before any block not asked for yet, and one late answer to it is tolerated. Main
statements: adding to a tally and taking from it count as they should; there are as many blocks to
be asked for as are counted, the next one is the first of them, and voiding puts the outstanding
ones, in their order, before all others; a block that is refused leaves the window as it is.
-/

namespace PeerWire

/-- How many late answers to each block are still to be tolerated. -/
structure Tally where
  /-- The blocks, each with its number. -/
  entries : List (Block × Nat)
deriving DecidableEq, Repr

namespace Tally

/-- The tally of nothing. -/
def empty : Tally := ⟨[]⟩

/-- The number kept for a block. -/
def count (tally : Tally) (block : Block) : Nat := (tally.entries.lookup block).getD 0

/-- Entries with one more for a block. -/
def addTo (block : Block) : List (Block × Nat) → List (Block × Nat)
  | [] => [(block, 1)]
  | (other, n) :: rest =>
    if other = block then (other, n + 1) :: rest else (other, n) :: addTo block rest

/-- Entries with one less for a block, which goes when none is left; nothing without an entry. -/
def takeFrom? (block : Block) : List (Block × Nat) → Option (List (Block × Nat))
  | [] => none
  | (other, n) :: rest =>
    if other = block then some (if n = 1 then rest else (other, n - 1) :: rest)
    else (takeFrom? block rest).map ((other, n) :: ·)

/-- One more for a block. -/
def add (tally : Tally) (block : Block) : Tally := ⟨addTo block tally.entries⟩

/-- One less for a block, or nothing if there is none. -/
def take? (tally : Tally) (block : Block) : Option Tally :=
  (takeFrom? block tally.entries).map Tally.mk

/-- One more for each of some blocks. -/
def addAll (tally : Tally) (blocks : List Block) : Tally := blocks.foldl add tally

/-- Adding counts one more for the block and none for others. -/
theorem count_add (tally : Tally) (block other : Block) :
    (tally.add block).count other = tally.count other + if other = block then 1 else 0 := by
  obtain ⟨entries⟩ := tally
  simp only [count, add]
  induction entries with
  | nil =>
    by_cases h : other = block
    · simp [addTo, h]
    · simp [addTo, List.lookup_cons, beq_false_of_ne h, h]
  | cons entry rest ih =>
    obtain ⟨b, n⟩ := entry
    rw [addTo]
    split
    · next hb =>
      subst hb
      by_cases h : other = b
      · simp [h]
      · simp [List.lookup_cons, beq_false_of_ne h, h]
    · next hb =>
      by_cases h : other = b
      · subst h
        simp [hb]
      · simp [List.lookup_cons, beq_false_of_ne h, ih]

/-- Nothing can be taken exactly for a block without an entry. -/
theorem take?_eq_none_iff {tally : Tally} {block : Block} :
    tally.take? block = none ↔ ∀ n, (block, n) ∉ tally.entries := by
  obtain ⟨entries⟩ := tally
  simp only [take?, Option.map_eq_none_iff]
  induction entries with
  | nil => simp [takeFrom?]
  | cons entry rest ih =>
    obtain ⟨b, n⟩ := entry
    rw [takeFrom?]
    split
    · next hb =>
      subst hb
      simp only [reduceCtorEq, false_iff]
      intro h
      exact h n List.mem_cons_self
    · next hb =>
      simp only [Option.map_eq_none_iff, ih, List.mem_cons, Prod.mk.injEq, not_or]
      constructor
      · intro h m
        exact ⟨fun hc ↦ hb hc.1.symm, h m⟩
      · intro h m
        exact (h m).2

/-- Adding blocks counts each of them as often as it is there. -/
theorem count_addAll (tally : Tally) (blocks : List Block) (block : Block) :
    (tally.addAll blocks).count block = tally.count block + blocks.count block := by
  induction blocks generalizing tally with
  | nil => rfl
  | cons first rest ih =>
    have hrest : (tally.addAll (first :: rest)).count block =
        (tally.add first).count block + rest.count block := ih (tally.add first)
    rw [hrest, count_add, List.count_cons]
    by_cases h : block = first
    · rw [if_pos h, h, beq_self_eq_true, if_pos rfl]
      omega
    · rw [if_neg h, if_neg (by simpa using Ne.symm h)]
      omega

/-- A block without an entry is not found. -/
theorem lookup_eq_none_of_not_mem {block : Block} {entries : List (Block × Nat)}
    (h : block ∉ entries.map Prod.fst) : entries.lookup block = none := by
  rw [List.lookup_eq_none_iff]
  intro entry hentry
  have hne : block ≠ entry.1 := fun heq ↦ h (heq ▸ List.mem_map_of_mem hentry)
  simpa using hne

/-- A block of which nothing can be taken does not count. -/
theorem count_of_take?_eq_none {tally : Tally} {block : Block} (h : tally.take? block = none) :
    tally.count block = 0 := by
  rw [take?_eq_none_iff] at h
  have hmem : block ∉ tally.entries.map Prod.fst := by
    simpa using h
  rw [count, lookup_eq_none_of_not_mem hmem, Option.getD_none]

/-- Taking takes from the first entry of the block, and drops it when nothing is left. -/
theorem exists_of_takeFrom? {block : Block} {entries left : List (Block × Nat)}
    (h : takeFrom? block entries = some left) :
    ∃ before n after, entries = before ++ (block, n) :: after ∧ block ∉ before.map Prod.fst ∧
      left = before ++ if n = 1 then after else (block, n - 1) :: after := by
  induction entries generalizing left with
  | nil => cases h
  | cons entry rest ih =>
    obtain ⟨other, n⟩ := entry
    by_cases hother : other = block
    · subst hother
      rw [takeFrom?, if_pos rfl] at h
      cases h
      exact ⟨[], n, rest, rfl, List.not_mem_nil, rfl⟩
    · rw [takeFrom?, if_neg hother] at h
      obtain ⟨taken, htaken, rfl⟩ := Option.map_eq_some_iff.mp h
      obtain ⟨before, m, after, rfl, hbefore, rfl⟩ := ih htaken
      refine ⟨(other, n) :: before, m, after, rfl, ?_, rfl⟩
      simp only [List.map_cons, List.mem_cons, not_or]
      exact ⟨Ne.symm hother, hbefore⟩

/-- Taking counts no less for others. -/
theorem count_take?_of_ne {tally rest : Tally} {block other : Block}
    (h : tally.take? block = some rest) (hother : other ≠ block) :
    tally.count other = rest.count other := by
  obtain ⟨left, hleft, rfl⟩ := Option.map_eq_some_iff.mp h
  obtain ⟨before, n, after, hentries, -, rfl⟩ := exists_of_takeFrom? hleft
  have hlookup (m : Nat) : ((block, m) :: after).lookup other = after.lookup other := by
    rw [List.lookup_cons, beq_false_of_ne hother]
  by_cases hone : n = 1
  · simp [count, hentries, List.lookup_append, hone, hlookup]
  · simp [count, hentries, List.lookup_append, hone, hlookup]

/-- Taking counts at most one less for the block, and no less for others. -/
theorem count_le_of_take? {tally rest : Tally} {block : Block} (h : tally.take? block = some rest)
    (other : Block) : tally.count other ≤ rest.count other + [block].count other := by
  by_cases hother : other = block
  · subst hother
    obtain ⟨left, hleft, rfl⟩ := Option.map_eq_some_iff.mp h
    obtain ⟨before, n, after, hentries, hbefore, rfl⟩ := exists_of_takeFrom? hleft
    simp only [count, hentries, List.lookup_append, lookup_eq_none_of_not_mem hbefore,
      List.count_singleton_self]
    by_cases hone : n = 1
    · simp [hone]
    · simp [hone]
      omega
  · rw [count_take?_of_ne h hother]
    exact Nat.le_add_right _ _

end Tally

/-- What an arrived block means. -/
inductive Arrival where
  /-- It answers the oldest request; the block to ask for in its place, if one is left. -/
  | accepted (backfill : Option Block)
  /-- It answers a void request, and will be asked for again. -/
  | stale
deriving DecidableEq, Repr

/-- The outstanding requests and the blocks that are still to be asked for. -/
structure Window where
  /-- How many requests may be outstanding. -/
  depth : Nat
  /-- The blocks never asked for. -/
  fresh : Blocks
  /-- The blocks to be asked for again. -/
  requeued : List Block
  /-- The outstanding requests, the oldest first. -/
  inFlight : List Block
  /-- The late answers that are tolerated. -/
  voided : Tally
deriving DecidableEq, Repr

namespace Window

/-- A window over blocks with nothing outstanding; at least one request may be. Room is set aside
for as many requests as the depth says, at 24 bytes each. So there are windows only of depths up to
`2 ^ 63 / 24`, and of those for which there is that much memory. -/
def start (fresh : Blocks) (depth : Nat) : Window where
  depth := max depth 1
  fresh := fresh
  requeued := []
  inFlight := []
  voided := Tally.empty

/-- The next block to ask for, and the window without it. -/
def nextBlock? (w : Window) : Option (Block × Window) :=
  match w.requeued with
  | block :: rest => some (block, { w with requeued := rest })
  | [] => w.fresh.next?.map fun (block, rest) ↦ (block, { w with fresh := rest })

/-- Asks for the next block, if one is left. -/
def ask (w : Window) : Option Block × Window :=
  match w.nextBlock? with
  | some (block, rest) => (some block, { rest with inFlight := rest.inFlight ++ [block] })
  | none => (none, w)

/-- Asks for up to so many blocks. -/
def askUpTo : Nat → Window → List Block × Window
  | 0, w => ([], w)
  | n + 1, w =>
    match w.ask with
    | (none, w) => ([], w)
    | (some block, w) =>
      let (blocks, w) := askUpTo n w
      (block :: blocks, w)

/-- Asks for as many blocks as there is room for. -/
def fill (w : Window) : List Block × Window := askUpTo (w.depth - w.inFlight.length) w

/-- Takes off one late answer to a block, and tells whether one was tolerated. -/
def takeVoided (w : Window) (block : Block) : Bool × Window :=
  match w.voided.take? block with
  | some voided => (true, { w with voided := voided })
  | none => (false, w)

/-- Why a block is refused that answers no request: another one is the oldest, or there is none. -/
def refusal (w : Window) (block : Block) : Violation :=
  match w.inFlight.head? with
  | some oldest => .unexpectedBlock oldest block
  | none => .unsolicited block

/-- Receives a block: it has to answer the oldest request or a void one. The window is given as it
is left in any case, also when the block is refused. -/
def receive (w : Window) (block : Block) : Except Violation Arrival × Window :=
  if w.inFlight.head? = some block then
    let (backfill, after) := ask { w with inFlight := w.inFlight.tail }
    (.ok (.accepted backfill), after)
  else
    match w.takeVoided block with
    | (true, after) => (.ok .stale, after)
    | (false, after) => (.error (w.refusal block), after)

/-- Takes in an arrived block, or refuses it and tells why: what `receive` does, for those who do
not go on with a window that has refused a block. -/
def arrive (w : Window) (block : Block) : Except Violation (Arrival × Window) :=
  let (result, after) := w.receive block
  result.map fun arrival ↦ (arrival, after)

/-- Makes every outstanding request void. Their blocks are asked for again, in order, before any
other. -/
def void (w : Window) : Window where
  depth := w.depth
  fresh := w.fresh
  requeued := w.inFlight ++ w.requeued
  inFlight := []
  voided := w.voided.addAll w.inFlight

/-- How many requests are outstanding. -/
def outstanding (w : Window) : Nat := w.inFlight.length

/-- How many blocks are still to be asked for. -/
def unrequested (w : Window) : Nat := w.requeued.length + w.fresh.remaining

/-- Whether nothing is outstanding or still to be asked for. -/
def isDrained (w : Window) : Bool := w.outstanding == 0 && w.unrequested == 0

/-- The blocks still to be asked for, in the order in which they will be. -/
def pending (w : Window) : List Block := w.requeued ++ w.fresh.toList

/-- There are as many blocks to be asked for as are counted. -/
theorem length_pending (w : Window) : w.pending.length = w.unrequested := by
  simp [pending, unrequested]

/-- The next block is the first of those to be asked for, and the others stay. -/
theorem pending_of_nextBlock? {w rest : Window} {block : Block}
    (h : w.nextBlock? = some (block, rest)) : w.pending = block :: rest.pending := by
  rw [nextBlock?] at h
  split at h
  · next hrequeued =>
    cases h
    simp [pending, hrequeued]
  · next hrequeued =>
    simp only [Option.map_eq_some_iff, Prod.exists] at h
    obtain ⟨b, fresh, hnext, heq⟩ := h
    cases heq
    simp [pending, hrequeued, Blocks.toList_of_next? hnext]

/-- A block that answers the oldest request is accepted, and the next one is asked for in its
place. -/
theorem receive_of_oldest {w : Window} {block : Block} {rest : List Block}
    (h : w.inFlight = block :: rest) :
    w.receive block = (.ok (.accepted (ask { w with inFlight := rest }).1),
      (ask { w with inFlight := rest }).2) := by
  simp only [receive, h, List.head?_cons, if_true, List.tail_cons]

/-- Any other block is tolerated or refused; the window is the same after it is refused. -/
theorem receive_of_other {w : Window} {block : Block} (h : w.inFlight.head? ≠ some block) :
    w.receive block =
      match w.voided.take? block with
      | some voided => (.ok .stale, { w with voided := voided })
      | none => (.error (w.refusal block), w) := by
  rw [receive, if_neg h, takeVoided]
  cases w.voided.take? block <;> rfl

/-- A block that answers the oldest request is taken in. -/
theorem arrive_of_oldest {w : Window} {block : Block} {rest : List Block}
    (h : w.inFlight = block :: rest) :
    w.arrive block = .ok (.accepted (ask { w with inFlight := rest }).1,
      (ask { w with inFlight := rest }).2) := by
  rw [arrive, receive_of_oldest h]
  rfl

/-- Any other block is taken in if it is tolerated, and is refused else. -/
theorem arrive_of_other {w : Window} {block : Block} (h : w.inFlight.head? ≠ some block) :
    w.arrive block =
      match w.voided.take? block with
      | some voided => .ok (.stale, { w with voided := voided })
      | none => .error (w.refusal block) := by
  rw [arrive, receive_of_other h]
  cases w.voided.take? block <;> rfl

/-- What is received is taken in, or is refused and changes nothing. -/
theorem receive_eq (w : Window) (block : Block) :
    w.receive block =
      match w.arrive block with
      | .ok (arrival, after) => (.ok arrival, after)
      | .error violation => (.error violation, w) := by
  by_cases h : w.inFlight.head? = some block
  · obtain ⟨rest, hflight⟩ := List.head?_eq_some_iff.mp h
    rw [receive_of_oldest hflight, arrive_of_oldest hflight]
  · rw [receive_of_other h, arrive_of_other h]
    cases w.voided.take? block <;> rfl

/-- Voiding leaves nothing outstanding. -/
@[simp]
theorem outstanding_void (w : Window) : w.void.outstanding = 0 := rfl

/-- Voided blocks are the first to be asked for again, in their order. -/
theorem pending_void (w : Window) : w.void.pending = w.inFlight ++ w.pending := by
  simp [void, pending]

end Window

end PeerWire
