import PeerWire.Proofs.Tapped

/-!
# The account of a log

What became of the requests that were sent can be read from a log alone: the oldest request is
answered by its block, and being choked makes void whatever was not answered. Main statements: each
request that was sent was answered, is outstanding or is void, those that are not void in the order
in which they were sent; and what holds of a log at every moment goes on with every entry.
-/

namespace PeerWire

namespace Traffic

/-- Whether there is leave to request after an entry. -/
def leave (before : Bool) : Traffic → Bool
  | .came .choke => false
  | .came .unchoke => true
  | _ => before

/-- Whether there is leave to request after a log: whoever says nothing gives none. -/
def leaveAfter (log : List Traffic) : Bool := log.foldl leave false

/-- The block that a request asks for which was sent. -/
def requested? : Traffic → Option Block
  | .went (.request block) => some block
  | _ => none

/-- The blocks that were asked for, in the order in which they were. -/
def requested (log : List Traffic) : List Block := log.filterMap requested?

/-- What one more entry makes of the leave. -/
@[simp]
theorem leaveAfter_concat (log : List Traffic) (event : Traffic) :
    leaveAfter (log ++ [event]) = leave (leaveAfter log) event := by
  rw [leaveAfter, List.foldl_append]
  rfl

/-- Something holds of every entry of a log and those before it. -/
def Throughout (holds : List Traffic → Traffic → Prop) (log : List Traffic) : Prop :=
  ∀ before event after, log = before ++ event :: after → holds before event

/-- Of an empty log everything holds. -/
theorem throughout_nil {holds : List Traffic → Traffic → Prop} : Throughout holds [] := by
  intro before event after h
  cases before <;> cases h

/-- What holds throughout a log holds throughout it with one more entry if it holds of that. -/
theorem Throughout.concat {holds : List Traffic → Traffic → Prop} {log : List Traffic}
    {event : Traffic} (h : Throughout holds log) (hevent : holds log event) :
    Throughout holds (log ++ [event]) := by
  intro before entry after heq
  rcases List.eq_nil_or_concat after with rfl | ⟨front, last, rfl⟩
  · obtain ⟨rfl, hlast⟩ := List.append_inj' heq rfl
    cases hlast
    exact hevent
  · rw [List.concat_eq_append, ← List.cons_append, ← List.append_assoc] at heq
    obtain ⟨hfront, -⟩ := List.append_inj' heq rfl
    exact h before entry front hfront

end Traffic

/-- What became of the requests that were sent. -/
structure Account where
  /-- The blocks of the requests that were answered, in order. -/
  answered : List Block
  /-- The blocks of those that may still be answered, the oldest first. -/
  outstanding : List Block
  /-- The blocks of those that became void. -/
  voided : List Block
deriving DecidableEq, Repr

namespace Account

/-- No requests yet. -/
def start : Account := ⟨[], [], []⟩

/-- A request was sent. -/
def ask (a : Account) (block : Block) : Account :=
  { a with outstanding := a.outstanding ++ [block] }

/-- A block came: it answers the oldest request, if that is for it. -/
def answer (a : Account) (block : Block) : Account :=
  match a.outstanding with
  | [] => a
  | oldest :: rest =>
    if oldest = block then { a with answered := a.answered ++ [block], outstanding := rest } else a

/-- Being choked makes void what is outstanding. -/
def void (a : Account) : Account :=
  { a with outstanding := [], voided := a.voided ++ a.outstanding }

/-- Takes in an entry of a log. -/
def note (a : Account) : Traffic → Account
  | .came .choke => a.void
  | .came (.piece fragment) => a.answer fragment.block
  | .went (.request block) => a.ask block
  | _ => a

/-- The account of a log. -/
def of (log : List Traffic) : Account := log.foldl note start

/-- What one more entry makes of the account. -/
@[simp]
theorem of_concat (log : List Traffic) (event : Traffic) :
    of (log ++ [event]) = (of log).note event := by
  rw [of, List.foldl_append]
  rfl

/-- A message that comes leaves no more outstanding. -/
theorem length_note_came_le (a : Account) (message : Message) :
    (a.note (.came message)).outstanding.length ≤ a.outstanding.length := by
  cases message with
  | choke => exact Nat.zero_le _
  | piece fragment =>
    show (a.answer fragment.block).outstanding.length ≤ _
    rw [answer]
    split
    · exact Nat.le_refl _
    · next oldest rest houtstanding =>
      split
      · rw [houtstanding, List.length_cons]
        exact Nat.le_succ _
      · exact Nat.le_refl _
  | _ => exact Nat.le_refl _

/-- A block that is not the oldest one outstanding answers nothing. -/
theorem answer_of_ne {a : Account} {block : Block} (h : a.outstanding.head? ≠ some block) :
    a.answer block = a := by
  rw [answer]
  split
  · rfl
  · next oldest rest houtstanding =>
    rw [if_neg]
    simpa [houtstanding] using h

/-- The oldest block outstanding is answered. -/
theorem answer_of_eq {a : Account} {block : Block} {rest : List Block}
    (h : a.outstanding = block :: rest) :
    a.answer block = { a with answered := a.answered ++ [block], outstanding := rest } := by
  rw [answer, h]
  exact if_pos rfl

/-- An account says what became of requests that were sent one after the other. -/
structure Covers (a : Account) (requests : List Block) : Prop where
  /-- Each of them was answered, is outstanding or is void. -/
  perm : requests.Perm (a.answered ++ a.outstanding ++ a.voided)
  /-- Those that are not void were sent in this order. -/
  sublist : (a.answered ++ a.outstanding).Sublist requests

/-- A request that is sent is covered. -/
theorem Covers.ask {a : Account} {requests : List Block} (h : a.Covers requests) (block : Block) :
    (a.ask block).Covers (requests ++ [block]) where
  perm := by
    have hswap : (a.answered ++ a.outstanding ++ a.voided ++ [block]).Perm
        (a.answered ++ (a.outstanding ++ [block]) ++ a.voided) := by
      rw [← List.append_assoc, List.append_assoc, List.append_assoc _ [block]]
      exact List.perm_append_comm.append_left _
    exact (h.perm.append_right [block]).trans hswap
  sublist := by
    show (a.answered ++ (a.outstanding ++ [block])).Sublist _
    rw [← List.append_assoc]
    exact h.sublist.append_right [block]

/-- A block that comes changes what became of a request, and not which ones there are. -/
theorem Covers.answer {a : Account} {requests : List Block} (h : a.Covers requests)
    (block : Block) : (a.answer block).Covers requests := by
  by_cases hhead : a.outstanding.head? = some block
  · obtain ⟨rest, houtstanding⟩ := List.head?_eq_some_iff.mp hhead
    have hperm := h.perm
    have hsublist := h.sublist
    rw [houtstanding] at hperm hsublist
    rw [answer_of_eq houtstanding]
    constructor
    · simpa using hperm
    · simpa using hsublist
  · rw [answer_of_ne hhead]
    exact h

/-- Being choked changes what became of requests, and not which ones there are. -/
theorem Covers.void {a : Account} {requests : List Block} (h : a.Covers requests) :
    a.void.Covers requests where
  perm := by
    have hswap : (a.answered ++ a.outstanding ++ a.voided).Perm
        (a.answered ++ [] ++ (a.voided ++ a.outstanding)) := by
      rw [List.append_nil, List.append_assoc]
      exact List.perm_append_comm.append_left a.answered
    exact h.perm.trans hswap
  sublist := by
    show (a.answered ++ []).Sublist _
    rw [List.append_nil]
    exact (List.sublist_append_left _ _).trans h.sublist

/-- An entry of a log leaves an account that covers the requests by then. -/
theorem Covers.note {a : Account} {requests : List Block} (h : a.Covers requests)
    (event : Traffic) : (a.note event).Covers (requests ++ event.requested?.toList) := by
  have keep {other : Account} {event : Traffic} (hother : other.Covers requests)
      (hnone : event.requested? = none) :
      other.Covers (requests ++ event.requested?.toList) := by
    rw [hnone, Option.toList_none, List.append_nil]
    exact hother
  rw [note.eq_def]
  split
  · exact keep h.void rfl
  · exact keep (h.answer _) rfl
  · exact h.ask _
  · next hrequest =>
    apply keep h
    rw [Traffic.requested?.eq_def]
    split
    · exact absurd rfl (hrequest _)
    · rfl

/-- The account of a log covers its requests. -/
theorem covers_of (log : List Traffic) : (of log).Covers (Traffic.requested log) := by
  have grow (a : Account) (requests : List Block) (h : a.Covers requests) :
      (log.foldl note a).Covers (requests ++ Traffic.requested log) := by
    induction log generalizing a requests with
    | nil =>
      rw [Traffic.requested, List.filterMap_nil, List.append_nil]
      exact h
    | cons event log ih =>
      have hrequested : Traffic.requested (event :: log) =
          event.requested?.toList ++ Traffic.requested log := by
        rw [Traffic.requested, List.filterMap_cons]
        cases event.requested? <;> rfl
      rw [hrequested, ← List.append_assoc]
      exact ih _ _ (h.note event)
  exact grow start [] ⟨List.Perm.refl _, List.Sublist.refl _⟩

end Account

end PeerWire
