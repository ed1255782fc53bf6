import PeerWire.Message
import PeerWire.Proofs.Window

/-!
# Chokes and answers that cross requests

Between a window and a peer there are the messages on their way to this side, and the requests that
the peer has not answered, on their way or in its store. A choke on its way makes requests void
that may still be answered, so an answer can be late, and a late answer can be taken for the answer
to a repeated request, which then comes late itself. What carries the proofs is the order of the
answers up to the next choke: some that are tolerated, and then those to the outstanding requests.
Main statements: whatever the peer does keeps this order, no answer is refused, and when nothing is
on its way and the peer gives leave then no block is due.
-/

namespace PeerWire

/-- The blocks that are asked for when one arrives. -/
def Arrival.asked : Arrival → List Block
  | .accepted backfill => backfill.toList
  | .stale => []

/-- The blocks that messages deliver, in order. -/
def delivered (messages : List Message) : List Block :=
  messages.filterMap fun
    | .piece fragment => some fragment.block
    | _ => none

/-- The messages before the next choke. -/
def beforeChoke (messages : List Message) : List Message := messages.takeWhile (· ≠ .choke)

/-- Whether leave to request is withheld after a message. -/
def withheldAfter (withheld : Bool) : Message → Bool
  | .choke => true
  | .unchoke => false
  | _ => withheld

/-- The first messages deliver the first blocks. -/
theorem delivered_append (messages others : List Message) :
    delivered (messages ++ others) = delivered messages ++ delivered others :=
  List.filterMap_append

/-- What comes before the next choke is delivered among all. -/
theorem delivered_beforeChoke (messages : List Message) :
    List.Sublist (delivered (beforeChoke messages)) (delivered messages) :=
  (List.takeWhile_sublist _).filterMap _

/-- A message other than a choke comes before the next choke. -/
theorem beforeChoke_cons {message : Message} (h : message ≠ .choke) (messages : List Message) :
    beforeChoke (message :: messages) = message :: beforeChoke messages :=
  List.takeWhile_cons_of_pos (decide_eq_true h)

/-- Without a choke every message comes before the next one. -/
theorem beforeChoke_of_not_mem {messages : List Message} (h : .choke ∉ messages) :
    beforeChoke messages = messages := by
  induction messages with
  | nil => rfl
  | cons first rest ih =>
    rw [List.mem_cons, not_or] at h
    rw [beforeChoke_cons (Ne.symm h.1), ih h.2]

/-- Messages behind a choke do not come before it. -/
theorem beforeChoke_append_of_mem {messages : List Message} (h : .choke ∈ messages)
    (others : List Message) : beforeChoke (messages ++ others) = beforeChoke messages := by
  induction messages with
  | nil => cases h
  | cons first rest ih =>
    by_cases hfirst : first = .choke
    · subst hfirst
      rfl
    · have hrest : Message.choke ∈ rest := (List.mem_cons.mp h).resolve_left (Ne.symm hfirst)
      rw [List.cons_append, beforeChoke_cons hfirst, beforeChoke_cons hfirst, ih hrest]

/-- A choke at the end comes before nothing. -/
theorem beforeChoke_append_choke (messages : List Message) :
    beforeChoke (messages ++ [.choke]) = beforeChoke messages := by
  by_cases h : Message.choke ∈ messages
  · exact beforeChoke_append_of_mem h _
  · rw [beforeChoke_of_not_mem h]
    induction messages with
    | nil => rfl
    | cons first rest ih =>
      rw [List.mem_cons, not_or] at h
      rw [List.cons_append, beforeChoke_cons (Ne.symm h.1), ih h.2]

/-- Without a choke on its way leave that is withheld at last is withheld now. -/
theorem withheld_of_not_mem {messages : List Message} {withheld : Bool}
    (h : .choke ∉ messages) (hlast : messages.foldl withheldAfter withheld = true) :
    withheld = true := by
  induction messages generalizing withheld with
  | nil => exact hlast
  | cons first rest ih =>
    rw [List.mem_cons, not_or] at h
    have hfirst := ih h.2 hlast
    cases first with
    | choke => exact absurd rfl h.1
    | unchoke => cases hfirst
    | _ => exact hfirst

/-- The requests and answers between a window and a peer fit together, where leave to request is
withheld on this side, and by the peer. -/
structure Settled (w : Window) (withheld withholding : Bool) (incoming : List Message)
    (unanswered : List Block) : Prop where
  /-- What is delivered and what is unanswered was asked for, and is outstanding or void. -/
  owed : ∀ block, (delivered incoming ++ unanswered).count block ≤
    w.inFlight.count block + w.voided.count block
  /-- Up to the next choke late answers come first, and then those to the outstanding requests;
  without a choke on its way the unanswered requests are the last ones of these. -/
  order : ∃ behind late, delivered (beforeChoke incoming) ++ behind = late ++ w.inFlight ∧
    (∀ block, late.count block ≤ w.voided.count block) ∧
    (.choke ∉ incoming → behind = unanswered)
  /-- The messages on their way tell this side what the peer has decided. -/
  leave : incoming.foldl withheldAfter withheld = withholding
  /-- Without leave nothing is outstanding. -/
  held : withheld = true → w.inFlight = []
  /-- With leave as much is outstanding as may be. -/
  filled : withheld = false → w.depth ≤ w.inFlight.length ∨ w.pending = []
  /-- Something may be outstanding. -/
  depth_pos : 0 < w.depth

namespace Settled

variable {w : Window} {withheld withholding : Bool} {incoming : List Message}
  {unanswered : List Block}

/-- With nothing outstanding everything under way is late. -/
theorem late_of_sublist (h : Settled w withheld withholding incoming unanswered)
    (hflight : w.inFlight = []) {late : List Block}
    (hlate : List.Sublist late (delivered incoming ++ unanswered)) (block : Block) :
    late.count block ≤ w.voided.count block := by
  have howed := h.owed block
  rw [hflight, List.count_nil, Nat.zero_add] at howed
  exact Nat.le_trans (hlate.count_le block) howed

/-! ### What the peer does -/

/-- The peer answers the oldest request. -/
theorem answer {block : Block} (h : Settled w withheld withholding incoming (block :: unanswered))
    {fragment : Fragment} (hblock : fragment.block = block) :
    Settled w withheld withholding (incoming ++ [.piece fragment]) unanswered := by
  have hone : delivered [.piece fragment] = [block] := congrArg (fun b ↦ [b]) hblock
  refine ⟨?_, ?_, ?_, h.held, h.filled, h.depth_pos⟩
  · intro other
    have howed := h.owed other
    rw [delivered_append, hone, List.append_assoc]
    exact howed
  · obtain ⟨behind, late, horder, hlate, hbehind⟩ := h.order
    have hmem : Message.choke ∈ incoming ++ [.piece fragment] ↔ Message.choke ∈ incoming := by
      simp
    by_cases hchoke : Message.choke ∈ incoming
    · refine ⟨behind, late, ?_, hlate, fun hno ↦ absurd (hmem.mpr hchoke) hno⟩
      rw [beforeChoke_append_of_mem hchoke]
      exact horder
    · refine ⟨unanswered, late, ?_, hlate, fun _ ↦ rfl⟩
      rw [beforeChoke_of_not_mem (mt hmem.mp hchoke), delivered_append, hone, List.append_assoc,
        ← horder, hbehind hchoke, beforeChoke_of_not_mem hchoke]
      rfl
  · rw [List.foldl_append, h.leave]
    rfl

/-- The peer forgets requests while it withholds leave. -/
theorem forget (h : Settled w withheld true incoming unanswered) {kept : List Block}
    (hkept : List.Sublist kept unanswered) : Settled w withheld true incoming kept := by
  refine ⟨?_, ?_, h.leave, h.held, h.filled, h.depth_pos⟩
  · intro block
    exact Nat.le_trans ((hkept.append_left _).count_le block) (h.owed block)
  · obtain ⟨behind, late, horder, hlate, hbehind⟩ := h.order
    by_cases hchoke : Message.choke ∈ incoming
    · exact ⟨behind, late, horder, hlate, fun hno ↦ absurd hchoke hno⟩
    · have hflight := h.held (withheld_of_not_mem hchoke h.leave)
      refine ⟨kept, delivered (beforeChoke incoming) ++ kept, ?_, ?_, fun _ ↦ rfl⟩
      · rw [hflight, List.append_nil]
      · exact h.late_of_sublist hflight ((delivered_beforeChoke incoming).append hkept)

/-- The peer withdraws its leave, and forgets requests. -/
theorem choke (h : Settled w withheld withholding incoming unanswered) {kept : List Block}
    (hkept : List.Sublist kept unanswered) :
    Settled w withheld true (incoming ++ [.choke]) kept := by
  refine ⟨?_, ?_, ?_, h.held, h.filled, h.depth_pos⟩
  · intro block
    have hsame : delivered (incoming ++ [.choke]) = delivered incoming := by
      rw [delivered_append]
      exact List.append_nil _
    rw [hsame]
    exact Nat.le_trans ((hkept.append_left _).count_le block) (h.owed block)
  · obtain ⟨behind, late, horder, hlate, _⟩ := h.order
    refine ⟨behind, late, ?_, hlate, fun hno ↦ absurd (by simp) hno⟩
    rw [beforeChoke_append_choke]
    exact horder
  · rw [List.foldl_append]
    rfl

/-- The peer gives leave. -/
theorem unchoke (h : Settled w withheld withholding incoming unanswered) :
    Settled w withheld false (incoming ++ [.unchoke]) unanswered := by
  have hsame (messages : List Message) :
      delivered (messages ++ [.unchoke]) = delivered messages := by
    rw [delivered_append]
    exact List.append_nil _
  refine ⟨?_, ?_, ?_, h.held, h.filled, h.depth_pos⟩
  · rw [hsame]
    exact h.owed
  · obtain ⟨behind, late, horder, hlate, hbehind⟩ := h.order
    have hmem : Message.choke ∈ incoming ++ [.unchoke] ↔ Message.choke ∈ incoming := by simp
    refine ⟨behind, late, ?_, hlate, fun hno ↦ hbehind (mt hmem.mpr hno)⟩
    by_cases hchoke : Message.choke ∈ incoming
    · rw [beforeChoke_append_of_mem hchoke]
      exact horder
    · rw [beforeChoke_of_not_mem (mt hmem.mp hchoke), hsame]
      rw [beforeChoke_of_not_mem hchoke] at horder
      exact horder
  · rw [List.foldl_append]
    rfl

/-! ### What this side does -/

/-- Before anything happened nothing is under way. -/
theorem start (hdepth : 0 < w.depth) (hflight : w.inFlight = []) :
    Settled w true true [] [] where
  owed := fun _ ↦ Nat.zero_le _
  order := ⟨[], [], hflight.symm, fun _ ↦ Nat.zero_le _, fun _ ↦ rfl⟩
  leave := rfl
  held := fun _ ↦ hflight
  filled := fun h ↦ by cases h
  depth_pos := hdepth

/-- This side asks for as much as may be outstanding once it has leave. -/
theorem fill (h : Settled w withheld withholding (.unchoke :: incoming) unanswered) :
    Settled w.fill.2 false withholding incoming (unanswered ++ w.fill.1) := by
  obtain ⟨hasked, htake⟩ := Window.asked_fill w
  have hdelivered : delivered (.unchoke :: incoming) = delivered incoming := rfl
  have hbefore : beforeChoke (.unchoke :: incoming) = .unchoke :: beforeChoke incoming :=
    beforeChoke_cons (by simp) incoming
  refine ⟨?_, ?_, h.leave, ?_, ?_, ?_⟩
  · intro block
    have howed := h.owed block
    rw [hdelivered, List.count_append] at howed
    rw [hasked.inFlight, hasked.voided, List.count_append, List.count_append, List.count_append]
    omega
  · obtain ⟨behind, late, horder, hlate, hbehind⟩ := h.order
    refine ⟨behind ++ w.fill.1, late, ?_, ?_, ?_⟩
    · rw [hbefore] at horder
      rw [hasked.inFlight, ← List.append_assoc, ← List.append_assoc, ← horder]
      rfl
    · rw [hasked.voided]
      exact hlate
    · intro hno
      rw [hbehind (by simpa using hno)]
  · intro hfalse
    cases hfalse
  · intro _
    have hpending := hasked.pending
    have hlength := congrArg List.length htake
    rw [List.length_take] at hlength
    rw [hasked.inFlight, hasked.depth, List.length_append]
    by_cases hroom : w.depth - w.inFlight.length ≤ w.pending.length
    · left
      omega
    · right
      have hall := congrArg List.length hpending
      rw [List.length_append] at hall
      apply List.eq_nil_of_length_eq_zero
      omega
  · rw [hasked.depth]
    exact h.depth_pos

/-- This side voids what is outstanding when its leave is withdrawn. -/
theorem void (h : Settled w withheld withholding (.choke :: incoming) unanswered) :
    Settled w.void true withholding incoming unanswered := by
  have hvoided (block : Block) :
      w.void.voided.count block = w.voided.count block + w.inFlight.count block :=
    Tally.count_addAll w.voided w.inFlight block
  have howed (block : Block) :
      (delivered incoming ++ unanswered).count block ≤ w.void.voided.count block := by
    rw [hvoided, Nat.add_comm]
    exact h.owed block
  refine ⟨?_, ?_, h.leave, fun _ ↦ rfl, ?_, h.depth_pos⟩
  · intro block
    exact Nat.le_trans (howed block) (Nat.le_add_left _ _)
  · by_cases hchoke : Message.choke ∈ incoming
    · refine ⟨[], delivered (beforeChoke incoming), ?_, ?_, fun hno ↦ absurd hchoke hno⟩
      · rfl
      · intro block
        have hbefore := (delivered_beforeChoke incoming).trans
          (List.sublist_append_left (delivered incoming) unanswered)
        exact Nat.le_trans (hbefore.count_le block) (howed block)
    · refine ⟨unanswered, delivered incoming ++ unanswered, ?_, howed, fun _ ↦ rfl⟩
      rw [beforeChoke_of_not_mem hchoke]
      exact (List.append_nil _).symm
  · intro hfalse
    cases hfalse

/-- What is delivered next was asked for as well, and is outstanding or void. -/
theorem owed_piece {fragment : Fragment}
    (h : Settled w withheld withholding (.piece fragment :: incoming) unanswered) (block : Block) :
    [fragment.block].count block
        + ((delivered incoming).count block + unanswered.count block) ≤
      w.inFlight.count block + w.voided.count block := by
  have howed := h.owed block
  have hfirst : delivered (.piece fragment :: incoming) = [fragment.block] ++ delivered incoming :=
    rfl
  rw [hfirst, List.count_append, List.count_append] at howed
  omega

/-- What is delivered next is the first of the late answers, or else the answer to the oldest
request. -/
theorem order_piece {fragment : Fragment}
    (h : Settled w withheld withholding (.piece fragment :: incoming) unanswered) :
    ∃ behind late,
      [fragment.block] ++ (delivered (beforeChoke incoming) ++ behind) = late ++ w.inFlight ∧
      (∀ block, late.count block ≤ w.voided.count block) ∧
      (.choke ∉ incoming → behind = unanswered) := by
  obtain ⟨behind, late, horder, hlate, hbehind⟩ := h.order
  refine ⟨behind, late, ?_, hlate, fun hno ↦ hbehind (by simpa using hno)⟩
  rw [beforeChoke_cons (by simp)] at horder
  exact horder

/-- A delivered block that does not answer the oldest request is a late answer. -/
theorem late_of_ne {fragment : Fragment}
    (h : Settled w withheld withholding (.piece fragment :: incoming) unanswered)
    (hother : w.inFlight.head? ≠ some fragment.block) :
    ∃ behind late, delivered (beforeChoke incoming) ++ behind = late ++ w.inFlight ∧
      (∀ block, [fragment.block].count block + late.count block ≤ w.voided.count block) ∧
      (.choke ∉ incoming → behind = unanswered) := by
  obtain ⟨behind, late, horder, hlate, hbehind⟩ := h.order_piece
  cases late with
  | nil =>
    rw [List.nil_append] at horder
    rw [← horder] at hother
    exact absurd rfl hother
  | cons first rest =>
    obtain ⟨hfirst, hrest⟩ := List.cons.inj horder
    refine ⟨behind, rest, hrest, ?_, hbehind⟩
    intro block
    have hcount := hlate block
    rw [← hfirst, ← List.singleton_append, List.count_append] at hcount
    exact hcount

/-- A late answer is tolerated. -/
theorem stale {fragment : Fragment}
    (h : Settled w withheld withholding (.piece fragment :: incoming) unanswered) {voided : Tally}
    (hother : w.inFlight.head? ≠ some fragment.block)
    (htaken : w.voided.take? fragment.block = some voided) :
    Settled { w with voided := voided } withheld withholding incoming unanswered := by
  have htake := Tally.count_le_of_take? htaken
  refine ⟨?_, ?_, h.leave, h.held, h.filled, h.depth_pos⟩
  · intro block
    have howed := h.owed_piece block
    have hless := htake block
    rw [List.count_append]
    simp only
    omega
  · obtain ⟨behind, late, horder, hlate, hbehind⟩ := h.late_of_ne hother
    refine ⟨behind, late, horder, ?_, hbehind⟩
    intro block
    have hmore := hlate block
    have hless := htake block
    simp only
    omega

/-- A block that answers the oldest request is accepted, and another one is asked for. If it was a
late answer, then the answer to that request is a late one from there on. -/
theorem accept {fragment : Fragment}
    (h : Settled w withheld withholding (.piece fragment :: incoming) unanswered)
    {rest : List Block} {after : Window} (holdest : w.inFlight = fragment.block :: rest)
    (hasked : Window.Asked { w with inFlight := rest } w.pending.head?.toList after) :
    Settled after withheld withholding incoming (unanswered ++ w.pending.head?.toList) := by
  have hvoided : after.voided = w.voided := hasked.voided
  have hdepth : after.depth = w.depth := hasked.depth
  have hflight : after.inFlight = rest ++ w.pending.head?.toList := hasked.inFlight
  rw [← List.singleton_append] at holdest
  refine ⟨?_, ?_, h.leave, ?_, ?_, hdepth ▸ h.depth_pos⟩
  · intro block
    have howed := h.owed_piece block
    rw [holdest, List.count_append] at howed
    rw [hflight, hvoided, List.count_append, List.count_append, List.count_append]
    omega
  · obtain ⟨behind, late, horder, hlate, hbehind⟩ := h.order_piece
    have hmore : .choke ∉ incoming → behind ++ w.pending.head?.toList =
        unanswered ++ w.pending.head?.toList := fun hno ↦ by rw [hbehind hno]
    rw [holdest] at horder
    rw [hflight, hvoided]
    cases late with
    | nil =>
      have hrest : delivered (beforeChoke incoming) ++ behind = rest := (List.cons.inj horder).2
      refine ⟨behind ++ w.pending.head?.toList, [], ?_, fun _ ↦ Nat.zero_le _, hmore⟩
      rw [← List.append_assoc, hrest]
      rfl
    | cons first others =>
      obtain ⟨hfirst, hrest⟩ := List.cons.inj horder
      refine ⟨behind ++ w.pending.head?.toList, others ++ [first], ?_, ?_, hmore⟩
      · have hswap : others ++ ([fragment.block] ++ rest) = (others ++ [first]) ++ rest := by
          rw [hfirst, List.append_assoc]
        rw [← List.append_assoc]
        exact (congrArg (· ++ w.pending.head?.toList) (hrest.trans hswap)).trans
          (List.append_assoc _ _ _)
      · intro block
        have hcount := hlate block
        rw [← List.singleton_append, List.count_append] at hcount
        rw [List.count_append]
        omega
  · intro hwithheld
    have hnone := h.held hwithheld
    rw [holdest] at hnone
    cases hnone
  · intro hwithheld
    have hfilled := h.filled hwithheld
    have hpending : w.pending = w.pending.head?.toList ++ after.pending := hasked.pending
    rw [holdest, List.length_append, List.length_singleton] at hfilled
    rw [hflight, hdepth, List.length_append]
    cases hw : w.pending with
    | nil =>
      right
      rw [hw] at hpending
      exact hpending.symm
    | cons first others =>
      left
      rw [hw] at hfilled
      have hfull := hfilled.resolve_right (List.cons_ne_nil first others)
      have hone : (first :: others).head?.toList.length = 1 := rfl
      omega

/-- No delivered block is refused. -/
theorem arrive {fragment : Fragment}
    (h : Settled w withheld withholding (.piece fragment :: incoming) unanswered) :
    ∃ arrival after, w.arrive fragment.block = .ok (arrival, after) ∧
      Settled after withheld withholding incoming (unanswered ++ arrival.asked) := by
  have harrived := Window.arrived w fragment.block
  cases hresult : w.arrive fragment.block with
  | error violation =>
    rw [hresult] at harrived
    cases harrived with
    | refused hother huntaken =>
      obtain ⟨_, late, _, hlate, _⟩ := h.late_of_ne hother
      have hcount := hlate fragment.block
      rw [Tally.count_of_take?_eq_none huntaken, List.count_singleton_self] at hcount
      omega
  | ok result =>
    rw [hresult] at harrived
    cases harrived with
    | stale hother htaken =>
      refine ⟨_, _, rfl, ?_⟩
      rw [Arrival.asked, List.append_nil]
      exact h.stale hother htaken
    | accepted holdest hasked => exact ⟨_, _, rfl, h.accept holdest hasked⟩

/-- When nothing is under way and the peer gives leave then no block is due. -/
theorem due_eq_nil (h : Settled w withheld false [] []) : w.due = [] := by
  obtain ⟨behind, late, horder, _, hbehind⟩ := h.order
  have hflight : w.inFlight = [] := by
    rw [hbehind (by simp)] at horder
    exact (List.append_eq_nil_iff.mp horder.symm).2
  have hwithheld : withheld = false := h.leave
  obtain hfull | hpending := h.filled hwithheld
  · have hpos := h.depth_pos
    rw [hflight, List.length_nil] at hfull
    omega
  · rw [Window.due, hflight, hpending, List.append_nil]

end Settled

end PeerWire
