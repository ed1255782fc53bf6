import PeerWire.Proofs.Announcements
import PeerWire.Proofs.Failures
import PeerWire.Proofs.Punctuality

/-!
# Listening to a peer

Before anything is asked of a peer its messages are only listened to: until it has described itself,
and again until it gives leave to request. Main statements: the wait for a description is over
exactly when quiet messages and then a description have come, and the wait for leave, of a peer that
has every piece, exactly when messages without a block and then leave have come by the deadline;
nothing that comes later is touched.
-/

namespace PeerWire

variable {σ : Type}

/-- Messages come over a link, one after the other. -/
inductive Comes [Link σ] (scope : Scope) : Clock → σ → List Message → Clock → σ → Prop where
  /-- Nothing has come. -/
  | nil (clock : Clock) (s : σ) : Comes scope clock s [] clock s
  /-- A message comes, and then others. -/
  | cons {clock middle after : Clock} {s t u : σ} {message : Message} {messages : List Message}
      (first : Link.receive scope clock s = ⟨.done message, middle, t⟩)
      (rest : Comes scope middle t messages after u) :
      Comes scope clock s (message :: messages) after u

/-- Time does not run backwards while messages come. -/
theorem Comes.forward [Link σ] {scope : Scope} {clock after : Clock} {s t : σ}
    {messages : List Message} (hpunctual : Activity.Punctual (Link.receive (σ := σ)))
    (h : Comes scope clock s messages after t) : clock.now ≤ after.now := by
  induction h with
  | nil clock s => exact Nat.le_refl _
  | @cons clock middle after s t u message messages first rest ih =>
    have hnow : clock.now ≤ (Link.receive scope clock s).clock.now :=
      (hpunctual scope clock s).forward
    rw [first] at hnow
    exact Nat.le_trans hnow ih

/-! ### Messages -/

namespace Message

/-- Whether the message neither announces pieces nor delivers any. -/
def isQuiet : Message → Bool
  | announce _ | bitfield _ | piece _ => false
  | _ => true

/-- Whether the message may be said by a peer that was described: it delivers no block, and
announces no piece that does not exist. -/
def isFitting (pieceCount : Nat) : Message → Bool
  | announce index => index < pieceCount
  | piece _ => false
  | _ => true

/-- The pieces that the message announces. -/
def pieces : Message → List Nat
  | announce index => [index]
  | bitfield field => field.members
  | _ => []

/-- Whether there is leave to request after the message, if it is known from before. -/
def leave (before : Bool) : Message → Bool
  | choke => false
  | unchoke => true
  | _ => before

end Message

namespace Peer

open Event

variable {n : Nat} {leave : Bool} {awaited : Awaited} {message description : Message}
  {peer after : Peer}

/-- What is known after a message that must not deliver a block, or what is wrong with it. -/
def hear (peer : Peer) (awaited : Awaited) (message : Message) : Except Error Peer :=
  match peer.apply message with
  | .ok (.block fragment, _) => .error (.unexpectedMessage (.fragment fragment.block) awaited)
  | .ok (_, after) => .ok after
  | .error error => .error error

/-- Only a piece delivers a block, and it tells nothing about the peer. -/
theorem apply_eq_block {fragment : Fragment}
    (h : peer.apply message = .ok (.block fragment, after)) :
    message = .piece fragment ∧ after = peer := by
  cases message with
  | announce index =>
    rw [apply_announce] at h
    split at h <;> cases h
  | bitfield field =>
    rw [apply_bitfield] at h
    split at h
    · cases h
    · split at h <;> cases h
  | piece other =>
    cases h
    exact ⟨rfl, rfl⟩
  | _ => cases h

/-- A peer that has announced nothing, and may have given leave. -/
def fresh (pieceCount : Nat) (leave : Bool) : Peer :=
  { (unknown pieceCount).connect.greet with choking := !leave }

/-- That peer after it has described itself. -/
def introduced (pieceCount : Nat) (leave : Bool) (description : Message) : Peer :=
  { fresh pieceCount leave with
    described := true
    pieces := description.pieces.filter (· < pieceCount) }

/-- A quiet message tells at most about leave. -/
theorem hear_quiet (h : message.isQuiet = true) :
    (fresh n leave).hear awaited message = .ok (fresh n (message.leave leave)) := by
  cases message with
  | announce _ | bitfield _ | piece _ => cases h
  | _ => rfl

/-- A description is taken in. -/
theorem hear_description (h : describes n (takeIn message) = true) :
    (fresh n leave).hear awaited message = .ok (introduced n leave message) := by
  cases message with
  | announce index =>
    have hlt : index < n := by simpa [describes] using h
    have hrange : ¬n ≤ index := Nat.not_le_of_lt hlt
    simp [hear, apply_announce, fresh, unknown, connect, greet, hrange, hasPiece, introduced,
      Message.pieces, hlt]
  | bitfield field =>
    have hsize : Tiling.count n 8 = Tiling.count field.size 8 := by simpa [describes] using h
    simp only [hear, apply_bitfield, fresh, unknown, connect, greet, hsize, Bool.false_eq_true,
      if_false, ne_eq, not_true_eq_false]
    rfl
  | _ => cases h

/-- Anything else is wrong before a description. -/
theorem cases_of_hear (h : (fresh n leave).hear awaited message = .ok after) :
    message.isQuiet = true ∧ after = fresh n (message.leave leave) ∨
      describes n (takeIn message) = true ∧ after = introduced n leave message := by
  by_cases hquiet : message.isQuiet = true
  · rw [hear_quiet hquiet] at h
    cases h
    exact .inl ⟨hquiet, rfl⟩
  · by_cases hdescribes : describes n (takeIn message) = true
    · rw [hear_description hdescribes] at h
      cases h
      exact .inr ⟨hdescribes, rfl⟩
    · cases message with
      | announce index =>
        have hrange : n ≤ index := by simpa [describes] using hdescribes
        simp [hear, apply_announce, fresh, unknown, connect, greet, hrange] at h
      | bitfield field =>
        have hsize : Tiling.count n 8 ≠ Tiling.count field.size 8 := by
          simpa [describes] using hdescribes
        simp [hear, apply_bitfield, fresh, unknown, connect, greet, hsize] at h
      | piece fragment => cases h
      | _ => exact absurd rfl hquiet

/-- The pieces that are missing are those that were not announced. -/
theorem Sound.missing_eq (h : peer.Sound) :
    peer.missing = ((List.range peer.pieceCount).filter (· ∉ peer.pieces)).length := by
  have hperm : peer.pieces.Perm ((List.range peer.pieceCount).filter (· ∈ peer.pieces)) := by
    refine (List.perm_ext_iff_of_nodup h.nodup (List.nodup_range.filter _)).mpr fun piece ↦ ?_
    rw [List.mem_filter, List.mem_range, decide_eq_true_iff]
    exact ⟨fun hpiece ↦ ⟨h.lt_pieceCount piece hpiece, hpiece⟩, And.right⟩
  have hsplit := List.length_eq_length_filter_add (l := List.range peer.pieceCount)
    (· ∈ peer.pieces)
  rw [List.length_range] at hsplit
  rw [missing, hperm.length_eq]
  simp only [decide_not]
  omega

/-- A peer that has described itself is sound. -/
theorem sound_introduced (n : Nat) (leave : Bool) (description : Message) :
    (introduced n leave description).Sound := by
  constructor
  · have hpieces : description.pieces.Nodup := by
      cases description with
      | bitfield field => exact Bitfield.nodup_membersFrom 0 field.bits
      | announce index => exact List.nodup_singleton index
      | _ => exact List.nodup_nil
    exact hpieces.filter _
  · intro piece hpiece
    exact of_decide_eq_true (List.mem_filter.mp hpiece).2

/-- A peer that has described itself lacks the pieces that it has not announced with that. -/
theorem missing_introduced :
    (introduced n leave description).missing =
      ((List.range n).filter (· ∉ description.pieces)).length := by
  have hcount : (introduced n leave description).pieceCount = n := rfl
  rw [(sound_introduced n leave description).missing_eq, hcount]
  congr 1
  refine List.filter_congr fun piece hpiece ↦ ?_
  have hlt : piece < n := List.mem_range.mp hpiece
  simp [introduced, hlt]

/-- It lacks none exactly if it has announced every piece with that. -/
theorem missing_introduced_eq_zero_iff :
    (introduced n leave description).missing = 0 ↔ ∀ piece < n, piece ∈ description.pieces := by
  rw [missing_introduced, List.length_eq_zero_iff, List.filter_eq_nil_iff]
  simp

/-- If it lacks some, the check for completeness counts them. -/
theorem ensureComplete_of_incomplete (h : ¬∀ piece < n, piece ∈ description.pieces) :
    (introduced n leave description).ensureComplete =
      .error (.incompleteFile ((List.range n).filter (· ∉ description.pieces)).length n) := by
  have hmissing : (introduced n leave description).missing ≠ 0 :=
    mt missing_introduced_eq_zero_iff.mp h
  rw [ensureComplete, if_neg hmissing, missing_introduced]
  rfl

/-- A peer that was described, has announced every piece, and withholds leave. -/
structure Withholding (peer : Peer) : Prop where
  /-- It was described. -/
  described : peer.described = true
  /-- It has announced every piece. -/
  complete : ∀ piece < peer.pieceCount, piece ∈ peer.pieces
  /-- It withholds leave. -/
  choking : peer.choking = true

/-- A fitting message that gives no leave tells nothing new. -/
theorem Withholding.hear_fitting (h : peer.Withholding)
    (hfitting : message.isFitting peer.pieceCount = true) (hleave : message ≠ .unchoke) :
    peer.hear awaited message = .ok peer := by
  have hdescribed := h.described
  have hchoking := h.choking
  cases message with
  | announce index =>
    have hlt : index < peer.pieceCount := by simpa [Message.isFitting] using hfitting
    have hrange : ¬peer.pieceCount ≤ index := Nat.not_le_of_lt hlt
    have hhas : peer.hasPiece index = true := List.contains_iff_mem.mpr (h.complete index hlt)
    simp only [hear, apply_announce, if_neg hrange, hhas, if_true, ← hdescribed]
  | bitfield field => rw [hear, apply_bitfield_of_described hdescribed]
  | choke => simp only [hear, apply, learn, Except.map, ← hchoking]
  | unchoke => exact absurd rfl hleave
  | piece fragment => cases hfitting
  | _ => rfl

/-- A message that is not fitting is wrong. -/
theorem isFitting_of_hear (h : peer.hear awaited message = .ok after) :
    message.isFitting peer.pieceCount = true := by
  cases message with
  | announce index =>
    by_cases hrange : peer.pieceCount ≤ index
    · simp [hear, apply_announce, hrange] at h
    · simpa [Message.isFitting] using hrange
  | piece fragment => cases h
  | _ => rfl

/-! ### What is told -/

/-- A peer tells one thing after the other, none of which is wrong, until enough is known. -/
inductive Tells (awaited : Awaited) (enough : Peer → Bool) : Peer → List Message → Peer → Prop where
  /-- Nothing more has to be told. -/
  | nil {peer : Peer} (done : enough peer = true) : Tells awaited enough peer [] peer
  /-- A message is heard, and then others. -/
  | cons {peer middle after : Peer} {message : Message} {messages : List Message}
      (more : enough peer = false) (heard : peer.hear awaited message = .ok middle)
      (rest : Tells awaited enough middle messages after) :
      Tells awaited enough peer (message :: messages) after

/-- A peer of which nothing is known describes itself by quiet messages and then a description. -/
theorem tells_description_iff {messages : List Message} :
    Tells awaited Peer.described (fresh n leave) messages after ↔
      ∃ (quiet : List Message) (description : Message), messages = quiet ++ [description] ∧
        (∀ message ∈ quiet, message.isQuiet = true) ∧ describes n (takeIn description) = true ∧
        after = introduced n (quiet.foldl Message.leave leave) description := by
  constructor
  · intro h
    generalize hpeer : fresh n leave = peer at h
    induction h generalizing leave with
    | nil done =>
      rw [← hpeer] at done
      cases done
    | @cons peer middle after message messages more heard rest ih =>
      rw [← hpeer] at heard
      rcases cases_of_hear heard with ⟨hquiet, rfl⟩ | ⟨hdescribes, rfl⟩
      · obtain ⟨quiet, description, rfl, hall, hdescribes, rfl⟩ := ih rfl
        exact ⟨message :: quiet, description, rfl, List.forall_mem_cons.mpr ⟨hquiet, hall⟩,
          hdescribes, rfl⟩
      · cases rest with
        | nil _ => exact ⟨[], message, rfl, by simp, hdescribes, rfl⟩
        | cons more _ _ => cases more
  · rintro ⟨quiet, description, rfl, hall, hdescribes, rfl⟩
    induction quiet generalizing leave with
    | nil => exact .cons rfl (hear_description hdescribes) (.nil rfl)
    | cons message quiet ih =>
      obtain ⟨hquiet, hall⟩ := List.forall_mem_cons.mp hall
      exact .cons rfl (hear_quiet hquiet) (ih hall)

/-- A peer that withholds leave gives it by fitting messages, the last of which gives leave. -/
theorem Withholding.tells_leave_iff {messages : List Message} (h : peer.Withholding) :
    Tells awaited (fun peer ↦ !peer.choking) peer messages after ↔
      ∃ others : List Message, messages = others ++ [.unchoke] ∧
        (∀ message ∈ others, message.isFitting peer.pieceCount = true ∧ message ≠ .unchoke) ∧
        after = { peer with choking := false, deadline := none } := by
  constructor
  · intro htells
    induction htells with
    | nil done => simp [h.choking] at done
    | @cons peer middle after message messages more heard rest ih =>
      by_cases hleave : message = .unchoke
      · subst hleave
        cases heard
        cases rest with
        | nil _ => exact ⟨[], rfl, by simp, rfl⟩
        | cons more _ _ => cases more
      · have hfitting := isFitting_of_hear heard
        rw [h.hear_fitting hfitting hleave] at heard
        cases heard
        obtain ⟨others, rfl, hall, rfl⟩ := ih h
        exact ⟨message :: others, rfl, List.forall_mem_cons.mpr ⟨⟨hfitting, hleave⟩, hall⟩, rfl⟩
  · rintro ⟨others, rfl, hall, rfl⟩
    have hmore : (!peer.choking) = false := by rw [h.choking]; rfl
    induction others with
    | nil => exact .cons hmore rfl (.nil rfl)
    | cons message others ih =>
      obtain ⟨⟨hfitting, hleave⟩, hall⟩ := List.forall_mem_cons.mp hall
      exact .cons hmore (h.hear_fitting hfitting hleave) (ih hall)

end Peer

/-! ### Listening -/

namespace Connection

open Activity

variable [Link σ] {scope : Scope} {clock after : Clock} {c c' : Connection σ} {awaited : Awaited}

/-- What comes of listening for one message is told by what comes over the link. -/
theorem receiveOther_apply (awaited : Awaited) (scope : Scope) (clock : Clock)
    (c : Connection σ) :
    receiveOther awaited scope clock c =
      let o := Link.receive scope clock c.link
      match o.ending with
      | .done message =>
        match c.peer.hear awaited message with
        | .ok peer => ⟨.done (), o.clock, { c with link := o.state, peer := peer }⟩
        | .error error => ⟨.failed error, o.clock, { c with link := o.state, peer := c.peer.fail }⟩
      | .failed error =>
        ⟨.failed error, o.clock, { c with link := o.state, peer := c.peer.endWith error }⟩
      | .expired => ⟨.expired, o.clock, { c with link := o.state }⟩
      | .interrupted => ⟨.interrupted, o.clock, { c with link := o.state }⟩
      | .stuck => ⟨.stuck, o.clock, { c with link := o.state }⟩ := by
  simp only [receiveOther, receiveNext, bind_apply, attempt, onLink, onPart]
  generalize Link.receive scope clock c.link = o
  obtain ⟨ending, after, t⟩ := o
  cases ending with
  | done message =>
    simp only [bind_apply, change, takeIn_eq, Peer.hear]
    cases happly : c.peer.apply message with
    | ok result =>
      obtain ⟨incoming, peer⟩ := result
      cases incoming with
      | block fragment =>
        obtain ⟨-, rfl⟩ := Peer.apply_eq_block happly
        rfl
      | _ => rfl
    | error error =>
      -- a message that makes no sense is no end of the stream
      rcases Peer.error_of_apply happly with ⟨fault, rfl⟩ | ⟨expected, received, rfl⟩ <;> rfl
  | _ => rfl

/-- Listening for one message is finished when a message has come that is not wrong. -/
theorem receiveOther_eq_done_iff :
    receiveOther awaited scope clock c = ⟨.done (), after, c'⟩ ↔
      ∃ message t peer, Link.receive scope clock c.link = ⟨.done message, after, t⟩ ∧
        c.peer.hear awaited message = .ok peer ∧ c' = { c with link := t, peer := peer } := by
  rw [receiveOther_apply]
  generalize Link.receive scope clock c.link = o
  obtain ⟨ending, later, t⟩ := o
  constructor
  · intro h
    cases ending with
    | done message =>
      simp only at h
      cases hheard : c.peer.hear awaited message with
      | ok peer =>
        rw [hheard] at h
        cases h
        exact ⟨message, t, peer, rfl, hheard, rfl⟩
      | error error =>
        rw [hheard] at h
        cases h
    | _ => cases h
  · rintro ⟨message, u, peer, hcame, hheard, rfl⟩
    cases hcame
    simp only [hheard]

/-- Listening for one message is punctual over a punctual link. -/
theorem punctual_receiveOther (h : Punctual (Link.receive (σ := σ))) (awaited : Awaited) :
    Punctual (receiveOther (σ := σ) awaited) := by
  have hfails (f : Peer → Peer) (error : Error) {α : Type} :
      Punctual (do modify (withPeer f); fail error : Activity (Connection σ) α) :=
    punctual_bind (punctual_modify _) fun _ ↦ punctual_fail _
  apply punctual_bind
  · apply punctual_bind (punctual_attempt (punctual_onPart h))
    intro result
    cases result with
    | error error => exact hfails _ _
    | ok message =>
      apply punctual_bind (punctual_change _)
      intro taken
      cases taken with
      | error error => exact hfails _ _
      | ok incoming => exact punctual_pure _
  · intro incoming
    cases incoming with
    | block fragment => exact hfails _ _
    | _ => exact punctual_pure _

/-- A round listens for one message, by a deadline if there is one, unless what is known is
enough. -/
structure Listens (awaited : Awaited) (enough : Peer → Bool) (limit : Option Nat)
    (round : Activity (Connection σ) (Option Unit)) : Prop where
  /-- What is known may be enough. -/
  done : ∀ {scope clock c}, enough c.peer = true → round scope clock c = ⟨.done (some ()), clock, c⟩
  /-- Else it goes on with one message. -/
  goesOn : ∀ {scope clock c result after c'}, enough c.peer = false →
    limit.all (clock.now ≤ ·) = true →
    (round scope clock c = ⟨.done result, after, c'⟩ ↔ result = none ∧
      receiveOther awaited scope clock c = ⟨.done (), after, c'⟩ ∧
      limit.all (after.now ≤ ·) = true)

/-- A round listens if it is over when what is known is enough, and listens once otherwise. -/
theorem listens_of_step {enough : Peer → Bool} {limit : Option Nat}
    {round : Activity (Connection σ) (Option Unit)}
    (step : Connection σ → Activity (Connection σ) Unit)
    (hround : ∀ scope clock c, round scope clock c =
      (if enough c.peer then pure (some ()) else step c >>= fun _ ↦ pure none) scope clock c)
    (hstep : ∀ {scope clock c after c'}, limit.all (clock.now ≤ ·) = true →
      (step c scope clock c = ⟨.done (), after, c'⟩ ↔
        receiveOther awaited scope clock c = ⟨.done (), after, c'⟩ ∧
          limit.all (after.now ≤ ·) = true)) :
    Listens awaited enough limit round where
  done {scope clock c} h := by
    rw [hround, if_pos h]
    rfl
  goesOn {scope clock c result after c'} h hclock := by
    rw [hround, if_neg (by simp [h]), ← hstep hclock]
    constructor
    · intro hdone
      obtain ⟨_, _, _, hfirst, hrest⟩ := bind_eq_done hdone
      cases hrest
      exact ⟨rfl, hfirst⟩
    · rintro ⟨rfl, hfirst⟩
      exact bind_of_done hfirst

/-- The wait for a description listens. -/
theorem listens_descriptorRound :
    Listens (σ := σ) .availability Peer.described none descriptorRound :=
  listens_of_step (fun _ ↦ receiveOther .availability) (fun _ _ _ ↦ rfl) (by simp)

/-- The wait for leave listens by its deadline. -/
theorem listens_unchokeRound (h : Punctual (Link.receive (σ := σ))) (moment : Nat) :
    Listens (σ := σ) .unchoke (fun peer ↦ !peer.choking) (some moment) (unchokeRound moment) := by
  apply listens_of_step fun c ↦ within moment (receiveOther .unchoke)
    (failWith (.unchokeTimeout (.ofMillis c.unchokeTimeout)))
  · intro scope clock c
    show (if c.peer.choking then _ else _ : Activity (Connection σ) _) scope clock c = _
    cases c.peer.choking <;> rfl
  · intro scope clock c after c' hclock
    simp only [Option.all_some, decide_eq_true_eq] at hclock ⊢
    refine within_eq_done_iff (punctual_receiveOther h _) hclock fun _ _ hlate ↦ ?_
    cases hlate

/-- Listening is finished when messages have come, by the deadline if there is one, by which the
peer has told enough. -/
theorem Listens.repeatUntil_eq_done_iff {enough : Peer → Bool} {limit : Option Nat}
    {round : Activity (Connection σ) (Option Unit)} {advances : Advances budget round}
    (h : Listens awaited enough limit round) (hpunctual : Punctual (Link.receive (σ := σ)))
    (hclock : limit.all (clock.now ≤ ·) = true) :
    repeatUntil budget round advances scope clock c = ⟨.done (), after, c'⟩ ↔
      ∃ messages t peer, Comes scope clock c.link messages after t ∧
        Peer.Tells awaited enough c.peer messages peer ∧ limit.all (after.now ≤ ·) = true ∧
        c' = { c with link := t, peer := peer } := by
  constructor
  · intro hdone
    -- on what is left to be used up, which is less after a message
    induction hn : c.budget using Nat.strongRecOn generalizing clock c with
    | ind n ih =>
      rw [repeatUntil_eq_bind] at hdone
      obtain ⟨result, middle, c₁, hround, hrest⟩ := bind_eq_done hdone
      cases henough : enough c.peer with
      | true =>
        rw [h.done henough] at hround
        cases hround
        cases hrest
        exact ⟨[], _, _, .nil _ _, .nil henough, hclock, rfl⟩
      | false =>
        obtain ⟨rfl, hfirst, hmiddle⟩ := (h.goesOn henough hclock).mp hround
        have hless := lt_of_advances advances (congrArg Outcome.ending hround)
        rw [hround, hn] at hless
        obtain ⟨message, t, peer, hcame, hheard, rfl⟩ := receiveOther_eq_done_iff.mp hfirst
        obtain ⟨messages, u, last, hcomes, htells, hafter, rfl⟩ :=
          ih _ hless hmiddle hrest rfl
        exact ⟨message :: messages, u, last, .cons hcame hcomes, .cons henough hheard htells,
          hafter, rfl⟩
  · rintro ⟨messages, t, last, hcomes, htells, hafter, hc'⟩
    rw [hc']
    clear hc'
    induction messages generalizing clock c with
    | nil =>
      cases hcomes
      cases htells with
      | nil henough =>
        rw [repeatUntil_eq_bind, bind_of_done (h.done henough)]
        rfl
    | cons message messages ih =>
      cases hcomes with
      | @cons _ middle _ _ u _ _ _ hcame hrest =>
        cases htells with
        | @cons _ peer _ _ _ hmore hheard htells =>
          have hmiddle : limit.all (middle.now ≤ ·) = true := by
            have hforward := hrest.forward hpunctual
            cases limit with
            | none => rfl
            | some moment =>
              simp only [Option.all_some, decide_eq_true_eq] at hafter ⊢
              exact Nat.le_trans hforward hafter
          have hfirst := receiveOther_eq_done_iff.mpr ⟨message, u, peer, hcame, hheard, rfl⟩
          rw [repeatUntil_eq_bind,
            bind_of_done ((h.goesOn hmore hclock).mpr ⟨rfl, hfirst, hmiddle⟩)]
          exact ih hmiddle hrest htells

variable {n moment : Nat} {leave : Bool}

/-- The wait for a description is finished when quiet messages and then a description have come. -/
theorem awaitDescriptor_eq_done_iff (hpunctual : Punctual (Link.receive (σ := σ)))
    (hpeer : c.peer = Peer.fresh n leave) :
    awaitDescriptor scope clock c = ⟨.done (), after, c'⟩ ↔
      ∃ (quiet : List Message) (description : Message) (t : σ),
        Comes scope clock c.link (quiet ++ [description]) after t ∧
        (∀ message ∈ quiet, message.isQuiet = true) ∧
        Peer.Event.describes n (.takeIn description) = true ∧
        c' = { c with
          link := t
          peer := Peer.introduced n (quiet.foldl Message.leave leave) description } := by
  rw [awaitDescriptor, listens_descriptorRound.repeatUntil_eq_done_iff hpunctual rfl, hpeer]
  constructor
  · rintro ⟨messages, t, peer, hcomes, htells, -, rfl⟩
    obtain ⟨quiet, description, rfl, hquiet, hdescribes, rfl⟩ :=
      Peer.tells_description_iff.mp htells
    exact ⟨quiet, description, t, hcomes, hquiet, hdescribes, rfl⟩
  · rintro ⟨quiet, description, t, hcomes, hquiet, hdescribes, rfl⟩
    exact ⟨_, t, _, hcomes,
      Peer.tells_description_iff.mpr ⟨quiet, description, rfl, hquiet, hdescribes, rfl⟩, rfl, rfl⟩

/-- The deadline of the wait for leave is looked up when it begins. -/
theorem awaitUnchoke_apply (scope : Scope) (clock : Clock) (c : Connection σ) :
    awaitUnchoke scope clock c =
      repeatUntil budget (unchokeRound (c.peer.deadline.getD (clock.now + c.unchokeTimeout)))
        (advances_unchokeRound _) scope clock c := rfl

/-- The wait for leave, of a peer that withholds it, is finished when fitting messages have come by
the deadline, the last of which gives leave. -/
theorem awaitUnchoke_eq_done_iff (hpunctual : Punctual (Link.receive (σ := σ)))
    (hpeer : c.peer.Withholding) (hdeadline : c.peer.deadline = some moment)
    (hclock : clock.now ≤ moment) :
    awaitUnchoke scope clock c = ⟨.done (), after, c'⟩ ↔
      ∃ (others : List Message) (t : σ),
        Comes scope clock c.link (others ++ [.unchoke]) after t ∧
        (∀ message ∈ others, message.isFitting c.peer.pieceCount = true ∧ message ≠ .unchoke) ∧
        after.now ≤ moment ∧
        c' = { c with link := t, peer := { c.peer with choking := false, deadline := none } } := by
  rw [awaitUnchoke_apply, hdeadline, Option.getD_some,
    (listens_unchokeRound hpunctual moment).repeatUntil_eq_done_iff hpunctual
      (decide_eq_true hclock)]
  simp only [Option.all_some, decide_eq_true_eq]
  constructor
  · rintro ⟨messages, t, peer, hcomes, htells, hafter, rfl⟩
    obtain ⟨others, rfl, hfitting, rfl⟩ := hpeer.tells_leave_iff.mp htells
    exact ⟨others, t, hcomes, hfitting, hafter, rfl⟩
  · rintro ⟨others, t, hcomes, hfitting, hafter, rfl⟩
    exact ⟨_, t, _, hcomes, hpeer.tells_leave_iff.mpr ⟨others, rfl, hfitting, rfl⟩, hafter, rfl⟩

/-- Nobody waits for leave that was given. -/
theorem awaitUnchoke_of_leave (h : c.peer.choking = false) :
    awaitUnchoke scope clock c = ⟨.done (), clock, c⟩ := by
  rw [awaitUnchoke_apply]
  generalize c.peer.deadline.getD (clock.now + c.unchokeTimeout) = moment
  have hround : unchokeRound moment scope clock c = ⟨.done (some ()), clock, c⟩ := by
    show (if c.peer.choking then _ else _ : Activity (Connection σ) _) scope clock c = _
    rw [h]
    rfl
  rw [repeatUntil_eq_bind, bind_of_done hround]
  rfl

end Connection

end PeerWire
