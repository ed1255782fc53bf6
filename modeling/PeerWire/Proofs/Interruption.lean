import Mathlib.Order.Defs.Unbundled
import PeerWire.Time.Activity

/-!
# Being told to stop

Two runs of an activity are compared. In one of them the session is told to stop, at some moment or
by something in the state. The other one is never told, and its state is calm, which is to say that
nothing in it does that. They run alike until the first one is interrupted, if it is, and by then it
has come to a state that the other one passes on its way. Main statement: whatever is made of
activities that can be interrupted like this can be, too.
-/

namespace PeerWire

variable {σ τ α β : Type}

/-! ### Waiting -/

namespace Clock

/-- The same time, for a session that is told to stop at a moment, or not at all. -/
def told (clock : Clock) (stopAt : Option Nat) : Clock := { clock with stopAt := stopAt }

/-- Of two waits the first one is never told to stop, and the second one ends alike or is
interrupted, if it may be. -/
structure WaitsAlike (scope : Scope) (stopAt : Option Nat) (free cut : Ending α × Clock) :
    Prop where
  /-- The first one is never interrupted. -/
  uninterrupted : free.1 ≠ .interrupted
  /-- It is not told to stop. -/
  untold : free.2.stopAt = none
  /-- The second one ends alike or is interrupted. -/
  cut : cut = (free.1, free.2.told stopAt) ∨ scope.interruptible = true ∧ cut.1 = .interrupted

/-- Who is never told to stop waits up to the deadline. -/
theorem limit?_untold (scope : Scope) (now : Nat) :
    (limit? ⟨now, none⟩ scope : Option (Nat × Ending α)) =
      scope.deadline.map fun deadline ↦ (max now deadline, .expired) := by
  simp only [limit?, Option.map_none, ite_self]
  cases scope.deadline <;> rfl

/-- Who is told to stop waits up to the same moment, or is interrupted no later. -/
theorem limit?_told (scope : Scope) (now : Nat) (stopAt : Option Nat) :
    (limit? ⟨now, stopAt⟩ scope : Option (Nat × Ending α)) = limit? ⟨now, none⟩ scope ∨
      scope.interruptible = true ∧ ∃ stop,
        limit? ⟨now, stopAt⟩ scope = some (stop, (.interrupted : Ending α)) ∧
        ∀ (limit : Nat) (ending : Ending α),
          limit? ⟨now, none⟩ scope = some (limit, ending) → stop ≤ limit := by
  cases stopAt with
  | none => exact .inl rfl
  | some stop =>
    rw [limit?_untold]
    by_cases hinterruptible : scope.interruptible = true
    · cases hdeadline : scope.deadline with
      | none =>
        right
        refine ⟨hinterruptible, max now stop, ?_, nofun⟩
        simp only [limit?, hinterruptible, hdeadline, if_true, Option.map_none, Option.map_some]
      | some deadline =>
        by_cases hle : max now deadline ≤ max now stop
        · left
          simp only [limit?, hinterruptible, hdeadline, if_true, Option.map_some, hle]
        · right
          refine ⟨hinterruptible, max now stop, ?_, ?_⟩
          · simp only [limit?, hinterruptible, hdeadline, if_true, Option.map_some, hle, if_false]
          · rintro limit ending ⟨⟩
            omega
    · left
      simp only [limit?, hinterruptible, Bool.false_eq_true, if_false]
      cases scope.deadline <;> rfl

/-- Being told to stop makes no difference to how time passes. -/
theorem passTo_told (scope : Scope) (now : Nat) (stopAt : Option Nat) (moment : Nat)
    {ending : Ending α} (hending : ending ≠ .interrupted) :
    WaitsAlike scope stopAt (passTo ⟨now, none⟩ scope moment ending)
      (passTo ⟨now, stopAt⟩ scope moment ending) := by
  unfold passTo
  split
  · exact ⟨nofun, rfl, .inl rfl⟩
  · exact ⟨hending, rfl, .inl rfl⟩

/-- Where a wait is interrupted another one that goes on for longer is past the horizon, if that
one is. -/
theorem passTo_interrupted {scope : Scope} {now moment later : Nat} {stopAt : Option Nat}
    {ending : Ending α} (hinterruptible : scope.interruptible = true) (hle : moment ≤ later)
    (hending : ending ≠ .interrupted) :
    WaitsAlike scope stopAt (passTo ⟨now, none⟩ scope later ending)
      (passTo ⟨now, stopAt⟩ scope moment .interrupted) := by
  by_cases hpast : scope.horizon.any (· < moment) = true
  · rw [passTo_of_past hpast hle, passTo_of_past hpast (Nat.le_refl _)]
    exact ⟨nofun, rfl, .inl rfl⟩
  · obtain ⟨huninterrupted, huntold, -⟩ := passTo_told scope now stopAt later hending
    refine ⟨huninterrupted, huntold, .inr ⟨hinterruptible, ?_⟩⟩
    simp only [passTo, if_neg hpast]

/-- A wait for something that never comes may be told to stop. -/
theorem waitForever_told (scope : Scope) (now : Nat) (stopAt : Option Nat) :
    WaitsAlike scope stopAt (waitForever ⟨now, none⟩ scope : Ending α × Clock)
      (waitForever ⟨now, stopAt⟩ scope) := by
  unfold waitForever
  obtain h | ⟨hinterruptible, stop, h, hlater⟩ := limit?_told (α := α) scope now stopAt
  · rw [h, limit?_untold]
    cases scope.deadline with
    | none => exact ⟨nofun, rfl, .inl rfl⟩
    | some deadline => exact passTo_told scope now stopAt _ nofun
  · rw [h]
    rw [limit?_untold] at hlater ⊢
    cases hdeadline : scope.deadline with
    | none =>
      by_cases hpast : scope.horizon.any (· < stop) = true
      · simp only [Option.map_none, passTo_of_past hpast (Nat.le_refl _)]
        exact ⟨nofun, rfl, .inl rfl⟩
      · refine ⟨nofun, rfl, .inr ⟨hinterruptible, ?_⟩⟩
        simp only [passTo, if_neg hpast]
    | some deadline =>
      rw [hdeadline] at hlater
      exact passTo_interrupted hinterruptible (hlater _ _ rfl) nofun

/-- A wait for a moment may be told to stop. -/
theorem waitUntil_told (scope : Scope) (now : Nat) (stopAt : Option Nat) (moment : Nat) :
    WaitsAlike scope stopAt (waitUntil ⟨now, none⟩ scope moment)
      (waitUntil ⟨now, stopAt⟩ scope moment) := by
  simp only [waitUntil]
  obtain h | ⟨hinterruptible, stop, h, hlater⟩ := limit?_told (α := Unit) scope now stopAt
  · rw [h, limit?_untold]
    cases scope.deadline with
    | none => exact passTo_told scope now stopAt _ (by simp)
    | some deadline =>
      simp only [Option.map_some]
      split
      · exact passTo_told scope now stopAt _ (by simp)
      · exact passTo_told scope now stopAt _ (by simp)
  · rw [h]
    rw [limit?_untold] at hlater ⊢
    by_cases hin : max now moment ≤ stop
    · simp only [hin, if_true]
      cases hdeadline : scope.deadline with
      | none => exact passTo_told scope now stopAt _ (by simp)
      | some deadline =>
        rw [hdeadline] at hlater
        have hdue := Nat.le_trans hin (hlater _ _ rfl)
        simp only [Option.map_some, hdue, if_true]
        exact passTo_told scope now stopAt _ (by simp)
    · simp only [hin, if_false]
      cases hdeadline : scope.deadline with
      | none => exact passTo_interrupted hinterruptible (by omega) (by simp)
      | some deadline =>
        rw [hdeadline] at hlater
        have hdue := hlater _ _ rfl
        simp only [Option.map_some]
        split
        · exact passTo_interrupted hinterruptible (by omega) (by simp)
        · exact passTo_interrupted hinterruptible hdue (by simp)

end Clock

/-- Another value makes no ending one of being interrupted. -/
theorem Ending.map_ne_interrupted {f : α → β} {ending : Ending α} (h : ending ≠ .interrupted) :
    ending.map f ≠ .interrupted := by
  cases ending with
  | interrupted => exact absurd rfl h
  | _ => simp [Ending.map]

/-- An ending with some value is none without a value. -/
theorem Ending.map_some_ne_done_none (ending : Ending α) : ending.map some ≠ .done none := by
  cases ending <;> simp [Ending.map]

/-! ### Two runs -/

/-- Of two outcomes from a state the first one is that of a run that was never told to stop, and
comes to a later state. The second one is the same, or it was interrupted in a state on the way. -/
inductive Outcome.CutShort (calm : σ → σ) (before : σ → σ → Prop) (scope : Scope) (s : σ) :
    Outcome σ α → Outcome σ α → Prop where
  /-- They end alike. -/
  | same {ending : Ending α} {now : Nat} {stopAt : Option Nat} {t : σ}
      (uninterrupted : ending ≠ .interrupted) (later : before s t) :
      CutShort calm before scope s ⟨ending, ⟨now, none⟩, calm t⟩ ⟨ending, ⟨now, stopAt⟩, t⟩
  /-- The second one was interrupted on the way. -/
  | interrupted {ending : Ending α} {now : Nat} {clock : Clock} {t u : σ}
      (uninterrupted : ending ≠ .interrupted) (later : before s t)
      (interruptible : scope.interruptible = true) (onTheWay : before u t) :
      CutShort calm before scope s ⟨ending, ⟨now, none⟩, calm t⟩ ⟨.interrupted, clock, u⟩

variable {calm : σ → σ} {before : σ → σ → Prop} {scope : Scope} {s t : σ} {free cut : Outcome σ α}

/-- The first run is never interrupted. -/
theorem Outcome.CutShort.uninterrupted (h : CutShort calm before scope s free cut) :
    free.ending ≠ .interrupted := by
  cases h with
  | same uninterrupted later => exact uninterrupted
  | interrupted uninterrupted later interruptible onTheWay => exact uninterrupted

/-- The first run comes to a later state. -/
theorem Outcome.CutShort.exists_later (h : CutShort calm before scope s free cut) :
    ∃ t, free.state = calm t ∧ before s t := by
  cases h with
  | same uninterrupted later => exact ⟨_, rfl, later⟩
  | interrupted uninterrupted later interruptible onTheWay => exact ⟨_, rfl, later⟩

/-- What is later than a state is later than the states before. -/
theorem Outcome.CutShort.of_before [IsPreorder σ before]
    (h : CutShort calm before scope t free cut) (hbefore : before s t) :
    CutShort calm before scope s free cut := by
  cases h with
  | same uninterrupted later => exact .same uninterrupted (trans_of before hbefore later)
  | interrupted uninterrupted later interruptible onTheWay =>
    exact .interrupted uninterrupted (trans_of before hbefore later) interruptible onTheWay

/-- Where one run goes on and the other one was interrupted before, that was on the way. -/
theorem Outcome.CutShort.of_interrupted [IsPreorder σ before] {u : σ} {clock : Clock}
    (h : CutShort calm before scope t free cut) (hbefore : before s t)
    (interruptible : scope.interruptible = true) (onTheWay : before u t) :
    CutShort calm before scope s free ⟨.interrupted, clock, u⟩ := by
  cases h with
  | same uninterrupted later =>
    exact .interrupted uninterrupted (trans_of before hbefore later) interruptible
      (trans_of before onTheWay later)
  | interrupted uninterrupted later =>
    exact .interrupted uninterrupted (trans_of before hbefore later) interruptible
      (trans_of before onTheWay later)

namespace Activity

/-- An activity ends as it does when nobody is told to stop, or it is interrupted on the way. -/
def Breakable (calm : σ → σ) (before : σ → σ → Prop) (x : Activity σ α) : Prop :=
  ∀ scope now stopAt s,
    Outcome.CutShort calm before scope s (x scope ⟨now, none⟩ (calm s)) (x scope ⟨now, stopAt⟩ s)

/-! ### Single activities -/

/-- What takes no time cannot be interrupted. -/
theorem breakable_of_instant {x : Activity σ α} (h : ∀ s, ∃ ending t, ending ≠ .interrupted ∧
    before s t ∧ ∀ scope clock, x scope clock (calm s) = ⟨ending, clock, calm t⟩ ∧
      x scope clock s = ⟨ending, clock, t⟩) : Breakable calm before x := by
  intro scope now stopAt s
  obtain ⟨ending, t, huninterrupted, hlater, hx⟩ := h s
  rw [(hx scope ⟨now, none⟩).1, (hx scope ⟨now, stopAt⟩).2]
  exact .same huninterrupted hlater

/-- A change cannot be interrupted. -/
theorem breakable_change {f : σ → α × σ} (hcalm : ∀ s, f (calm s) = ((f s).1, calm (f s).2))
    (hbefore : ∀ s, before s (f s).2) : Breakable calm before (change f) := by
  apply breakable_of_instant
  refine fun s ↦ ⟨.done (f s).1, (f s).2, nofun, hbefore s, fun _ _ ↦ ⟨?_, rfl⟩⟩
  simp only [change, hcalm]

/-- A change without a value cannot be interrupted. -/
theorem breakable_modify {f : σ → σ} (hcalm : ∀ s, f (calm s) = calm (f s))
    (hbefore : ∀ s, before s (f s)) : Breakable calm before (modify f) := by
  apply breakable_of_instant
  refine fun s ↦ ⟨.done (), f s, nofun, hbefore s, fun _ _ ↦ ⟨?_, rfl⟩⟩
  simp only [modify, hcalm]

variable [IsPreorder σ before]

/-- Finishing at once cannot be interrupted. -/
theorem breakable_pure (value : α) : Breakable calm before (pure value) :=
  breakable_of_instant fun s ↦
    ⟨.done value, s, nofun, refl_of before s, fun _ _ ↦ ⟨rfl, rfl⟩⟩

/-- Failing cannot be interrupted. -/
theorem breakable_fail (error : Error) : Breakable calm before (fail error : Activity σ α) :=
  breakable_of_instant fun s ↦
    ⟨.failed error, s, nofun, refl_of before s, fun _ _ ↦ ⟨rfl, rfl⟩⟩

/-- Taking over a result cannot be interrupted. -/
theorem breakable_ofExcept (result : Except Error α) :
    Breakable calm before (ofExcept result) := by
  cases result with
  | ok value => exact breakable_pure value
  | error error => exact breakable_fail error

/-- Looking at the time cannot be interrupted. -/
theorem breakable_now : Breakable calm before now :=
  fun _ _ _ s ↦ .same nofun (refl_of before s)

/-- Waiting in vain may be interrupted. -/
theorem breakable_never : Breakable calm before (never : Activity σ α) := by
  intro scope now stopAt s
  have hwait := Clock.waitForever_told (α := α) scope now stopAt
  simp only [never]
  generalize (Clock.waitForever ⟨now, none⟩ scope : Ending α × Clock) = free at hwait ⊢
  generalize (Clock.waitForever ⟨now, stopAt⟩ scope : Ending α × Clock) = cut at hwait ⊢
  obtain ⟨ending, ⟨after, _⟩⟩ := free
  obtain ⟨huninterrupted, rfl, rfl | ⟨hinterruptible, hcut⟩⟩ := hwait
  · exact .same huninterrupted (refl_of before s)
  · obtain ⟨cutEnding, clock⟩ := cut
    obtain rfl : cutEnding = .interrupted := hcut
    exact .interrupted huninterrupted (refl_of before s) hinterruptible (refl_of before s)

/-! ### What is made of activities -/

variable {x : Activity σ α}

/-- A sequence may be interrupted in its first part or in the rest of it. -/
theorem breakable_bind {f : α → Activity σ β} (hx : Breakable calm before x)
    (hf : ∀ value, Breakable calm before (f value)) : Breakable calm before (x >>= f) := by
  intro scope now stopAt s
  have hx := hx scope now stopAt s
  rw [bind_apply, bind_apply]
  generalize x scope ⟨now, none⟩ (calm s) = free at hx ⊢
  generalize x scope ⟨now, stopAt⟩ s = cut at hx ⊢
  cases hx with
  | @same ending after stopAt t huninterrupted hlater =>
    cases ending with
    | done value => exact (hf value scope after stopAt t).of_before hlater
    | interrupted => exact absurd rfl huninterrupted
    | _ => exact .same nofun hlater
  | @interrupted ending after clock t u huninterrupted hlater hinterruptible honTheWay =>
    cases ending with
    | done value =>
      exact (hf value scope after none t).of_interrupted hlater hinterruptible honTheWay
    | interrupted => exact absurd rfl huninterrupted
    | _ => exact .interrupted nofun hlater hinterruptible honTheWay

omit [IsPreorder σ before] in
/-- What depends on the state may be interrupted if it may be for each state, and is the same for a
calm one. -/
theorem breakable_get_bind {f : σ → Activity σ β} (hcalm : ∀ s, f (calm s) = f s)
    (h : ∀ s, Breakable calm before (f s)) : Breakable calm before (get >>= f) := by
  intro scope now stopAt s
  rw [bind_apply, bind_apply]
  simp only [get, hcalm]
  exact h s scope now stopAt s

omit [IsPreorder σ before] in
/-- Going on after a failure may be interrupted. -/
theorem breakable_attempt (hx : Breakable calm before x) : Breakable calm before (attempt x) := by
  intro scope now stopAt s
  have hx := hx scope now stopAt s
  simp only [attempt]
  generalize x scope ⟨now, none⟩ (calm s) = free at hx ⊢
  generalize x scope ⟨now, stopAt⟩ s = cut at hx ⊢
  cases hx with
  | @same ending after stopAt t huninterrupted hlater =>
    cases ending with
    | interrupted => exact absurd rfl huninterrupted
    | _ => exact .same (by simp) hlater
  | @interrupted ending after clock t u huninterrupted hlater hinterruptible honTheWay =>
    cases ending with
    | interrupted => exact absurd rfl huninterrupted
    | _ => exact .interrupted (by simp) hlater hinterruptible honTheWay

omit [IsPreorder σ before] in
/-- Working on a part may be interrupted. -/
theorem breakable_onPart {calmer : τ → τ} {whole : τ → τ → Prop} {part : τ → σ} {put : τ → σ → τ}
    (hx : Breakable calm before x) (hpart : ∀ u, part (calmer u) = calm (part u))
    (hput : ∀ u s, put (calmer u) (calm s) = calmer (put u s))
    (hlater : ∀ u s, before (part u) s → whole u (put u s))
    (hway : ∀ u s s', before s s' → whole (put u s) (put u s')) :
    Breakable calmer whole (onPart part put x) := by
  intro scope now stopAt u
  have hx := hx scope now stopAt (part u)
  simp only [onPart, hpart]
  generalize x scope ⟨now, none⟩ (calm (part u)) = free at hx ⊢
  generalize x scope ⟨now, stopAt⟩ (part u) = cut at hx ⊢
  cases hx with
  | same huninterrupted hgrows =>
    rw [hput]
    exact .same huninterrupted (hlater u _ hgrows)
  | interrupted huninterrupted hgrows hinterruptible honTheWay =>
    rw [hput]
    exact .interrupted huninterrupted (hlater u _ hgrows) hinterruptible (hway u _ _ honTheWay)

/-- A limit in time may be interrupted within it and behind it. -/
theorem breakable_within {moment : Nat} {late : Activity σ α} (hx : Breakable calm before x)
    (hlate : Breakable calm before late) : Breakable calm before (within moment x late) := by
  intro scope now stopAt s
  have hx := hx (scope.upTo moment) now stopAt s
  rw [within_apply, within_apply]
  generalize x (scope.upTo moment) ⟨now, none⟩ (calm s) = free at hx ⊢
  generalize x (scope.upTo moment) ⟨now, stopAt⟩ s = cut at hx ⊢
  cases hx with
  | @same ending after stopAt t huninterrupted hlater =>
    cases ending with
    | expired =>
      simp only
      split
      · exact (hlate scope after stopAt t).of_before hlater
      · exact .same nofun hlater
    | interrupted => exact absurd rfl huninterrupted
    | _ => exact .same nofun hlater
  | @interrupted ending after clock t u huninterrupted hlater hinterruptible honTheWay =>
    cases ending with
    | expired =>
      simp only
      split
      · exact (hlate scope after none t).of_interrupted hlater hinterruptible honTheWay
      · exact .interrupted nofun hlater hinterruptible honTheWay
    | interrupted => exact absurd rfl huninterrupted
    | _ => exact .interrupted nofun hlater hinterruptible honTheWay

/-- A repetition may be interrupted in any round. What carries the proof is that a round that goes
on uses up some of the quantity. -/
theorem breakable_repeatUntil {quantity : σ → Nat} {round : Activity σ (Option α)}
    {advances : Advances quantity round} (h : Breakable calm before round) :
    Breakable calm before (repeatUntil quantity round advances) := by
  intro scope now stopAt s
  induction hn : quantity (calm s) using Nat.strongRecOn generalizing now stopAt s with
  | ind n ih =>
    have hless : (round scope ⟨now, none⟩ (calm s)).ending = .done none →
        quantity (round scope ⟨now, none⟩ (calm s)).state < quantity (calm s) :=
      lt_of_advances advances
    have hround := h scope now stopAt s
    rw [repeatUntil_apply quantity round advances scope ⟨now, none⟩ (calm s),
      repeatUntil_apply quantity round advances scope ⟨now, stopAt⟩ s]
    generalize round scope ⟨now, none⟩ (calm s) = free at hround hless ⊢
    generalize round scope ⟨now, stopAt⟩ s = cut at hround ⊢
    cases hround with
    | @same ending after stopAt t huninterrupted hlater =>
      cases ending with
      | done result =>
        cases result with
        | none => exact (ih _ (hn ▸ hless rfl) after stopAt t rfl).of_before hlater
        | some value => exact .same nofun hlater
      | interrupted => exact absurd rfl huninterrupted
      | _ => exact .same nofun hlater
    | @interrupted ending after clock t u huninterrupted hlater hinterruptible honTheWay =>
      cases ending with
      | done result =>
        cases result with
        | none =>
          exact (ih _ (hn ▸ hless rfl) after none t rfl).of_interrupted hlater hinterruptible
            honTheWay
        | some value => exact .interrupted nofun hlater hinterruptible honTheWay
      | interrupted => exact absurd rfl huninterrupted
      | _ => exact .interrupted nofun hlater hinterruptible honTheWay

omit [IsPreorder σ before] in
/-- Something done with a value of its own may be interrupted. -/
theorem breakable_withOwn {own : τ} {calmer : σ × τ → σ × τ} {whole : σ × τ → σ × τ → Prop}
    {x : Activity (σ × τ) α} (hx : Breakable calmer whole x)
    (hcalm : ∀ s t, calmer (s, t) = (calm s, t)) (hbefore : ∀ u v, whole u v → before u.1 v.1) :
    Breakable calm before (withOwn own x) := by
  intro scope now stopAt s
  have hx := hx scope now stopAt (s, own)
  rw [hcalm] at hx
  simp only [withOwn]
  generalize x scope ⟨now, none⟩ (calm s, own) = free at hx ⊢
  generalize x scope ⟨now, stopAt⟩ (s, own) = cut at hx ⊢
  cases hx with
  | same huninterrupted hlater =>
    rw [hcalm]
    exact .same huninterrupted (hbefore _ _ hlater)
  | interrupted huninterrupted hlater hinterruptible honTheWay =>
    rw [hcalm]
    exact .interrupted huninterrupted (hbefore _ _ hlater) hinterruptible (hbefore _ _ honTheWay)

omit [IsPreorder σ before] in
/-- Something that ends when the session is told to stop has no value if it was interrupted. -/
theorem untilStopped_of_interrupted {clock later : Clock} {s t : σ}
    (hstopped : clock.isStopped = false)
    (h : x { scope with interruptible := true } clock s = ⟨.interrupted, later, t⟩) :
    untilStopped x scope clock s = ⟨.done none, later, t⟩ := by
  simp only [untilStopped, hstopped, h, Bool.false_eq_true, if_false]

end Activity

/-! ### Up to a deadline -/

/-- An outcome comes no later than a limit, and whatever it is it was not for being told to
stop. -/
structure Outcome.InTime (limit : Nat) (o : Outcome σ α) : Prop where
  /-- The limit is kept. -/
  inTime : o.clock.now ≤ limit
  /-- It was not interrupted. -/
  uninterrupted : o.ending ≠ .interrupted
  /-- There was an end. -/
  ended : o.ending ≠ .stuck

namespace Activity

/-- Up to a deadline that is its only limit an activity comes to an end, whoever is told to stop. -/
def Prompt (x : Activity σ α) : Prop :=
  ∀ deadline clock s, (x ⟨some deadline, none, false⟩ clock s).InTime (max clock.now deadline)

variable {x : Activity σ α}

/-- Finishing at once is prompt. -/
theorem prompt_pure (value : α) : Prompt (pure value : Activity σ α) :=
  fun _ _ _ ↦ ⟨Nat.le_max_left _ _, nofun, nofun⟩

/-- Failing is prompt. -/
theorem prompt_fail (error : Error) : Prompt (fail error : Activity σ α) :=
  fun _ _ _ ↦ ⟨Nat.le_max_left _ _, nofun, nofun⟩

/-- A change is prompt. -/
theorem prompt_modify (f : σ → σ) : Prompt (modify f) :=
  fun _ _ _ ↦ ⟨Nat.le_max_left _ _, nofun, nofun⟩

/-- Waiting in vain is prompt: it ends at the deadline. -/
theorem prompt_never : Prompt (never : Activity σ α) :=
  fun _ _ _ ↦ ⟨Nat.le_refl _, nofun, nofun⟩

/-- A sequence is prompt if its parts are. -/
theorem prompt_bind {f : α → Activity σ β} (hx : Prompt x) (hf : ∀ value, Prompt (f value)) :
    Prompt (x >>= f) := by
  intro deadline clock s
  have hx := hx deadline clock s
  rw [bind_apply]
  generalize x ⟨some deadline, none, false⟩ clock s = o at hx ⊢
  obtain ⟨ending, after, t⟩ := o
  obtain ⟨hinTime, huninterrupted, hended⟩ := hx
  cases ending with
  | done value =>
    obtain ⟨hrest, huninterrupted, hended⟩ := hf value deadline after t
    have hlimit : max after.now deadline ≤ max clock.now deadline :=
      Nat.max_le.mpr ⟨hinTime, Nat.le_max_right _ _⟩
    exact ⟨Nat.le_trans hrest hlimit, huninterrupted, hended⟩
  | failed error => exact ⟨hinTime, nofun, nofun⟩
  | expired => exact ⟨hinTime, nofun, nofun⟩
  | interrupted => exact absurd rfl huninterrupted
  | stuck => exact absurd rfl hended

/-- What depends on the state is prompt if it is for each state. -/
theorem prompt_get_bind {f : σ → Activity σ β} (h : ∀ s, Prompt (f s)) : Prompt (get >>= f) :=
  fun deadline clock s ↦ h s deadline clock s

/-- Going on after a failure is prompt. -/
theorem prompt_attempt (hx : Prompt x) : Prompt (attempt x) := by
  intro deadline clock s
  have hx := hx deadline clock s
  simp only [attempt]
  generalize x ⟨some deadline, none, false⟩ clock s = o at hx ⊢
  obtain ⟨ending, after, t⟩ := o
  obtain ⟨hinTime, huninterrupted, hended⟩ := hx
  cases ending with
  | interrupted => exact absurd rfl huninterrupted
  | stuck => exact absurd rfl hended
  | _ => exact ⟨hinTime, by simp, by simp⟩

/-- Working on a part is prompt. -/
theorem prompt_onPart {part : τ → σ} {put : τ → σ → τ} (hx : Prompt x) :
    Prompt (onPart part put x) := by
  intro deadline clock u
  obtain ⟨hinTime, huninterrupted, hended⟩ := hx deadline clock (part u)
  exact ⟨hinTime, huninterrupted, hended⟩

end Activity

end PeerWire
