import PeerWire.Time.Timeline

/-!
# How activities come to an end

What is waited for may never come, so that a wait ends for sure only where it is limited. Without a
horizon every wait up to a deadline comes to an end. It expires only if there is a deadline, it is
interrupted only where it may be, and not at all if nobody is told to stop. Main statements: what
is made of activities that settle like this settles, and a limit in time has things settle that
settle only up to a deadline.
-/

namespace PeerWire

variable {σ τ α β : Type}

/-- Nothing is too late to be observed. -/
def Scope.Observed (scope : Scope) : Prop := scope.horizon = none

/-- There is a deadline, and nothing is too late to be observed. -/
structure Scope.Limited (scope : Scope) : Prop where
  /-- Nothing is too late to be observed. -/
  observed : scope.Observed
  /-- There is a deadline. -/
  deadline : scope.deadline ≠ none

/-- Up to a moment there is a deadline. -/
theorem Scope.Observed.upTo {scope : Scope} (h : scope.Observed) (moment : Nat) :
    (scope.upTo moment).Limited := ⟨h, nofun⟩

/-- An outcome is an end that the scope allows. Nobody is told to stop unless that was so before or
something in the state does it; a calm state is one in which nothing does. -/
structure Outcome.Settled (calm : σ → Prop) (scope : Scope) (clock : Clock) (s : σ)
    (o : Outcome σ α) : Prop where
  /-- It is an end. -/
  ended : o.ending ≠ .stuck
  /-- It expires only at a deadline. -/
  expired : o.ending = .expired → scope.deadline ≠ none
  /-- It is interrupted only where that may be. -/
  interrupted : o.ending = .interrupted → scope.interruptible = true
  /-- Where nobody is told to stop, nobody is interrupted and nobody is told later. -/
  undisturbed : clock.stopAt = none → calm s →
    o.ending ≠ .interrupted ∧ o.clock.stopAt = none ∧ calm o.state

/-- What ends in itself, and expires only at a deadline, has settled. -/
theorem Outcome.Settled.of_uninterrupted {calm : σ → Prop} {scope : Scope} {clock : Clock} {s : σ}
    {o : Outcome σ α} (hended : o.ending ≠ .stuck) (hinterrupted : o.ending ≠ .interrupted)
    (hexpired : o.ending = .expired → scope.deadline ≠ none)
    (hundisturbed : clock.stopAt = none → calm s → o.clock.stopAt = none ∧ calm o.state) :
    o.Settled calm scope clock s where
  ended := hended
  expired := hexpired
  interrupted hending := absurd hending hinterrupted
  undisturbed hclock hs := ⟨hinterrupted, hundisturbed hclock hs⟩

/-- What goes on from where something was finished has settled for all of it. -/
theorem Outcome.Settled.trans {calm : σ → Prop} {scope : Scope} {clock middle : Clock} {s t : σ}
    {value : α} {o : Outcome σ β}
    (h : (⟨.done value, middle, t⟩ : Outcome σ α).Settled calm scope clock s)
    (ho : o.Settled calm scope middle t) : o.Settled calm scope clock s where
  ended := ho.ended
  expired := ho.expired
  interrupted := ho.interrupted
  undisturbed hclock hs := by
    obtain ⟨-, hmiddle, ht⟩ := h.undisturbed hclock hs
    exact ho.undisturbed hmiddle ht

/-- What is broken off or stuck only where something else is has settled if that has. -/
theorem Outcome.Settled.of_ending {calm : σ → Prop} {calm' : τ → Prop} {scope : Scope}
    {clock : Clock} {s : σ} {s' : τ} {o : Outcome σ α} {o' : Outcome τ β}
    (h : o.Settled calm scope clock s) (hclock : o'.clock = o.clock)
    (hstuck : o'.ending = .stuck → o.ending = .stuck)
    (hexpired : o'.ending = .expired → o.ending = .expired)
    (hinterrupted : o'.ending = .interrupted → o.ending = .interrupted)
    (hbefore : calm' s' → calm s) (hafter : calm' s' → calm o.state → calm' o'.state) :
    o'.Settled calm' scope clock s' where
  ended hending := h.ended (hstuck hending)
  expired hending := h.expired (hexpired hending)
  interrupted hending := h.interrupted (hinterrupted hending)
  undisturbed hclock' hs := by
    obtain ⟨huninterrupted, huntold, hcalm⟩ := h.undisturbed hclock' (hbefore hs)
    exact ⟨fun hending ↦ huninterrupted (hinterrupted hending), hclock ▸ huntold,
      hafter hs hcalm⟩

/-! ### Waiting -/

namespace Clock

variable {clock : Clock} {scope : Scope}

/-- Where nothing is too late to be observed time passes. -/
theorem passTo_of_observed (h : scope.Observed) (moment : Nat) (ending : Ending α) :
    clock.passTo scope moment ending = (ending, { clock with now := moment }) := by
  rw [passTo, h, Option.any_none, if_neg Bool.false_ne_true]

/-- A wait is broken off at a deadline, or where it may be interrupted by who is told to stop. -/
theorem cause_of_limit? {limit : Nat} {ending : Ending α}
    (h : clock.limit? scope = some (limit, ending)) :
    ending = .expired ∧ scope.deadline ≠ none ∨
      ending = .interrupted ∧ scope.interruptible = true ∧ clock.stopAt ≠ none := by
  simp only [limit?] at h
  by_cases hinterruptible : scope.interruptible = true
  · simp only [hinterruptible, if_true] at h
    cases hdeadline : scope.deadline <;> cases hstop : clock.stopAt <;>
      simp only [hdeadline, hstop, Option.map_none, Option.map_some] at h
    case none.none => cases h
    case some.none =>
      cases h
      exact .inl ⟨rfl, by simp⟩
    case none.some =>
      cases h
      exact .inr ⟨rfl, hinterruptible, by simp⟩
    case some.some =>
      split at h
      · cases h
        exact .inl ⟨rfl, by simp⟩
      · cases h
        exact .inr ⟨rfl, hinterruptible, by simp⟩
  · simp only [hinterruptible, Bool.false_eq_true, if_false] at h
    cases hdeadline : scope.deadline with
    | none =>
      simp only [hdeadline, Option.map_none] at h
      cases h
    | some deadline =>
      simp only [hdeadline, Option.map_some] at h
      cases h
      exact .inl ⟨rfl, by simp⟩

/-- Up to a deadline every wait has a limit. -/
theorem exists_limit? (clock : Clock) (h : scope.deadline ≠ none) :
    ∃ limit ending, (clock.limit? scope : Option (Nat × Ending α)) = some (limit, ending) := by
  cases hdeadline : scope.deadline with
  | none => exact absurd hdeadline h
  | some deadline =>
    simp only [limit?, hdeadline, Option.map_some]
    split
    · next heq _ => cases heq
    · exact ⟨_, _, rfl⟩
    · next heq _ => cases heq
    · split <;> exact ⟨_, _, rfl⟩

/-- A wait that is broken off where nothing is too late has settled. -/
theorem settled_of_limit? {calm : σ → Prop} {s : σ} {limit : Nat} {ending : Ending α}
    (hscope : scope.Observed) (h : clock.limit? scope = some (limit, ending)) :
    let wait := clock.passTo scope limit ending
    (⟨wait.1, wait.2, s⟩ : Outcome σ α).Settled calm scope clock s := by
  simp only [passTo_of_observed hscope]
  obtain ⟨rfl, hdeadline⟩ | ⟨rfl, hinterruptible, hstop⟩ := cause_of_limit? h
  · exact ⟨nofun, fun _ ↦ hdeadline, nofun, fun hclock hs ↦ ⟨nofun, hclock, hs⟩⟩
  · exact ⟨nofun, nofun, fun _ ↦ hinterruptible, fun hclock ↦ absurd hclock hstop⟩

end Clock

namespace Activity

/-- In certain scopes, whatever the state is, an activity settles. -/
def Settles (calm : σ → Prop) (scopes : Scope → Prop) (x : Activity σ α) : Prop :=
  ∀ scope clock s, scopes scope → (x scope clock s).Settled calm scope clock s

variable {calm : σ → Prop} {scopes : Scope → Prop} {x : Activity σ α}

/-- What settles in some scopes does so in fewer. -/
theorem Settles.mono {fewer : Scope → Prop} (h : Settles calm scopes x)
    (hfewer : ∀ scope, fewer scope → scopes scope) : Settles calm fewer x :=
  fun scope clock s hscope ↦ h scope clock s (hfewer scope hscope)

/-! ### Single activities -/

/-- A change that gives a value settles, and must not make a calm state another one. -/
theorem settles_change {f : σ → α × σ} (h : ∀ s, calm s → calm (f s).2) :
    Settles calm scopes (change f) :=
  fun _ _ s _ ↦ ⟨nofun, nofun, nofun, fun hclock hs ↦ ⟨nofun, hclock, h s hs⟩⟩

/-- A change settles, and must not make a calm state another one. -/
theorem settles_modify {f : σ → σ} (h : ∀ s, calm s → calm (f s)) :
    Settles calm scopes (modify f) :=
  fun _ _ s _ ↦ ⟨nofun, nofun, nofun, fun hclock hs ↦ ⟨nofun, hclock, h s hs⟩⟩

/-- Finishing at once settles. -/
theorem settles_pure (value : α) : Settles calm scopes (pure value) :=
  settles_change (f := fun s ↦ (value, s)) fun _ h ↦ h

/-- Failing settles. -/
theorem settles_fail (error : Error) : Settles calm scopes (fail error : Activity σ α) :=
  fun _ _ _ _ ↦ ⟨nofun, nofun, nofun, fun hclock hs ↦ ⟨nofun, hclock, hs⟩⟩

/-- Taking over a result settles. -/
theorem settles_ofExcept (result : Except Error α) : Settles calm scopes (ofExcept result) := by
  cases result with
  | ok value => exact settles_pure value
  | error error => exact settles_fail error

/-- Looking at the time settles. -/
theorem settles_now : Settles calm scopes now :=
  fun _ _ _ _ ↦ ⟨nofun, nofun, nofun, fun hclock hs ↦ ⟨nofun, hclock, hs⟩⟩

/-- Waiting for a moment settles. -/
theorem settles_waitUntil (moment : Nat) : Settles calm Scope.Observed (waitUntil moment) := by
  intro scope clock s hscope
  have hreached : Outcome.Settled calm scope clock s
      ⟨.done (), { clock with now := max clock.now moment }, s⟩ :=
    ⟨nofun, nofun, nofun, fun hclock hs ↦ ⟨nofun, hclock, hs⟩⟩
  simp only [waitUntil, Clock.waitUntil, Clock.passTo_of_observed hscope]
  cases hlimit : (clock.limit? scope : Option (Nat × Ending Unit)) with
  | none => exact hreached
  | some limit =>
    by_cases hle : max clock.now moment ≤ limit.1
    · simp only [hle, if_true]
      exact hreached
    · have hbroken : Outcome.Settled calm scope clock s
          ⟨(clock.passTo scope limit.1 limit.2).1, (clock.passTo scope limit.1 limit.2).2, s⟩ :=
        Clock.settled_of_limit? hscope hlimit
      simp only [hle, if_false]
      rw [Clock.passTo_of_observed hscope] at hbroken
      exact hbroken

/-- Waiting in vain settles up to a deadline. -/
theorem settles_never : Settles calm Scope.Limited (never : Activity σ α) := by
  intro scope clock s hscope
  obtain ⟨limit, ending, hlimit⟩ := Clock.exists_limit? (α := α) clock hscope.deadline
  simp only [never, Clock.waitForever, hlimit]
  exact Clock.settled_of_limit? hscope.observed hlimit

/-! ### What is made of activities -/

/-- A sequence settles if its parts do. -/
theorem settles_bind {f : α → Activity σ β} (hx : Settles calm scopes x)
    (hf : ∀ value, Settles calm scopes (f value)) : Settles calm scopes (x >>= f) := by
  intro scope clock s hscope
  have hx := hx scope clock s hscope
  rw [bind_apply]
  generalize x scope clock s = o at hx ⊢
  obtain ⟨ending, middle, t⟩ := o
  cases ending with
  | done value => exact hx.trans (hf value scope middle t hscope)
  | failed error => exact hx.of_ending rfl nofun nofun nofun id fun _ ht ↦ ht
  | expired => exact hx.of_ending rfl nofun (fun _ ↦ rfl) nofun id fun _ ht ↦ ht
  | interrupted => exact hx.of_ending rfl nofun nofun (fun _ ↦ rfl) id fun _ ht ↦ ht
  | stuck => exact absurd rfl hx.ended

/-- What depends on the state settles if it does for each state. -/
theorem settles_get_bind {f : σ → Activity σ β} (h : ∀ s, Settles calm scopes (f s)) :
    Settles calm scopes (get >>= f) :=
  fun scope clock s hscope ↦ h s scope clock s hscope

/-- Going on after a failure settles. -/
theorem settles_attempt (hx : Settles calm scopes x) : Settles calm scopes (attempt x) := by
  intro scope clock s hscope
  have hx := hx scope clock s hscope
  simp only [attempt]
  generalize x scope clock s = o at hx ⊢
  obtain ⟨ending, after, t⟩ := o
  cases ending with
  | done value => exact hx.of_ending rfl (by simp) (by simp) (by simp) id fun _ ht ↦ ht
  | failed error => exact hx.of_ending rfl (by simp) (by simp) (by simp) id fun _ ht ↦ ht
  | expired => exact hx.of_ending rfl (by simp) (by simp) (by simp) id fun _ ht ↦ ht
  | interrupted => exact hx.of_ending rfl (by simp) (by simp) (by simp) id fun _ ht ↦ ht
  | stuck => exact absurd rfl hx.ended

/-- Working on a part settles. -/
theorem settles_onPart {calm' : τ → Prop} {part : τ → σ} {put : τ → σ → τ}
    (hx : Settles calm scopes x) (hpart : ∀ t, calm' t → calm (part t))
    (hput : ∀ t s, calm' t → calm s → calm' (put t s)) :
    Settles calm' scopes (onPart part put x) := fun scope clock t hscope ↦
  (hx scope clock (part t) hscope).of_ending rfl id id id (hpart t) fun ht hs ↦ hput t _ ht hs

/-- Something done with a value of its own settles. -/
theorem settles_withOwn {own : τ} {x : Activity (σ × τ) α}
    (hx : Settles (fun s ↦ calm s.1) scopes x) : Settles calm scopes (withOwn own x) :=
  fun scope clock s hscope ↦
    (hx scope clock (s, own) hscope).of_ending rfl id id id id fun _ hs ↦ hs

/-- With a limit in time what settles up to a deadline settles anyway. -/
theorem settles_within {moment : Nat} {late : Activity σ α} (hx : Settles calm Scope.Limited x)
    (hlate : Settles calm Scope.Observed late) :
    Settles calm Scope.Observed (within moment x late) := by
  intro scope clock s hscope
  have hx := hx (scope.upTo moment) clock s (hscope.upTo moment)
  rw [within_apply]
  generalize x (scope.upTo moment) clock s = o at hx ⊢
  obtain ⟨ending, after, t⟩ := o
  have hundisturbed := hx.undisturbed
  cases ending with
  | done value => exact ⟨nofun, nofun, nofun, hundisturbed⟩
  | failed error => exact ⟨nofun, nofun, nofun, hundisturbed⟩
  | expired =>
    simp only
    split
    · have hlate := hlate scope after t hscope
      refine ⟨hlate.ended, hlate.expired, hlate.interrupted, fun hclock hs ↦ ?_⟩
      obtain ⟨-, hafter, ht⟩ := hundisturbed hclock hs
      exact hlate.undisturbed hafter ht
    · next hlater =>
      refine ⟨nofun, fun _ hnone ↦ hlater ?_, nofun, hundisturbed⟩
      rw [hnone, Option.all_none]
  | interrupted => exact ⟨nofun, nofun, fun _ ↦ hx.interrupted rfl, hundisturbed⟩
  | stuck => exact absurd rfl hx.ended

/-- A repetition settles if its rounds do. -/
theorem settles_repeatUntil {quantity : σ → Nat} {round : Activity σ (Option α)}
    {advances : Advances quantity round} (h : Settles calm scopes round) :
    Settles calm scopes (repeatUntil quantity round advances) := by
  intro scope clock s hscope
  have hround (clock : Clock) (s : σ) {ending : Ending (Option α)}
      (hending : (round scope clock s).ending = ending) :
      (⟨ending, (round scope clock s).clock, (round scope clock s).state⟩ :
        Outcome σ (Option α)).Settled calm scope clock s := by
    rw [← hending]
    exact h scope clock s hscope
  fun_induction repeatUntil quantity round advances scope clock s with
  | case1 clock s value hending =>
    exact (hround clock s hending).of_ending rfl (by simp) (by simp) (by simp) id fun _ ht ↦ ht
  | case2 clock s hending ih => exact (hround clock s hending).trans ih
  | case3 clock s error hending =>
    exact (hround clock s hending).of_ending rfl (by simp) (by simp) (by simp) id fun _ ht ↦ ht
  | case4 clock s hending =>
    exact (hround clock s hending).of_ending rfl (by simp) (fun _ ↦ rfl) (by simp) id fun _ ht ↦ ht
  | case5 clock s hending =>
    exact (hround clock s hending).of_ending rfl (by simp) (by simp) (fun _ ↦ rfl) id fun _ ht ↦ ht
  | case6 clock s hending => exact absurd rfl (hround clock s hending).ended

/-- What ends when the session is told to stop is not interrupted, and it is not told in vain. -/
theorem settles_untilStopped (hscopes : ∀ scope, scopes scope →
    scopes { scope with interruptible := true }) (hx : Settles calm scopes x) :
    Settles calm scopes (untilStopped x) := by
  intro scope clock s hscope
  have hx := hx { scope with interruptible := true } clock s (hscopes scope hscope)
  simp only [untilStopped]
  split
  · exact .of_uninterrupted (by simp) (by simp) (by simp) fun hclock hs ↦ ⟨hclock, hs⟩
  · generalize x { scope with interruptible := true } clock s = o at hx ⊢
    obtain ⟨ending, after, t⟩ := o
    have hundisturbed hclock hs := (hx.undisturbed hclock hs).2
    cases ending with
    | done value =>
      exact .of_uninterrupted (by simp [Ending.map]) (by simp [Ending.map]) (by simp [Ending.map])
        hundisturbed
    | failed error =>
      exact .of_uninterrupted (by simp [Ending.map]) (by simp [Ending.map]) (by simp [Ending.map])
        hundisturbed
    | expired =>
      exact .of_uninterrupted (by simp [Ending.map]) (by simp [Ending.map])
        (fun _ ↦ hx.expired rfl) hundisturbed
    | interrupted => exact .of_uninterrupted (by simp) (by simp) (by simp) hundisturbed
    | stuck => exact absurd rfl hx.ended

end Activity

end PeerWire
