import PeerWire.Time.Clock

/-!
# Activities

An activity works on a state while time passes. It is finished with a value, fails, or is broken
off by a deadline or by the session being told to stop; the state is kept in every case, so that
what was broken off can be taken up again. Activities follow each other, can be limited in time,
and can be repeated as long as each round uses something up. Main statements: how a sequence and a
repetition run and when they are finished, that what they cost is what their parts cost, and that
they maintain what their parts maintain.
-/

namespace PeerWire

/-- How an activity ended, when, and what it left behind. -/
structure Outcome (σ α : Type) where
  /-- How it ended. -/
  ending : Ending α
  /-- When it ended. -/
  clock : Clock
  /-- What it left behind. -/
  state : σ

/-- Something done to a state while time passes. -/
def Activity (σ α : Type) : Type := Scope → Clock → σ → Outcome σ α

namespace Activity

variable {σ τ α β : Type}

/-- Finishes at once. -/
def finish (value : α) : Activity σ α := fun _ clock s ↦ ⟨.done value, clock, s⟩

/-- Does one thing after another. -/
def andThen (x : Activity σ α) (f : α → Activity σ β) : Activity σ β := fun scope clock s ↦
  let r := x scope clock s
  match r.ending with
  | .done value => f value scope r.clock r.state
  | .failed error => ⟨.failed error, r.clock, r.state⟩
  | .expired => ⟨.expired, r.clock, r.state⟩
  | .interrupted => ⟨.interrupted, r.clock, r.state⟩
  | .stuck => ⟨.stuck, r.clock, r.state⟩

instance : Monad (Activity σ) where
  pure := finish
  bind := andThen

/-- Fails. -/
def fail (error : Error) : Activity σ α := fun _ clock s ↦ ⟨.failed error, clock, s⟩

/-- Goes on after a failure, with the failure as the value. -/
def attempt (x : Activity σ α) : Activity σ (Except Error α) := fun scope clock s ↦
  let r := x scope clock s
  match r.ending with
  | .done value => ⟨.done (.ok value), r.clock, r.state⟩
  | .failed error => ⟨.done (.error error), r.clock, r.state⟩
  | .expired => ⟨.expired, r.clock, r.state⟩
  | .interrupted => ⟨.interrupted, r.clock, r.state⟩
  | .stuck => ⟨.stuck, r.clock, r.state⟩

/-- Finishes with the value, or fails with the error. -/
def ofExcept : Except Error α → Activity σ α
  | .ok value => finish value
  | .error error => fail error

/-- The state. -/
def get : Activity σ σ := fun _ clock s ↦ ⟨.done s, clock, s⟩

/-- Changes the state. -/
def modify (f : σ → σ) : Activity σ Unit := fun _ clock s ↦ ⟨.done (), clock, f s⟩

/-- Changes the state and gives a value. -/
def change (f : σ → α × σ) : Activity σ α := fun _ clock s ↦ ⟨.done (f s).1, clock, (f s).2⟩

/-- Waits for a moment. -/
def waitUntil (moment : Nat) : Activity σ Unit := fun scope clock s ↦
  let (ending, clock) := clock.waitUntil scope moment
  ⟨ending, clock, s⟩

/-- Waits for something that never comes. -/
def never : Activity σ α := fun scope clock s ↦
  let (ending, clock) := clock.waitForever scope
  ⟨ending, clock, s⟩

/-- The time. -/
def now : Activity σ Nat := fun _ clock s ↦ ⟨.done clock.now, clock, s⟩

/-- Works on a part of the state. -/
def onPart (part : τ → σ) (put : τ → σ → τ) (x : Activity σ α) : Activity τ α :=
  fun scope clock t ↦
    let r := x scope clock (part t)
    ⟨r.ending, r.clock, put t r.state⟩

/-- Works with a value of its own beside the state. -/
def withOwn (value : τ) (x : Activity (σ × τ) α) : Activity σ α := fun scope clock s ↦
  let r := x scope clock (s, value)
  ⟨r.ending, r.clock, r.state.1⟩

/-- Waits for an activity up to a moment, and then does something else. -/
def within (moment : Nat) (x : Activity σ α) (late : Activity σ α) : Activity σ α :=
  fun scope clock s ↦
    let r := x (scope.upTo moment) clock s
    match r.ending with
    | .expired =>
      if scope.deadline.all (moment ≤ ·) then late scope r.clock r.state
      else ⟨.expired, r.clock, r.state⟩
    | _ => r

/-- Does something until it ends or the session is told to stop, in which case there is no value. A
session that was told to stop before does nothing. -/
def untilStopped (x : Activity σ α) : Activity σ (Option α) := fun scope clock s ↦
  if clock.isStopped then ⟨.done none, clock, s⟩
  else
    let r := x { scope with interruptible := true } clock s
    match r.ending with
    | .interrupted => ⟨.done none, r.clock, r.state⟩
    | ending => ⟨ending.map some, r.clock, r.state⟩

/-- An activity takes as much from a quantity as its value costs, and never adds to it. -/
def Costs (quantity : σ → Nat) (cost : α → Nat) (x : Activity σ α) : Prop :=
  ∀ scope clock s,
    quantity (x scope clock s).state + (x scope clock s).ending.weigh cost ≤ quantity s

/-- An activity never adds to a quantity. -/
abbrev Keeps (quantity : σ → Nat) (x : Activity σ α) : Prop := Costs quantity (fun _ ↦ 0) x

/-- An activity that finishes uses up some of a quantity. -/
abbrev Uses (quantity : σ → Nat) (x : Activity σ α) : Prop := Costs quantity (fun _ ↦ 1) x

/-- What a round costs: going on is not free. -/
def roundCost (cost : α → Nat) : Option α → Nat
  | some value => cost value
  | none => 1

/-- A round that does not finish the work uses up some of a quantity. -/
abbrev Advances (quantity : σ → Nat) (round : Activity σ (Option α)) : Prop :=
  Costs quantity (roundCost fun _ ↦ 0) round

/-- A round without a value uses up some of the quantity. -/
theorem lt_of_advances {quantity : σ → Nat} {round : Activity σ (Option α)}
    (advances : Advances quantity round) {scope : Scope} {clock : Clock} {s : σ}
    (h : (round scope clock s).ending = .done none) :
    quantity (round scope clock s).state < quantity s := by
  have := advances scope clock s
  rw [h] at this
  exact this

/-- Repeats a round until it gives a value. -/
def repeatUntil (quantity : σ → Nat) (round : Activity σ (Option α))
    (advances : Advances quantity round) (scope : Scope) (clock : Clock) (s : σ) : Outcome σ α :=
  match _h : (round scope clock s).ending with
  | .done (some value) => ⟨.done value, (round scope clock s).clock, (round scope clock s).state⟩
  | .done none =>
    repeatUntil quantity round advances scope (round scope clock s).clock
      (round scope clock s).state
  | .failed error => ⟨.failed error, (round scope clock s).clock, (round scope clock s).state⟩
  | .expired => ⟨.expired, (round scope clock s).clock, (round scope clock s).state⟩
  | .interrupted => ⟨.interrupted, (round scope clock s).clock, (round scope clock s).state⟩
  | .stuck => ⟨.stuck, (round scope clock s).clock, (round scope clock s).state⟩
termination_by quantity s
decreasing_by exact lt_of_advances advances _h

/-! ### How activities run -/

/-- A finished activity has its value at once. -/
@[simp]
theorem pure_apply (value : α) (scope : Scope) (clock : Clock) (s : σ) :
    (pure value : Activity σ α) scope clock s = ⟨.done value, clock, s⟩ := rfl

/-- A sequence goes on with the value of its first part, and ends where that part ends without
one. -/
theorem bind_apply (x : Activity σ α) (f : α → Activity σ β) (scope : Scope) (clock : Clock)
    (s : σ) :
    (x >>= f) scope clock s =
      match (x scope clock s).ending with
      | .done value => f value scope (x scope clock s).clock (x scope clock s).state
      | .failed error => ⟨.failed error, (x scope clock s).clock, (x scope clock s).state⟩
      | .expired => ⟨.expired, (x scope clock s).clock, (x scope clock s).state⟩
      | .interrupted => ⟨.interrupted, (x scope clock s).clock, (x scope clock s).state⟩
      | .stuck => ⟨.stuck, (x scope clock s).clock, (x scope clock s).state⟩ := rfl

/-- A limit in time is the end of what it limits, unless an outer limit comes first. -/
theorem within_apply (moment : Nat) (x late : Activity σ α) (scope : Scope) (clock : Clock)
    (s : σ) :
    within moment x late scope clock s =
      match (x (scope.upTo moment) clock s).ending with
      | .expired =>
        if scope.deadline.all (moment ≤ ·) then
          late scope (x (scope.upTo moment) clock s).clock (x (scope.upTo moment) clock s).state
        else
          ⟨.expired, (x (scope.upTo moment) clock s).clock, (x (scope.upTo moment) clock s).state⟩
      | _ => x (scope.upTo moment) clock s := rfl

/-- A repetition goes on after a round without a value, and ends where a round ends otherwise. -/
theorem repeatUntil_apply (quantity : σ → Nat) (round : Activity σ (Option α))
    (advances : Advances quantity round) (scope : Scope) (clock : Clock) (s : σ) :
    repeatUntil quantity round advances scope clock s =
      match (round scope clock s).ending with
      | .done (some value) =>
        ⟨.done value, (round scope clock s).clock, (round scope clock s).state⟩
      | .done none =>
        repeatUntil quantity round advances scope (round scope clock s).clock
          (round scope clock s).state
      | .failed error => ⟨.failed error, (round scope clock s).clock, (round scope clock s).state⟩
      | .expired => ⟨.expired, (round scope clock s).clock, (round scope clock s).state⟩
      | .interrupted => ⟨.interrupted, (round scope clock s).clock, (round scope clock s).state⟩
      | .stuck => ⟨.stuck, (round scope clock s).clock, (round scope clock s).state⟩ := by
  rw [repeatUntil]
  split <;> simp_all

/-- Waiting for something that never comes expires, is interrupted or never ends, whatever it is
that is waited for. -/
theorem never_cases (scope : Scope) (clock : Clock) : ∃ after,
    (∀ (σ α : Type) (s : σ), (never scope clock s : Outcome σ α) = ⟨.expired, after, s⟩) ∨
    (∀ (σ α : Type) (s : σ), (never scope clock s : Outcome σ α) = ⟨.interrupted, after, s⟩) ∨
    (∀ (σ α : Type) (s : σ), (never scope clock s : Outcome σ α) = ⟨.stuck, after, s⟩) := by
  have hending := Clock.ending_waitForever (α := Empty) clock scope
  have hnever (σ α : Type) (s : σ) : (never scope clock s : Outcome σ α) =
      let wait : Ending Empty × Clock := clock.waitForever scope
      ⟨wait.1.map Empty.elim, wait.2, s⟩ := by
    unfold never
    rw [Clock.waitForever_map (Empty.elim : Empty → α)]
  generalize (clock.waitForever scope : Ending Empty × Clock) = wait at hending hnever
  simp only [hnever]
  refine ⟨wait.2, ?_⟩
  obtain hending | hending | hending := hending
  · rw [hending]
    exact .inl fun _ _ _ ↦ rfl
  · rw [hending]
    exact .inr (.inl fun _ _ _ ↦ rfl)
  · rw [hending]
    exact .inr (.inr fun _ _ _ ↦ rfl)

/-- A sequence goes on after its first part. -/
theorem bind_of_done {x : Activity σ α} {f : α → Activity σ β} {value : α} {scope : Scope}
    {clock middle : Clock} {s t : σ} (h : x scope clock s = ⟨.done value, middle, t⟩) :
    (x >>= f) scope clock s = f value scope middle t := by
  rw [bind_apply, h]

/-- A sequence is finished when its first part is finished, and the rest of it after that. -/
theorem bind_eq_done {x : Activity σ α} {f : α → Activity σ β} {value : β} {scope : Scope}
    {clock after : Clock} {s s' : σ} (h : (x >>= f) scope clock s = ⟨.done value, after, s'⟩) :
    ∃ first middle t, x scope clock s = ⟨.done first, middle, t⟩ ∧
      f first scope middle t = ⟨.done value, after, s'⟩ := by
  rw [bind_apply] at h
  cases hx : x scope clock s with
  | mk ending middle t =>
    rw [hx] at h
    cases ending with
    | done first => exact ⟨first, middle, t, rfl, h⟩
    | _ => cases h

/-- Something done with a value of its own is finished when it is finished with both. -/
theorem withOwn_eq_done {own : τ} {x : Activity (σ × τ) α} {value : α} {scope : Scope}
    {clock after : Clock} {s s' : σ}
    (h : withOwn own x scope clock s = ⟨.done value, after, s'⟩) :
    ∃ t, x scope clock (s, own) = ⟨.done value, after, (s', t)⟩ := by
  cases hx : x scope clock (s, own) with
  | mk ending middle t =>
    simp only [withOwn, hx, Outcome.mk.injEq] at h
    obtain ⟨rfl, rfl, rfl⟩ := h
    exact ⟨t.2, rfl⟩

/-- Something that has a value was finished before the session was told to stop. -/
theorem untilStopped_eq_done {x : Activity σ α} {value : α} {scope : Scope} {clock after : Clock}
    {s s' : σ} (h : untilStopped x scope clock s = ⟨.done (some value), after, s'⟩) :
    x { scope with interruptible := true } clock s = ⟨.done value, after, s'⟩ := by
  simp only [untilStopped] at h
  split at h
  · cases h
  · cases hx : x { scope with interruptible := true } clock s with
    | mk ending middle t =>
      rw [hx] at h
      cases ending with
      | done first =>
        cases h
        rfl
      | _ => cases h

/-! ### What activities cost -/

variable {quantity : σ → Nat} {cost : α → Nat}

/-- What costs something costs anything less. -/
theorem Costs.mono {other : α → Nat} {x : Activity σ α} (hx : Costs quantity cost x)
    (h : ∀ value, other value ≤ cost value) : Costs quantity other x := by
  intro scope clock s
  have hx := hx scope clock s
  cases he : (x scope clock s).ending with
  | done value =>
    have := h value
    simp only [he, Ending.weigh] at *
    omega
  | _ =>
    simp only [he, Ending.weigh] at *
    exact hx

/-- A round that always uses something up advances. -/
theorem advances_of_uses {round : Activity σ (Option α)} (h : Uses quantity round) :
    Advances quantity round :=
  h.mono fun value ↦ by cases value <;> simp [roundCost]

/-- Finishing at once costs nothing. -/
theorem costs_pure {value : α} (h : cost value = 0) :
    Costs quantity cost (pure value : Activity σ α) := by
  intro scope clock s
  simp [Ending.weigh, h]

/-- Failing costs nothing. -/
theorem costs_fail (error : Error) : Costs quantity cost (fail error : Activity σ α) :=
  fun _ _ s ↦ Nat.le_refl (quantity s)

/-- Waiting in vain costs nothing. -/
theorem costs_never : Costs quantity cost (never : Activity σ α) := by
  intro scope clock s
  simp [never]

/-- Taking over a result adds nothing. -/
theorem keeps_ofExcept (result : Except Error α) :
    Keeps quantity (ofExcept result : Activity σ α) := by
  cases result with
  | ok value => exact costs_pure rfl
  | error error => exact costs_fail error

/-- Looking at the state adds nothing. -/
theorem keeps_get : Keeps quantity get := fun _ _ s ↦ Nat.le_refl (quantity s)

/-- Looking at the time adds nothing. -/
theorem keeps_now : Keeps quantity now := fun _ _ s ↦ Nat.le_refl (quantity s)

/-- A change that does not add to the quantity adds nothing. -/
theorem keeps_modify {f : σ → σ} (h : ∀ s, quantity (f s) ≤ quantity s) :
    Keeps quantity (modify f) := fun _ _ s ↦ h s

/-- A change costs what it takes from the quantity. -/
theorem costs_change {f : σ → α × σ} (h : ∀ s, quantity (f s).2 + cost (f s).1 ≤ quantity s) :
    Costs quantity cost (change f) := fun _ _ s ↦ h s

/-- What the first part of a sequence costs is there for the rest of it to spend. -/
theorem costs_bind_spending {c : α → Nat} {cost : β → Nat} {x : Activity σ α}
    {f : α → Activity σ β} (hx : Costs quantity c x)
    (hf : ∀ value scope clock s, quantity (f value scope clock s).state
      + (f value scope clock s).ending.weigh cost ≤ quantity s + c value) :
    Costs quantity cost (x >>= f) := by
  intro scope clock s
  have hx := hx scope clock s
  rw [bind_apply]
  split
  · next value h =>
    rw [h] at hx
    exact Nat.le_trans (hf value scope _ _) hx
  all_goals
    next h =>
      simp only [h, Ending.weigh] at *
      exact hx

/-- A sequence costs what its first part costs, and the rest of it the rest. -/
theorem costs_bind {c : α → Nat} {cost : β → Nat} {x : Activity σ α} {f : α → Activity σ β}
    (hx : Costs quantity c x)
    (hf : ∀ value, Costs quantity (fun result ↦ cost result - c value) (f value)) :
    Costs quantity cost (x >>= f) := by
  refine costs_bind_spending hx fun value scope clock s ↦ ?_
  have hf := hf value scope clock s
  cases he : (f value scope clock s).ending with
  | done result =>
    simp only [he, Ending.weigh] at *
    omega
  | _ =>
    simp only [he, Ending.weigh] at *
    omega

/-- Going on after a failure costs nothing more. -/
theorem costs_attempt {cost : Except Error α → Nat} {x : Activity σ α}
    (hx : Costs quantity (fun value ↦ cost (.ok value)) x)
    (herror : ∀ error, cost (.error error) = 0) : Costs quantity cost (attempt x) := by
  intro scope clock s
  have hx := hx scope clock s
  simp only [attempt]
  split <;> next h => simpa [h, Ending.weigh, herror] using hx

/-- A limit in time costs nothing. -/
theorem costs_within {moment : Nat} {x late : Activity σ α} (hx : Costs quantity cost x)
    (hlate : Costs quantity cost late) : Costs quantity cost (within moment x late) := by
  intro scope clock s
  have hx := hx (scope.upTo moment) clock s
  rw [within_apply]
  split
  · next h =>
    rw [h] at hx
    split
    · exact Nat.le_trans (hlate scope _ _) hx
    · exact hx
  · exact hx

/-- Working on a part costs what it takes from the whole. -/
theorem costs_onPart {quantity : τ → Nat} {partQuantity : σ → Nat} {part : τ → σ}
    {put : τ → σ → τ} {x : Activity σ α} (hx : Costs partQuantity cost x)
    (hput : ∀ t s n, partQuantity s + n ≤ partQuantity (part t) →
      quantity (put t s) + n ≤ quantity t) :
    Costs quantity cost (onPart part put x) := fun scope clock t ↦
  hput t _ _ (hx scope clock (part t))

/-- A repetition costs what its last round costs, where going on costs as well. -/
theorem costs_repeatUntil {round : Activity σ (Option α)} {advances : Advances quantity round}
    (h : Costs quantity (roundCost cost) round) :
    Costs quantity cost (repeatUntil quantity round advances) := by
  intro scope clock s
  have hround (clock : Clock) (s : σ) {ending : Ending (Option α)}
      (he : (round scope clock s).ending = ending) :
      quantity (round scope clock s).state + ending.weigh (roundCost cost) ≤ quantity s :=
    he ▸ h scope clock s
  fun_induction repeatUntil quantity round advances scope clock s with
  | case1 clock s value he => exact hround clock s he
  | case2 clock s he ih => exact Nat.le_trans ih (Nat.le_of_lt (lt_of_advances advances he))
  | case3 clock s error he => exact hround clock s he
  | case4 clock s he => exact hround clock s he
  | case5 clock s he => exact hround clock s he
  | case6 clock s he => exact hround clock s he

/-- A repetition uses something up if each round does. -/
theorem uses_repeatUntil {round : Activity σ (Option α)} {advances : Advances quantity round}
    (h : Uses quantity round) : Uses quantity (repeatUntil quantity round advances) :=
  costs_repeatUntil (h.mono fun value ↦ by cases value <;> simp [roundCost])

/-! ### What activities maintain -/

/-- Whatever comes of an activity, a property of the state stays true. -/
def Maintains (P : σ → Prop) (x : Activity σ α) : Prop :=
  ∀ scope clock s, P s → P (x scope clock s).state

variable {P : σ → Prop} {x : Activity σ α}

/-- Finishing at once maintains everything. -/
theorem maintains_pure (value : α) : Maintains P (pure value : Activity σ α) := fun _ _ _ h ↦ h

/-- Failing maintains everything. -/
theorem maintains_fail (error : Error) : Maintains P (fail error : Activity σ α) := fun _ _ _ h ↦ h

/-- Taking over a result maintains everything. -/
theorem maintains_ofExcept (result : Except Error α) :
    Maintains P (ofExcept result : Activity σ α) := by
  cases result with
  | ok value => exact maintains_pure value
  | error error => exact maintains_fail error

/-- A change maintains what it keeps. -/
theorem maintains_change {f : σ → α × σ} (h : ∀ s, P s → P (f s).2) : Maintains P (change f) :=
  fun _ _ s hs ↦ h s hs

/-- A sequence maintains what its parts do. -/
theorem maintains_bind {f : α → Activity σ β} (hx : Maintains P x)
    (hf : ∀ value, Maintains P (f value)) : Maintains P (x >>= f) := by
  intro scope clock s hs
  have hx := hx scope clock s hs
  rw [bind_apply]
  split
  · exact hf _ scope _ _ hx
  all_goals exact hx

/-- Going on after a failure maintains the same. -/
theorem maintains_attempt (hx : Maintains P x) : Maintains P (attempt x) := by
  intro scope clock s hs
  have hx := hx scope clock s hs
  simp only [attempt]
  split <;> exact hx

/-- Working on a part maintains what putting it back keeps. -/
theorem maintains_onPart {Q : τ → Prop} {part : τ → σ} {put : τ → σ → τ} (hx : Maintains P x)
    (hpart : ∀ t, Q t → P (part t)) (hput : ∀ t s, Q t → P s → Q (put t s)) :
    Maintains Q (onPart part put x) :=
  fun scope clock t ht ↦ hput t _ ht (hx scope clock (part t) (hpart t ht))

/-- A repetition maintains what its rounds do. -/
theorem maintains_repeatUntil {round : Activity σ (Option α)} {advances : Advances quantity round}
    (h : Maintains P round) : Maintains P (repeatUntil quantity round advances) := by
  intro scope clock s hs
  fun_induction repeatUntil quantity round advances scope clock s with
  | case2 clock s he ih => exact ih (h scope clock s hs)
  | _ => exact h scope _ _ hs

end Activity

end PeerWire
