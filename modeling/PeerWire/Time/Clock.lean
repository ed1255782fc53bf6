import PeerWire.Error

/-!
# Clocks and waiting

Time is counted in milliseconds and passes only while something is waited for. A wait ends when
what is waited for comes, at a deadline, or when the session is told to stop; a wait that would
last past the horizon never ends. Something that comes at the last moment is in time, and where a
deadline and being told to stop fall on the same moment the deadline counts. Main statements: no
wait fails, past the horizon none ends, and a deadline breaks a wait off or changes nothing.
-/

namespace PeerWire

/-- The time, and when the session is told to stop. -/
structure Clock where
  /-- The time in milliseconds. -/
  now : Nat
  /-- The moment at which the session is told to stop. -/
  stopAt : Option Nat
deriving DecidableEq, Repr

/-- What limits a wait. -/
structure Scope where
  /-- The last moment to wait for. -/
  deadline : Option Nat
  /-- The moment past which nothing is observed. -/
  horizon : Option Nat
  /-- Whether telling the session to stop ends the wait. -/
  interruptible : Bool
deriving DecidableEq, Repr

/-- The scope without limits. -/
def Scope.open : Scope := ⟨none, none, false⟩

/-- The scope with a deadline no later than a moment. -/
def Scope.upTo (scope : Scope) (moment : Nat) : Scope :=
  { scope with deadline := some ((scope.deadline.map (min moment)).getD moment) }

/-- A moment later than the deadline changes nothing. -/
theorem Scope.upTo_of_lt {scope : Scope} {moment deadline : Nat}
    (h : scope.deadline = some deadline) (hlt : deadline < moment) : scope.upTo moment = scope := by
  obtain ⟨_, horizon, interruptible⟩ := scope
  subst h
  simp only [upTo, Option.map_some, Option.getD_some, Nat.min_eq_right (Nat.le_of_lt hlt)]

/-- A moment no later than the deadline is the deadline. -/
theorem Scope.deadline_upTo {scope : Scope} {moment : Nat}
    (h : scope.deadline.all (moment ≤ ·) = true) : (scope.upTo moment).deadline = some moment := by
  unfold upTo
  cases hdeadline : scope.deadline with
  | none => rfl
  | some deadline =>
    rw [hdeadline] at h
    simp only [Option.all_some, decide_eq_true_eq] at h
    simp [Nat.min_eq_left h]

/-- How an activity came to its end. -/
inductive Ending (α : Type) where
  /-- It was finished, with a value. -/
  | done (value : α)
  /-- It failed. -/
  | failed (error : Error)
  /-- The deadline came first. -/
  | expired
  /-- The session was told to stop first. -/
  | interrupted
  /-- It never comes to an end. -/
  | stuck

namespace Ending

/-- What a value weighs, where there is one. -/
def weigh {α : Type} (cost : α → Nat) : Ending α → Nat
  | done value => cost value
  | _ => 0

/-- The same end with another value. -/
def map {α β : Type} (f : α → β) : Ending α → Ending β
  | done value => .done (f value)
  | failed error => .failed error
  | expired => .expired
  | interrupted => .interrupted
  | stuck => .stuck

end Ending

namespace Clock

/-- The start of time. -/
def zero : Clock := ⟨0, none⟩

/-- The session is told to stop now, unless it was before. -/
def stop (clock : Clock) : Clock :=
  { clock with stopAt := some (min clock.now (clock.stopAt.getD clock.now)) }

/-- Whether the session was told to stop. -/
def isStopped (clock : Clock) : Bool := clock.stopAt.any (· ≤ clock.now)

/-- Passes the time up to a moment with an end, unless that is past the horizon. -/
def passTo {α : Type} (clock : Clock) (scope : Scope) (moment : Nat) (ending : Ending α) :
    Ending α × Clock :=
  if scope.horizon.any (· < moment) then (.stuck, clock)
  else (ending, { clock with now := moment })

/-- The moment at which a wait is broken off, and the end that it then has. -/
def limit? {α : Type} (clock : Clock) (scope : Scope) : Option (Nat × Ending α) :=
  let stopping := if scope.interruptible then clock.stopAt.map (max clock.now) else none
  match scope.deadline.map (max clock.now), stopping with
  | none, none => none
  | some deadline, none => some (deadline, .expired)
  | none, some moment => some (moment, .interrupted)
  | some deadline, some moment =>
    if deadline ≤ moment then some (deadline, .expired) else some (moment, .interrupted)

/-- Waits for a moment, which may have passed already. -/
def waitUntil (clock : Clock) (scope : Scope) (moment : Nat) : Ending Unit × Clock :=
  let arrival := max clock.now moment
  match clock.limit? scope with
  | none => clock.passTo scope arrival (.done ())
  | some (limit, ending) =>
    if arrival ≤ limit then clock.passTo scope arrival (.done ())
    else clock.passTo scope limit ending

/-- Waits for something that never comes. -/
def waitForever {α : Type} (clock : Clock) (scope : Scope) : Ending α × Clock :=
  match clock.limit? scope with
  | none => (.stuck, clock)
  | some (limit, ending) => clock.passTo scope limit ending

/-- A wait that is broken off has expired or was interrupted. -/
theorem ending_of_limit? {α : Type} {clock : Clock} {scope : Scope} {limit : Nat}
    {ending : Ending α} (h : clock.limit? scope = some (limit, ending)) :
    ending = .expired ∨ ending = .interrupted := by
  simp only [limit?] at h
  generalize (if scope.interruptible = true then clock.stopAt.map (max clock.now) else none) =
    stopping at h
  split at h
  · cases h
  · cases h
    exact .inl rfl
  · cases h
    exact .inr rfl
  · split at h
    · cases h
      exact .inl rfl
    · cases h
      exact .inr rfl

/-- A wait for something that never comes expires, is interrupted or never ends. -/
theorem ending_waitForever {α : Type} (clock : Clock) (scope : Scope) :
    (clock.waitForever scope : Ending α × Clock).1 = .expired ∨
      (clock.waitForever scope : Ending α × Clock).1 = .interrupted ∨
      (clock.waitForever scope : Ending α × Clock).1 = .stuck := by
  unfold waitForever
  split
  · exact .inr (.inr rfl)
  · next limit ending hlimit =>
    unfold passTo
    split
    · exact .inr (.inr rfl)
    · obtain rfl | rfl := ending_of_limit? hlimit
      · exact .inl rfl
      · exact .inr (.inl rfl)

/-- What never comes weighs nothing. -/
@[simp]
theorem weigh_waitForever {α : Type} (clock : Clock) (scope : Scope) (cost : α → Nat) :
    (clock.waitForever scope).1.weigh cost = 0 := by
  obtain h | h | h := ending_waitForever (α := α) clock scope <;> rw [h] <;> rfl

/-- Past the horizon no wait ends. -/
theorem passTo_of_past {α : Type} {clock : Clock} {scope : Scope} {moment later : Nat}
    (h : scope.horizon.any (· < moment) = true) (hle : moment ≤ later) (ending : Ending α) :
    clock.passTo scope later ending = (.stuck, clock) := by
  obtain ⟨horizon, hmem, hlt⟩ := (Option.any_eq_true _ _).mp h
  unfold passTo
  rw [hmem, Option.any_some, if_pos]
  simp only [decide_eq_true_eq] at hlt ⊢
  omega

/-- A wait for a moment does not fail. -/
theorem waitUntil_ne_failed (clock : Clock) (scope : Scope) (moment : Nat) (error : Error) :
    (clock.waitUntil scope moment).1 ≠ .failed error := by
  have hpass (arrival : Nat) {ending : Ending Unit} (h : ending ≠ .failed error) :
      (clock.passTo scope arrival ending).1 ≠ .failed error := by
    unfold passTo
    split
    · nofun
    · exact h
  simp only [waitUntil]
  split
  · exact hpass _ nofun
  · next limit ending hlimit =>
    split
    · exact hpass _ nofun
    · apply hpass
      obtain rfl | rfl := ending_of_limit? hlimit <;> nofun

/-- Waits for whatever never comes are broken off at the same moment in the same way. -/
theorem limit?_map {α β : Type} (f : α → β) (clock : Clock) (scope : Scope) :
    clock.limit? scope = (clock.limit? scope).map fun limit ↦ (limit.1, limit.2.map f) := by
  simp only [limit?]
  generalize (if scope.interruptible = true then clock.stopAt.map (max clock.now) else none) =
    stopping
  generalize scope.deadline.map (max clock.now) = deadline
  rcases deadline with _ | deadline <;> rcases stopping with _ | stopping
  case some.some =>
    by_cases h : deadline ≤ stopping <;> simp [h, Ending.map]
  all_goals rfl

/-- Waits for whatever never comes end at the same time in the same way. -/
theorem waitForever_map {α β : Type} (f : α → β) (clock : Clock) (scope : Scope) :
    clock.waitForever scope = (fun wait ↦ (wait.1.map f, wait.2)) (clock.waitForever scope) := by
  unfold waitForever
  rw [limit?_map f]
  cases clock.limit? scope with
  | none => rfl
  | some limit =>
    simp only [Option.map_some, passTo]
    split <;> rfl

/-- A deadline that is set breaks waits off no later than they would be else, or it makes no
difference. -/
theorem limit?_upTo {α : Type} (clock : Clock) (scope : Scope) (moment : Nat) :
    (clock.limit? (scope.upTo moment) : Option (Nat × Ending α)) = clock.limit? scope ∨
      scope.deadline.all (moment ≤ ·) = true ∧
        clock.limit? (scope.upTo moment) = some (max clock.now moment, (.expired : Ending α)) ∧
        ∀ (limit : Nat) (ending : Ending α),
          clock.limit? scope = some (limit, ending) → max clock.now moment ≤ limit := by
  by_cases hdeadline : scope.deadline.all (moment ≤ ·) = true
  · have hupTo := Scope.deadline_upTo hdeadline
    have hkeeps : (scope.upTo moment).interruptible = scope.interruptible := rfl
    simp only [limit?, hupTo, hkeeps, Option.map_some]
    generalize (if scope.interruptible = true then clock.stopAt.map (max clock.now) else none) =
      stopping
    cases hsome : scope.deadline with
    | none =>
      cases stopping with
      | none => exact .inr ⟨rfl, rfl, nofun⟩
      | some stopping =>
        by_cases h : max clock.now moment ≤ stopping
        · right
          refine ⟨rfl, if_pos h, ?_⟩
          rintro limit ending ⟨⟩
          exact h
        · exact .inl (if_neg h)
    | some deadline =>
      rw [hsome] at hdeadline
      have hmoment : moment ≤ deadline := of_decide_eq_true hdeadline
      have hle : max clock.now moment ≤ max clock.now deadline := by omega
      cases stopping with
      | none =>
        right
        refine ⟨hdeadline, rfl, ?_⟩
        rintro limit ending ⟨⟩
        exact hle
      | some stopping =>
        by_cases h : max clock.now moment ≤ stopping
        · right
          refine ⟨hdeadline, if_pos h, ?_⟩
          simp only [Option.map_some]
          intro limit ending hlimit
          split at hlimit
          · cases hlimit
            exact hle
          · cases hlimit
            exact h
        · left
          simp only [Option.map_some]
          rw [if_neg h, if_neg (by omega)]
  · left
    cases hsome : scope.deadline with
    | none => simp [hsome] at hdeadline
    | some deadline =>
      simp only [hsome, Option.all_some, decide_eq_true_eq, Nat.not_le] at hdeadline
      rw [Scope.upTo_of_lt hsome hdeadline]

/-- A deadline that is set breaks a wait off, or it makes no difference. -/
theorem waitUntil_upTo (clock : Clock) (scope : Scope) (limit moment : Nat) :
    clock.waitUntil (scope.upTo limit) moment = clock.waitUntil scope moment ∨
      (clock.waitUntil (scope.upTo limit) moment).1 = .expired ∧
        scope.deadline.all (limit ≤ ·) = true := by
  obtain h | ⟨hdeadline, h, hlater⟩ := limit?_upTo (α := Unit) clock scope limit
  · left
    simp only [waitUntil, h]
    rfl
  · by_cases hin : max clock.now moment ≤ max clock.now limit
    · left
      simp only [waitUntil, h, hin, if_true]
      cases hlimit : (clock.limit? scope : Option (Nat × Ending Unit)) with
      | none => rfl
      | some limit' =>
        have := hlater _ _ hlimit
        simp only [if_pos (Nat.le_trans hin this)]
        rfl
    · simp only [waitUntil, h, hin, if_false]
      by_cases hpast : scope.horizon.any (· < max clock.now limit) = true
      · left
        have hleft :
            clock.passTo (scope.upTo limit) (max clock.now limit) (.expired : Ending Unit) =
              (.stuck, clock) := passTo_of_past hpast (Nat.le_refl _) _
        rw [hleft]
        cases hlimit : (clock.limit? scope : Option (Nat × Ending Unit)) with
        | none => exact (passTo_of_past hpast (by omega) _).symm
        | some limit' =>
          have := hlater _ _ hlimit
          simp only
          split
          · exact (passTo_of_past hpast (by omega) _).symm
          · exact (passTo_of_past hpast this _).symm
      · right
        refine ⟨?_, hdeadline⟩
        simp only [passTo]
        rw [if_neg]
        exact hpast

end Clock

end PeerWire
