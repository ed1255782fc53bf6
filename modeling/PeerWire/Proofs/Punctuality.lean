import PeerWire.Time.Activity

/-!
# Deadlines that only cut short

A deadline is a moment up to which an activity goes on as if there were none. If the activity ends
by then it ends as it does without the deadline, and otherwise it expires at that very moment. Main
statement: whatever is made of activities that are punctual like this is punctual, also what limits
them in time again.
-/

namespace PeerWire

variable {σ τ α β : Type}

/-! ### Scopes -/

namespace Scope

variable {scope : Scope} {moment other : Nat}

/-- A moment that does not come first changes nothing. -/
theorem upTo_of_not_all (h : ¬scope.deadline.all (moment ≤ ·) = true) :
    scope.upTo moment = scope := by
  cases hdeadline : scope.deadline with
  | none => simp [hdeadline] at h
  | some deadline =>
    simp only [hdeadline, Option.all_some, decide_eq_true_eq, Nat.not_le] at h
    exact upTo_of_lt hdeadline h

/-- Of two moments the order does not matter. -/
theorem upTo_comm (scope : Scope) (moment other : Nat) :
    (scope.upTo moment).upTo other = (scope.upTo other).upTo moment := by
  simp only [upTo, Option.map_some, Option.getD_some, mk.injEq, Option.some.injEq, and_true]
  cases scope.deadline with
  | none => exact Nat.min_comm other moment
  | some deadline =>
    simp only [Option.map_some, Option.getD_some]
    omega

/-- A moment sets a deadline once. -/
theorem upTo_upTo (scope : Scope) (moment : Nat) :
    (scope.upTo moment).upTo moment = scope.upTo moment := by
  simp only [upTo, Option.map_some, Option.getD_some, mk.injEq, Option.some.injEq, and_true]
  cases scope.deadline with
  | none => exact Nat.min_self moment
  | some deadline =>
    simp only [Option.map_some, Option.getD_some]
    omega

/-- No deadline up to a moment comes before another moment if neither the deadline nor that moment
does. -/
theorem all_deadline_upTo (scope : Scope) (moment other : Nat) :
    (scope.upTo moment).deadline.all (other ≤ ·) = true ↔
      scope.deadline.all (other ≤ ·) = true ∧ other ≤ moment := by
  rw [upTo]
  cases scope.deadline with
  | none => simp
  | some deadline =>
    simp only [Option.map_some, Option.getD_some, Option.all_some, decide_eq_true_eq]
    omega

end Scope

/-! ### Outcomes -/

namespace Outcome

/-- The outcome is nothing that was there by a moment: it is neither a value nor a failure, unless
that comes later. -/
def Late (moment : Nat) (o : Outcome σ α) : Prop :=
  match o.ending with
  | .done _ | .failed _ => moment < o.clock.now
  | _ => True

/-- What comes later than a moment was not there by then. -/
theorem late_of_lt {moment : Nat} {o : Outcome σ α} (h : moment < o.clock.now) :
    o.Late moment := by
  rw [Late]
  split
  · exact h
  · exact h
  · trivial

/-- What comes of an activity with a deadline, compared with what comes of it without: the same, if
that is no later than the deadline, and else it expires, if no earlier deadline is set. -/
inductive CutAt (scope : Scope) (moment : Nat) (o : Outcome σ α) : Outcome σ α → Prop where
  /-- It ends alike. -/
  | same (inTime : o.clock.now ≤ moment) : CutAt scope moment o o
  /-- It expires. -/
  | expired {after : Clock} {s : σ} (first : scope.deadline.all (moment ≤ ·) = true)
      (now : after.now = moment) (late : o.Late moment) :
      CutAt scope moment o ⟨.expired, after, s⟩

/-- What was there by the deadline comes with the deadline, too. -/
theorem CutAt.eq_of_done {scope : Scope} {moment : Nat} {value : α} {after : Clock} {s : σ}
    {o : Outcome σ α} (h : CutAt scope moment ⟨.done value, after, s⟩ o)
    (hnow : after.now ≤ moment) : o = ⟨.done value, after, s⟩ := by
  cases h with
  | same inTime => rfl
  | expired first now late => exact absurd hnow (Nat.not_le_of_lt late)

/-- What comes with the deadline comes without it, and by then. -/
theorem CutAt.of_done {scope : Scope} {moment : Nat} {value : α} {after : Clock} {s : σ}
    {o : Outcome σ α} (h : CutAt scope moment o ⟨.done value, after, s⟩) :
    o = ⟨.done value, after, s⟩ ∧ after.now ≤ moment := by
  cases h with
  | same inTime => exact ⟨rfl, inTime⟩

end Outcome

/-- What comes of an activity in a scope that began at some time. -/
structure Timely (clock : Clock) (scope : Scope) (run : Scope → Outcome σ α) : Prop where
  /-- Time does not run backwards. -/
  forward : clock.now ≤ (run scope).clock.now
  /-- Nothing expires before the deadline. -/
  expired : (run scope).ending = .expired →
    scope.deadline.any (· ≤ (run scope).clock.now) = true
  /-- Another deadline only cuts short. -/
  cut : ∀ moment, clock.now ≤ moment →
    Outcome.CutAt scope moment (run scope) (run (scope.upTo moment))

/-- The same with other values and states is as timely. -/
theorem Timely.map {clock : Clock} {scope : Scope} {run : Scope → Outcome σ α}
    (h : Timely clock scope run) (f : Outcome σ α → Outcome τ β)
    (hclock : ∀ o, (f o).clock = o.clock)
    (hexpired : ∀ o, (f o).ending = .expired ↔ o.ending = .expired)
    (hlate : ∀ o moment, o.Late moment → (f o).Late moment) :
    Timely clock scope fun scope ↦ f (run scope) := by
  refine ⟨?_, ?_, ?_⟩
  · rw [hclock]
    exact h.forward
  · rw [hclock, hexpired]
    exact h.expired
  · intro moment hmoment
    have hcut := h.cut moment hmoment
    generalize run scope = o at hcut ⊢
    generalize run (scope.upTo moment) = o' at hcut ⊢
    cases hcut with
    | same inTime => exact .same ((hclock o).symm ▸ inTime)
    | @expired after s first now late =>
      have hending := (hexpired ⟨.expired, after, s⟩).mpr rfl
      have hafter := hclock ⟨.expired, after, s⟩
      generalize f ⟨.expired, after, s⟩ = p at hending hafter ⊢
      obtain ⟨ending, clock, t⟩ := p
      obtain rfl : ending = .expired := hending
      obtain rfl : clock = after := hafter
      exact .expired first now (hlate o moment late)

/-! ### Waiting -/

namespace Clock

variable {clock : Clock} {scope : Scope} {moment : Nat}

/-- With a deadline a wait is broken off by then. -/
theorem exists_limit?_upTo (clock : Clock) (scope : Scope) (moment : Nat) : ∃ limit ending,
    (clock.limit? (scope.upTo moment) : Option (Nat × Ending α)) = some (limit, ending) ∧
      limit ≤ max clock.now moment := by
  obtain ⟨deadline, hdeadline, hle⟩ :
      ∃ deadline, (scope.upTo moment).deadline = some deadline ∧ deadline ≤ moment := by
    refine ⟨_, rfl, ?_⟩
    cases scope.deadline with
    | none => exact Nat.le_refl _
    | some deadline => exact Nat.min_le_left _ _
  simp only [limit?, hdeadline, Option.map_some]
  generalize (if (scope.upTo moment).interruptible = true then clock.stopAt.map (max clock.now)
    else none) = stopping
  cases stopping with
  | none => exact ⟨_, _, rfl, by omega⟩
  | some stopping =>
    by_cases hfirst : max clock.now deadline ≤ stopping
    · exact ⟨_, _, if_pos hfirst, by omega⟩
    · exact ⟨_, _, if_neg hfirst, by omega⟩

/-- A limit to a wait is not in the past, and it expires at the deadline. -/
theorem le_of_limit? {limit : Nat} {ending : Ending α}
    (h : clock.limit? scope = some (limit, ending)) :
    clock.now ≤ limit ∧ (ending = .expired → scope.deadline.any (· ≤ limit) = true) := by
  simp only [limit?] at h
  by_cases hinterruptible : scope.interruptible = true
  · simp only [hinterruptible, if_true] at h
    cases hdeadline : scope.deadline <;> cases hstop : clock.stopAt <;> grind
  · simp only [hinterruptible, Bool.false_eq_true, if_false] at h
    cases hdeadline : scope.deadline <;> grind

/-- Time passes up to the moment, or not at all. -/
theorem now_passTo (scope : Scope) (h : clock.now ≤ moment) (ending : Ending α) :
    clock.now ≤ (clock.passTo scope moment ending).2.now ∧
      (clock.passTo scope moment ending).2.now ≤ moment := by
  unfold passTo
  split
  · exact ⟨Nat.le_refl _, h⟩
  · exact ⟨h, Nat.le_refl _⟩

/-- What comes at the moment is what is waited for, or nothing comes. -/
theorem passTo_cases (clock : Clock) (scope : Scope) (moment : Nat) (ending : Ending α) :
    clock.passTo scope moment ending = (ending, { clock with now := moment }) ∨
      scope.horizon.any (· < moment) = true ∧
        clock.passTo scope moment ending = (.stuck, clock) := by
  unfold passTo
  split
  · next h => exact .inr ⟨h, rfl⟩
  · exact .inl rfl

/-- A wait that may be over at a moment, or never, given what breaks it off. -/
def waitOver (clock : Clock) (scope : Scope) (arrival : Option Nat) (ending : Ending α) :
    Ending α × Clock :=
  match clock.limit? scope, arrival with
  | none, none => (.stuck, clock)
  | none, some arrival => clock.passTo scope arrival ending
  | some (limit, broken), none => clock.passTo scope limit broken
  | some (limit, broken), some arrival =>
    if arrival ≤ limit then clock.passTo scope arrival ending
    else clock.passTo scope limit broken

/-- A wait for a moment is over then. -/
theorem waitUntil_eq_waitOver (clock : Clock) (scope : Scope) (moment : Nat) :
    clock.waitUntil scope moment =
      clock.waitOver scope (some (max clock.now moment)) (.done ()) := by
  unfold waitUntil waitOver
  cases clock.limit? scope <;> rfl

/-- A wait for something that never comes is never over. -/
theorem waitForever_eq_waitOver (clock : Clock) (scope : Scope) (ending : Ending α) :
    clock.waitForever scope = clock.waitOver scope none ending := by
  unfold waitForever waitOver
  cases (clock.limit? scope : Option (Nat × Ending α)) <;> rfl

variable {arrival : Option Nat}

/-- A wait ends no earlier than it began, and no later than it is broken off. -/
theorem now_waitOver (ending : Ending α) (harrival : ∀ moment ∈ arrival, clock.now ≤ moment) :
    clock.now ≤ (clock.waitOver scope arrival ending).2.now ∧
      ∀ (limit : Nat) (broken : Ending α), clock.limit? scope = some (limit, broken) →
        (clock.waitOver scope arrival ending).2.now ≤ limit := by
  unfold waitOver
  cases hlimit : (clock.limit? scope : Option (Nat × Ending α)) with
  | none =>
    refine ⟨?_, nofun⟩
    cases arrival with
    | none => exact Nat.le_refl _
    | some moment => exact (now_passTo scope (harrival moment rfl) ending).1
  | some limit =>
    obtain ⟨limit, broken⟩ := limit
    obtain ⟨hnow, -⟩ := le_of_limit? hlimit
    have hbroken := now_passTo scope hnow broken
    cases arrival with
    | none =>
      refine ⟨hbroken.1, ?_⟩
      rintro _ _ ⟨⟩
      exact hbroken.2
    | some moment =>
      have hover := now_passTo scope (harrival moment rfl) ending
      by_cases hle : moment ≤ limit
      · simp only [if_pos hle]
        refine ⟨hover.1, ?_⟩
        rintro _ _ ⟨⟩
        exact Nat.le_trans hover.2 hle
      · simp only [if_neg hle]
        refine ⟨hbroken.1, ?_⟩
        rintro _ _ ⟨⟩
        exact hbroken.2

/-- A wait expires at the deadline. -/
theorem waitOver_expired {ending : Ending α} (hending : ending ≠ .expired)
    (h : (clock.waitOver scope arrival ending).1 = .expired) :
    scope.deadline.any (· ≤ (clock.waitOver scope arrival ending).2.now) = true := by
  have hover (moment : Nat) : (clock.passTo scope moment ending).1 ≠ .expired := by
    rcases passTo_cases clock scope moment ending with heq | ⟨-, heq⟩
    · rw [heq]
      exact hending
    · rw [heq]
      nofun
  unfold waitOver at h ⊢
  cases hlimit : (clock.limit? scope : Option (Nat × Ending α)) with
  | none =>
    rw [hlimit] at h
    cases arrival with
    | none => cases h
    | some moment => exact absurd h (hover moment)
  | some limit =>
    obtain ⟨limit, broken⟩ := limit
    obtain ⟨-, hdeadline⟩ := le_of_limit? hlimit
    have hbroken (h : (clock.passTo scope limit broken).1 = .expired) :
        scope.deadline.any (· ≤ (clock.passTo scope limit broken).2.now) = true := by
      rcases passTo_cases clock scope limit broken with heq | ⟨-, heq⟩
      · rw [heq] at h ⊢
        exact hdeadline h
      · rw [heq] at h
        cases h
    rw [hlimit] at h
    cases arrival with
    | none => exact hbroken h
    | some moment =>
      by_cases hle : moment ≤ limit
      · simp only [if_pos hle] at h
        exact absurd h (hover moment)
      · simp only [if_neg hle] at h ⊢
        exact hbroken h

/-- A wait that is broken off gives nothing. -/
theorem late_of_limit? {limit deadline : Nat} {broken : Ending α}
    (h : clock.limit? scope = some (limit, broken)) (s : σ) :
    (⟨(clock.passTo scope limit broken).1, (clock.passTo scope limit broken).2, s⟩ :
      Outcome σ α).Late deadline := by
  rcases passTo_cases clock scope limit broken with heq | ⟨-, heq⟩
  · rw [heq]
    rcases ending_of_limit? h with rfl | rfl <;> trivial
  · rw [heq]
    trivial

/-- A wait that would be over after a deadline gives nothing by then. -/
theorem late_waitOver (ending : Ending α) {deadline : Nat}
    (harrival : ∀ moment ∈ arrival, deadline < moment) (s : σ) :
    (⟨(clock.waitOver scope arrival ending).1, (clock.waitOver scope arrival ending).2, s⟩ :
      Outcome σ α).Late deadline := by
  have hover {moment : Nat} (hmoment : deadline < moment) :
      (⟨(clock.passTo scope moment ending).1, (clock.passTo scope moment ending).2, s⟩ :
        Outcome σ α).Late deadline := by
    rcases passTo_cases clock scope moment ending with heq | ⟨-, heq⟩
    · rw [heq]
      exact Outcome.late_of_lt hmoment
    · rw [heq]
      trivial
  unfold waitOver
  cases hlimit : (clock.limit? scope : Option (Nat × Ending α)) with
  | none =>
    cases arrival with
    | none => trivial
    | some moment => exact hover (harrival moment rfl)
  | some limit =>
    obtain ⟨limit, broken⟩ := limit
    cases arrival with
    | none => exact late_of_limit? hlimit s
    | some moment =>
      by_cases hle : moment ≤ limit
      · simp only [if_pos hle]
        exact hover (harrival moment rfl)
      · simp only [if_neg hle]
        exact late_of_limit? hlimit s

/-- A wait that goes on past the horizon never ends. -/
theorem waitOver_of_past (ending : Ending α) {deadline : Nat}
    (hpast : scope.horizon.any (· < deadline) = true)
    (harrival : ∀ moment ∈ arrival, deadline < moment)
    (hlimit : ∀ (limit : Nat) (broken : Ending α), clock.limit? scope = some (limit, broken) →
      deadline ≤ limit) :
    clock.waitOver scope arrival ending = (.stuck, clock) := by
  unfold waitOver
  cases hsome : (clock.limit? scope : Option (Nat × Ending α)) with
  | none =>
    cases arrival with
    | none => rfl
    | some moment => exact passTo_of_past hpast (Nat.le_of_lt (harrival moment rfl)) ending
  | some limit =>
    obtain ⟨limit, broken⟩ := limit
    have hbroken : clock.passTo scope limit broken = (.stuck, clock) :=
      passTo_of_past hpast (hlimit limit broken hsome) broken
    cases arrival with
    | none => exact hbroken
    | some moment =>
      by_cases hle : moment ≤ limit
      · simp only [if_pos hle]
        exact passTo_of_past hpast (Nat.le_of_lt (harrival moment rfl)) ending
      · simp only [if_neg hle]
        exact hbroken

/-- A deadline breaks a wait off at that moment, or changes nothing about it. -/
theorem waitOver_upTo (scope : Scope) (ending : Ending α) {deadline : Nat}
    (hdeadline : clock.now ≤ deadline) (harrival : ∀ moment ∈ arrival, clock.now ≤ moment) :
    clock.waitOver (scope.upTo deadline) arrival ending = clock.waitOver scope arrival ending ∧
        (clock.waitOver scope arrival ending).2.now ≤ deadline ∨
      scope.deadline.all (deadline ≤ ·) = true ∧ (∀ moment ∈ arrival, deadline < moment) ∧
        clock.waitOver (scope.upTo deadline) arrival ending =
          (.expired, { clock with now := deadline }) := by
  rcases limit?_upTo (α := α) clock scope deadline with hsame | ⟨hfirst, hbroken, hlater⟩
  · left
    have heq : clock.waitOver (scope.upTo deadline) arrival ending =
        clock.waitOver scope arrival ending := by
      unfold waitOver
      rw [hsame]
      rfl
    obtain ⟨limit, broken, hlimit, hle⟩ := exists_limit?_upTo (α := α) clock scope deadline
    rw [hsame] at hlimit
    have hnow := (now_waitOver ending harrival).2 limit broken hlimit
    exact ⟨heq, by omega⟩
  · rw [Nat.max_eq_right hdeadline] at hbroken hlater
    by_cases hin : ∃ moment ∈ arrival, moment ≤ deadline
    · left
      obtain ⟨moment, rfl, hle⟩ := hin
      have hover : clock.waitOver scope (some moment) ending =
          clock.passTo scope moment ending := by
        unfold waitOver
        cases hlimit : (clock.limit? scope : Option (Nat × Ending α)) with
        | none => rfl
        | some limit => exact if_pos (Nat.le_trans hle (hlater limit.1 limit.2 hlimit))
      have hnow := now_passTo scope (harrival moment rfl) ending
      constructor
      · rw [hover]
        unfold waitOver
        rw [hbroken]
        exact if_pos hle
      · rw [hover]
        omega
    · have hout : ∀ moment ∈ arrival, deadline < moment := fun moment hmoment ↦
        Nat.lt_of_not_le fun hle ↦ hin ⟨moment, hmoment, hle⟩
      have hcut : clock.waitOver (scope.upTo deadline) arrival ending =
          clock.passTo (scope.upTo deadline) deadline .expired := by
        unfold waitOver
        rw [hbroken]
        cases arrival with
        | none => rfl
        | some moment => exact if_neg (Nat.not_le_of_lt (hout moment rfl))
      rcases passTo_cases clock (scope.upTo deadline) deadline (.expired : Ending α) with
        heq | ⟨hpast, heq⟩
      · exact .inr ⟨hfirst, hout, hcut.trans heq⟩
      · left
        have hpast : scope.horizon.any (· < deadline) = true := hpast
        rw [hcut, heq, waitOver_of_past ending hpast hout hlater]
        exact ⟨rfl, hdeadline⟩

/-- A wait is punctual. -/
theorem timely_waitOver {ending : Ending α} (hending : ending ≠ .expired)
    (harrival : ∀ moment ∈ arrival, clock.now ≤ moment) (s : σ) :
    Timely clock scope fun scope ↦
      ⟨(clock.waitOver scope arrival ending).1, (clock.waitOver scope arrival ending).2, s⟩ := by
  refine ⟨(now_waitOver ending harrival).1, waitOver_expired hending, ?_⟩
  intro deadline hdeadline
  rcases waitOver_upTo scope ending hdeadline harrival with
    ⟨heq, hnow⟩ | ⟨hfirst, hout, heq⟩
  · rw [heq]
    exact .same hnow
  · rw [heq]
    exact .expired hfirst rfl (late_waitOver ending hout s)

end Clock

namespace Activity

/-- Whenever it begins, an activity is timely. -/
def Punctual (x : Activity σ α) : Prop :=
  ∀ scope clock s, Timely clock scope fun scope ↦ x scope clock s

/-! ### Single activities -/

/-- What takes no time and depends on no scope is punctual. -/
theorem punctual_of_instant {x : Activity σ α}
    (h : ∀ clock s, ∃ ending t, ending ≠ .expired ∧ ∀ scope, x scope clock s = ⟨ending, clock, t⟩) :
    Punctual x := by
  intro scope clock s
  obtain ⟨ending, t, hending, hx⟩ := h clock s
  simp only [hx]
  refine ⟨Nat.le_refl _, fun hexpired ↦ absurd hexpired hending, fun moment hmoment ↦ ?_⟩
  exact .same hmoment

/-- Finishing at once is punctual. -/
theorem punctual_pure (value : α) : Punctual (pure value : Activity σ α) :=
  punctual_of_instant fun _ s ↦ ⟨.done value, s, nofun, fun _ ↦ rfl⟩

/-- Failing is punctual. -/
theorem punctual_fail (error : Error) : Punctual (fail error : Activity σ α) :=
  punctual_of_instant fun _ s ↦ ⟨.failed error, s, nofun, fun _ ↦ rfl⟩

/-- Taking over a result is punctual. -/
theorem punctual_ofExcept (result : Except Error α) :
    Punctual (ofExcept result : Activity σ α) := by
  cases result with
  | ok value => exact punctual_pure value
  | error error => exact punctual_fail error

/-- A change is punctual. -/
theorem punctual_modify (f : σ → σ) : Punctual (modify f) :=
  punctual_of_instant fun _ s ↦ ⟨.done (), f s, nofun, fun _ ↦ rfl⟩

/-- A change that gives a value is punctual. -/
theorem punctual_change (f : σ → α × σ) : Punctual (change f) :=
  punctual_of_instant fun _ s ↦ ⟨.done (f s).1, (f s).2, nofun, fun _ ↦ rfl⟩

/-- Looking at the time is punctual. -/
theorem punctual_now : Punctual (now : Activity σ Nat) :=
  punctual_of_instant fun clock s ↦ ⟨.done clock.now, s, nofun, fun _ ↦ rfl⟩

/-- Waiting for a moment is punctual. -/
theorem punctual_waitUntil (moment : Nat) : Punctual (waitUntil moment : Activity σ Unit) := by
  intro scope clock s
  have harrival : ∀ arrival ∈ some (max clock.now moment), clock.now ≤ arrival := by
    rintro _ ⟨⟩
    omega
  simp only [waitUntil, Clock.waitUntil_eq_waitOver]
  exact Clock.timely_waitOver (by simp) harrival s

/-- Waiting in vain is punctual. -/
theorem punctual_never : Punctual (never : Activity σ α) := by
  intro scope clock s
  simp only [never, Clock.waitForever_eq_waitOver _ _ .stuck]
  exact Clock.timely_waitOver (by simp) (by simp) s

/-! ### What is made of activities -/

variable {x : Activity σ α} {scope : Scope} {clock : Clock} {s : σ}

/-- A sequence is timely if its first part is, and the rest of it from where that ends. -/
theorem timely_bind {f : α → Activity σ β} (hx : Timely clock scope fun scope ↦ x scope clock s)
    (hf : ∀ value middle t, x scope clock s = ⟨.done value, middle, t⟩ →
      Timely middle scope fun scope ↦ f value scope middle t) :
    Timely clock scope fun scope ↦ (x >>= f) scope clock s := by
  have hforward : clock.now ≤ (x scope clock s).clock.now := hx.forward
  have hexpired : (x scope clock s).ending = .expired →
      scope.deadline.any (· ≤ (x scope clock s).clock.now) = true := hx.expired
  have hcut : ∀ moment, clock.now ≤ moment →
      Outcome.CutAt scope moment (x scope clock s) (x (scope.upTo moment) clock s) := hx.cut
  cases hfirst : x scope clock s with
  | mk ending middle t =>
    rw [hfirst] at hforward hexpired hcut
    have hrun := bind_apply x f scope clock s
    rw [hfirst] at hrun
    cases ending with
    | done value =>
      have hrest := hf value middle t hfirst
      have hnow : middle.now ≤ ((x >>= f) scope clock s).clock.now := hrun ▸ hrest.forward
      refine ⟨Nat.le_trans hforward hnow, fun h ↦ ?_, fun moment hmoment ↦ ?_⟩
      · rw [hrun] at h ⊢
        exact hrest.expired h
      · have hcut := hcut moment hmoment
        rw [bind_apply x f (scope.upTo moment)]
        generalize x (scope.upTo moment) clock s = o' at hcut ⊢
        cases hcut with
        | same inTime =>
          rw [hrun]
          exact hrest.cut moment inTime
        | expired first now late =>
          exact .expired first now (Outcome.late_of_lt (Nat.lt_of_lt_of_le late hnow))
    | _ =>
      refine ⟨?_, fun h ↦ ?_, fun moment hmoment ↦ ?_⟩
      · rw [hrun]
        exact hforward
      · rw [hrun] at h ⊢
        exact hexpired (by cases h <;> rfl)
      · have hcut := hcut moment hmoment
        rw [bind_apply x f (scope.upTo moment), hrun]
        generalize x (scope.upTo moment) clock s = o' at hcut ⊢
        cases hcut with
        | same inTime => exact .same inTime
        | expired first now late => exact .expired first now late

/-- A sequence is punctual if its parts are. -/
theorem punctual_bind {f : α → Activity σ β} (hx : Punctual x) (hf : ∀ value, Punctual (f value)) :
    Punctual (x >>= f) :=
  fun scope clock s ↦ timely_bind (hx scope clock s) fun value middle t _ ↦
    hf value scope middle t

/-- What depends on the state is punctual if it is for each state. -/
theorem punctual_get_bind {f : σ → Activity σ β} (h : ∀ s, Punctual (f s)) :
    Punctual (get >>= f) :=
  fun scope clock s ↦ h s scope clock s

/-- An outcome after which something goes on, even if it is a failure. -/
def goingOn (o : Outcome σ α) : Outcome σ (Except Error α) :=
  match o.ending with
  | .done value => ⟨.done (.ok value), o.clock, o.state⟩
  | .failed error => ⟨.done (.error error), o.clock, o.state⟩
  | .expired => ⟨.expired, o.clock, o.state⟩
  | .interrupted => ⟨.interrupted, o.clock, o.state⟩
  | .stuck => ⟨.stuck, o.clock, o.state⟩

/-- Going on after a failure is punctual. -/
theorem punctual_attempt (hx : Punctual x) : Punctual (attempt x) := by
  intro scope clock s
  have hmap := (hx scope clock s).map goingOn ?_ ?_ ?_
  · exact hmap
  · rintro ⟨ending, after, t⟩
    cases ending <;> rfl
  · rintro ⟨ending, after, t⟩
    cases ending <;> simp [goingOn]
  · rintro ⟨ending, after, t⟩ moment
    cases ending <;> exact id

/-- Working on a part is punctual. -/
theorem punctual_onPart {part : τ → σ} {put : τ → σ → τ} (hx : Punctual x) :
    Punctual (onPart part put x) := fun scope clock t ↦
  (hx scope clock (part t)).map (fun o ↦ ⟨o.ending, o.clock, put t o.state⟩) (fun _ ↦ rfl)
    (fun _ ↦ Iff.rfl) fun _ _ h ↦ h

/-- A repetition is a round and, if that gives no value, the repetition again. -/
theorem repeatUntil_eq_bind (quantity : σ → Nat) (round : Activity σ (Option α))
    (advances : Advances quantity round) (scope : Scope) (clock : Clock) (s : σ) :
    repeatUntil quantity round advances scope clock s =
      (round >>= fun
        | some value => pure value
        | none => repeatUntil quantity round advances) scope clock s := by
  rw [repeatUntil_apply, bind_apply]
  generalize round scope clock s = o
  obtain ⟨ending, after, t⟩ := o
  cases ending with
  | done result => cases result <;> rfl
  | _ => rfl

/-- A repetition is punctual if its rounds are. -/
theorem punctual_repeatUntil {quantity : σ → Nat} {round : Activity σ (Option α)}
    {advances : Advances quantity round} (h : Punctual round) :
    Punctual (repeatUntil quantity round advances) := by
  intro scope clock s
  -- on what is left to be used up, which is less after a round without a value
  induction hn : quantity s using Nat.strongRecOn generalizing clock s with
  | ind n ih =>
    simp only [repeatUntil_eq_bind]
    apply timely_bind (h scope clock s)
    intro result middle t hround
    cases result with
    | some value => exact punctual_pure value scope middle t
    | none =>
      have hless := lt_of_advances advances (congrArg Outcome.ending hround)
      rw [hround, hn] at hless
      exact ih _ hless middle t rfl

/-- What does not expire is not late. -/
theorem within_of_ne_expired {moment : Nat} {late : Activity σ α}
    (h : (x (scope.upTo moment) clock s).ending ≠ .expired) :
    within moment x late scope clock s = x (scope.upTo moment) clock s := by
  rw [within_apply]
  split
  · next hexpired => exact absurd hexpired h
  · rfl

/-- What expires is late, unless an outer limit comes first. -/
theorem within_of_expired {moment : Nat} {late : Activity σ α} {after : Clock} {t : σ}
    (h : x (scope.upTo moment) clock s = ⟨.expired, after, t⟩) :
    within moment x late scope clock s =
      if scope.deadline.all (moment ≤ ·) then late scope after t else ⟨.expired, after, t⟩ := by
  rw [within_apply, h]

/-- With a limit that has not passed, what is finished is what is finished without it, and by then,
unless being late comes to the same. -/
theorem within_eq_done_iff {moment : Nat} {late : Activity σ α} {value : α} {after : Clock} {t : σ}
    (hx : Punctual x) (hclock : clock.now ≤ moment)
    (hlate : ∀ clock s, (late scope clock s).ending ≠ .done value) :
    within moment x late scope clock s = ⟨.done value, after, t⟩ ↔
      x scope clock s = ⟨.done value, after, t⟩ ∧ after.now ≤ moment := by
  have hcut := (hx scope clock s).cut moment hclock
  constructor
  · intro h
    rw [within_apply] at h
    split at h
    · split at h
      · exact absurd (congrArg Outcome.ending h) (hlate _ _)
      · cases h
    · rw [h] at hcut
      exact hcut.of_done
  · rintro ⟨h, hnow⟩
    rw [h] at hcut
    have hfirst := hcut.eq_of_done hnow
    rw [within_of_ne_expired (by simp [hfirst]), hfirst]

/-- A limit in time that has not passed is timely if what it limits does not expire. -/
theorem timely_within_of_ne {moment : Nat} {late : Activity σ α}
    (hx : Timely clock (scope.upTo moment) fun scope ↦ x scope clock s)
    (hne : (x (scope.upTo moment) clock s).ending ≠ .expired) :
    Timely clock scope fun scope ↦ within moment x late scope clock s := by
  have hrun : within moment x late scope clock s = _ := within_of_ne_expired hne
  refine ⟨?_, fun h ↦ ?_, fun deadline hdeadline ↦ ?_⟩
  · rw [hrun]
    exact hx.forward
  · rw [hrun] at h
    exact absurd h hne
  · rw [hrun]
    have hcut := hx.cut deadline hdeadline
    cases hother : x ((scope.upTo moment).upTo deadline) clock s with
    | mk ending after t =>
      rw [hother] at hcut
      rw [Scope.upTo_comm] at hother
      generalize hfirst : x (scope.upTo moment) clock s = o at hcut hne ⊢
      cases hcut with
      | same inTime =>
        rw [within_of_ne_expired (by rw [hother]; exact hne), hother]
        exact .same inTime
      | expired first now late =>
        obtain ⟨hdeadline, hle⟩ := (scope.all_deadline_upTo moment deadline).mp first
        have hlt : deadline < moment := by
          apply Nat.lt_of_le_of_ne hle
          rintro rfl
          rw [Scope.upTo_upTo, hfirst] at hother
          exact hne (congrArg Outcome.ending hother)
        rw [within_of_expired hother, if_neg]
        · exact .expired hdeadline now late
        · rw [Scope.all_deadline_upTo]
          omega

/-- A limit in time is timely if what it limits expires and what is done then is timely. -/
theorem timely_within_of_expired {moment : Nat} {late : Activity σ α} {after : Clock} {t : σ}
    (hx : Timely clock (scope.upTo moment) fun scope ↦ x scope clock s)
    (hlate : Timely after scope fun scope ↦ late scope after t)
    (hfirst : x (scope.upTo moment) clock s = ⟨.expired, after, t⟩) :
    Timely clock scope fun scope ↦ within moment x late scope clock s := by
  have hforward : clock.now ≤ (x (scope.upTo moment) clock s).clock.now := hx.forward
  have hexpired : (x (scope.upTo moment) clock s).ending = .expired →
      (scope.upTo moment).deadline.any (· ≤ (x (scope.upTo moment) clock s).clock.now) = true :=
    hx.expired
  have hrun : within moment x late scope clock s = _ := within_of_expired hfirst
  rw [hfirst] at hforward hexpired
  have hexpired := hexpired rfl
  by_cases hfirstLimit : scope.deadline.all (moment ≤ ·) = true
  · rw [if_pos hfirstLimit] at hrun
    rw [Scope.deadline_upTo hfirstLimit, Option.any_some, decide_eq_true_eq] at hexpired
    change moment ≤ after.now at hexpired
    have hnow : after.now ≤ (late scope after t).clock.now := hlate.forward
    refine ⟨?_, fun h ↦ ?_, fun deadline hdeadline ↦ ?_⟩
    · rw [hrun]
      exact Nat.le_trans hforward hnow
    · rw [hrun] at h ⊢
      exact hlate.expired h
    · rw [hrun]
      have hcut := hx.cut deadline hdeadline
      have hgoesOn (hother : x ((scope.upTo deadline).upTo moment) clock s = ⟨.expired, after, t⟩)
          (hin : after.now ≤ deadline) : Outcome.CutAt scope deadline (late scope after t)
            (within moment x late (scope.upTo deadline) clock s) := by
        rw [within_of_expired hother, if_pos]
        · exact hlate.cut deadline hin
        · rw [Scope.all_deadline_upTo]
          exact ⟨hfirstLimit, Nat.le_trans hexpired hin⟩
      cases hother : x ((scope.upTo moment).upTo deadline) clock s with
      | mk ending after' t' =>
        rw [hother, hfirst] at hcut
        cases hcut with
        | same inTime =>
          rw [Scope.upTo_comm] at hother
          exact hgoesOn hother inTime
        | expired first now _ =>
          obtain ⟨hdeadline, hle⟩ := (scope.all_deadline_upTo moment deadline).mp first
          by_cases hlt : deadline < moment
          · rw [Scope.upTo_comm] at hother
            rw [within_of_expired hother, if_neg]
            · exact .expired hdeadline now (Outcome.late_of_lt (by omega))
            · rw [Scope.all_deadline_upTo]
              omega
          · -- the two limits are the same moment
            obtain rfl : moment = deadline := by omega
            have hsame := hother
            rw [Scope.upTo_upTo, hfirst] at hsame
            cases hsame
            exact hgoesOn hother (Nat.le_of_eq now)
  · rw [if_neg hfirstLimit] at hrun
    have hsame : scope.upTo moment = scope := Scope.upTo_of_not_all hfirstLimit
    rw [hsame] at hexpired
    refine ⟨?_, fun _ ↦ ?_, fun deadline hdeadline ↦ ?_⟩
    · rw [hrun]
      exact hforward
    · rw [hrun]
      exact hexpired
    · rw [hrun]
      have hcut := hx.cut deadline hdeadline
      have hlater : ¬(scope.upTo deadline).deadline.all (moment ≤ ·) = true := fun h ↦
        hfirstLimit ((scope.all_deadline_upTo deadline moment).mp h).1
      cases hother : x ((scope.upTo moment).upTo deadline) clock s with
      | mk ending after' t' =>
        rw [hother, hfirst, hsame] at hcut
        rw [Scope.upTo_comm] at hother
        cases hcut with
        | same inTime =>
          rw [within_of_expired hother, if_neg hlater]
          exact .same inTime
        | expired first now _ =>
          rw [within_of_expired hother, if_neg hlater]
          exact .expired first now trivial

/-- A limit in time is punctual. -/
theorem punctual_within {moment : Nat} {late : Activity σ α} (hx : Punctual x)
    (hlate : Punctual late) : Punctual (within moment x late) := by
  intro scope clock s
  have hx := hx (scope.upTo moment) clock s
  cases hfirst : x (scope.upTo moment) clock s with
  | mk ending after t =>
    cases ending with
    | expired => exact timely_within_of_expired hx (hlate scope after t) hfirst
    | _ => exact timely_within_of_ne hx (by simp [hfirst])

end Activity

end PeerWire
