import PeerWire.Time.Activity

/-!
# What activities leave behind

An activity is finished with a value, fails, or is broken off, which may also mean that it never
ends. What it leaves behind differs between these ways to end, so what is known about it is said
for each of them. Main statements: what is known about an activity that is made of others follows
from what is known about these, step by step, and for a repetition from what each round keeps.
-/

namespace PeerWire

variable {σ τ α β : Type}

/-- What holds after an activity, for each way in which it may end. -/
structure Aftermath (σ α : Type) where
  /-- After it was finished with a value. -/
  done : α → σ → Prop
  /-- After it failed. -/
  failed : Error → σ → Prop
  /-- After it was broken off or got stuck. -/
  broken : σ → Prop

namespace Aftermath

/-- An outcome is as foreseen. -/
def Holds (q : Aftermath σ α) (o : Outcome σ α) : Prop :=
  match o.ending with
  | .done value => q.done value o.state
  | .failed error => q.failed error o.state
  | _ => q.broken o.state

/-- The same with something else after being finished. -/
def after (q : Aftermath σ α) (done : β → σ → Prop) : Aftermath σ β := ⟨done, q.failed, q.broken⟩

/-- What holds after working on a part, in terms of the part. -/
def onPart (q : Aftermath τ α) (put : σ → τ) : Aftermath σ α where
  done value s := q.done value (put s)
  failed error s := q.failed error (put s)
  broken s := q.broken (put s)

/-- A property is kept, and only certain failures happen. -/
def keeping (E : Error → Prop) (I : σ → Prop) : Aftermath σ α where
  done _ s := I s
  failed error s := E error ∧ I s
  broken s := I s

/-- What holds after a weaker foresight. -/
theorem Holds.mono {q q' : Aftermath σ α} {o : Outcome σ α} (h : q.Holds o)
    (hdone : ∀ value s, q.done value s → q'.done value s)
    (hfailed : ∀ error s, q.failed error s → q'.failed error s)
    (hbroken : ∀ s, q.broken s → q'.broken s) : q'.Holds o := by
  obtain ⟨ending, clock, s⟩ := o
  cases ending with
  | done value => exact hdone value s h
  | failed error => exact hfailed error s h
  | _ => exact hbroken s h

end Aftermath

namespace Activity

/-- From every state with a property an activity ends as foreseen. -/
def Leads (P : σ → Prop) (x : Activity σ α) (q : Aftermath σ α) : Prop :=
  ∀ scope clock s, P s → q.Holds (x scope clock s)

/-- An activity keeps a property, and only certain failures happen. -/
abbrev FailsOnly (E : Error → Prop) (I : σ → Prop) (x : Activity σ α) : Prop :=
  Leads I x (.keeping E I)

variable {P P' : σ → Prop} {x : Activity σ α} {q q' : Aftermath σ α}

/-- More may be asked for before and less may be foreseen after an activity. -/
theorem Leads.mono (h : Leads P x q) (hP : ∀ s, P' s → P s)
    (hdone : ∀ value s, q.done value s → q'.done value s)
    (hfailed : ∀ error s, q.failed error s → q'.failed error s)
    (hbroken : ∀ s, q.broken s → q'.broken s) : Leads P' x q' :=
  fun scope clock s hs ↦ (h scope clock s (hP s hs)).mono hdone hfailed hbroken

/-- More may be asked for before an activity. -/
theorem Leads.of_imp (h : Leads P x q) (hP : ∀ s, P' s → P s) : Leads P' x q :=
  fun scope clock s hs ↦ h scope clock s (hP s hs)

/-- What does not depend on the state may be taken out of what is asked for. -/
theorem leads_of_and {A : Prop} (h : A → Leads P x q) : Leads (fun s ↦ P s ∧ A) x q :=
  fun scope clock s hs ↦ h hs.2 scope clock s hs.1

/-- Whatever comes of an activity is as foreseen where everything is. -/
theorem leads_of_trivial (hdone : ∀ value s, q.done value s) (hfailed : ∀ error s, q.failed error s)
    (hbroken : ∀ s, q.broken s) : Leads P x q := by
  intro scope clock s _
  generalize x scope clock s = o
  obtain ⟨ending, after, t⟩ := o
  cases ending with
  | done value => exact hdone value t
  | failed error => exact hfailed error t
  | _ => exact hbroken t

/-- What holds for each state alone holds for all of them. -/
theorem leads_of_forall (h : ∀ s, P s → Leads (fun s' ↦ s' = s) x q) : Leads P x q :=
  fun scope clock s hs ↦ h s hs scope clock s rfl

/-- An activity keeps what it maintains. -/
theorem failsOnly_of_maintains (h : Maintains P x) : FailsOnly (fun _ ↦ True) P x := by
  intro scope clock s hs
  have hkept := h scope clock s hs
  generalize x scope clock s = o at hkept ⊢
  obtain ⟨ending, after, t⟩ := o
  cases ending with
  | failed error => exact ⟨trivial, hkept⟩
  | _ => exact hkept

/-! ### Single activities -/

/-- Finishing at once leaves the state as it is. -/
theorem leads_pure {value : α} (h : ∀ s, P s → q.done value s) : Leads P (pure value) q :=
  fun _ _ s hs ↦ h s hs

/-- Failing leaves the state as it is. -/
theorem leads_fail {error : Error} (h : ∀ s, P s → q.failed error s) : Leads P (fail error) q :=
  fun _ _ s hs ↦ h s hs

/-- Taking over a result leaves the state as it is. -/
theorem leads_ofExcept {result : Except Error α}
    (hok : ∀ value, result = .ok value → ∀ s, P s → q.done value s)
    (herror : ∀ error, result = .error error → ∀ s, P s → q.failed error s) :
    Leads P (ofExcept result) q := by
  cases result with
  | ok value => exact leads_pure (hok value rfl)
  | error error => exact leads_fail (herror error rfl)

/-- Looking at the time leaves the state as it is. -/
theorem leads_now {q : Aftermath σ Nat} (h : ∀ moment s, P s → q.done moment s) :
    Leads P now q :=
  fun _ clock s hs ↦ h clock.now s hs

/-- A change leaves the changed state. -/
theorem leads_modify {f : σ → σ} {q : Aftermath σ Unit} (h : ∀ s, P s → q.done () (f s)) :
    Leads P (modify f) q :=
  fun _ _ s hs ↦ h s hs

/-- A change that gives a value leaves the changed state. -/
theorem leads_change {f : σ → α × σ} (h : ∀ s, P s → q.done (f s).1 (f s).2) :
    Leads P (change f) q :=
  fun _ _ s hs ↦ h s hs

/-- Waiting in vain leaves the state as it is. -/
theorem leads_never (h : ∀ s, P s → q.broken s) : Leads P never q := by
  intro scope clock s hs
  obtain ⟨after, hnever | hnever | hnever⟩ := never_cases scope clock
  · rw [hnever]
    exact h s hs
  · rw [hnever]
    exact h s hs
  · rw [hnever]
    exact h s hs

/-! ### What is made of activities -/

/-- What the first part of a sequence leaves behind is there for the rest of it. -/
theorem leads_bind {f : α → Activity σ β} {q : Aftermath σ β} {M : α → σ → Prop}
    (hx : Leads P x (q.after M)) (hf : ∀ value, Leads (M value) (f value) q) :
    Leads P (x >>= f) q := by
  intro scope clock s hs
  have hx := hx scope clock s hs
  rw [bind_apply]
  generalize x scope clock s = o at hx ⊢
  obtain ⟨ending, after, t⟩ := o
  cases ending with
  | done value => exact hf value scope after t hx
  | _ => exact hx

/-- What depends on the state may depend on what holds of it. -/
theorem leads_get_bind {f : σ → Activity σ β} {q : Aftermath σ β}
    (h : ∀ s, P s → Leads (fun s' ↦ s' = s) (f s) q) : Leads P (get >>= f) q :=
  fun scope clock s hs ↦ h s hs scope clock s rfl

/-- What depends on the state fails as it does for each state. -/
theorem failsOnly_get_bind {E : Error → Prop} {f : σ → Activity σ β}
    (h : ∀ s, FailsOnly E P (f s)) : FailsOnly E P (get >>= f) :=
  fun scope clock s hs ↦ h s scope clock s hs

/-- Going on after a failure finishes with it. -/
theorem leads_attempt {q : Aftermath σ (Except Error α)}
    (hx : Leads P x ⟨fun value ↦ q.done (.ok value), fun error ↦ q.done (.error error), q.broken⟩) :
    Leads P (attempt x) q := by
  intro scope clock s hs
  have hx := hx scope clock s hs
  simp only [attempt]
  generalize x scope clock s = o at hx ⊢
  obtain ⟨ending, after, t⟩ := o
  cases ending <;> exact hx

/-- Working on a part leaves the whole with what was made of the part. -/
theorem leads_onPart {P : τ → Prop} {part : τ → σ} {put : τ → σ → τ} {q : Aftermath τ α}
    (hx : ∀ t, P t → Leads (fun s ↦ s = part t) x (q.onPart (put t))) :
    Leads P (onPart part put x) q := by
  intro scope clock t ht
  have hx := hx t ht scope clock (part t) rfl
  simp only [onPart]
  generalize x scope clock (part t) = o at hx ⊢
  obtain ⟨ending, after, s⟩ := o
  cases ending <;> exact hx

/-- A limit in time leaves what is done when it is late, or what else comes of what it limits. -/
theorem leads_within {moment : Nat} {late : Activity σ α} {M : σ → Prop}
    (hx : Leads P x ⟨q.done, q.failed, M⟩) (hlate : Leads M late q)
    (hbroken : ∀ s, M s → q.broken s) : Leads P (within moment x late) q := by
  intro scope clock s hs
  have hx := hx (scope.upTo moment) clock s hs
  rw [within_apply]
  generalize x (scope.upTo moment) clock s = o at hx ⊢
  obtain ⟨ending, after, t⟩ := o
  cases ending with
  | done value => exact hx
  | failed error => exact hx
  | expired =>
    simp only
    split
    · exact hlate scope after t hx
    · exact hbroken t hx
  | interrupted => exact hbroken t hx
  | stuck => exact hbroken t hx

/-- A repetition leaves what its rounds keep, and what the last of them leaves. -/
theorem leads_repeatUntil {quantity : σ → Nat} {round : Activity σ (Option α)}
    {advances : Advances quantity round}
    (h : Leads P round (q.after fun result s ↦ result.elim (P s) (q.done · s))) :
    Leads P (repeatUntil quantity round advances) q := by
  intro scope clock s hs
  have hround (clock : Clock) (s : σ) (hs : P s) {ending : Ending (Option α)}
      (hending : (round scope clock s).ending = ending) :
      (q.after fun result s ↦ result.elim (P s) (q.done · s)).Holds
        ⟨ending, (round scope clock s).clock, (round scope clock s).state⟩ := by
    rw [← hending]
    exact h scope clock s hs
  fun_induction repeatUntil quantity round advances scope clock s with
  | case1 clock s value hending => exact hround clock s hs hending
  | case2 clock s hending ih => exact ih (hround clock s hs hending)
  | case3 clock s error hending => exact hround clock s hs hending
  | case4 clock s hending => exact hround clock s hs hending
  | case5 clock s hending => exact hround clock s hs hending
  | case6 clock s hending => exact hround clock s hs hending

/-- A result is no other failure than certain ones, and a property holds. -/
def Reports (E : Error → Prop) (I : σ → Prop) (result : Except Error α) (s : σ) : Prop :=
  I s ∧ ∀ error, result = .error error → E error

/-- Going on after a failure takes over the same failures. -/
theorem failsOnly_attempt {E : Error → Prop} {I : σ → Prop} (h : FailsOnly E I x) :
    Leads I (attempt x) ((Aftermath.keeping E I : Aftermath σ α).after (Reports E I)) := by
  apply leads_attempt
  apply h.mono
  · exact fun _ hs ↦ hs
  · exact fun _ _ hs ↦ ⟨hs, nofun⟩
  · intro error s hs
    refine ⟨hs.2, ?_⟩
    rintro _ ⟨⟩
    exact hs.1
  · exact fun _ hs ↦ hs

/-- Taking over a result fails as that reports. -/
theorem failsOnly_ofExcept {E : Error → Prop} {I : σ → Prop} (result : Except Error α) :
    Leads (Reports E I result) (ofExcept result) (.keeping E I) := by
  apply leads_ofExcept
  · exact fun _ _ _ hs ↦ hs.1
  · exact fun error heq _ hs ↦ ⟨hs.2 error heq, hs.1⟩

/-- A repetition keeps what its rounds keep, and fails as they do. -/
theorem failsOnly_repeatUntil {E : Error → Prop} {quantity : σ → Nat}
    {round : Activity σ (Option α)} {advances : Advances quantity round}
    (h : FailsOnly E P round) : FailsOnly E P (repeatUntil quantity round advances) := by
  apply leads_repeatUntil
  apply h.mono
  · exact fun _ hs ↦ hs
  · intro result s hs
    cases result with
    | none => exact hs
    | some value => exact hs
  · exact fun _ _ hs ↦ hs
  · exact fun _ hs ↦ hs

/-- Something done with a value of its own leaves the rest of the state. -/
theorem leads_withOwn {own : τ} {x : Activity (σ × τ) α}
    (hx : Leads (fun s ↦ P s.1 ∧ s.2 = own) x (q.onPart Prod.fst)) :
    Leads P (withOwn own x) q := by
  intro scope clock s hs
  have hx := hx scope clock (s, own) ⟨hs, rfl⟩
  simp only [withOwn]
  generalize x scope clock (s, own) = o at hx ⊢
  obtain ⟨ending, after, t⟩ := o
  cases ending <;> exact hx

/-- Something that ends when the session is told to stop leaves what it leaves when it is broken
off, or never began. -/
theorem leads_untilStopped {q : Aftermath σ (Option α)}
    (hx : Leads P x ⟨fun value ↦ q.done (some value), q.failed,
      fun s ↦ q.broken s ∧ q.done none s⟩)
    (hnone : ∀ s, P s → q.done none s) : Leads P (untilStopped x) q := by
  intro scope clock s hs
  have hx := hx { scope with interruptible := true } clock s hs
  simp only [untilStopped]
  split
  · exact hnone s hs
  · generalize x { scope with interruptible := true } clock s = o at hx ⊢
    obtain ⟨ending, after, t⟩ := o
    cases ending with
    | done value => exact hx
    | failed error => exact hx
    | expired => exact hx.1
    | interrupted => exact hx.2
    | stuck => exact hx.1

end Activity

end PeerWire
