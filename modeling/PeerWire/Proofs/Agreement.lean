import PeerWire.Time.Activity

/-!
# Activities that agree

Two activities on different kinds of state agree when, from related states, they end alike at the
same time and leave related states. A failure of the first one may be excused, in which case
nothing is asked of the second one. The second one may also idle where the first one goes on, as
long as the first one might as well have started at that later time. Main statements: what is made
of activities that agree agrees, and so do repetitions of rounds in which the second one may idle.
-/

namespace PeerWire

variable {σ τ υ ω α β : Type}

/-- Two outcomes are the same but for the states, which are related, or the first one is a failure
that is excused. -/
inductive Outcome.Alike (excused : Error → Prop) (R : σ → τ → Prop) :
    Outcome σ α → Outcome τ α → Prop where
  /-- They end alike at the same time. -/
  | same {ending : Ending α} {clock : Clock} {s : σ} {t : τ} (related : R s t) :
      Alike excused R ⟨ending, clock, s⟩ ⟨ending, clock, t⟩
  /-- The first one is excused. -/
  | excused {error : Error} {clock : Clock} {s : σ} {other : Outcome τ α}
      (excuse : excused error) : Alike excused R ⟨.failed error, clock, s⟩ other

/-- Where no failure is excused the outcomes are the same but for the states. -/
theorem Outcome.Alike.exists_state {R : σ → τ → Prop} {o : Outcome σ α} {o' : Outcome τ α}
    (h : Alike (fun _ ↦ False) R o o') :
    ∃ s, o = ⟨o'.ending, o'.clock, s⟩ ∧ R s o'.state := by
  cases h with
  | same related => exact ⟨_, rfl, related⟩
  | excused excuse => exact excuse.elim

/-- The same outcome with another value. -/
def Outcome.map (f : α → β) (o : Outcome σ α) : Outcome σ β := ⟨o.ending.map f, o.clock, o.state⟩

namespace Activity

/-- From related states two activities end alike and leave related states. -/
def Agree (excused : Error → Prop) (R : σ → τ → Prop) (x : Activity σ α) (y : Activity τ α) :
    Prop :=
  ∀ scope clock s t, R s t → Outcome.Alike excused R (x scope clock s) (y scope clock t)

/-- Two activities end alike, or the second one idles up to a time from which the first one, in a
state that keeps to the one it had, ends in the same way. -/
def AlikeOrIdle (excused : Error → Prop) (R : σ → τ → Prop) (keeps : σ → σ → Prop) (idle : α)
    (x : Activity σ α) (y : Activity τ α) (scope : Scope) (clock : Clock) (s : σ) (t : τ) : Prop :=
  Outcome.Alike excused R (x scope clock s) (y scope clock t) ∨
    ∃ after s' t', y scope clock t = ⟨.done idle, after, t'⟩ ∧ R s' t' ∧ keeps s s' ∧
      x scope clock s = x scope after s'

/-- From related states two activities end alike, or the second one idles. -/
def AgreeOrIdle (excused : Error → Prop) (R : σ → τ → Prop) (keeps : σ → σ → Prop) (idle : α)
    (x : Activity σ α) (y : Activity τ α) : Prop :=
  ∀ scope clock s t, R s t → AlikeOrIdle excused R keeps idle x y scope clock s t

variable {excused : Error → Prop} {R : σ → τ → Prop} {keeps : σ → σ → Prop} {x : Activity σ α}
  {y : Activity τ α}

/-- Where idling is ruled out activities agree. -/
theorem AgreeOrIdle.agree {idle : α}
    (h : AgreeOrIdle excused R (fun _ _ ↦ False) idle x y) : Agree excused R x y := by
  intro scope clock s t hst
  obtain halike | ⟨_, _, _, _, _, hfalse, _⟩ := h scope clock s t hst
  · exact halike
  · exact hfalse.elim

/-- Activities that agree need not idle. -/
theorem Agree.orIdle (h : Agree excused R x y) (idle : α) :
    AgreeOrIdle excused R keeps idle x y :=
  fun scope clock s t hst ↦ .inl (h scope clock s t hst)

/-- Where no failure is excused, any may be. -/
theorem Agree.excusing (h : Agree (fun _ ↦ False) R x y) : Agree excused R x y := by
  intro scope clock s t hst
  have halike := h scope clock s t hst
  generalize x scope clock s = o at halike ⊢
  generalize y scope clock t = o' at halike ⊢
  cases halike with
  | same related => exact .same related
  | excused excuse => exact excuse.elim

/-! ### Single activities -/

/-- Finishing at once agrees with itself. -/
theorem agree_pure (value : α) :
    Agree excused R (pure value : Activity σ α) (pure value : Activity τ α) :=
  fun _ _ _ _ hst ↦ .same hst

/-- Failing agrees with itself. -/
theorem agree_fail (error : Error) :
    Agree excused R (fail error : Activity σ α) (fail error : Activity τ α) :=
  fun _ _ _ _ hst ↦ .same hst

/-- Taking over a result agrees with itself. -/
theorem agree_ofExcept (result : Except Error α) :
    Agree excused R (ofExcept result : Activity σ α) (ofExcept result : Activity τ α) := by
  cases result with
  | ok value => exact agree_pure value
  | error error => exact agree_fail error

/-- Looking at the time agrees with itself. -/
theorem agree_now : Agree excused R (now : Activity σ Nat) (now : Activity τ Nat) :=
  fun _ _ _ _ hst ↦ .same hst

/-- Waiting for a moment agrees with itself. -/
theorem agree_waitUntil (moment : Nat) :
    Agree excused R (waitUntil moment : Activity σ Unit) (waitUntil moment : Activity τ Unit) :=
  fun _ _ _ _ hst ↦ .same hst

/-- Changes that keep states related agree. -/
theorem agree_modify {f : σ → σ} {g : τ → τ} (h : ∀ s t, R s t → R (f s) (g t)) :
    Agree excused R (modify f) (modify g) :=
  fun _ _ s t hst ↦ .same (h s t hst)

/-- Changes that give the same value and keep states related agree. -/
theorem agree_change {f : σ → α × σ} {g : τ → α × τ}
    (h : ∀ s t, R s t → (f s).1 = (g t).1 ∧ R (f s).2 (g t).2) :
    Agree excused R (change f) (change g) := by
  intro scope clock s t hst
  obtain ⟨hvalue, hstate⟩ := h s t hst
  rw [change, change, hvalue]
  exact .same hstate

/-! ### What is made of activities -/

variable {scope : Scope} {clock : Clock} {s : σ} {t : τ}

/-- Sequences are alike where their first parts are, if the rest of them agrees. -/
theorem alike_bind {f : α → Activity σ β} {g : α → Activity τ β}
    (hx : Outcome.Alike excused R (x scope clock s) (y scope clock t))
    (hf : ∀ value, Agree excused R (f value) (g value)) :
    Outcome.Alike excused R ((x >>= f) scope clock s) ((y >>= g) scope clock t) := by
  rw [bind_apply, bind_apply]
  generalize x scope clock s = o at hx ⊢
  generalize y scope clock t = o' at hx ⊢
  cases hx with
  | @same ending after s' t' related =>
    cases ending with
    | done value => exact hf value scope after s' t' related
    | _ => exact .same related
  | excused excuse => exact .excused excuse

/-- Activities on parts are alike where the parts are and the whole is related then. -/
theorem alike_onPart {S : υ → ω → Prop} {part : υ → σ} {put : υ → σ → υ} {part' : ω → τ}
    {put' : ω → τ → ω} {u : υ} {w : ω} (hput : ∀ s t, R s t → S (put u s) (put' w t))
    (hx : Outcome.Alike excused R (x scope clock (part u)) (y scope clock (part' w))) :
    Outcome.Alike excused S (onPart part put x scope clock u)
      (onPart part' put' y scope clock w) := by
  simp only [onPart]
  generalize x scope clock (part u) = o at hx ⊢
  generalize y scope clock (part' w) = o' at hx ⊢
  cases hx with
  | same related => exact .same (hput _ _ related)
  | excused excuse => exact .excused excuse

/-- Limits in time are alike where what they limit is, if what is done when it is late agrees. -/
theorem alike_within {late : Activity σ α} {late' : Activity τ α} {moment : Nat}
    (hx : Outcome.Alike excused R (x (scope.upTo moment) clock s) (y (scope.upTo moment) clock t))
    (hlate : Agree excused R late late') :
    Outcome.Alike excused R (within moment x late scope clock s)
      (within moment y late' scope clock t) := by
  rw [within_apply, within_apply]
  generalize x (scope.upTo moment) clock s = o at hx ⊢
  generalize y (scope.upTo moment) clock t = o' at hx ⊢
  cases hx with
  | @same ending after s' t' related =>
    cases ending with
    | expired =>
      simp only
      split
      · exact hlate scope after s' t' related
      · exact .same related
    | _ => exact .same related
  | excused excuse => exact .excused excuse

/-- Sequences agree when their parts do. -/
theorem agree_bind {f : α → Activity σ β} {g : α → Activity τ β} (hx : Agree excused R x y)
    (hf : ∀ value, Agree excused R (f value) (g value)) :
    Agree excused R (x >>= f) (y >>= g) :=
  fun scope clock s t hst ↦ alike_bind (hx scope clock s t hst) hf

/-- What depends on the state agrees when it does for related states. -/
theorem agree_get_bind {f : σ → Activity σ β} {g : τ → Activity τ β}
    (h : ∀ s t, R s t → Agree excused R (f s) (g t)) :
    Agree excused R (get >>= f) (get >>= g) :=
  fun scope clock s t hst ↦ h s t hst scope clock s t hst

/-- Going on after failures agrees when no failure is excused. -/
theorem agree_attempt (hx : Agree (fun _ ↦ False) R x y) :
    Agree (fun _ ↦ False) R (attempt x) (attempt y) := by
  intro scope clock s t hst
  have halike := hx scope clock s t hst
  simp only [attempt]
  generalize x scope clock s = o at halike ⊢
  generalize y scope clock t = o' at halike ⊢
  cases halike with
  | @same ending after s' t' related => cases ending <;> exact .same related
  | excused excuse => exact excuse.elim

/-- Working on parts agrees when the parts are related and stay so. -/
theorem agree_onPart {S : υ → ω → Prop} {part : υ → σ} {put : υ → σ → υ} {part' : ω → τ}
    {put' : ω → τ → ω} (hpart : ∀ u w, S u w → R (part u) (part' w))
    (hput : ∀ u w s t, S u w → R s t → S (put u s) (put' w t)) (hx : Agree excused R x y) :
    Agree excused S (onPart part put x) (onPart part' put' y) :=
  fun scope clock u w huw ↦
    alike_onPart (fun s t ↦ hput u w s t huw) (hx scope clock (part u) (part' w) (hpart u w huw))

/-- Working with the same value of one's own agrees when working with both does. -/
theorem agree_withOwn {own : υ} {x : Activity (σ × υ) α} {y : Activity (τ × υ) α}
    (hx : Agree excused (fun s t ↦ R s.1 t.1 ∧ s.2 = t.2) x y) :
    Agree excused R (withOwn own x) (withOwn own y) := by
  intro scope clock s t hst
  have halike := hx scope clock (s, own) (t, own) ⟨hst, rfl⟩
  simp only [withOwn]
  generalize x scope clock (s, own) = o at halike ⊢
  generalize y scope clock (t, own) = o' at halike ⊢
  cases halike with
  | same related => exact .same related.1
  | excused excuse => exact .excused excuse

/-- Limits in time agree when what they limit does, and what is done when it is late. -/
theorem agree_within {late : Activity σ α} {late' : Activity τ α} (moment : Nat)
    (hx : Agree excused R x y) (hlate : Agree excused R late late') :
    Agree excused R (within moment x late) (within moment y late') :=
  fun scope clock s t hst ↦ alike_within (hx (scope.upTo moment) clock s t hst) hlate

/-- What goes on until the session is told to stop agrees when it does without that. -/
theorem agree_untilStopped (hx : Agree excused R x y) :
    Agree excused R (untilStopped x) (untilStopped y) := by
  intro scope clock s t hst
  have halike := hx { scope with interruptible := true } clock s t hst
  simp only [untilStopped]
  split
  · exact .same hst
  · generalize x { scope with interruptible := true } clock s = o at halike ⊢
    generalize y { scope with interruptible := true } clock t = o' at halike ⊢
    cases halike with
    | @same ending after s' t' related => cases ending <;> exact .same related
    | excused excuse => exact .excused excuse

/-! ### Where the second one idles -/

/-- A sequence idles with its first part when the rest of it does nothing then. -/
theorem agreeOrIdle_bind {idle : α} {idle' : β} {f : α → Activity σ β} {g : α → Activity τ β}
    (hx : AgreeOrIdle excused R keeps idle x y) (hf : ∀ value, Agree excused R (f value) (g value))
    (hidle : g idle = pure idle') : AgreeOrIdle excused R keeps idle' (x >>= f) (y >>= g) := by
  intro scope clock s t hst
  obtain halike | ⟨after, s', t', hy, hrelated, hkeeps, hsame⟩ := hx scope clock s t hst
  · exact .inl (alike_bind halike hf)
  · right
    refine ⟨after, s', t', ?_, hrelated, hkeeps, ?_⟩
    · rw [bind_of_done hy, hidle]
      rfl
    · rw [bind_apply, bind_apply, hsame]

/-- What takes up failures idles with its first part, if it passes on what is excused. -/
theorem agreeOrIdle_attempt_bind {idle : α} {idle' : β} {f : Except Error α → Activity σ β}
    {g : Except Error α → Activity τ β} (hx : AgreeOrIdle excused R keeps idle x y)
    (hf : ∀ result, Agree excused R (f result) (g result))
    (hexcused : ∀ error scope clock s, ∃ after s',
      f (.error error) scope clock s = ⟨.failed error, after, s'⟩)
    (hidle : g (.ok idle) = pure idle') :
    AgreeOrIdle excused R keeps idle' (attempt x >>= f) (attempt y >>= g) := by
  intro scope clock s t hst
  unfold AlikeOrIdle
  rw [bind_apply, bind_apply]
  simp only [attempt]
  obtain halike | ⟨after, s', t', hy, hrelated, hkeeps, hsame⟩ := hx scope clock s t hst
  · left
    generalize x scope clock s = o at halike ⊢
    generalize y scope clock t = o' at halike ⊢
    cases halike with
    | @same ending after s' t' related =>
      cases ending with
      | done value => exact hf (.ok value) scope after s' t' related
      | failed error => exact hf (.error error) scope after s' t' related
      | _ => exact .same related
    | @excused error after s' _ excuse =>
      obtain ⟨later, s'', hfailed⟩ := hexcused error scope after s'
      simp only [hfailed]
      exact .excused excuse
  · right
    refine ⟨after, s', t', ?_, hrelated, hkeeps, ?_⟩
    · simp only [hy, hidle]
      rfl
    · rw [bind_apply]
      simp only [attempt, hsame]

/-- What depends on the state idles where it does for related states, if it depends on nothing that
changes then. -/
theorem agreeOrIdle_get_bind {idle : β} {f : σ → Activity σ β} {g : τ → Activity τ β}
    (h : ∀ s t, R s t → AgreeOrIdle excused R keeps idle (f s) (g t))
    (hf : ∀ s s', keeps s s' → f s' = f s) :
    AgreeOrIdle excused R keeps idle (get >>= f) (get >>= g) := by
  intro scope clock s t hst
  obtain halike | ⟨after, s', t', hy, hrelated, hkeeps, hsame⟩ := h s t hst scope clock s t hst
  · exact .inl halike
  · right
    refine ⟨after, s', t', hy, hrelated, hkeeps, ?_⟩
    have hfirst : (get >>= f) scope after s' = f s' scope after s' := rfl
    rw [hfirst, hf s s' hkeeps, ← hsame]
    rfl

/-- An activity on a part idles where it does with the part. -/
theorem agreeOrIdle_onPart {idle : α} {S : υ → ω → Prop} {keeps' : υ → υ → Prop} {part : υ → σ}
    {put : υ → σ → υ} {part' : ω → τ} {put' : ω → τ → ω}
    (hpart : ∀ u w, S u w → R (part u) (part' w))
    (hput : ∀ u w s t, S u w → R s t → S (put u s) (put' w t))
    (hkeeps' : ∀ u s, keeps (part u) s → keeps' u (put u s))
    (hget : ∀ u s, part (put u s) = s) (htwice : ∀ u s s', put (put u s) s' = put u s')
    (hx : AgreeOrIdle excused R keeps idle x y) :
    AgreeOrIdle excused S keeps' idle (onPart part put x) (onPart part' put' y) := by
  intro scope clock u w huw
  obtain halike | ⟨after, s', t', hy, hrelated, hkeeps, hsame⟩ :=
    hx scope clock (part u) (part' w) (hpart u w huw)
  · exact .inl (alike_onPart (fun s t ↦ hput u w s t huw) halike)
  · right
    refine ⟨after, put u s', put' w t', ?_, hput u w s' t' huw hrelated, hkeeps' u s' hkeeps, ?_⟩
    · simp only [onPart, hy]
    · simp only [onPart, hget, htwice, hsame]

/-- A limit in time idles where what it limits does. -/
theorem agreeOrIdle_within {idle : α} {late : Activity σ α} {late' : Activity τ α} (moment : Nat)
    (hx : AgreeOrIdle excused R keeps idle x y) (hlate : Agree excused R late late') :
    AgreeOrIdle excused R keeps idle (within moment x late) (within moment y late') := by
  intro scope clock s t hst
  obtain halike | ⟨after, s', t', hy, hrelated, hkeeps, hsame⟩ :=
    hx (scope.upTo moment) clock s t hst
  · exact .inl (alike_within halike hlate)
  · right
    refine ⟨after, s', t', ?_, hrelated, hkeeps, ?_⟩
    · rw [within_apply, hy]
    · rw [within_apply, within_apply, hsame]

/-- Repetitions agree when the second one's rounds idle only by going on. What carries the proof is
that each of these rounds uses up some of its quantity. -/
theorem agree_repeatUntil {quantity : σ → Nat} {quantity' : τ → Nat}
    {round : Activity σ (Option α)} {round' : Activity τ (Option α)}
    {advances : Advances quantity round} {advances' : Advances quantity' round'}
    (h : AgreeOrIdle excused R keeps none round round') :
    Agree excused R (repeatUntil quantity round advances)
      (repeatUntil quantity' round' advances') := by
  intro scope clock s t hst
  induction hn : quantity' t using Nat.strongRecOn generalizing clock s t with
  | ind n ih =>
    have hless : (round' scope clock t).ending = .done none →
        quantity' (round' scope clock t).state < quantity' t := lt_of_advances advances'
    rw [repeatUntil_apply quantity, repeatUntil_apply quantity']
    obtain halike | ⟨after, s', t', hround', hrelated, _, hsame⟩ := h scope clock s t hst
    · generalize round scope clock s = o at halike ⊢
      generalize round' scope clock t = o' at halike hless ⊢
      cases halike with
      | @same ending after s' t' related =>
        cases ending with
        | done value =>
          cases value with
          | some value => exact .same related
          | none => exact ih _ (hn ▸ hless rfl) after s' t' related rfl
        | _ => exact .same related
      | excused excuse => exact .excused excuse
    · rw [hround'] at hless ⊢
      have hrest := ih _ (hn ▸ hless rfl) after s' t' hrelated rfl
      rw [repeatUntil_apply quantity, ← hsame] at hrest
      exact hrest

/-- A repetition agrees with an activity when each of its rounds ends like that, or goes on to where
the other one might as well have started, or to where that idles. What carries the proof is that a
round that goes on uses up some of the quantity. -/
theorem agreeOrIdle_repeatUntil {quantity : σ → Nat} {idle : α} {round : Activity σ (Option α)}
    {advances : Advances quantity round} (hkeeps : ∀ s s' s'', keeps s' s'' → keeps s s'')
    (h : ∀ scope clock s t, R s t →
      Outcome.Alike excused R (round scope clock s) ((y scope clock t).map some) ∨
      ∃ after s' t', round scope clock s = ⟨.done none, after, s'⟩ ∧ R s' t' ∧
        (y scope clock t = y scope after t' ∨
          keeps s s' ∧ y scope clock t = ⟨.done idle, after, t'⟩)) :
    AgreeOrIdle excused R keeps idle (repeatUntil quantity round advances) y := by
  intro scope clock s t hst
  induction hn : quantity s using Nat.strongRecOn generalizing clock s t with
  | ind n ih =>
    have hless : (round scope clock s).ending = .done none →
        quantity (round scope clock s).state < quantity s := lt_of_advances advances
    have hround := repeatUntil_apply quantity round advances scope clock s
    obtain halike | ⟨after, s', t', hgoes, hrelated, hy⟩ := h scope clock s t hst
    · left
      rw [hround]
      generalize round scope clock s = o at halike ⊢
      generalize y scope clock t = o' at halike ⊢
      obtain ⟨ending, clock', t'⟩ := o'
      cases ending <;> cases halike with
      | same related => exact .same related
      | excused excuse => exact .excused excuse
    · rw [hgoes] at hround hless
      have hless : quantity s' < n := hn ▸ hless rfl
      obtain hy | ⟨hkept, hy⟩ := hy
      · obtain halike | ⟨later, s'', t'', hidle, hrelated', hkeeps', hsame⟩ :=
          ih _ hless after s' t' hrelated rfl
        · left
          rw [hround, hy]
          exact halike
        · right
          exact ⟨later, s'', t'', hy.trans hidle, hrelated', hkeeps _ _ _ hkeeps',
            hround.trans hsame⟩
      · exact .inr ⟨after, s', t', hy, hrelated, hkept, hround⟩

end Activity

end PeerWire
