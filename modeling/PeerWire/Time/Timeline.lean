import PeerWire.Time.Activity

/-!
# Timelines

A timeline says what happens one thing after another: something comes, some time passes, something
fails, the session is told to stop, or nothing ever happens again. A pause begins when it is
reached, and one that was broken off goes on where it was. Main statement: the weight of a
timeline never grows, and what comes takes its own weight away.
-/

namespace PeerWire

/-- One thing that happens. -/
inductive Cue (α : Type) where
  /-- Something comes. -/
  | item (value : α)
  /-- Some time passes from now on. -/
  | pause (length : Nat)
  /-- Time passes up to a moment. -/
  | pauseUntil (moment : Nat)
  /-- Something fails, once. -/
  | fail (error : Error)
  /-- The session is told to stop, and nothing happens any more. -/
  | stop
  /-- Nothing happens any more. -/
  | hang

/-- What happens one thing after another. -/
abbrev Timeline (α : Type) := List (Cue α)

namespace Timeline

variable {α : Type}

/-- Waits up to a moment and goes on from there; what was broken off goes on up to that moment. -/
def after (moment : Nat) (cues : Timeline α) (scope : Scope) (clock : Clock)
    (rest : Clock → Outcome (Timeline α) (Option α)) : Outcome (Timeline α) (Option α) :=
  match clock.waitUntil scope moment with
  | (.done (), clock) => rest clock
  | (ending, clock) => ⟨ending.map fun _ ↦ none, clock, .pauseUntil moment :: cues⟩

/-- Waits for the next thing that comes; there is none at the end of the timeline. -/
def next (scope : Scope) (clock : Clock) : Timeline α → Outcome (Timeline α) (Option α)
  | [] => ⟨.done none, clock, []⟩
  | .item value :: cues => ⟨.done (some value), clock, cues⟩
  | .pause length :: cues =>
    after (clock.now + length) cues scope clock fun clock ↦ next scope clock cues
  | .pauseUntil moment :: cues => after moment cues scope clock fun clock ↦ next scope clock cues
  | .fail error :: cues => ⟨.failed error, clock, cues⟩
  | .stop :: cues =>
    let (ending, clock) := clock.stop.waitForever scope
    ⟨ending, clock, .stop :: cues⟩
  | .hang :: cues =>
    let (ending, clock) := clock.waitForever scope
    ⟨ending, clock, .hang :: cues⟩

/-- The weight of what is still to come. -/
def weight (itemWeight : α → Nat) : Timeline α → Nat
  | [] => 0
  | .item value :: cues => itemWeight value + weight itemWeight cues
  | _ :: cues => weight itemWeight cues

variable {itemWeight : α → Nat}

/-- What it weighs that something comes. -/
def taken (itemWeight : α → Nat) : Option α → Nat
  | some value => itemWeight value
  | none => 0

/-- A wait takes away what comes after it, or nothing. -/
theorem weight_after {moment : Nat} {cues : Timeline α} {scope : Scope} {clock : Clock}
    {rest : Clock → Outcome (Timeline α) (Option α)}
    (hrest : ∀ clock, weight itemWeight (rest clock).state
      + (rest clock).ending.weigh (taken itemWeight) = weight itemWeight cues) :
    weight itemWeight (after moment cues scope clock rest).state
      + (after moment cues scope clock rest).ending.weigh (taken itemWeight)
        = weight itemWeight cues := by
  rw [after]
  split
  · exact hrest _
  · next ending clock' _ _ => cases ending <;> simp [weight, taken, Ending.map, Ending.weigh]

/-- What comes takes its own weight away, and nothing else does. -/
theorem weight_next (scope : Scope) (clock : Clock) (cues : Timeline α) :
    weight itemWeight (next scope clock cues).state
      + (next scope clock cues).ending.weigh (taken itemWeight) = weight itemWeight cues := by
  induction cues generalizing clock with
  | nil => rfl
  | cons cue cues ih =>
    cases cue with
    | item value =>
      simp only [next, Ending.weigh, taken, weight]
      omega
    | pause length => exact weight_after fun clock ↦ ih clock
    | pauseUntil moment => exact weight_after fun clock ↦ ih clock
    | fail error => simp [next, weight, Ending.weigh]
    | stop => simp [next, weight, Clock.weigh_waitForever]
    | hang => simp [next, weight, Clock.weigh_waitForever]

/-- Waiting for what comes costs its weight. -/
theorem costs_next :
    Activity.Costs (weight itemWeight) (taken itemWeight) (next (α := α)) := fun scope clock cues ↦
  Nat.le_of_eq (weight_next scope clock cues)

end Timeline

end PeerWire
