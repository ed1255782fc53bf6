import PeerWire.Link.Script
import PeerWire.Proofs.Forecast
import PeerWire.Proofs.Parcels

/-!
# What a stream of whole frames will give

When whole frames arrive in chunks, however they are cut, a decoder gives their messages one after
the other, and the time that passes between the chunks passes between the messages. Main statement:
the forecast for a stream of whole frames has the messages of the frames for values and the gaps of
the stream for gaps, and no faults.
-/

namespace PeerWire

/-! ### Timelines on which nothing fails -/

/-- Something comes, or some time passes. -/
def Cue.Passes {α : Type} : Cue α → Prop
  | .item _ | .pause _ | .pauseUntil _ => True
  | .fail _ | .stop | .hang => False

instance {α : Type} (cue : Cue α) : Decidable cue.Passes :=
  match cue with
  | .item _ | .pause _ | .pauseUntil _ => .isTrue trivial
  | .fail _ | .stop | .hang => .isFalse id

namespace Timeline

variable {α : Type}

/-- What comes, in order. -/
def values : Timeline α → List α
  | [] => []
  | .item value :: cues => value :: values cues
  | _ :: cues => values cues

/-- What happens apart from what comes. -/
def gaps : Timeline α → Timeline Empty
  | [] => []
  | .item _ :: cues => gaps cues
  | .pause length :: cues => .pause length :: gaps cues
  | .pauseUntil moment :: cues => .pauseUntil moment :: gaps cues
  | .fail error :: cues => .fail error :: gaps cues
  | .stop :: cues => .stop :: gaps cues
  | .hang :: cues => .hang :: gaps cues

/-- Nothing fails, and the session is not told to stop. -/
def Faultless (cues : Timeline α) : Prop := ∀ gap ∈ cues.gaps, gap.Passes

instance (cues : Timeline α) : Decidable cues.Faultless :=
  inferInstanceAs (Decidable (∀ gap ∈ cues.gaps, gap.Passes))

/-- Values that come at once. -/
def ofValues (values : List α) : Timeline α := values.map .item

/-- Behind a gap nothing fails either. -/
theorem Faultless.tail {cue : Cue α} {cues : Timeline α} {gap : Cue Empty}
    (h : Faultless (cue :: cues)) (hgaps : gaps (cue :: cues) = gap :: gaps cues) :
    Faultless cues := by
  intro gap' hmem
  apply h
  rw [hgaps]
  exact List.mem_cons_of_mem _ hmem

/-- The values come one after the other. -/
theorem values_append (cues others : Timeline α) :
    values (cues ++ others) = values cues ++ values others := by
  induction cues with
  | nil => rfl
  | cons cue cues ih => cases cue <;> simp [values, ih]

/-- The gaps come one after the other. -/
theorem gaps_append (cues others : Timeline α) :
    gaps (cues ++ others) = gaps cues ++ gaps others := by
  induction cues with
  | nil => rfl
  | cons cue cues ih => cases cue <;> simp [gaps, ih]

/-- Values that come at once have no gaps. -/
theorem gaps_ofValues (values : List α) : gaps (ofValues values) = [] := by
  induction values with
  | nil => rfl
  | cons value values ih => exact ih

/-- Values that come at once are the values. -/
theorem values_ofValues (list : List α) : values (ofValues list) = list := by
  induction list with
  | nil => rfl
  | cons value list ih => exact congrArg (value :: ·) ih

/-- Without gaps the values come at once. -/
theorem eq_ofValues_of_gaps_eq_nil {cues : Timeline α} (h : gaps cues = []) :
    cues = ofValues (values cues) := by
  induction cues with
  | nil => rfl
  | cons cue cues ih =>
    cases cue with
    | item value => exact congrArg (.item value :: ·) (ih h)
    | _ => cases h

end Timeline

/-! ### Decoders of whole frames -/

namespace Decoder

variable {d : Decoder} {ahead : Bytes} {parcels : List Parcel}

/-- What has arrived of whole frames gives messages, and the decoder behind them holds the rest; at
the end there is no rest. -/
theorem Holds.drain (ended : Bool) (h : d.Holds ahead parcels)
    (hended : ended = true → ahead = []) :
    ∃ messages others, (d.drain ended).1 = Timeline.ofValues messages ∧
      arrivals parcels = messages ++ arrivals others ∧
      (d.drain ended).2.Holds ahead others ∧ (ahead = [] → others = []) := by
  induction hn : d.buffer.length using Nat.strongRecOn generalizing d parcels with
  | ind n ih =>
    have hlook : d.look ended = d.next := by
      cases ended with
      | false => rfl
      | true =>
        obtain rfl := hended rfl
        exact h.nextAtEnd_eq_next
    cases h.reads with
    | @message message rest behind next arrivals' holds =>
      have hrest := hlook.trans next
      rw [drain_of_message hrest]
      obtain ⟨messages, others, hdrain, harrivals, hholds, hnil⟩ :=
        ih _ (hn ▸ length_of_look hrest) holds rfl
      refine ⟨message :: messages, others, ?_, ?_, hholds, hnil⟩
      · rw [hdrain]
        rfl
      · rw [arrivals', harrivals]
        rfl
    | @nothing rest others next arrivals' holds hnil =>
      rw [drain_of_none (hlook.trans next)]
      exact ⟨[], others, rfl, arrivals', holds, fun h ↦ (hnil h).1⟩

/-- A stream of whole frames will give their messages, with the gaps of the stream between them. -/
theorem Holds.forecast {cues : Timeline Bytes} (hcues : cues.Faultless)
    (h : d.Holds cues.values.flatten parcels) :
    (d.forecast cues).values = arrivals parcels ∧ (d.forecast cues).gaps = cues.gaps := by
  induction cues generalizing d parcels with
  | nil =>
    obtain ⟨messages, others, hdrain, harrivals, _, hnil⟩ := h.drain true fun _ ↦ rfl
    rw [hnil rfl] at harrivals
    show (d.drain true).1.values = _ ∧ (d.drain true).1.gaps = _
    rw [hdrain, harrivals, Timeline.values_ofValues, Timeline.gaps_ofValues]
    exact ⟨(List.append_nil _).symm, rfl⟩
  | cons cue cues ih =>
    cases cue with
    | item chunk =>
      cases chunk with
      | nil => exact ih hcues h
      | cons first others =>
        have hfeed : (d.feed (first :: others)).Holds (Timeline.values cues).flatten parcels :=
          Holds.feed h
        obtain ⟨messages, rest, hdrain, harrivals, hholds, _⟩ := hfeed.drain false nofun
        obtain ⟨hvalues, hgaps⟩ := ih hcues hholds
        show (((d.feed (first :: others)).drain false).1 ++ _).values = _ ∧
          (((d.feed (first :: others)).drain false).1 ++ _).gaps = _
        rw [Timeline.values_append, Timeline.gaps_append, hdrain, Timeline.values_ofValues,
          Timeline.gaps_ofValues, hvalues, hgaps, harrivals]
        exact ⟨rfl, rfl⟩
    | pause length =>
      obtain ⟨hvalues, hgaps⟩ := ih (hcues.tail rfl) h
      exact ⟨hvalues, congrArg (Cue.pause length :: ·) hgaps⟩
    | pauseUntil moment =>
      obtain ⟨hvalues, hgaps⟩ := ih (hcues.tail rfl) h
      exact ⟨hvalues, congrArg (Cue.pauseUntil moment :: ·) hgaps⟩
    | fail error => exact absurd (hcues _ (List.mem_cons_self ..)) id
    | stop => exact absurd (hcues _ (List.mem_cons_self ..)) id
    | hang => exact absurd (hcues _ (List.mem_cons_self ..)) id

end Decoder

/-! ### Scripts that leave out signs of life -/

/-- What is said when the parcels are messages; the others say nothing. -/
def Parcel.said? : Parcel → Option Message
  | .message said => some said
  | .keepAlive | .unknown _ _ => none

/-- A parcel of which nothing is lost. -/
def Parcel.Exact : Parcel → Prop
  | .message said => said.Exact
  | .keepAlive | .unknown _ _ => True

instance (parcel : Parcel) : Decidable parcel.Exact :=
  match parcel with
  | .message said => inferInstanceAs (Decidable said.Exact)
  | .keepAlive | .unknown _ _ => .isTrue trivial

/-- A script says what comes on a timeline at the same times, but may leave out what only keeps the
connection open. Time passes only when the timeline may be slow. -/
inductive Thinned (slow : Prop) : Timeline Message → Timeline Act → Prop where
  /-- Nothing is left. -/
  | nil : Thinned slow [] []
  /-- A message that comes is said. -/
  | say {cues : Timeline Message} {acts : Timeline Act} (message : Message)
      (rest : Thinned slow cues acts) :
      Thinned slow (.item message :: cues) (.item (.say message) :: acts)
  /-- A message that only keeps the connection open may be left out. -/
  | leaveOut {cues : Timeline Message} {acts : Timeline Act} (rest : Thinned slow cues acts) :
      Thinned slow (.item .keepAlive :: cues) acts
  /-- Time passes. -/
  | pause {cues : Timeline Message} {acts : Timeline Act} (hslow : slow) (length : Nat)
      (rest : Thinned slow cues acts) : Thinned slow (.pause length :: cues) (.pause length :: acts)
  /-- Time passes up to a moment. -/
  | pauseUntil {cues : Timeline Message} {acts : Timeline Act} (hslow : slow) (moment : Nat)
      (rest : Thinned slow cues acts) :
      Thinned slow (.pauseUntil moment :: cues) (.pauseUntil moment :: acts)

/-- What is said by the messages among parcels. -/
def Parcel.saying (parcels : List Parcel) : List Message := parcels.filterMap said?

/-- Parcels of which nothing is made say nothing. -/
theorem Parcel.saying_eq_nil {parcels : List Parcel}
    (h : ∀ parcel ∈ parcels, parcel.arrival? = none) : saying parcels = [] := by
  apply List.filterMap_eq_nil_iff.mpr
  intro parcel hmem
  have := h parcel hmem
  cases parcel with
  | unknown id payload => rfl
  | _ => cases this

/-- What arrives first is said first, or it is a sign of life. -/
theorem Parcel.saying_of_arrivals {parcels : List Parcel} {message : Message}
    {messages : List Message} (hexact : ∀ parcel ∈ parcels, parcel.Exact)
    (h : Decoder.arrivals parcels = message :: messages) :
    ∃ rest, Decoder.arrivals rest = messages ∧ (∀ parcel ∈ rest, parcel.Exact) ∧
      (saying parcels = message :: saying rest ∨
        message = .keepAlive ∧ saying parcels = saying rest) := by
  obtain ⟨front, parcel, rest, rfl, hfront, hparcel, hrest⟩ := List.filterMap_eq_cons_iff.mp h
  refine ⟨rest, hrest, fun parcel hmem ↦ hexact parcel (by simp [hmem]), ?_⟩
  have hsplit : saying (front ++ parcel :: rest) = saying (parcel :: rest) := by
    have hnone := saying_eq_nil hfront
    unfold saying at hnone ⊢
    rw [List.filterMap_append, hnone, List.nil_append]
  rw [hsplit]
  cases parcel with
  | message said =>
    left
    have hwire := Message.onWire_of_exact (hexact (.message said) (by simp))
    obtain rfl : said = message := by simpa [arrival?, hwire] using hparcel
    rfl
  | keepAlive =>
    right
    cases hparcel
    exact ⟨rfl, rfl⟩
  | unknown id payload => cases hparcel

/-- The messages among parcels that come on a timeline make up a script with the same gaps. -/
theorem exists_thinned {slow : Prop} {cues : Timeline Message} {parcels : List Parcel}
    (hexact : ∀ parcel ∈ parcels, parcel.Exact) (hvalues : cues.values = Decoder.arrivals parcels)
    (hcues : cues.Faultless) (hslow : cues.gaps = [] ∨ slow) :
    ∃ acts, Thinned slow cues acts ∧ acts.values = (Parcel.saying parcels).map Act.say ∧
      acts.gaps = cues.gaps := by
  induction cues generalizing parcels with
  | nil =>
    have hnone := Parcel.saying_eq_nil (List.filterMap_eq_nil_iff.mp hvalues.symm)
    exact ⟨[], .nil, by rw [hnone]; rfl, rfl⟩
  | cons cue cues ih =>
    cases cue with
    | item message =>
      obtain ⟨rest, hrest, hexact', hsaying⟩ := Parcel.saying_of_arrivals hexact hvalues.symm
      obtain ⟨acts, hthinned, hacts, hgaps⟩ := ih hexact' hrest.symm hcues hslow
      rcases hsaying with hsaying | ⟨rfl, hsaying⟩
      · rw [hsaying]
        exact ⟨_, .say message hthinned, congrArg (Act.say message :: ·) hacts, hgaps⟩
      · rw [hsaying]
        exact ⟨acts, .leaveOut hthinned, hacts, hgaps⟩
    | pause length =>
      have hslow' : slow := hslow.resolve_left nofun
      obtain ⟨acts, hthinned, hacts, hgaps⟩ := ih hexact hvalues (hcues.tail rfl) (.inr hslow')
      exact ⟨_, .pause hslow' length hthinned, hacts, congrArg (Cue.pause length :: ·) hgaps⟩
    | pauseUntil moment =>
      have hslow' : slow := hslow.resolve_left nofun
      obtain ⟨acts, hthinned, hacts, hgaps⟩ := ih hexact hvalues (hcues.tail rfl) (.inr hslow')
      exact ⟨_, .pauseUntil hslow' moment hthinned, hacts,
        congrArg (Cue.pauseUntil moment :: ·) hgaps⟩
    | fail error => exact absurd (hcues _ (List.mem_cons_self ..)) id
    | stop => exact absurd (hcues _ (List.mem_cons_self ..)) id
    | hang => exact absurd (hcues _ (List.mem_cons_self ..)) id

end PeerWire
