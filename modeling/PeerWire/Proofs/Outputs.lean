import PeerWire.Proofs.Arrivals

/-!
# What a decoder puts out, and when

A decoder to which bytes come one after the other puts out each message with the byte that completes
it, and last a fault, or the end of the stream. Main statement: this is what a framed stream gives
when the bytes come in chunks, however they are cut, each at the moment of its bytes.
-/

namespace PeerWire

/-- A message, or why there are no more. -/
abbrev Output := Except Error Message

namespace Output

/-- Whether this is a message that only keeps the connection open. -/
def isIdle : Output → Bool
  | .ok .keepAlive => true
  | _ => false

/-- Whether this is a fault or the end of the stream. -/
def isLast : Output → Bool
  | .error (.malformedMessage _) | .error .connectionClosed => true
  | _ => false

/-- The message, if it does more than keep the connection open. -/
def message? : Output → Option Message
  | .ok .keepAlive | .error _ => none
  | .ok message => some message

end Output

/-- What was read at a moment. -/
def Reading.outputs (moment : Nat) (r : Reading) : List (Dated Output) :=
  r.messages.map (⟨moment, .ok ·⟩) ++ r.error?.toList.map (⟨moment, .error ·⟩)

namespace Decoder

/-- What a decoder puts out when bytes come one after the other, and then an end if there is one. -/
def outputs (ends : Option Nat) (d : Decoder) : List (Dated UInt8) → List (Dated Output)
  | byte :: bytes =>
    let r := (d.feed [byte.value]).exhaust false
    r.outputs byte.moment ++ if r.fault? = none then r.decoder.outputs ends bytes else []
  | [] =>
    match ends with
    | some moment =>
      let r := d.exhaust true
      r.outputs moment ++ if r.fault? = none then [⟨moment, .error .connectionClosed⟩] else []
    | none => []

/-- Outputs are messages, and at most last a fault or the end. -/
inductive Closes : List (Dated Output) → Prop where
  /-- There are no more. -/
  | nil : Closes []
  /-- There is a message, and then others. -/
  | message {outputs : List (Dated Output)} (moment : Nat) (message : Message)
      (rest : Closes outputs) : Closes (⟨moment, .ok message⟩ :: outputs)
  /-- There is a fault or the end. -/
  | last {output : Dated Output} (last : output.value.isLast = true) : Closes [output]

/-- What comes last closes what is behind other outputs, too. -/
theorem Closes.behind {front behind : List (Dated Output)} (h : Closes (front ++ behind)) :
    Closes behind := by
  induction front with
  | nil => exact h
  | cons first front ih =>
    generalize hall : first :: front ++ behind = outputs at h
    cases h with
    | nil => cases hall
    | message moment message rest =>
      have hall : front ++ behind = _ := (List.cons.inj hall).2
      exact ih (by rw [hall]; exact rest)
    | last last =>
      have hnil : front ++ behind = [] := (List.cons.inj hall).2
      rw [(List.append_eq_nil_iff.mp hnil).2]
      exact .nil

/-- What is no message is a fault or the end. -/
theorem Closes.isLast_of_mem {outputs : List (Dated Output)} (h : Closes outputs)
    {output : Dated Output} {error : Error} (hmem : output ∈ outputs)
    (herror : output.value = .error error) : output.value.isLast = true := by
  induction h with
  | nil => cases hmem
  | message moment message rest ih =>
    rcases List.mem_cons.mp hmem with rfl | hmem
    · cases herror
    · exact ih hmem
  | last last =>
    rw [List.mem_singleton.mp hmem]
    exact last

/-- Messages may be put in front. -/
theorem Closes.append {outputs : List (Dated Output)} (h : Closes outputs) (moment : Nat)
    (messages : List Message) : Closes (messages.map (⟨moment, .ok ·⟩) ++ outputs) := by
  induction messages with
  | nil => exact h
  | cons message messages ih => exact .message moment message ih

/-- What was read closes with its fault, or with what is behind it. -/
theorem closes_reading (r : Reading) (moment : Nat) {outputs : List (Dated Output)}
    (h : Closes outputs) :
    Closes (r.outputs moment ++ if r.fault? = none then outputs else []) := by
  rw [Reading.outputs, Reading.error?, List.append_assoc]
  apply Closes.append
  cases r.fault? with
  | none => exact h
  | some fault => exact .last rfl

/-- A decoder puts out messages, and at most last a fault or the end. -/
theorem closes_outputs (ends : Option Nat) (d : Decoder) (bytes : List (Dated UInt8)) :
    Closes (d.outputs ends bytes) := by
  induction bytes generalizing d with
  | nil =>
    cases ends with
    | none => exact .nil
    | some moment => exact closes_reading _ moment (.last rfl)
  | cons byte bytes ih => exact closes_reading _ byte.moment (ih _)

/-- Nothing is left to be found, nor to be dropped that has arrived. -/
def Spent (d : Decoder) : Prop := d.next = (.ok none, d)

variable {d : Decoder} {bytes : Bytes} {ended : Bool}

/-- A new decoder is spent. -/
theorem spent_start (limit : Nat) : (start limit).Spent := by
  rw [Spent, next_of_incomplete] <;> simp [start, discard, front]

/-- A decoder that was asked in vain is spent. -/
theorem spent_of_next {rest : Decoder} (h : d.next = (.ok none, rest)) : rest.Spent := by
  have hagain := next_feed d []
  simp only [h, feed_nil] at hagain
  exact hagain.symm

/-- A decoder that is asked in vain gives nothing. -/
theorem exhaust_of_none {rest : Decoder} (h : d.next = (.ok none, rest)) :
    d.exhaust false = ⟨[], none, rest⟩ := by
  have hlook : d.look false = (.ok none, rest) := h
  rw [exhaust_eq, hlook]

/-- So does a spent one. -/
theorem Spent.exhaust (h : d.Spent) : d.exhaust false = ⟨[], none, d⟩ := exhaust_of_none h

/-- Bytes that arrive later are read after what is there, unless that ends in a fault. -/
theorem exhaust_feed (d : Decoder) (bytes : Bytes) :
    ((d.exhaust false).fault? = none ∧ (d.exhaust false).decoder.Spent ∧
        (d.feed bytes).exhaust false =
          (((d.exhaust false).decoder.feed bytes).exhaust false).behind
            (d.exhaust false).messages) ∨
      (d.exhaust false).fault? ≠ none ∧
        ((d.feed bytes).exhaust false).messages = (d.exhaust false).messages ∧
        ((d.feed bytes).exhaust false).fault? = (d.exhaust false).fault? := by
  induction hn : d.buffer.length using Nat.strongRecOn generalizing d with
  | ind n ih =>
    have hfeed := next_feed d bytes
    rcases hnext : d.next with ⟨fault | _ | message, rest⟩
    · right
      rw [hnext] at hfeed
      rw [exhaust_of_fault hnext, exhaust_of_fault hfeed]
      exact ⟨by simp, rfl, rfl⟩
    · left
      rw [hnext] at hfeed
      rw [exhaust_of_none hnext, exhaust_congr hfeed]
      exact ⟨rfl, spent_of_next hnext, rfl⟩
    · rw [hnext] at hfeed
      have hless := length_of_next hnext
      rw [exhaust_of_message hnext, exhaust_of_message hfeed]
      rcases ih _ (by omega) rest rfl with ⟨hnone, hspent, hread⟩ | ⟨hfault, hmessages, hsame⟩
      · left
        refine ⟨hnone, hspent, ?_⟩
        rw [hread, Reading.behind_behind]
        rfl
      · right
        exact ⟨hfault, congrArg ([message] ++ ·) hmessages, hsame⟩

/-- What a decoder puts out for bytes that come at once is what it gives when it is asked after
them, and then what it puts out for the others. -/
theorem outputs_chunk (hspent : d.Spent) (ends : Option Nat) (moment : Nat) (chunk : Bytes)
    (others : List (Dated UInt8)) :
    d.outputs ends (chunk.map (⟨moment, ·⟩) ++ others) =
      ((d.feed chunk).exhaust false).outputs moment ++
        if ((d.feed chunk).exhaust false).fault? = none then
          ((d.feed chunk).exhaust false).decoder.outputs ends others
        else [] := by
  induction chunk generalizing d with
  | nil =>
    rw [feed_nil, hspent.exhaust]
    rfl
  | cons byte chunk ih =>
    have hsplit : d.feed (byte :: chunk) = (d.feed [byte]).feed chunk :=
      (feed_feed d [byte] chunk).symm
    rw [List.map_cons, List.cons_append, outputs, hsplit]
    rcases exhaust_feed (d.feed [byte]) chunk with
      ⟨hnone, hrest, hread⟩ | ⟨hfault, hmessages, hsame⟩
    · simp only [ih hrest, hread, Reading.outputs, Reading.behind, Reading.error?, hnone,
        List.map_append, List.append_assoc]
      rfl
    · simp only [if_neg hfault, Reading.outputs, Reading.error?, hmessages, hsame]

end Decoder

/-! ### Timelines of messages -/

namespace Timeline

variable {now : Nat} {cues : Timeline Message}

/-- When what happens does so does not depend on when it is waited for. -/
inductive Absolute : Timeline Message → Prop where
  /-- The timeline ends. -/
  | nil : Absolute []
  /-- A message comes. -/
  | item {cues : Timeline Message} (message : Message) (rest : Absolute cues) :
      Absolute (.item message :: cues)
  /-- What follows comes no earlier than a moment. -/
  | pauseUntil {cues : Timeline Message} (moment : Nat) (rest : Absolute cues) :
      Absolute (.pauseUntil moment :: cues)
  /-- Something fails. -/
  | fail (error : Error) (cues : Timeline Message) : Absolute (.fail error :: cues)
  /-- Nothing comes any more. -/
  | hang (cues : Timeline Message) : Absolute (.hang :: cues)

/-- What a timeline of messages gives from a moment on, and last a failure or the end. -/
def outputs : Nat → Timeline Message → List (Dated Output)
  | now, .item message :: cues => ⟨now, .ok message⟩ :: outputs now cues
  | now, .pauseUntil moment :: cues => outputs (max now moment) cues
  | now, .fail error :: _ => [⟨now, .error error⟩]
  | now, [] => [⟨now, .error .connectionClosed⟩]
  | _, _ => []

/-- What a timeline gives comes no earlier than it is waited for. -/
theorem le_of_mem_outputs {output : Dated Output} (h : output ∈ cues.outputs now) :
    now ≤ output.moment := by
  fun_induction outputs now cues with
  | case1 now message cues ih =>
    rcases List.mem_cons.mp h with rfl | hmem
    · exact Nat.le_refl now
    · exact ih hmem
  | case2 now moment cues ih => exact Nat.le_trans (Nat.le_max_left ..) (ih h)
  | case3 now error cues =>
    obtain rfl := List.mem_singleton.mp h
    exact Nat.le_refl now
  | case4 now =>
    obtain rfl := List.mem_singleton.mp h
    exact Nat.le_refl now
  | case5 => cases h

/-- What a timeline gives comes in order of time. -/
theorem pairwise_outputs (now : Nat) (cues : Timeline Message) :
    (cues.outputs now).Pairwise (·.moment ≤ ·.moment) := by
  fun_induction outputs now cues with
  | case1 now message cues ih => exact List.pairwise_cons.mpr ⟨fun _ ↦ le_of_mem_outputs, ih⟩
  | case2 now moment cues ih => exact ih
  | case3 now error cues => exact List.pairwise_singleton ..
  | case4 now => exact List.pairwise_singleton ..
  | case5 => exact .nil

/-- Messages may be put in front. -/
theorem Absolute.ofValues (messages : List Message) (h : Absolute cues) :
    Absolute (messages.map Cue.item ++ cues) := by
  induction messages with
  | nil => exact h
  | cons message messages ih => exact .item message ih

/-- Messages that are there come first. -/
theorem outputs_ofValues (now : Nat) (messages : List Message) (cues : Timeline Message) :
    outputs now (messages.map Cue.item ++ cues) =
      messages.map (⟨now, .ok ·⟩) ++ outputs now cues := by
  induction messages with
  | nil => rfl
  | cons message messages ih => exact congrArg (⟨now, .ok message⟩ :: ·) ih

end Timeline

namespace Decoder

variable {d : Decoder} {ended : Bool}

/-- What will be given of the bytes that have arrived is what is read when all is asked for, and
after a fault the stream looks as if it had ended. -/
theorem drain_eq_exhaust (ended : Bool) (d : Decoder) :
    d.drain ended = ((d.exhaust ended).messages.map Cue.item ++
      (d.exhaust ended).error?.toList.flatMap (fun error ↦ [.fail error, .fail .connectionClosed]),
      (d.exhaust ended).decoder) := by
  fun_induction drain ended d with
  | case1 d message rest hlook ih =>
    rw [exhaust_eq, hlook]
    simp only [ih, Reading.behind]
    rfl
  | case2 d rest hlook =>
    rw [exhaust_eq, hlook]
    rfl
  | case3 d fault rest hlook =>
    rw [exhaust_eq, hlook]
    rfl

/-- What is read at a moment comes then, and what is behind it only if there is no fault. -/
theorem outputs_drain (ended : Bool) (d : Decoder) (now : Nat) (cues : Timeline Message) :
    ((d.drain ended).1 ++ cues).outputs now =
      (d.exhaust ended).outputs now ++
        if (d.exhaust ended).fault? = none then cues.outputs now else [] := by
  rw [drain_eq_exhaust, List.append_assoc, Timeline.outputs_ofValues, Reading.outputs,
    List.append_assoc, Reading.error?]
  cases (d.exhaust ended).fault? with
  | none => rfl
  | some fault => rfl

/-- A decoder that was asked for everything without a fault is spent. -/
theorem spent_exhaust (h : (d.exhaust false).fault? = none) : (d.exhaust false).decoder.Spent := by
  rcases exhaust_feed d [] with ⟨-, hspent, -⟩ | ⟨hfault, -⟩
  · exact hspent
  · exact absurd h hfault

/-- What the bytes on a scheduled timeline will give is what the decoder puts out for them. -/
theorem outputs_forecast {cues : Timeline Bytes} (hcues : cues.Scheduled) (hspent : d.Spent)
    (now : Nat) :
    (d.forecast cues).outputs now = d.outputs (cues.endsAt now) (cues.bytes now) := by
  induction hcues generalizing d now with
  | nil =>
    have hdrain := outputs_drain true d now []
    rw [List.append_nil] at hdrain
    exact hdrain
  | @item cues chunk rest ih =>
    cases chunk with
    | nil => exact ih hspent now
    | cons first others =>
      show ((((d.feed (first :: others)).drain false).1 ++ _).outputs now) =
        d.outputs _ ((first :: others).map (⟨now, ·⟩) ++ Timeline.bytes now cues)
      rw [outputs_drain, outputs_chunk hspent, drain_eq_exhaust]
      by_cases hfault : ((d.feed (first :: others)).exhaust false).fault? = none
      · rw [if_pos hfault, if_pos hfault, ih (spent_exhaust hfault) now]
        rfl
      · rw [if_neg hfault, if_neg hfault]
  | pauseUntil moment rest ih => exact ih hspent (max now moment)
  | hang cues => rfl

/-- What is read may be put in front. -/
theorem absolute_drain (ended : Bool) (d : Decoder) {cues : Timeline Message} (h : cues.Absolute) :
    ((d.drain ended).1 ++ cues).Absolute := by
  rw [drain_eq_exhaust, List.append_assoc]
  apply Timeline.Absolute.ofValues
  cases (d.exhaust ended).error? with
  | none => exact h
  | some error => exact .fail error _

/-- When what a scheduled timeline will give comes does not depend on when it is waited for. -/
theorem absolute_forecast {cues : Timeline Bytes} (hcues : cues.Scheduled) (d : Decoder) :
    (d.forecast cues).Absolute := by
  induction hcues generalizing d with
  | nil =>
    have hdrain := absolute_drain true d .nil
    rw [List.append_nil] at hdrain
    exact hdrain
  | item chunk rest ih =>
    cases chunk with
    | nil => exact ih d
    | cons first others => exact absolute_drain false _ (ih _)
  | pauseUntil moment rest ih => exact .pauseUntil moment (ih d)
  | hang cues => exact .hang _

end Decoder

end PeerWire
