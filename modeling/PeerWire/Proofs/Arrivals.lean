import PeerWire.Proofs.Forecast

/-!
# When things arrive

On a scheduled timeline each thing comes at a moment of its own, whenever somebody begins to wait
for it. Main statement: who waits for bytes up to a deadline has them when the last of them arrives,
finds too few when the stream ends first, and else waits until the deadline.
-/

namespace PeerWire

/-- Something that comes at a moment. -/
structure Dated (α : Type) where
  /-- When it comes. -/
  moment : Nat
  /-- What comes. -/
  value : α
deriving DecidableEq, Repr

namespace Dated

variable {α : Type}

/-- When the last of them is there for somebody who waits from a moment on. -/
def last : Nat → List (Dated α) → Nat
  | now, [] => now
  | now, first :: others => last (max now first.moment) others

/-- The first so many have come by a moment. -/
def Come (count moment : Nat) (things : List (Dated α)) : Prop :=
  count ≤ things.length ∧ ∀ thing ∈ things.take count, thing.moment ≤ moment

instance (count moment : Nat) (things : List (Dated α)) : Decidable (Come count moment things) :=
  inferInstanceAs (Decidable (_ ∧ _))

variable {count moment now : Nat} {first : Dated α} {others things : List (Dated α)}

/-- Nothing has always come. -/
theorem come_zero (moment : Nat) (things : List (Dated α)) : Come 0 moment things :=
  ⟨Nat.zero_le _, by simp⟩

/-- The first one has come, and the others after it. -/
theorem come_succ_iff :
    Come (count + 1) moment (first :: others) ↔
      first.moment ≤ moment ∧ Come count moment others := by
  simp only [Come, List.length_cons, Nat.add_le_add_iff_right, List.take_succ_cons,
    List.forall_mem_cons]
  exact and_left_comm

/-- Where nothing comes by a moment, none of it has come. -/
theorem not_come_of_late (h : ∀ thing ∈ things, moment < thing.moment) :
    ¬Come (count + 1) moment things := by
  intro hcome
  cases things with
  | nil => exact Nat.not_succ_le_zero count hcome.1
  | cons first others =>
    exact Nat.not_le_of_lt (h first (List.mem_cons_self ..)) (come_succ_iff.mp hcome).1

/-- Nobody has to wait into the past. -/
theorem le_last (now : Nat) (things : List (Dated α)) : now ≤ last now things := by
  induction things generalizing now with
  | nil => exact Nat.le_refl now
  | cons first others ih => exact Nat.le_trans (Nat.le_max_left ..) (ih _)

end Dated

/-! ### Scheduled timelines -/

namespace Timeline

variable {α : Type} {now : Nat} {cues : Timeline α}

/-- Each thing comes at a moment of its own, until the timeline ends or nothing comes any more. -/
inductive Scheduled : Timeline α → Prop where
  /-- The timeline ends. -/
  | nil : Scheduled []
  /-- Something comes. -/
  | item {cues : Timeline α} (value : α) (rest : Scheduled cues) : Scheduled (.item value :: cues)
  /-- What follows comes no earlier than a moment. -/
  | pauseUntil {cues : Timeline α} (moment : Nat) (rest : Scheduled cues) :
      Scheduled (.pauseUntil moment :: cues)
  /-- Nothing comes any more. -/
  | hang (cues : Timeline α) : Scheduled (.hang :: cues)

/-- The bytes that come from a moment on, each with its moment. -/
def bytes : Nat → Timeline Bytes → List (Dated UInt8)
  | now, .item chunk :: cues => chunk.map (⟨now, ·⟩) ++ bytes now cues
  | now, .pauseUntil moment :: cues => bytes (max now moment) cues
  | _, _ => []

/-- When the timeline ends, if it does. -/
def endsAt : Nat → Timeline α → Option Nat
  | now, [] => some now
  | now, .item _ :: cues => endsAt now cues
  | now, .pauseUntil moment :: cues => endsAt (max now moment) cues
  | _, _ => none

/-- The end is no earlier than it is waited for. -/
theorem le_of_mem_endsAt {moment : Nat} (h : moment ∈ cues.endsAt now) : now ≤ moment := by
  fun_induction endsAt now cues with
  | case1 now =>
    cases h
    exact Nat.le_refl _
  | case2 now value cues ih => exact ih h
  | case3 now later cues ih => exact Nat.le_trans (Nat.le_max_left ..) (ih h)
  | case4 => cases h

/-- Bytes come no earlier than they are waited for, and no later than the end. -/
theorem le_of_mem_bytes {cues : Timeline Bytes} {byte : Dated UInt8} (h : byte ∈ cues.bytes now) :
    now ≤ byte.moment ∧ ∀ moment ∈ cues.endsAt now, byte.moment ≤ moment := by
  fun_induction bytes now cues with
  | case1 now chunk cues ih =>
    rcases List.mem_append.mp h with hchunk | hmem
    · obtain ⟨value, -, rfl⟩ := List.mem_map.mp hchunk
      refine ⟨Nat.le_refl now, fun moment hends ↦ ?_⟩
      have hends : moment ∈ endsAt now cues := hends
      exact le_of_mem_endsAt hends
    · exact ih hmem
  | case2 now moment cues ih =>
    obtain ⟨hnow, hend⟩ := ih h
    exact ⟨Nat.le_trans (Nat.le_max_left ..) hnow, hend⟩
  | case3 => cases h

end Timeline

/-! ### Waiting up to a deadline -/

namespace Clock

variable {clock : Clock} {deadline : Nat}

/-- With nothing in the way a moment is reached. -/
theorem waitUntil_open (clock : Clock) (moment : Nat) :
    clock.waitUntil Scope.open moment = (.done (), ⟨max clock.now moment, clock.stopAt⟩) := rfl

/-- Up to a deadline that has not passed a moment is reached, or the deadline. -/
theorem waitUntil_open_upTo (h : clock.now ≤ deadline) (moment : Nat) :
    clock.waitUntil (Scope.open.upTo deadline) moment =
      if max clock.now moment ≤ deadline then
        (.done (), { clock with now := max clock.now moment })
      else (.expired, { clock with now := deadline }) := by
  have hlimit : (clock.limit? (Scope.open.upTo deadline) : Option (Nat × Ending Unit)) =
      some (deadline, .expired) := by
    simp [limit?, Scope.open, Scope.upTo, Nat.max_eq_right h]
  simp only [waitUntil, hlimit]
  split <;> rfl

/-- Up to a deadline nobody waits longer. -/
theorem waitForever_open_upTo {α : Type} (h : clock.now ≤ deadline) :
    (clock.waitForever (Scope.open.upTo deadline) : Ending α × Clock) =
      (.expired, { clock with now := deadline }) := by
  have hlimit : (clock.limit? (Scope.open.upTo deadline) : Option (Nat × Ending α)) =
      some (deadline, .expired) := by
    simp [limit?, Scope.open, Scope.upTo, Nat.max_eq_right h]
  simp only [waitForever, hlimit]
  rfl

end Clock

namespace ByteStream

variable {scope : Scope} {clock : Clock} {deadline : Nat} {cues : Timeline Bytes} {written : Bytes}
  {room : Option Nat}

/-- Nothing is read at the end of a stream. -/
theorem read_nil (scope : Scope) (clock : Clock) (written : Bytes) (room : Option Nat) :
    read scope clock ⟨[], written, room⟩ = ⟨.done none, clock, ⟨[], written, room⟩⟩ := by
  rw [read, Activity.repeatUntil_apply]
  rfl

/-- An empty chunk is passed over. -/
theorem read_item_nil (scope : Scope) (clock : Clock) (cues : Timeline Bytes) (written : Bytes)
    (room : Option Nat) :
    read scope clock ⟨.item [] :: cues, written, room⟩ =
      read scope clock ⟨cues, written, room⟩ := by
  rw [read, Activity.repeatUntil_apply]
  rfl

/-- A chunk that is there is read. -/
theorem read_item_cons (scope : Scope) (clock : Clock) (first : UInt8) (others : Bytes)
    (cues : Timeline Bytes) (written : Bytes) (room : Option Nat) :
    read scope clock ⟨.item (first :: others) :: cues, written, room⟩ =
      ⟨.done (some (first, others)), clock, ⟨cues, written, room⟩⟩ := by
  rw [read, Activity.repeatUntil_apply]
  rfl

/-- Where the same is read the first byte is the same. -/
theorem readByte_congr {before : Clock} {s t : ByteStream}
    (h : read scope clock s = read scope before t) :
    readByte scope clock s = readByte scope before t := by
  rw [readByte, Activity.bind_apply, Activity.bind_apply, h]

/-- Where nothing is read in time there is no first byte. -/
theorem readByte_of_expired {after : Clock} {s t : ByteStream}
    (h : read scope clock s = ⟨.expired, after, t⟩) :
    readByte scope clock s = ⟨.expired, after, t⟩ := by
  rw [readByte, Activity.bind_apply, h]

/-- What comes of waiting up to a deadline for the first of some bytes that come before an end. -/
inductive ReadsByte (deadline : Nat) (stopAt : Option Nat) (written : Bytes) (room : Option Nat)
    (ends : Option Nat) : List (Dated UInt8) → Outcome ByteStream (Option UInt8) → Prop where
  /-- It comes by then. -/
  | byte {first : Dated UInt8} {others : List (Dated UInt8)} {rest : Timeline Bytes}
      (inTime : first.moment ≤ deadline) (scheduled : rest.Scheduled)
      (behind : rest.bytes first.moment = others) (ends_eq : rest.endsAt first.moment = ends) :
      ReadsByte deadline stopAt written room ends (first :: others)
        ⟨.done (some first.value), ⟨first.moment, stopAt⟩, ⟨rest, written, room⟩⟩
  /-- The end comes by then. -/
  | ended {moment : Nat} (ends_eq : ends = some moment) (inTime : moment ≤ deadline) :
      ReadsByte deadline stopAt written room ends []
        ⟨.done none, ⟨moment, stopAt⟩, ⟨[], written, room⟩⟩
  /-- Neither comes by then. -/
  | late {bytes : List (Dated UInt8)} {rest : Timeline Bytes}
      (noByte : ∀ byte ∈ bytes, deadline < byte.moment)
      (noEnd : ∀ moment ∈ ends, deadline < moment) :
      ReadsByte deadline stopAt written room ends bytes
        ⟨.expired, ⟨deadline, stopAt⟩, ⟨rest, written, room⟩⟩

/-- Up to a deadline the next byte comes, the stream ends, or neither. -/
theorem readsByte_readByte (written : Bytes) (room : Option Nat) (hcues : cues.Scheduled)
    (hclock : clock.now ≤ deadline) :
    ReadsByte deadline clock.stopAt written room (cues.endsAt clock.now) (cues.bytes clock.now)
      (readByte (Scope.open.upTo deadline) clock ⟨cues, written, room⟩) := by
  induction hcues generalizing clock with
  | nil =>
    rw [readByte, Activity.bind_of_done (read_nil ..)]
    exact .ended rfl hclock
  | item chunk rest ih =>
    cases chunk with
    | nil =>
      rw [readByte_congr (read_item_nil ..)]
      exact ih hclock
    | cons first others =>
      rw [readByte, Activity.bind_of_done (read_item_cons ..)]
      have hnow : (⟨clock.now, first⟩ : Dated UInt8).moment ≤ deadline := hclock
      exact .byte hnow (.item others rest) rfl rfl
  | @pauseUntil cues moment rest ih =>
    have hread : read (Scope.open.upTo deadline) clock ⟨.pauseUntil moment :: cues, written, room⟩ =
      _ := read_of_after rfl
    rw [Clock.waitUntil_open_upTo hclock] at hread
    by_cases hin : max clock.now moment ≤ deadline
    · rw [if_pos hin] at hread
      rw [readByte_congr hread]
      exact @ih ⟨max clock.now moment, clock.stopAt⟩ hin
    · rw [if_neg hin] at hread
      rw [readByte_of_expired hread]
      have hlater : deadline < max clock.now moment := Nat.lt_of_not_le hin
      refine .late (fun byte hbyte ↦ ?_) fun e hends ↦ ?_
      · have hbyte : byte ∈ cues.bytes (max clock.now moment) := hbyte
        exact Nat.lt_of_lt_of_le hlater (Timeline.le_of_mem_bytes hbyte).1
      · have hends : e ∈ cues.endsAt (max clock.now moment) := hends
        exact Nat.lt_of_lt_of_le hlater (Timeline.le_of_mem_endsAt hends)
  | hang cues =>
    have hnever : Timeline.next (Scope.open.upTo deadline) clock (.hang :: cues) =
      Activity.never (Scope.open.upTo deadline) clock (.hang :: cues) := rfl
    have hread : read (Scope.open.upTo deadline) clock ⟨.hang :: cues, written, room⟩ = _ :=
      read_of_never hnever
    rw [Activity.never, Clock.waitForever_open_upTo hclock] at hread
    rw [readByte_of_expired hread]
    exact .late (by simp [Timeline.bytes]) (by simp [Timeline.endsAt])

/-- What comes of waiting up to a deadline, from a moment on, for so many of some bytes that come
before an end. -/
inductive ReadsExactly (deadline : Nat) (stopAt : Option Nat) (written : Bytes) (room : Option Nat)
    (ends : Option Nat) (now count : Nat) (bytes : List (Dated UInt8)) :
    Outcome ByteStream (Option { bytes : Bytes // bytes.length = count }) → Prop where
  /-- They come by then. -/
  | whole {text : { bytes : Bytes // bytes.length = count }} {rest : Timeline Bytes}
      {moment : Nat} (come : Dated.Come count deadline bytes)
      (text_eq : text.val = (bytes.take count).map Dated.value)
      (moment_eq : moment = Dated.last now (bytes.take count)) (scheduled : rest.Scheduled)
      (behind : rest.bytes moment = bytes.drop count) (ends_eq : rest.endsAt moment = ends) :
      ReadsExactly deadline stopAt written room ends now count bytes
        ⟨.done (some text), ⟨moment, stopAt⟩, ⟨rest, written, room⟩⟩
  /-- The end comes by then, behind too few. -/
  | ended {moment : Nat} (few : bytes.length < count) (ends_eq : ends = some moment)
      (inTime : moment ≤ deadline) :
      ReadsExactly deadline stopAt written room ends now count bytes
        ⟨.done none, ⟨moment, stopAt⟩, ⟨[], written, room⟩⟩
  /-- Neither comes by then. -/
  | late {rest : Timeline Bytes} (missing : ¬Dated.Come count deadline bytes)
      (noEnd : bytes.length < count → ∀ moment ∈ ends, deadline < moment) :
      ReadsExactly deadline stopAt written room ends now count bytes
        ⟨.expired, ⟨deadline, stopAt⟩, ⟨rest, written, room⟩⟩

/-- Up to a deadline so many bytes come, the stream ends, or neither. -/
theorem readsExactly_readExactly (count : Nat) (clock : Clock) (written : Bytes) (room : Option Nat)
    (hcues : cues.Scheduled) (hclock : clock.now ≤ deadline) :
    ReadsExactly deadline clock.stopAt written room (cues.endsAt clock.now) clock.now count
      (cues.bytes clock.now)
      (readExactly count (Scope.open.upTo deadline) clock ⟨cues, written, room⟩) := by
  induction count generalizing clock cues with
  | zero => exact .whole (Dated.come_zero ..) rfl rfl hcues rfl rfl
  | succ count ih =>
    have hfirst := readsByte_readByte written room hcues hclock
    have hmem : ∀ byte ∈ cues.bytes clock.now, clock.now ≤ byte.moment :=
      fun byte hbyte ↦ (Timeline.le_of_mem_bytes hbyte).1
    rw [readExactly, Activity.bind_apply]
    generalize readByte (Scope.open.upTo deadline) clock ⟨cues, written, room⟩ = o at hfirst ⊢
    generalize cues.bytes clock.now = bytes at hfirst hmem ⊢
    generalize cues.endsAt clock.now = ends at hfirst hmem ⊢
    cases hfirst with
    | @byte first others rest inTime scheduled behind ends_eq =>
      have hmax : max clock.now first.moment = first.moment :=
        Nat.max_eq_right (hmem first (by simp))
      have hothers := ih ⟨first.moment, clock.stopAt⟩ scheduled inTime
      simp only [Activity.bind_apply]
      rw [behind, ends_eq] at hothers
      generalize readExactly count (Scope.open.upTo deadline) ⟨first.moment, clock.stopAt⟩
        ⟨rest, written, room⟩ = o at hothers ⊢
      cases hothers with
      | whole come text_eq moment_eq scheduled behind ends_eq =>
        refine .whole (Dated.come_succ_iff.mpr ⟨inTime, come⟩) ?_ ?_ scheduled behind ends_eq
        · exact congrArg (first.value :: ·) text_eq
        · rw [moment_eq, List.take_succ_cons, Dated.last, hmax]
      | ended few ends_eq inTime => exact .ended (Nat.succ_lt_succ few) ends_eq inTime
      | late missing noEnd =>
        refine .late (fun hcome ↦ missing (Dated.come_succ_iff.mp hcome).2) fun hfew ↦ ?_
        exact noEnd (Nat.lt_of_succ_lt_succ hfew)
    | ended ends_eq inTime => exact .ended (Nat.succ_pos count) ends_eq inTime
    | late noByte noEnd => exact .late (Dated.not_come_of_late noByte) fun _ ↦ noEnd

end ByteStream

end PeerWire
