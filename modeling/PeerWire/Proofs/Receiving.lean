import PeerWire.Proofs.Outputs
import PeerWire.Proofs.Returning

/-!
# Receiving in time

A call that waits for a message takes what the decoder puts out in order, passes over what only
keeps the connection open, and begins to count its time anew with each of these. Main statements: a
call gives the first other thing exactly if everything up to that is in time, and else it fails when
its time is over, with nothing lost; so that one call after the other gives every message once.
-/

namespace PeerWire

namespace Timeline

variable {clock : Clock} {deadline base : Nat} {cues : Timeline Message}

/-- What comes of waiting up to a deadline, from a moment on, for the first of some outputs. -/
inductive Takes (deadline : Nat) (stopAt : Option Nat) (now : Nat) :
    List (Dated Output) → Outcome (Timeline Message) Message → Prop where
  /-- A message comes by then. -/
  | message {moment base : Nat} {message : Message} {others : List (Dated Output)}
      {rest : Timeline Message} (inTime : moment ≤ deadline) (absolute : rest.Absolute)
      (base_le : base ≤ max now moment) (rest_eq : rest.outputs base = others) :
      Takes deadline stopAt now (⟨moment, .ok message⟩ :: others)
        ⟨.done message, ⟨max now moment, stopAt⟩, rest⟩
  /-- A failure comes by then. -/
  | error {moment : Nat} {error : Error} {rest : Timeline Message} (inTime : moment ≤ deadline) :
      Takes deadline stopAt now [⟨moment, .error error⟩]
        ⟨.failed error, ⟨max now moment, stopAt⟩, rest⟩
  /-- Nothing comes by then. -/
  | late {base : Nat} {outputs : List (Dated Output)} {rest : Timeline Message}
      (later : ∀ first ∈ outputs.head?, deadline < first.moment) (absolute : rest.Absolute)
      (base_le : base ≤ deadline) (rest_eq : rest.outputs base = outputs) :
      Takes deadline stopAt now outputs ⟨.expired, ⟨deadline, stopAt⟩, rest⟩

/-- What is waited for from some moment on is also waited for from before, if nothing comes until
then. -/
theorem Takes.earlier {stopAt : Option Nat} {now later : Nat} {outputs : List (Dated Output)}
    {o : Outcome (Timeline Message) Message} (h : Takes deadline stopAt (max now later) outputs o)
    (hlater : ∀ output ∈ outputs, later ≤ output.moment) : Takes deadline stopAt now outputs o := by
  cases h with
  | @message moment base message others rest inTime absolute base_le rest_eq =>
    have hmoment : later ≤ moment := hlater _ (List.mem_cons_self ..)
    have hmax : max (max now later) moment = max now moment := by omega
    rw [hmax] at base_le ⊢
    exact .message inTime absolute base_le rest_eq
  | @error moment error rest inTime =>
    have hmoment : later ≤ moment := hlater _ (List.mem_cons_self ..)
    have hmax : max (max now later) moment = max now moment := by omega
    rw [hmax]
    exact .error inTime
  | late later absolute base_le rest_eq => exact .late later absolute base_le rest_eq

/-- Waiting up to a deadline takes the first thing that comes by then. -/
theorem takes_take (hcues : cues.Absolute) (hbase : base ≤ clock.now)
    (hclock : clock.now ≤ deadline) :
    Takes deadline clock.stopAt clock.now (cues.outputs base)
      (take (Scope.open.upTo deadline) clock cues) := by
  have hmax : max clock.now base = clock.now := Nat.max_eq_left hbase
  induction hcues generalizing clock base with
  | nil =>
    have herror : Takes deadline clock.stopAt clock.now [⟨base, .error .connectionClosed⟩]
        ⟨.failed .connectionClosed, ⟨max clock.now base, clock.stopAt⟩, []⟩ :=
      .error (Nat.le_trans hbase hclock)
    rw [hmax] at herror
    exact herror
  | @item cues message rest ih =>
    have hmessage : Takes deadline clock.stopAt clock.now (⟨base, .ok message⟩ :: cues.outputs base)
        ⟨.done message, ⟨max clock.now base, clock.stopAt⟩, cues⟩ :=
      .message (Nat.le_trans hbase hclock) rest (Nat.le_max_right ..) rfl
    rw [hmax] at hmessage
    exact hmessage
  | @pauseUntil cues moment rest ih =>
    have hnext : take (Scope.open.upTo deadline) clock (.pauseUntil moment :: cues) =
        let r := after moment cues (Scope.open.upTo deadline) clock
          fun clock ↦ next (Scope.open.upTo deadline) clock cues
        ⟨r.ending.given, r.clock, r.state⟩ := rfl
    rw [hnext, after, Clock.waitUntil_open_upTo hclock]
    by_cases hin : max clock.now moment ≤ deadline
    · rw [if_pos hin]
      have hrest := @ih ⟨max clock.now moment, clock.stopAt⟩ (max base moment) (by simp; omega) hin
        (by simp; omega)
      exact hrest.earlier fun output hmem ↦
        Nat.le_trans (Nat.le_max_right base moment) (le_of_mem_outputs hmem)
    · rw [if_neg hin]
      refine .late (fun first hfirst ↦ ?_) (.pauseUntil moment rest) (Nat.le_trans hbase hclock) rfl
      have hmem : first ∈ cues.outputs (max base moment) := List.mem_of_mem_head? hfirst
      have := le_of_mem_outputs hmem
      omega
  | fail error cues =>
    have herror : Takes deadline clock.stopAt clock.now [⟨base, .error error⟩]
        ⟨.failed error, ⟨max clock.now base, clock.stopAt⟩, cues⟩ :=
      .error (Nat.le_trans hbase hclock)
    rw [hmax] at herror
    exact herror
  | hang cues =>
    have hnext : take (Scope.open.upTo deadline) clock (.hang :: cues) =
        let wait : Ending (Option Message) × Clock := clock.waitForever (Scope.open.upTo deadline)
        ⟨wait.1.given, wait.2, .hang :: cues⟩ := rfl
    rw [hnext, Clock.waitForever_open_upTo hclock]
    exact .late (by simp [outputs]) (.hang cues) (Nat.le_trans hbase hclock) rfl

end Timeline

/-! ### Calls -/

/-- Nothing has come within a limit. -/
def Error.readTimedOut (limit : Nat) : Error := .connection (.timedOut .read (.ofMillis limit))

/-- Each thing comes within a limit after the one before was taken, the first one after a moment. -/
def Dated.InTime {α : Type} (limit : Nat) : Nat → List (Dated α) → Prop
  | _, [] => True
  | now, first :: others =>
    first.moment ≤ now + limit ∧ InTime limit (max now first.moment) others

/-- What a call that begins at some moment makes of the outputs: what it takes, what it leaves, its
result, and when it has it. -/
inductive Serves (limit now : Nat) :
    List (Dated Output) → List (Dated Output) → List (Dated Output) → Output → Nat → Prop where
  /-- It gives the first output that is more than a sign of life. -/
  | gives {idle rest : List (Dated Output)} {output : Dated Output}
      (idle_of_mem : ∀ other ∈ idle, other.value.isIdle = true)
      (more : output.value.isIdle = false) (inTime : Dated.InTime limit now (idle ++ [output])) :
      Serves limit now (idle ++ output :: rest) (idle ++ [output]) rest output.value
        (Dated.last now (idle ++ [output]))
  /-- Its time is over. -/
  | late {idle rest : List (Dated Output)} (idle_of_mem : ∀ other ∈ idle, other.value.isIdle = true)
      (inTime : Dated.InTime limit now idle)
      (later : ∀ first ∈ rest.head?, Dated.last now idle + limit < first.moment) :
      Serves limit now (idle ++ rest) idle rest (.error (.readTimedOut limit))
        (Dated.last now idle + limit)

/-- The first output may be what a call gives. -/
theorem Serves.first {limit now : Nat} {output : Dated Output} (rest : List (Dated Output))
    (hmore : output.value.isIdle = false) (hin : output.moment ≤ now + limit) :
    Serves limit now (output :: rest) [output] rest output.value (max now output.moment) := by
  have hgives : Serves limit now ([] ++ output :: rest) ([] ++ [output]) rest output.value
      (Dated.last now ([] ++ [output])) := .gives (by simp) hmore ⟨hin, trivial⟩
  exact hgives

/-- A call may give nothing. -/
theorem Serves.nothing {limit now : Nat} {outputs : List (Dated Output)}
    (hlater : ∀ first ∈ outputs.head?, now + limit < first.moment) :
    Serves limit now outputs [] outputs (.error (.readTimedOut limit)) (now + limit) := by
  have hlate : Serves limit now ([] ++ outputs) [] outputs (.error (.readTimedOut limit))
      (Dated.last now [] + limit) := .late (by simp) trivial hlater
  exact hlate

/-- A sign of life begins the time of a call anew. -/
theorem Serves.cons {limit now : Nat} {first : Dated Output}
    {others taken rest : List (Dated Output)} {result : Output} {finish : Nat}
    (hidle : first.value.isIdle = true) (hin : first.moment ≤ now + limit)
    (h : Serves limit (max now first.moment) others taken rest result finish) :
    Serves limit now (first :: others) (first :: taken) rest result finish := by
  cases h with
  | @gives idle rest output idle_of_mem more inTime =>
    exact .gives (List.forall_mem_cons.mpr ⟨hidle, idle_of_mem⟩) more ⟨hin, inTime⟩
  | @late idle rest idle_of_mem inTime later =>
    exact .late (List.forall_mem_cons.mpr ⟨hidle, idle_of_mem⟩) ⟨hin, inTime⟩ later

/-- What is in time goes on being so up to anything of it. -/
theorem Dated.InTime.append {α : Type} {limit now : Nat} {front behind : List (Dated α)}
    (h : InTime limit now (front ++ behind)) :
    InTime limit now front ∧ InTime limit (last now front) behind := by
  induction front generalizing now with
  | nil => exact ⟨trivial, h⟩
  | cons first front ih =>
    obtain ⟨hfirst, hrest⟩ := h
    obtain ⟨hfront, hbehind⟩ := ih hrest
    exact ⟨⟨hfirst, hfront⟩, hbehind⟩

/-- Signs of life before a first other thing are told apart in one way only. -/
theorem idle_append_inj {idle idle' rest rest' : List (Dated Output)}
    {output output' : Dated Output}
    (hidle : ∀ other ∈ idle, other.value.isIdle = true) (hmore : output.value.isIdle = false)
    (hidle' : ∀ other ∈ idle', other.value.isIdle = true) (hmore' : output'.value.isIdle = false)
    (h : idle ++ output :: rest = idle' ++ output' :: rest') :
    idle = idle' ∧ output = output' ∧ rest = rest' := by
  induction idle generalizing idle' with
  | nil =>
    cases idle' with
    | nil =>
      cases h
      exact ⟨rfl, rfl, rfl⟩
    | cons first idle' =>
      cases h
      rw [hidle' output (List.mem_cons_self ..)] at hmore
      cases hmore
  | cons first idle ih =>
    cases idle' with
    | nil =>
      cases h
      rw [hidle output' (List.mem_cons_self ..)] at hmore'
      cases hmore'
    | cons first' idle' =>
      obtain ⟨hfirst, hrest⟩ := List.cons.inj h
      obtain ⟨rfl, rest⟩ :=
        ih (List.forall_mem_cons.mp hidle).2 (List.forall_mem_cons.mp hidle').2 hrest
      exact ⟨congrArg (· :: idle) hfirst, rest⟩

/-- A call: when it began, its result, and when it had that. -/
structure Call where
  /-- When it began. -/
  start : Nat
  /-- What came of it. -/
  result : Output
  /-- When that was there. -/
  finish : Nat

/-- The rule for a call that has outputs ahead of it. -/
structure Call.Obeys (limit : Nat) (outputs : List (Dated Output)) (call : Call) : Prop where
  /-- It gives the first output that is more than a sign of life exactly if each one up to that is
  in time. -/
  answered : ∀ idle output rest, outputs = idle ++ output :: rest →
    (∀ other ∈ idle, other.value.isIdle = true) → output.value.isIdle = false →
    (call.result = output.value ↔ Dated.InTime limit call.start (idle ++ [output]))
  /-- It does so at once. -/
  prompt : ∀ idle output rest, outputs = idle ++ output :: rest →
    (∀ other ∈ idle, other.value.isIdle = true) → output.value.isIdle = false →
    Dated.InTime limit call.start (idle ++ [output]) →
    call.finish = Dated.last call.start (idle ++ [output])
  /-- Otherwise its time is over, so long after it began or after the last sign of life that was in
  time. -/
  late : (∀ idle output rest, outputs = idle ++ output :: rest →
      (∀ other ∈ idle, other.value.isIdle = true) → output.value.isIdle = false →
      ¬Dated.InTime limit call.start (idle ++ [output])) →
    call.result = .error (.readTimedOut limit) ∧ ∃ idle rest, outputs = idle ++ rest ∧
      (∀ other ∈ idle, other.value.isIdle = true) ∧ Dated.InTime limit call.start idle ∧
      (∀ first ∈ rest.head?, Dated.last call.start idle + limit < first.moment) ∧
      call.finish = Dated.last call.start idle + limit

/-- Where nothing comes in time after some signs of life, nothing comes in time. -/
theorem not_inTime_of_later {limit now : Nat} {idle idle' rest rest' : List (Dated Output)}
    {output : Dated Output} (hidle : ∀ other ∈ idle, other.value.isIdle = true)
    (hlater : ∀ first ∈ rest.head?, Dated.last now idle + limit < first.moment)
    (hmore : output.value.isIdle = false) (h : idle ++ rest = idle' ++ output :: rest') :
    ¬Dated.InTime limit now (idle' ++ [output]) := by
  intro hin
  -- the output is not among the signs of life, so they are in front of it
  rcases List.append_eq_append_iff.mp h with ⟨front, rfl, hrest⟩ | ⟨behind, rfl, hrest⟩
  · rw [List.append_assoc] at hin
    have hbehind := hin.append.2
    cases front with
    | nil =>
      have hfirst := hlater output (by rw [hrest]; rfl)
      exact Nat.not_le_of_lt hfirst hbehind.1
    | cons first front =>
      have hfirst := hlater first (by rw [hrest]; rfl)
      exact Nat.not_le_of_lt hfirst hbehind.1
  · cases behind with
    | nil =>
      rw [List.append_nil] at hlater
      rw [List.nil_append] at hrest
      have hfirst := hlater output (by rw [← hrest]; rfl)
      exact Nat.not_le_of_lt hfirst hin.append.2.1
    | cons first behind =>
      cases hrest
      rw [hidle output (by simp)] at hmore
      cases hmore

/-- Signs of life that were in time before nothing was are told apart in one way only. -/
theorem idle_eq_of_later {limit now : Nat} {idle idle' rest rest' : List (Dated Output)}
    (hlater : ∀ first ∈ rest.head?, Dated.last now idle + limit < first.moment)
    (hin : Dated.InTime limit now idle')
    (hlater' : ∀ first ∈ rest'.head?, Dated.last now idle' + limit < first.moment)
    (hin' : Dated.InTime limit now idle) (h : idle ++ rest = idle' ++ rest') :
    idle = idle' ∧ rest = rest' := by
  have hnil {front behind more : List (Dated Output)}
      (hlater : ∀ first ∈ (more ++ behind).head?, Dated.last now front + limit < first.moment)
      (hin : Dated.InTime limit now (front ++ more)) : more = [] := by
    cases more with
    | nil => rfl
    | cons first more => exact absurd hin.append.2.1 (Nat.not_le_of_lt (hlater first rfl))
  rcases List.append_eq_append_iff.mp h with ⟨more, rfl, rfl⟩ | ⟨more, rfl, rfl⟩
  · obtain rfl := hnil hlater hin
    simp
  · obtain rfl := hnil hlater' hin'
    simp

/-- What a call makes of outputs is settled. -/
theorem Serves.unique {limit now : Nat} {outputs taken taken' rest rest' : List (Dated Output)}
    {result result' : Output} {finish finish' : Nat}
    (h : Serves limit now outputs taken rest result finish)
    (h' : Serves limit now outputs taken' rest' result' finish') :
    taken = taken' ∧ rest = rest' ∧ result = result' ∧ finish = finish' := by
  generalize hsame : outputs = same at h'
  cases h with
  | gives idle_of_mem more inTime =>
    cases h' with
    | gives idle_of_mem' more' inTime' =>
      obtain ⟨rfl, rfl, rfl⟩ := idle_append_inj idle_of_mem more idle_of_mem' more' hsame
      exact ⟨rfl, rfl, rfl, rfl⟩
    | late idle_of_mem' inTime' later' =>
      exact absurd inTime (not_inTime_of_later idle_of_mem' later' more hsame.symm)
  | late idle_of_mem inTime later =>
    cases h' with
    | gives idle_of_mem' more' inTime' =>
      exact absurd inTime' (not_inTime_of_later idle_of_mem later more' hsame)
    | late idle_of_mem' inTime' later' =>
      obtain ⟨rfl, rfl⟩ := idle_eq_of_later later inTime' later' inTime hsame
      exact ⟨rfl, rfl, rfl, rfl⟩

/-- What a call makes of the outputs of a decoder is by the rule. -/
theorem Serves.obeys {limit start : Nat} {outputs taken rest : List (Dated Output)}
    {result : Output} {finish : Nat} (h : Serves limit start outputs taken rest result finish)
    (hcloses : Decoder.Closes outputs) : (⟨start, result, finish⟩ : Call).Obeys limit outputs := by
  cases h with
  | gives idle_of_mem more inTime =>
    refine ⟨fun idle' output' rest' hsplit hidle' hmore' ↦ ?_,
      fun idle' output' rest' hsplit hidle' hmore' _ ↦ ?_, fun hnot ↦ ?_⟩
    · obtain ⟨rfl, rfl, -⟩ := idle_append_inj idle_of_mem more hidle' hmore' hsplit
      exact iff_of_true rfl inTime
    · obtain ⟨rfl, rfl, -⟩ := idle_append_inj idle_of_mem more hidle' hmore' hsplit
      rfl
    · exact absurd inTime (hnot _ _ _ rfl idle_of_mem more)
  | late idle_of_mem inTime later =>
    have hnot {idle' rest' : List (Dated Output)} {output : Dated Output}
        (hsplit : taken ++ rest = idle' ++ output :: rest') (hmore : output.value.isIdle = false) :
        ¬Dated.InTime limit start (idle' ++ [output]) :=
      not_inTime_of_later idle_of_mem later hmore hsplit
    refine ⟨fun idle' output rest' hsplit _ hmore ↦ iff_of_false (fun hresult ↦ ?_)
      (hnot hsplit hmore),
      fun idle' output rest' hsplit _ hmore hin ↦ absurd hin (hnot hsplit hmore),
      fun _ ↦ ⟨rfl, taken, rest, rfl, idle_of_mem, inTime, later, rfl⟩⟩
    -- no decoder puts out that its time is over
    rw [hsplit] at hcloses
    obtain ⟨moment, value⟩ := output
    obtain rfl : Except.error (.readTimedOut limit) = value := hresult
    cases hcloses.behind with
    | last last => cases last

namespace Framed

variable {clock : Clock} {limit now : Nat} {f : Framed} {outputs : List (Dated Output)}

/-- At a moment a framed stream has outputs ahead of it, each of which it waits for up to

a limit. -/
def Awaits (f : Framed) (limit now : Nat) (outputs : List (Dated Output)) : Prop :=
  f.readTimeout = limit ∧ ∃ (cues : Timeline Message) (base : Nat), f.Gives cues ∧ cues.Absolute ∧
    base ≤ now ∧ cues.outputs base = outputs

/-- What comes of a round. -/
inductive Rounds (limit : Nat) (stopAt : Option Nat) (now : Nat) :
    List (Dated Output) → Outcome Framed (Option Message) → Prop where
  /-- A message comes in time, or a sign of life. -/
  | message {moment : Nat} {message : Message} {others : List (Dated Output)} {f : Framed}
      (inTime : moment ≤ now + limit) (awaits : f.Awaits limit (max now moment) others) :
      Rounds limit stopAt now (⟨moment, .ok message⟩ :: others)
        ⟨.done (if message = .keepAlive then none else some message), ⟨max now moment, stopAt⟩, f⟩
  /-- A failure comes in time. -/
  | error {moment : Nat} {error : Error} {f : Framed} (inTime : moment ≤ now + limit) :
      Rounds limit stopAt now [⟨moment, .error error⟩]
        ⟨.failed error, ⟨max now moment, stopAt⟩, f⟩
  /-- Nothing comes in time. -/
  | late {outputs : List (Dated Output)} {f : Framed}
      (later : ∀ first ∈ outputs.head?, now + limit < first.moment)
      (awaits : f.Awaits limit (now + limit) outputs) :
      Rounds limit stopAt now outputs ⟨.failed (.readTimedOut limit), ⟨now + limit, stopAt⟩, f⟩

/-- A round takes the first output, if that is in time. -/
theorem rounds_receiveRound (h : f.Awaits limit clock.now outputs) :
    Rounds limit clock.stopAt clock.now outputs (receiveRound Scope.open clock f) := by
  obtain ⟨rfl, cues, base, hgives, habsolute, hbase, rfl⟩ := h
  have htakes := Timeline.takes_take habsolute hbase (Nat.le_add_right clock.now f.readTimeout)
  have hbeside := maintains_nextMessage f (Scope.open.upTo (clock.now + f.readTimeout)) clock f
    ⟨rfl, rfl, rfl, rfl⟩
  obtain ⟨f', hnext, hgives'⟩ := (agree_nextMessage (Scope.open.upTo (clock.now + f.readTimeout))
    clock f cues hgives).exists_state
  rw [hnext] at hbeside
  have hlimit : f'.readTimeout = f.readTimeout := hbeside.readTimeout
  simp only [receiveRound, Activity.bind_apply, Activity.get, Activity.now, Activity.within_apply,
    hnext]
  generalize Timeline.take (Scope.open.upTo (clock.now + f.readTimeout)) clock cues = o
    at htakes hgives' ⊢
  generalize cues.outputs base = outputs at htakes ⊢
  cases htakes with
  | @message moment base message others rest inTime absolute base_le rest_eq =>
    have hrounds : Rounds f.readTimeout clock.stopAt clock.now
        (⟨moment, .ok message⟩ :: others) _ :=
      .message inTime ⟨hlimit, _, base, hgives', absolute, base_le, rest_eq⟩
    cases message <;> exact hrounds
  | error inTime => exact .error inTime
  | @late base outputs rest later absolute base_le rest_eq =>
    exact .late later ⟨hlimit, _, base, hgives', absolute, base_le, rest_eq⟩

/-- A call is a round and, after a sign of life, a call again. -/
theorem attempt_receive_apply (clock : Clock) (f : Framed) :
    Activity.attempt receive Scope.open clock f =
      let o := receiveRound Scope.open clock f
      match o.ending with
      | .done (some message) => ⟨.done (.ok message), o.clock, o.state⟩
      | .done none => Activity.attempt receive Scope.open o.clock o.state
      | .failed error => ⟨.done (.error error), o.clock, o.state⟩
      | .expired => ⟨.expired, o.clock, o.state⟩
      | .interrupted => ⟨.interrupted, o.clock, o.state⟩
      | .stuck => ⟨.stuck, o.clock, o.state⟩ := by
  have hreceive : receive Scope.open clock f = _ := Activity.repeatUntil_apply budget receiveRound
    (Activity.advances_of_uses uses_receiveRound) Scope.open clock f
  simp only [Activity.attempt, hreceive]
  generalize receiveRound Scope.open clock f = o
  obtain ⟨ending, after, f'⟩ := o
  rcases ending with (_ | message) | _ | _ | _ | _ <;> rfl

/-- A call waits for the first output that is more than a sign of life, and as long as each comes in
time. It leaves what it does not take, unless it has taken a failure. -/
theorem serves_receive (h : f.Awaits limit clock.now outputs) :
    ∃ taken rest result finish f',
      Activity.attempt receive Scope.open clock f = ⟨.done result, ⟨finish, clock.stopAt⟩, f'⟩ ∧
        Serves limit clock.now outputs taken rest result finish ∧
        ((∃ moment error, ⟨moment, .error error⟩ ∈ outputs ∧ result = .error error) ∨
          f'.Awaits limit finish rest) := by
  induction outputs generalizing clock f with
  | nil =>
    have hrounds := rounds_receiveRound h
    rw [attempt_receive_apply]
    generalize receiveRound Scope.open clock f = o at hrounds ⊢
    cases hrounds with
    | late later awaits => exact ⟨_, _, _, _, _, rfl, .nothing later, .inr awaits⟩
  | cons output outputs ih =>
    have hrounds := rounds_receiveRound h
    rw [attempt_receive_apply]
    generalize receiveRound Scope.open clock f = o at hrounds ⊢
    cases hrounds with
    | @message moment message others f' inTime awaits =>
      by_cases hidle : message = .keepAlive
      · subst hidle
        obtain ⟨taken, rest, result, finish, f'', hrest, hserves, hawaits⟩ :=
          @ih ⟨max clock.now moment, clock.stopAt⟩ _ awaits
        refine ⟨_, rest, result, finish, f'', hrest, .cons rfl inTime hserves, ?_⟩
        rcases hawaits with ⟨moment, error, hmem, hresult⟩ | hawaits
        · exact .inl ⟨moment, error, List.mem_cons_of_mem _ hmem, hresult⟩
        · exact .inr hawaits
      · simp only [if_neg hidle]
        have hmore : Output.isIdle (.ok message) = false := by
          rw [Output.isIdle]
          intro h
          exact hidle (Except.ok.inj h)
        exact ⟨_, outputs, _, _, f', rfl, .first outputs hmore inTime, .inr awaits⟩
    | @error moment error f' inTime =>
      exact ⟨_, [], _, _, f', rfl, .first [] rfl inTime, .inl ⟨moment, error, by simp, rfl⟩⟩
    | late later awaits => exact ⟨_, _, _, _, _, rfl, .nothing later, .inr awaits⟩

/-- Calls one after the other, each at its moment, or when the one before it has its result. -/
def receiveAll : List Nat → Activity Framed (List Call)
  | [] => pure []
  | moment :: moments => do
    Activity.waitUntil moment
    let start ← Activity.now
    let result ← Activity.attempt receive
    let finish ← Activity.now
    let calls ← receiveAll moments
    pure (⟨start, result, finish⟩ :: calls)

end Framed

/-- What calls make of the outputs, one after the other, as long as none has taken a fault or the
end. -/
inductive Served (limit : Nat) : Nat → List (Dated Output) → List Nat → List Call → Prop where
  /-- There is no call. -/
  | nil (now : Nat) (outputs : List (Dated Output)) : Served limit now outputs [] []
  /-- A call takes what it takes, and the others have the rest. -/
  | cons {now moment : Nat} {moments : List Nat} {outputs taken rest : List (Dated Output)}
      {call : Call} {calls : List Call} (start : call.start = max now moment)
      (serves : Serves limit call.start outputs taken rest call.result call.finish)
      (length : calls.length = moments.length)
      (others : call.result.isLast = false → Served limit call.finish rest moments calls) :
      Served limit now outputs (moment :: moments) (call :: calls)

/-- Each call has been made. -/
theorem Served.length {limit now : Nat} {outputs : List (Dated Output)} {moments : List Nat}
    {calls : List Call} (h : Served limit now outputs moments calls) :
    calls.length = moments.length := by
  cases h with
  | nil => rfl
  | cons _ _ length _ => exact congrArg (· + 1) length

/-- A call takes outputs and leaves the rest. -/
theorem Serves.split {limit now : Nat} {outputs taken rest : List (Dated Output)} {result : Output}
    {finish : Nat} (h : Serves limit now outputs taken rest result finish) :
    outputs = taken ++ rest := by
  cases h with
  | gives => simp
  | late => rfl

/-- The messages among some outputs that do more than keep the connection open. -/
def messages (outputs : List (Dated Output)) : List Message := outputs.filterMap (·.value.message?)

/-- What calls gave. -/
def given (calls : List Call) : List Message := calls.filterMap (·.result.message?)

/-- Signs of life say nothing. -/
theorem messages_of_idle {idle : List (Dated Output)}
    (h : ∀ other ∈ idle, other.value.isIdle = true) : messages idle = [] := by
  refine List.filterMap_eq_nil_iff.mpr fun other hmem ↦ ?_
  have hidle := h other hmem
  obtain ⟨moment, message | message⟩ := other
  · rfl
  · cases message <;> first | rfl | cases hidle

/-- A call gives the messages that it takes. -/
theorem Serves.messages_eq {limit now : Nat} {outputs taken rest : List (Dated Output)}
    {result : Output} {finish : Nat} (h : Serves limit now outputs taken rest result finish) :
    messages taken = result.message?.toList := by
  cases h with
  | @gives idle _ output idle_of_mem more inTime =>
    have hidle := messages_of_idle idle_of_mem
    unfold messages at hidle ⊢
    rw [List.filterMap_append, hidle, List.nil_append]
    cases hmessage : output.value.message? with
    | none => simp [hmessage]
    | some message => simp [hmessage]
  | late idle_of_mem inTime later => exact messages_of_idle idle_of_mem

/-- When a call gives a fault or the end there is no message that it leaves. -/
theorem Serves.messages_of_isLast {limit now : Nat} {outputs taken rest : List (Dated Output)}
    {result : Output} {finish : Nat} (h : Serves limit now outputs taken rest result finish)
    (hcloses : Decoder.Closes outputs) (hlast : result.isLast = true) : messages outputs = [] := by
  have htaken := h.messages_eq
  cases h with
  | @gives idle _ output idle_of_mem more inTime =>
    have hbehind := hcloses.behind
    obtain ⟨moment, error | message⟩ := output
    · cases hbehind with
      | last last => exact htaken
    · cases hlast
  | late idle_of_mem inTime later => cases hlast

/-- As long as no call has taken a fault or the end, calls give the messages in order, each once,
and each call follows the rule; if one has, every message was given before. -/
theorem Served.obeys {limit now : Nat} {outputs : List (Dated Output)} {moments : List Nat}
    {calls front behind : List Call} {call : Call} (h : Served limit now outputs moments calls)
    (hcloses : Decoder.Closes outputs) (hcalls : calls = front ++ call :: behind)
    (hfront : ∀ earlier ∈ front, earlier.result.isLast = false) :
    ∃ before rest, outputs = before ++ rest ∧ given front = messages before ∧
      (call.result.isLast = true → given front = messages outputs) ∧ call.Obeys limit rest := by
  induction front generalizing now outputs moments calls with
  | nil =>
    subst hcalls
    cases h with
    | cons start serves length others =>
      exact ⟨[], outputs, rfl, rfl, fun hlast ↦ (serves.messages_of_isLast hcloses hlast).symm,
        serves.obeys hcloses⟩
  | cons first front ih =>
    subst hcalls
    cases h with
    | @cons _ _ _ _ taken rest _ _ start serves length others =>
      have hsplit := serves.split
      obtain ⟨hfirst, hfront⟩ := List.forall_mem_cons.mp hfront
      obtain ⟨before, after, hrest, hgiven, hall, hobeys⟩ :=
        ih (others hfirst) (hsplit ▸ hcloses).behind rfl hfront
      have hcons (list : List (Dated Output)) (h : given front = messages list) :
          given (first :: front) = messages (taken ++ list) := by
        have htaken := serves.messages_eq
        unfold messages given at *
        rw [List.filterMap_append, htaken, ← h]
        cases hmessage : first.result.message? with
        | none => simp [hmessage]
        | some message => simp [hmessage]
      refine ⟨taken ++ before, after, ?_, hcons before hgiven, fun hlast ↦ ?_, hobeys⟩
      · rw [hsplit, hrest, List.append_assoc]
      · rw [hsplit]
        exact hcons rest (hall hlast)

namespace Framed

variable {clock : Clock} {limit now : Nat} {f : Framed} {outputs : List (Dated Output)}

/-- Outputs are waited for later, too. -/
theorem Awaits.mono {later : Nat} (h : f.Awaits limit now outputs) (hle : now ≤ later) :
    f.Awaits limit later outputs := by
  obtain ⟨hlimit, cues, base, hgives, habsolute, hbase, houtputs⟩ := h
  exact ⟨hlimit, cues, base, hgives, habsolute, Nat.le_trans hbase hle, houtputs⟩

/-- Whatever has come before, a call has a result. -/
theorem exists_attempt_receive (clock : Clock) (f : Framed) : ∃ result after f',
    Activity.attempt receive Scope.open clock f = ⟨.done result, after, f'⟩ := by
  have hsettled : Outcome.Settled Calm Scope.open clock f (receive Scope.open clock f) :=
    linkSettles.receive Scope.open clock f rfl
  obtain ⟨hended, hexpired, hinterrupted, -⟩ := hsettled
  simp only [Activity.attempt]
  generalize receive Scope.open clock f = o at hended hexpired hinterrupted
  obtain ⟨ending, after, f'⟩ := o
  cases ending with
  | done message => exact ⟨.ok message, after, f', rfl⟩
  | failed error => exact ⟨.error error, after, f', rfl⟩
  | expired => exact absurd rfl (hexpired rfl)
  | interrupted => cases hinterrupted rfl
  | stuck => exact absurd rfl hended

/-- A call after some wait, and then others. -/
theorem receiveAll_cons {moment : Nat} (moments : List Nat) {result : Output} {after : Clock}
    {f' : Framed} (h : Activity.attempt receive Scope.open
      ⟨max clock.now moment, clock.stopAt⟩ f = ⟨.done result, after, f'⟩) :
    receiveAll (moment :: moments) Scope.open clock f =
      (receiveAll moments >>= fun calls ↦
        pure (⟨max clock.now moment, result, after.now⟩ :: calls)) Scope.open after f' := by
  simp only [receiveAll, Activity.bind_apply, Activity.waitUntil, Clock.waitUntil_open,
    Activity.now, h]

/-- Whatever has come before, each call has a result. -/
theorem exists_receiveAll (moments : List Nat) (clock : Clock) (f : Framed) : ∃ calls after f',
    receiveAll moments Scope.open clock f = ⟨.done calls, after, f'⟩ ∧
      calls.length = moments.length := by
  induction moments generalizing clock f with
  | nil => exact ⟨[], clock, f, rfl, rfl⟩
  | cons moment moments ih =>
    obtain ⟨result, after, f', hfirst⟩ :=
      exists_attempt_receive ⟨max clock.now moment, clock.stopAt⟩ f
    obtain ⟨calls, later, f'', hrest, hlength⟩ := ih after f'
    refine ⟨⟨max clock.now moment, result, after.now⟩ :: calls, later, f'', ?_, by simp [hlength]⟩
    rw [receiveAll_cons moments hfirst, Activity.bind_of_done hrest]
    rfl

/-- Calls take the outputs one after the other. -/
theorem served_receiveAll (moments : List Nat) (hcloses : Decoder.Closes outputs)
    (h : f.Awaits limit clock.now outputs) : ∃ calls after f',
    receiveAll moments Scope.open clock f = ⟨.done calls, after, f'⟩ ∧
      Served limit clock.now outputs moments calls := by
  induction moments generalizing clock f outputs with
  | nil => exact ⟨[], clock, f, rfl, .nil _ _⟩
  | cons moment moments ih =>
    obtain ⟨taken, rest, result, finish, f', hfirst, hserves, hawaits⟩ :=
      @serves_receive ⟨max clock.now moment, clock.stopAt⟩ limit f outputs
        (h.mono (Nat.le_max_left ..))
    have hrun {calls : List Call} {after : Clock} {f'' : Framed}
        (hrest : receiveAll moments Scope.open ⟨finish, clock.stopAt⟩ f' =
          ⟨.done calls, after, f''⟩) :
        receiveAll (moment :: moments) Scope.open clock f =
          ⟨.done (⟨max clock.now moment, result, finish⟩ :: calls), after, f''⟩ := by
      rw [receiveAll_cons moments hfirst, Activity.bind_of_done hrest]
      rfl
    by_cases hlast : Output.isLast result = true
    · obtain ⟨calls, after, f'', hrest, hlength⟩ :=
        exists_receiveAll moments ⟨finish, clock.stopAt⟩ f'
      refine ⟨_, after, f'', hrun hrest, .cons rfl hserves hlength fun hgoesOn ↦ ?_⟩
      rw [hlast] at hgoesOn
      cases hgoesOn
    · rcases hawaits with ⟨moment, error, hmem, rfl⟩ | hawaits
      · exact absurd (hcloses.isLast_of_mem hmem rfl) hlast
      · obtain ⟨calls, after, f'', hrest, hserved⟩ :=
          @ih ⟨finish, clock.stopAt⟩ f' rest (hserves.split ▸ hcloses).behind hawaits
        exact ⟨_, after, f'', hrun hrest, .cons rfl hserves hserved.length fun _ ↦ hserved⟩

/-- From its start a framed stream awaits what the decoder will put out. -/
theorem awaits_start {stream : ByteStream} (hincoming : stream.incoming.Scheduled)
    (limit readTimeout now : Nat) :
    (start stream limit readTimeout).Awaits readTimeout now
      ((Decoder.start limit).outputs (stream.incoming.endsAt now) (stream.incoming.bytes now)) :=
  ⟨rfl, _, now, ⟨rfl, nofun⟩, Decoder.absolute_forecast hincoming _, Nat.le_refl now,
    Decoder.outputs_forecast hincoming (Decoder.spent_start limit) now⟩

/-- Calls on a stream of bytes that come at any moments, each at any moment: what the decoder puts
out comes in order of time, and the calls take it one after the other. As long as none of them has
met a fault or the end they give every message that does more than keep the connection open, in
order and once, and each call follows the rule; when a call has met a fault or the end, no message
before that is missing. -/
theorem receiveAll_scheduled {stream : ByteStream} (hincoming : stream.incoming.Scheduled)
    (limit readTimeout : Nat) (clock : Clock) (moments : List Nat) :
    let outputs := (Decoder.start limit).outputs (stream.incoming.endsAt clock.now)
      (stream.incoming.bytes clock.now)
    outputs.Pairwise (·.moment ≤ ·.moment) ∧
      ∃ calls after f, receiveAll moments Scope.open clock (start stream limit readTimeout) =
          ⟨.done calls, after, f⟩ ∧
        Served readTimeout clock.now outputs moments calls ∧
        ∀ front call behind, calls = front ++ call :: behind →
          (∀ earlier ∈ front, earlier.result.isLast = false) →
          ∃ before rest, outputs = before ++ rest ∧ given front = messages before ∧
            (call.result.isLast = true → given front = messages outputs) ∧
            call.Obeys readTimeout rest := by
  have hpairwise := Timeline.pairwise_outputs clock.now
    ((Decoder.start limit).forecast stream.incoming)
  rw [Decoder.outputs_forecast hincoming (Decoder.spent_start limit)] at hpairwise
  intro outputs
  have hcloses : Decoder.Closes outputs := Decoder.closes_outputs ..
  obtain ⟨calls, after, f, hrun, hserved⟩ :=
    served_receiveAll moments hcloses (awaits_start hincoming limit readTimeout clock.now)
  exact ⟨hpairwise, calls, after, f, hrun, hserved, fun front call behind hcalls hfront ↦
    hserved.obeys hcloses hcalls hfront⟩

/-- A sign of life and a message that breaks off within its length number: the first call is over
when its time has passed since the sign of life, and the second one has the message. -/
theorem receiveAll_scheduled_fragment :
    let incoming : Timeline Bytes := [.pauseUntil 3, .item [0, 0, 0, 0, 0, 0], .pauseUntil 20,
      .item [0, 5, 4, 0, 0, 0, 7], .pauseUntil 21]
    incoming.Scheduled ∧ ∃ calls after f,
      receiveAll [0, 4] Scope.open Clock.zero (start (.start incoming none) 16 10) =
        ⟨.done calls, after, f⟩ ∧
      calls = [⟨0, .error (.readTimedOut 10), 13⟩, ⟨13, .ok (.announce 7), 20⟩] := by
  intro incoming
  have hincoming : incoming.Scheduled :=
    .pauseUntil 3 (.item _ (.pauseUntil 20 (.item _ (.pauseUntil 21 .nil))))
  have hfirst : ((Decoder.start 16).feed [0, 0, 0, 0, 0, 0]).exhaust false =
      ⟨[.keepAlive], none, ⟨16, 0, [0, 0]⟩⟩ := by decide +kernel
  have hsecond : ((⟨16, 0, [0, 0]⟩ : Decoder).feed [0, 5, 4, 0, 0, 0, 7]).exhaust false =
      ⟨[.announce 7], none, ⟨16, 0, []⟩⟩ := by decide +kernel
  have hend : (⟨16, 0, []⟩ : Decoder).exhaust true = ⟨[], none, ⟨16, 0, []⟩⟩ := by decide +kernel
  have hspent : (⟨16, 0, [0, 0]⟩ : Decoder).Spent := by
    have := Decoder.spent_exhaust (d := (Decoder.start 16).feed [0, 0, 0, 0, 0, 0]) (by rw [hfirst])
    rw [hfirst] at this
    exact this
  have houtputs : (Decoder.start 16).outputs (some 21) (incoming.bytes 0) =
      [⟨3, .ok .keepAlive⟩, ⟨20, .ok (.announce 7)⟩, ⟨21, .error .connectionClosed⟩] := by
    show (Decoder.start 16).outputs (some 21) (([0, 0, 0, 0, 0, 0] : Bytes).map (⟨3, ·⟩) ++
      (([0, 5, 4, 0, 0, 0, 7] : Bytes).map (⟨20, ·⟩) ++ [])) = _
    rw [Decoder.outputs_chunk (Decoder.spent_start 16), hfirst, if_pos rfl,
      Decoder.outputs_chunk hspent, hsecond, if_pos rfl, Decoder.outputs]
    simp only [hend]
    rfl
  obtain ⟨-, calls, after, f, hrun, hserved, -⟩ :=
    @receiveAll_scheduled (.start incoming none) hincoming 16 10 Clock.zero [0, 4]
  refine ⟨hincoming, calls, after, f, hrun, ?_⟩
  have hserved : Served 10 0 ((Decoder.start 16).outputs (some 21) (incoming.bytes 0)) [0, 4]
    calls := hserved
  rw [houtputs] at hserved
  have hsilence : Serves 10 0 [⟨3, .ok .keepAlive⟩, ⟨20, .ok (.announce 7)⟩,
      ⟨21, .error .connectionClosed⟩] _ _ (.error (.readTimedOut 10)) 13 :=
    .cons rfl (by decide) (.nothing (by simp))
  have hmessage : Serves 10 13 [⟨20, .ok (.announce 7)⟩, ⟨21, .error .connectionClosed⟩] _ _
      (.ok (.announce 7)) 20 := .first _ rfl (by decide)
  cases hserved with
  | @cons _ _ _ _ taken rest first _ hstart hserves _ hothers =>
    obtain ⟨start, result, finish⟩ := first
    obtain rfl : start = 0 := hstart
    have hserves : Serves 10 0 _ taken rest result finish := hserves
    obtain ⟨-, rfl, rfl, rfl⟩ := hserves.unique hsilence
    cases hothers rfl with
    | @cons _ _ _ _ taken rest second _ hstart hserves _ hnone =>
      obtain ⟨start, result, finish⟩ := second
      obtain rfl : start = 13 := hstart
      have hserves : Serves 10 13 _ taken rest result finish := hserves
      obtain ⟨-, -, rfl, rfl⟩ := hserves.unique hmessage
      rw [List.eq_nil_of_length_eq_zero (hnone rfl).length]

end Framed

end PeerWire
