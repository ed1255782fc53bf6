import PeerWire.Link
import PeerWire.Link.ByteStream
import PeerWire.Wire.Decoder

/-!
# Links over byte streams

A byte stream carries messages as frames. Bytes are read only when those that have arrived make up
no message. At the end of the stream what is left must not break off within a frame. After a fault
the stream once looks as if it had ended. Each message, also one that only keeps the connection
open, has to come within a limit after the one before. Main statement: every step towards a message
takes away from the work that is left, so that a byte stream with a decoder is a link.
-/

namespace PeerWire

/-- What a framed stream does next. -/
inductive Framed.Phase where
  /-- It looks for a message among the bytes that have arrived. -/
  | decoding
  /-- It waits for more bytes. -/
  | reading
  /-- It has met a fault, and looks as if it had ended. -/
  | faulted
deriving DecidableEq, Repr

/-- A byte stream that carries messages. -/
structure Framed where
  /-- The stream. -/
  stream : ByteStream
  /-- The bytes that have arrived. -/
  decoder : Decoder
  /-- What it does next. -/
  phase : Framed.Phase
  /-- Whether the end of the stream was found. -/
  ended : Bool
  /-- How long a message may take to come, in milliseconds. -/
  readTimeout : Nat
  /-- The messages that were sent, the first one first. -/
  sent : List Message

namespace Framed

/-- A stream that carries messages from here on. -/
def start (stream : ByteStream) (limit readTimeout : Nat) : Framed where
  stream := stream
  decoder := Decoder.start limit
  phase := .reading
  ended := false
  readTimeout := readTimeout
  sent := []

/-- A bound on the work that is left. -/
def budget (f : Framed) : Nat :=
  4 * (f.stream.budget + f.decoder.buffer.length) + (if f.ended then 0 else 2)
    + (if f.phase = .decoding then 1 else 0)

/-- Looks for a message among the bytes that have arrived; without one more bytes are needed. -/
def decode (f : Framed) : Except Error (Option Message) × Framed :=
  match if f.ended then f.decoder.nextAtEnd else f.decoder.next with
  | (.ok (some message), decoder) => (.ok (some message), { f with decoder := decoder })
  | (.ok none, decoder) =>
    (if f.ended then .error .connectionClosed else .ok none,
      { f with decoder := decoder, phase := .reading })
  | (.error fault, decoder) =>
    (.error (.malformedMessage fault), { f with decoder := decoder, phase := .faulted })

/-- Takes in what was read: bytes, the end, or a fault. -/
def takeIn (result : Except Error (Option (UInt8 × Bytes))) (f : Framed) :
    Except Error Unit × Framed :=
  match result with
  | .ok (some (first, others)) =>
    let decoder := f.decoder.feed (first :: others)
    (.ok (), { f with decoder := decoder, ended := false, phase := .decoding })
  | .ok none =>
    if f.ended then (.error .connectionClosed, f)
    else (.ok (), { f with ended := true, phase := .decoding })
  | .error error => (.error error, { f with phase := .faulted })

/-- Reads what arrives next on the stream. -/
def readStream : Activity Framed (Option (UInt8 × Bytes)) :=
  Activity.onPart stream (fun f stream ↦ { f with stream := stream }) ByteStream.read

/-- Looks as if the stream had ended, once. -/
def closeOnce : Activity Framed (Option Message) := do
  Activity.modify fun f ↦ { f with phase := .reading }
  Activity.fail .connectionClosed

/-- Looks for a message among the bytes that have arrived. -/
def decodeNext : Activity Framed (Option Message) := do
  let result ← Activity.change decode
  Activity.ofExcept result

/-- Reads what arrives next, after which there may be a message. -/
def readNext : Activity Framed (Option Message) := do
  let result ← Activity.attempt readStream
  let outcome ← Activity.change (takeIn result)
  Activity.ofExcept outcome
  pure none

/-- Takes one step towards the next message. -/
def round : Activity Framed (Option Message) := fun scope clock f ↦
  match f.phase with
  | .faulted => closeOnce scope clock f
  | .decoding => decodeNext scope clock f
  | .reading => readNext scope clock f

/-- Looking for a message takes work away, whether one is found or not. -/
theorem budget_decode {f : Framed} (hphase : f.phase = .decoding) :
    f.decode.2.budget < f.budget := by
  have hnext := Decoder.length_next_le f.decoder
  have hend := Decoder.length_nextAtEnd_le f.decoder
  have hbuffer : (if f.ended then f.decoder.nextAtEnd else f.decoder.next).2.buffer.length
      ≤ f.decoder.buffer.length := by
    split
    · exact hend
    · exact hnext
  rw [decode]
  split
  · next message decoder hresult =>
    have : decoder.buffer.length + 4 ≤ f.decoder.buffer.length := by
      split at hresult
      · exact Decoder.length_of_nextAtEnd hresult
      · exact Decoder.length_of_next hresult
    simp only [budget, hphase]
    omega
  · next decoder hresult =>
    rw [hresult] at hbuffer
    simp only [budget, hphase] at *
    simp
    omega
  · next fault decoder hresult =>
    rw [hresult] at hbuffer
    simp only [budget, hphase] at *
    simp
    omega

/-- What it costs that something is read. -/
def readCost : Except Error (Option (UInt8 × Bytes)) → Nat
  | .ok chunk => 4 * ByteStream.chunkCost chunk
  | .error _ => 0

/-- Taking in what was read takes work away, unless there is nothing to go on with. -/
theorem budget_takeIn {f : Framed} (hphase : f.phase = .reading)
    (result : Except Error (Option (UInt8 × Bytes))) :
    (takeIn result f).2.budget + (takeIn result f).1.isOk.toNat ≤ f.budget + readCost result := by
  rw [takeIn.eq_def]
  split
  · next first others =>
    simp only [budget, hphase, readCost, ByteStream.chunkCost, Decoder.buffer_feed,
      List.length_append, List.length_cons]
    split <;> simp [Except.isOk, Except.toBool] <;> omega
  · split
    · next hended =>
      simp [budget, hphase, hended, readCost, Except.isOk, Except.toBool]
    · next hended =>
      simp [budget, hphase, hended, readCost, Except.isOk, Except.toBool]
  · simp [budget, hphase, readCost, Except.isOk, Except.toBool]

/-- Reading takes work away. -/
theorem budget_readNext {scope : Scope} {clock : Clock} {f : Framed} (hphase : f.phase = .reading) :
    (readNext scope clock f).state.budget + (readNext scope clock f).ending.weigh (fun _ ↦ 1)
      ≤ f.budget := by
  have hread := ByteStream.costs_read scope clock f.stream
  have hbudget (stream : ByteStream) (n : Nat) (h : stream.budget + n ≤ f.stream.budget) :
      ({ f with stream := stream } : Framed).budget + 4 * n ≤ f.budget := by
    simp only [budget]
    omega
  have htake (stream : ByteStream) (result : Except Error (Option (UInt8 × Bytes))) :=
    budget_takeIn (f := { f with stream := stream }) hphase result
  simp only [readNext, Activity.bind_apply, Activity.attempt, readStream, Activity.onPart]
  cases he : (ByteStream.read scope clock f.stream).ending with
  | done chunk =>
    rw [he] at hread
    have htake := htake (ByteStream.read scope clock f.stream).state (.ok chunk)
    have hbudget := hbudget _ _ hread
    simp only [Activity.change]
    generalize takeIn (.ok chunk) _ = taken at *
    obtain ⟨outcome, state⟩ := taken
    cases outcome <;>
      simp [Activity.ofExcept, Activity.finish, Activity.fail, Ending.weigh, readCost, Except.isOk,
        Except.toBool] at * <;> omega
  | failed error =>
    rw [he] at hread
    have htake := htake (ByteStream.read scope clock f.stream).state (.error error)
    have hbudget := hbudget _ _ hread
    simp only [Activity.change]
    generalize takeIn (.error error) _ = taken at *
    obtain ⟨outcome, state⟩ := taken
    cases outcome <;>
      simp [Activity.ofExcept, Activity.finish, Activity.fail, Ending.weigh, readCost, Except.isOk,
        Except.toBool] at * <;> omega
  | _ =>
    rw [he] at hread
    exact hbudget _ _ hread

/-- Each round takes work away. -/
theorem uses_round : Activity.Uses budget round := by
  intro scope clock f
  rw [round]
  split
  · next hphase =>
    simp only [closeOnce, Activity.bind_apply, Activity.modify, Activity.fail, budget, hphase,
      Ending.weigh]
    exact Nat.le_refl _
  · next hphase =>
    have := budget_decode hphase
    simp only [decodeNext, Activity.bind_apply, Activity.change]
    cases h : f.decode.1 with
    | ok value =>
      simp [Activity.ofExcept, Activity.finish, Ending.weigh]
      omega
    | error error =>
      simp [Activity.ofExcept, Activity.fail, Ending.weigh]
      omega
  · next hphase => exact budget_readNext hphase

/-- Waits for the next message of any kind, as long as it takes. -/
def nextMessage : Activity Framed Message :=
  Activity.repeatUntil budget round (Activity.advances_of_uses uses_round)

/-- Waits for the next message of any kind within the limit. One that only keeps the connection open
is passed over. -/
def receiveRound : Activity Framed (Option Message) := do
  let f ← Activity.get
  let start ← Activity.now
  let message ← Activity.within (start + f.readTimeout) nextMessage
    (Activity.fail (.connection (.timedOut .read (.ofMillis f.readTimeout))))
  match message with
  | .keepAlive => pure none
  | message => pure (some message)

/-- A message takes work away. -/
theorem uses_nextMessage : Activity.Uses budget nextMessage := Activity.uses_repeatUntil uses_round

/-- A message of any kind takes work away. -/
theorem uses_receiveRound : Activity.Uses budget receiveRound := by
  refine Activity.costs_bind Activity.keeps_get fun f ↦ ?_
  refine Activity.costs_bind Activity.keeps_now fun start ↦ ?_
  refine Activity.costs_bind
    (Activity.costs_within uses_nextMessage (Activity.costs_fail _)) fun message ↦ ?_
  split <;> exact Activity.costs_pure rfl

/-- Waits for the next message that is more than a sign of life. The limit starts again with every
sign of life. -/
def receive : Activity Framed Message :=
  Activity.repeatUntil budget receiveRound (Activity.advances_of_uses uses_receiveRound)

/-- Sends a message as a frame. -/
def send (message : Message) : Activity Framed Unit := do
  Activity.onPart stream (fun f stream ↦ { f with stream := stream })
    (ByteStream.write message.encode)
  Activity.modify fun f ↦ { f with sent := f.sent ++ [message] }

/-- Sending adds no work. -/
theorem keeps_send (message : Message) : Activity.Keeps budget (send message) := by
  refine Activity.costs_bind (Activity.costs_onPart (ByteStream.keeps_write _) ?_) fun _ ↦
    Activity.keeps_modify fun _ ↦ Nat.le_refl _
  intro f stream n h
  simp only [budget]
  omega

instance : Link Framed where
  receive := receive
  send := send
  sent := Framed.sent
  budget := budget
  uses_receive := Activity.uses_repeatUntil uses_receiveRound
  keeps_send := keeps_send

end Framed

end PeerWire
