import PeerWire.Bytes
import PeerWire.Time.Timeline

/-!
# Byte streams

A byte stream delivers bytes in chunks over time until it ends, and takes bytes as long as it has
room. Empty chunks are no different from none. What is read but not wanted can be put back. Reading
may have to wait, but writing takes no time: it is done or fails at once. A stream that makes its
writer wait, since the other side does not read, is not described here, nor is a write that is
broken off meanwhile; of a link that is slow to send only what holds of any link is known. Main
statements: what is read is taken away from what is still to come, and writing leaves that alone.
-/

namespace PeerWire

/-- A stream of bytes in both directions. -/
structure ByteStream where
  /-- The chunks that arrive. -/
  incoming : Timeline Bytes
  /-- The bytes that were taken, the first one first. -/
  written : Bytes
  /-- How many more bytes it takes, if there is a limit. -/
  room : Option Nat

namespace ByteStream

/-- A stream on which nothing was written. -/
def start (incoming : Timeline Bytes) (room : Option Nat) : ByteStream := ⟨incoming, [], room⟩

/-- What a chunk weighs. -/
def chunkWeight (chunk : Bytes) : Nat := chunk.length + 1

/-- What is still to come. -/
def budget (s : ByteStream) : Nat := Timeline.weight chunkWeight s.incoming

/-- The number of bytes still to come. -/
def unread (s : ByteStream) : Nat := Timeline.weight List.length s.incoming

/-- Waits for the next chunk, which may be empty; there is none at the end. -/
def nextChunk : Activity ByteStream (Option Bytes) := fun scope clock s ↦
  let r := Timeline.next scope clock s.incoming
  ⟨r.ending, r.clock, { s with incoming := r.state }⟩

/-- Waits for a chunk, and tells its first byte and the others, or that there is none; an empty one
tells nothing. -/
def chunkRound : Activity ByteStream (Option (Option (UInt8 × Bytes))) := do
  match ← nextChunk with
  | none => pure (some none)
  | some [] => pure none
  | some (first :: others) => pure (some (some (first, others)))

/-- What it costs to read a byte and those that came with it. -/
def chunkCost : Option (UInt8 × Bytes) → Nat
  | some (_, others) => others.length + 2
  | none => 0

/-- A chunk takes its weight away from what is still to come. -/
theorem costs_nextChunk : Activity.Costs budget (Timeline.taken chunkWeight) nextChunk :=
  fun scope clock s ↦ Timeline.costs_next scope clock s.incoming

/-- A round takes the chunk away from what is still to come. -/
theorem costs_chunkRound : Activity.Costs budget (Activity.roundCost chunkCost) chunkRound := by
  refine Activity.costs_bind costs_nextChunk fun chunk ↦ ?_
  match chunk with
  | none => exact Activity.costs_pure rfl
  | some [] => exact Activity.costs_pure rfl
  | some (first :: others) =>
    exact Activity.costs_pure (by
      simp [Activity.roundCost, chunkCost, Timeline.taken, chunkWeight])

/-- Waits for the next bytes, the first one and those that came with it; there are none at the
end. -/
def read : Activity ByteStream (Option (UInt8 × Bytes)) :=
  Activity.repeatUntil budget chunkRound
    (costs_chunkRound.mono fun result ↦ by cases result <;> simp [Activity.roundCost])

/-- The bytes that are read are taken away from what is still to come. -/
theorem costs_read : Activity.Costs budget chunkCost read :=
  Activity.costs_repeatUntil costs_chunkRound

/-- Puts bytes back in front of what is still to come. -/
def putBack (bytes : Bytes) (s : ByteStream) : ByteStream :=
  { s with incoming := .item bytes :: s.incoming }

/-- Waits for the next byte; there is none at the end. -/
def readByte : Activity ByteStream (Option UInt8) := do
  match ← read with
  | none => pure none
  | some (first, others) =>
    Activity.modify (putBack others)
    pure (some first)

/-- Waits for so many bytes; there are too few if the end comes before. -/
def readExactly : (n : Nat) → Activity ByteStream (Option { bytes : Bytes // bytes.length = n })
  | 0 => pure (some ⟨[], rfl⟩)
  | n + 1 => do
    match ← readByte with
    | none => pure none
    | some first =>
      let others ← readExactly n
      pure (others.map fun others ↦
        ⟨first :: others.val, by rw [List.length_cons, others.property]⟩)

/-- Writes bytes, as many as there is room for. -/
def write (bytes : Bytes) : Activity ByteStream Unit := do
  let s ← Activity.get
  match s.room with
  | none => Activity.modify fun s ↦ { s with written := s.written ++ bytes }
  | some room =>
    Activity.modify fun s ↦
      { s with written := s.written ++ bytes.take room, room := some (room - bytes.length) }
    if bytes.length ≤ room then pure () else Activity.fail (.scripted .brokenPipe)

/-- Writing adds nothing to what is still to come. -/
theorem keeps_write (bytes : Bytes) : Activity.Keeps budget (write bytes) := by
  refine Activity.costs_bind Activity.keeps_get fun s ↦ ?_
  split
  · exact Activity.keeps_modify fun _ ↦ Nat.le_refl _
  · refine Activity.costs_bind (Activity.keeps_modify fun _ ↦ Nat.le_refl _) fun _ ↦ ?_
    split
    · exact Activity.costs_pure rfl
    · exact Activity.costs_fail _

end ByteStream

end PeerWire
