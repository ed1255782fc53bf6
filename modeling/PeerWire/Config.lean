import PeerWire.PeerId
import PeerWire.Tiling

/-!
# Settings

The settings of a download: who this side is, how large blocks are and how many are asked for at a
time, how long frames may be, and how long to wait. All waiting is counted in milliseconds. The
numbers are not bounded here; where one of them has to fit into a word, a clock or the memory, this
is noted beside its use. Main statement: the limit on frames leaves room for a whole block and for a
complete bitfield.
-/

namespace PeerWire

/-- How candidates are dialed. -/
inductive Strategy where
  /-- One after the other, in the given order. -/
  | sequential
  /-- All at once. -/
  | parallel
deriving DecidableEq, Repr

/-- What a strategy is called. -/
def Strategy.name : Strategy → String
  | .sequential => "Sequential"
  | .parallel => "Parallel"

/-- The settings of a download. -/
structure Config where
  /-- Who this side is. -/
  clientId : PeerId
  /-- The size of a block in bytes; a negative one counts modulo `2 ^ 64`. -/
  blockSize : Int := 16384
  /-- How many requests may be outstanding. -/
  queueDepth : Nat := 150
  /-- How long a frame may be in any case. -/
  maxMessageLength : Nat := 262144
  /-- How long dialing may take. -/
  connectTimeout : Nat := 5000
  /-- How long the exchange of handshakes may take. -/
  handshakeTimeout : Nat := 10000
  /-- How long the peer may take to give leave to request. -/
  unchokeTimeout : Nat := 30000
  /-- How long each message may take. -/
  readTimeout : Nat := 60000
  /-- How long saying goodbye may take. -/
  shutdownTimeout : Nat := 1000
  /-- How candidates are dialed. -/
  strategy : Strategy := .sequential
deriving DecidableEq

namespace Config

/-- The number of bytes in a block. -/
def blockLength (config : Config) : Nat := (config.blockSize % 18446744073709551616).toNat

/-- The length of the frame that delivers a whole block. Lengths are counted in words of 64 bits, so
a block must have less than `2 ^ 64 - 9` bytes; no frame delivers a longer one. -/
def pieceFrame (config : Config) : Nat := 1 + 8 + config.blockLength

/-- The length of the frame of a bitfield for so many pieces. -/
def bitfieldFrame (pieceCount : Nat) : Nat := 1 + Tiling.count pieceCount 8

/-- How long a frame may be, for a torrent of so many pieces. -/
def frameLimit (config : Config) (pieceCount : Nat) : Nat :=
  max (max config.maxMessageLength config.pieceFrame) (bitfieldFrame pieceCount)

/-- A frame that delivers a whole block is within the limit. -/
theorem pieceFrame_le_frameLimit (config : Config) (pieceCount : Nat) :
    config.pieceFrame ≤ config.frameLimit pieceCount := by
  rw [frameLimit]
  omega

/-- The frame of a complete bitfield is within the limit. -/
theorem bitfieldFrame_le_frameLimit (config : Config) (pieceCount : Nat) :
    bitfieldFrame pieceCount ≤ config.frameLimit pieceCount := by
  rw [frameLimit]
  omega

end Config

end PeerWire
