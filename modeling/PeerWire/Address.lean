/-!
# Peer addresses

A peer is reached at a host and a socket number. A host is four decimal octets, or eight
hexadecimal groups in brackets with an optional zone. Groups may be left out where they are zero,
and the last two may be written as octets. Main statement: the text of an address with octets
is its five numbers in order.
-/

namespace PeerWire

/-- Where a host is found. -/
inductive Host where
  /-- Four octets. -/
  | octets (a b c d : UInt8)
  /-- Eight groups of sixteen bits and a zone. -/
  | groups (groups : List UInt16) (zone : UInt32)
deriving DecidableEq, Repr

/-- Where a peer is reached. -/
structure Address where
  /-- The host. -/
  host : Host
  /-- The number of the socket on the host. -/
  socket : UInt16
deriving DecidableEq, Repr

namespace Address

/-- Reads a value from the front of a text, or nothing. -/
abbrev Reader (α : Type) := List Char → Option (α × List Char)

/-- The value of a digit in a number system of at most sixteen digits. -/
def digit? (radix : Nat) (c : Char) : Option Nat :=
  let value :=
    if '0' ≤ c ∧ c ≤ '9' then some (c.toNat - 48)
    else if 'a' ≤ c ∧ c ≤ 'f' then some (c.toNat - 87)
    else if 'A' ≤ c ∧ c ≤ 'F' then some (c.toNat - 55)
    else none
  value.filter (· < radix)

/-- The leading digits of a text and what follows them. -/
def digits (radix : Nat) (text : List Char) : List Nat × List Char :=
  match text with
  | [] => ([], [])
  | c :: rest =>
    match digit? radix c with
    | none => ([], c :: rest)
    | some d => ((d :: (digits radix rest).1), (digits radix rest).2)

/-- Reads a number below a bound, with at most so many digits if there is a limit, and with leading
zeros only where they are allowed. -/
def number (radix bound : Nat) (limit : Option Nat) (zeros : Bool) : Reader Nat := fun text ↦
  let (ds, rest) := digits radix text
  let value := ds.foldl (fun n d ↦ n * radix + d) 0
  if ds = [] then none
  else if limit.any (· < ds.length) then none
  else if ¬ zeros ∧ ds.head? = some 0 ∧ 1 < ds.length then none
  else if bound ≤ value then none
  else some (value, rest)

/-- Reads one given character. -/
def only (c : Char) : Reader Unit
  | [] => none
  | d :: rest => if d = c then some ((), rest) else none

/-- Reads a separator, unless this is the first item of a row, and then the item. -/
def item {α : Type} (separator : Char) (index : Nat) (read : Reader α) : Reader α := fun text ↦
  if index = 0 then read text
  else do
    let (_, text) ← only separator text
    read text

/-- Reads an octet. -/
def octet : Reader UInt8 := fun text ↦ do
  let (n, rest) ← number 10 256 (some 3) false text
  return (UInt8.ofNat n, rest)

/-- Reads four octets with dots between them. -/
def fourOctets : Reader (UInt8 × UInt8 × UInt8 × UInt8) := fun text ↦ do
  let (a, text) ← octet text
  let (b, text) ← item '.' 1 octet text
  let (c, text) ← item '.' 1 octet text
  let (d, text) ← item '.' 1 octet text
  return ((a, b, c, d), text)

/-- Reads a group. -/
def group : Reader UInt16 := fun text ↦ do
  let (n, rest) ← number 16 65536 (some 4) true text
  return (UInt16.ofNat n, rest)

/-- Two octets as a group. -/
def pair (high low : UInt8) : UInt16 := UInt16.ofNat (high.toNat * 256 + low.toNat)

/-- Reads up to `room` groups as far as they go, of which `index` stand before; octets may take the
place of two groups and end the row, which the flag tells. -/
def groupRow (index : Nat) : (room : Nat) → List Char → List UInt16 × Bool × List Char
  | 0, text => ([], false, text)
  | room + 1, text =>
    let octets := if 0 < room then item ':' index fourOctets text else none
    match octets with
    | some ((a, b, c, d), rest) => ([pair a b, pair c d], true, rest)
    | none =>
      match item ':' index group text with
      | none => ([], false, text)
      | some (g, rest) =>
        let (gs, octets, rest) := groupRow (index + 1) room rest
        (g :: gs, octets, rest)

/-- Reads eight groups, where one run of zeros may be left out. -/
def eightGroups : Reader (List UInt16) := fun text ↦
  let (front, octets, rest) := groupRow 0 8 text
  if front.length = 8 then some (front, rest)
  else if octets then none
  else do
    let (_, rest) ← only ':' rest
    let (_, rest) ← only ':' rest
    let (back, _, rest) := groupRow 0 (7 - front.length) rest
    return (front ++ List.replicate (8 - front.length - back.length) 0 ++ back, rest)

/-- Reads the socket number after its colon. -/
def socketNumber : Reader UInt16 := fun text ↦ do
  let (_, text) ← only ':' text
  let (n, rest) ← number 10 65536 none true text
  return (UInt16.ofNat n, rest)

/-- Reads a zone after its mark, if there is one. -/
def zone (text : List Char) : UInt32 × List Char :=
  let marked := do
    let (_, text) ← only '%' text
    number 10 4294967296 none true text
  match marked with
  | some (n, rest) => (UInt32.ofNat n, rest)
  | none => (0, text)

/-- Reads an address with octets. -/
def withOctets : Reader Address := fun text ↦ do
  let ((a, b, c, d), text) ← fourOctets text
  let (socket, text) ← socketNumber text
  return (⟨.octets a b c d, socket⟩, text)

/-- Reads an address with groups. -/
def withGroups : Reader Address := fun text ↦ do
  let (_, text) ← only '[' text
  let (groups, text) ← eightGroups text
  let (zone, text) := zone text
  let (_, text) ← only ']' text
  let (socket, text) ← socketNumber text
  return (⟨.groups groups zone, socket⟩, text)

/-- The address that a whole text spells. -/
def read? (text : String) : Option Address :=
  match (withOctets text.toList).or (withGroups text.toList) with
  | some (address, []) => some address
  | _ => none

/-- A row of groups with colons between them. -/
def rowText (groups : List UInt16) : String :=
  ":".intercalate (groups.map fun g ↦ String.ofList (Nat.toDigits 16 g.toNat))

/-- Where the longest run of zero groups starts and how long it is; of two equally long runs the
first. The position counts groups already passed, the run those that end here. -/
def longestRun (position run : Nat) (best : Nat × Nat) : List UInt16 → Nat × Nat
  | [] => best
  | g :: rest =>
    if g = 0 then
      let run := run + 1
      longestRun (position + 1) run
        (if best.2 < run then (position + 1 - run, run) else best) rest
    else longestRun (position + 1) 0 best rest

/-- Octets with dots between them. -/
def octetText (a b c d : Nat) : String :=
  ".".intercalate ([a, b, c, d].map toString)

/-- Groups, with octets for an embedded address and without the longest run of zeros. -/
def groupText (groups : List UInt16) : String :=
  match groups with
  | [0, 0, 0, 0, 0, 0xffff, x, y] =>
    "::ffff:" ++ octetText (x.toNat / 256) (x.toNat % 256) (y.toNat / 256) (y.toNat % 256)
  | groups =>
    let (start, run) := longestRun 0 0 (0, 0) groups
    if 1 < run then
      rowText (groups.take start) ++ "::" ++ rowText (groups.drop (start + run))
    else rowText groups

/-- The text of a host. -/
def hostText : Host → String
  | .octets a b c d => octetText a.toNat b.toNat c.toNat d.toNat
  | .groups groups zone =>
    "[" ++ groupText groups ++ (if zone = 0 then "" else "%" ++ toString zone.toNat) ++ "]"

/-- The text of an address. -/
def text (address : Address) : String :=
  hostText address.host ++ ":" ++ toString address.socket.toNat

/-- An address with octets is written as its five numbers. -/
theorem text_octets (a b c d : UInt8) (socket : UInt16) :
    text ⟨.octets a b c d, socket⟩ =
      ".".intercalate [toString a.toNat, toString b.toNat, toString c.toNat, toString d.toNat]
        ++ ":" ++ toString socket.toNat := rfl

end Address

end PeerWire
