/-!
# Decimal numbers in text

A count is read from left to right as an optional plus sign and at least one digit, and has to
fit into 64 bits. The first offending character decides the fault. A fraction is written without
trailing zeros. Main statement: what is read fits into 64 bits.
-/

namespace PeerWire.Text.Decimal

/-- How many numbers fit into 64 bits. -/
def bound : Nat := 18446744073709551616

/-- What can be wrong with the text of a count. -/
inductive Fault where
  /-- There is no text. -/
  | empty
  /-- A character is not a digit. -/
  | notDigit
  /-- The number needs more than 64 bits. -/
  | tooLarge
deriving DecidableEq, Repr

/-- The wording of a fault. -/
def Fault.message : Fault → String
  | .empty => "cannot parse integer from empty string"
  | .notDigit => "invalid digit found in string"
  | .tooLarge => "number too large to fit in target type"

/-- The value of an ASCII digit. -/
def digit? (c : Char) : Option Nat :=
  if c.isDigit then some (c.toNat - 48) else none

/-- Reads digits to the right of a number read so far. -/
def readOn (soFar : Nat) : List Char → Except Fault Nat
  | [] => .ok soFar
  | c :: rest =>
    match digit? c with
    | none => .error .notDigit
    | some d => if 10 * soFar + d < bound then readOn (10 * soFar + d) rest else .error .tooLarge

/-- The count that a text spells. -/
def read (text : String) : Except Fault Nat :=
  match text.toList with
  | [] => .error .empty
  | ['+'] => .error .notDigit
  | '+' :: digits => readOn 0 digits
  | digits => readOn 0 digits

/-- Digits that are read successfully spell a number below the bound. -/
theorem readOn_lt {soFar n : Nat} {text : List Char} (hsoFar : soFar < bound)
    (h : readOn soFar text = .ok n) : n < bound := by
  induction text generalizing soFar with
  | nil =>
    cases h
    exact hsoFar
  | cons c rest ih =>
    rw [readOn] at h
    split at h
    · cases h
    · split at h
      · next hlt => exact ih hlt h
      · cases h

/-- A count that is read successfully fits into 64 bits. -/
theorem read_lt {text : String} {n : Nat} (h : read text = .ok n) : n < bound := by
  have hzero : 0 < bound := by decide
  rw [read] at h
  split at h
  · cases h
  · cases h
  · exact readOn_lt hzero h
  · exact readOn_lt hzero h

/-- The digits of a number, filled up with zeros on the left to a width. -/
def padded (width n : Nat) : List Char :=
  let digits := Nat.toDigits 10 n
  List.replicate (width - digits.length) '0' ++ digits

/-- A whole number and a fraction of so many places, without trailing zeros. -/
def withFraction (whole fraction places : Nat) : List Char :=
  let digits := ((padded places fraction).reverse.dropWhile (· == '0')).reverse
  Nat.toDigits 10 whole ++ if fraction = 0 then [] else '.' :: digits

end PeerWire.Text.Decimal
