import PeerWire.Text.Decimal

/-!
# Lengths of time

A length of time counts nanoseconds and is shown in the largest unit that it fills at least once.
Main statement: whole seconds show as their number followed by the unit.
-/

namespace PeerWire

/-- A length of time. -/
structure Duration where
  /-- The length in nanoseconds. -/
  nanos : Nat
deriving DecidableEq, Repr

namespace Duration

/-- A length of whole milliseconds. -/
def ofMillis (n : Nat) : Duration := ⟨n * 1000000⟩

/-- The length in seconds, milliseconds, microseconds or nanoseconds, whichever is the largest unit
that the length reaches, with as many places as it takes. -/
def text (d : Duration) : String :=
  let n := d.nanos
  if 1000000000 ≤ n then
    String.ofList (Text.Decimal.withFraction (n / 1000000000) (n % 1000000000) 9 ++ ['s'])
  else if 1000000 ≤ n then
    String.ofList (Text.Decimal.withFraction (n / 1000000) (n % 1000000) 6 ++ ['m', 's'])
  else if 1000 ≤ n then
    String.ofList (Text.Decimal.withFraction (n / 1000) (n % 1000) 3 ++ ['µ', 's'])
  else String.ofList (Nat.toDigits 10 n ++ ['n', 's'])

/-- Whole seconds have no fraction. -/
theorem text_ofMillis_seconds {n : Nat} (h : 0 < n) :
    (ofMillis (1000 * n)).text = String.ofList (Nat.toDigits 10 n ++ ['s']) := by
  have hn : 1000 * n * 1000000 = n * 1000000000 := by omega
  have hge : 1000000000 ≤ n * 1000000000 := by omega
  simp [text, ofMillis, hn, hge, Text.Decimal.withFraction]

end Duration

end PeerWire
