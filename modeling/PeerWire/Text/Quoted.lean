import PeerWire.Text.Extender
import PeerWire.Text.Graphic

/-!
# Quoted text

Text is shown between quotation marks. The mark itself, the backslash and the usual control
characters have short escapes; every other character that has no visible form of its own, or that
would attach to the one before it, is shown by its number. Main statement: letters and digits
stand for themselves.
-/

namespace PeerWire.Text.Quoted

/-- The number of a character between braces, in lower-case hexadecimal. -/
def byNumber (c : Char) : List Char :=
  ['\\', 'u', '\x7b'] ++ Nat.toDigits 16 c.toNat ++ ['\x7d']

/-- A character as it is shown between marks of the given kind. -/
def escape (mark c : Char) : List Char :=
  if c = '\x00' then ['\\', '0']
  else if c = '\t' then ['\\', 't']
  else if c = '\n' then ['\\', 'n']
  else if c = '\r' then ['\\', 'r']
  else if c = '\\' ∨ c = mark then ['\\', c]
  else if isExtender c then byNumber c
  else if isGraphic c then [c]
  else byNumber c

/-- Characters between double quotation marks. -/
def string (text : List Char) : String :=
  String.ofList (['"'] ++ text.flatMap (escape '"') ++ ['"'])

/-- A character between single quotation marks. -/
def char (c : Char) : String := String.ofList (['\''] ++ escape '\'' c ++ ['\''])

/-- A printable ASCII character other than the mark and the backslash stands for itself. -/
theorem escape_of_ascii {mark c : Char} (low : 0x20 ≤ c.toNat) (high : c.toNat ≤ 0x7e)
    (hslash : c ≠ '\\') (hmark : c ≠ mark) : escape mark c = [c] := by
  have h0 : c ≠ '\x00' := by rintro rfl; simp at low
  have ht : c ≠ '\t' := by rintro rfl; simp at low
  have hn : c ≠ '\n' := by rintro rfl; simp at low
  have hr : c ≠ '\r' := by rintro rfl; simp at low
  simp [escape, h0, ht, hn, hr, hslash, hmark, isExtender_of_ascii (c := c) (by omega),
    isGraphic_of_ascii low high]

end PeerWire.Text.Quoted
