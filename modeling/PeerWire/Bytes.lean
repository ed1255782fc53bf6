/-!
# Byte strings and numbers on the wire

Numbers travel as four bytes, most significant first, so only the low 32 bits of a number are
sent. Main statements: reading the four bytes of a number gives the number modulo `2 ^ 32`, a split
is exact: it succeeds when there are enough bytes, and loses none, and writing over bytes that are
there leaves as many as before.
-/

namespace PeerWire

/-- A finite string of bytes. -/
abbrev Bytes := List UInt8

namespace Bytes

/-- How many numbers four bytes can tell apart. -/
def wordBound : Nat := 4294967296

/-- The low 32 bits of a number as four bytes, most significant first. -/
def ofWord (n : Nat) : Bytes :=
  [UInt8.ofNat (n / 16777216), UInt8.ofNat (n / 65536), UInt8.ofNat (n / 256), UInt8.ofNat n]

/-- The number that four bytes spell, most significant first. -/
def word (a b c d : UInt8) : Nat :=
  a.toNat * 16777216 + b.toNat * 65536 + c.toNat * 256 + d.toNat

/-- The first `n` bytes and the rest, or nothing if there are fewer than `n`. -/
def split? : Nat → Bytes → Option (Bytes × Bytes)
  | 0, bytes => some ([], bytes)
  | _ + 1, [] => none
  | n + 1, b :: bytes => (split? n bytes).map fun (front, rest) ↦ (b :: front, rest)

/-- The bytes with others written over them from a position on. -/
def writeAt (position : Nat) (others bytes : Bytes) : Bytes :=
  bytes.take position ++ others ++ bytes.drop (position + others.length)

/-- A number always takes four bytes. -/
@[simp]
theorem length_ofWord (n : Nat) : (ofWord n).length = 4 := rfl

/-- Four bytes spell a number below `2 ^ 32`. -/
theorem word_lt (a b c d : UInt8) : word a b c d < wordBound := by
  have ha := a.toNat_lt
  have hb := b.toNat_lt
  have hc := c.toNat_lt
  have hd := d.toNat_lt
  simp only [word, wordBound]
  omega

/-- Reading the bytes of a number gives its low 32 bits. -/
theorem word_ofWord (n : Nat) :
    word (UInt8.ofNat (n / 16777216)) (UInt8.ofNat (n / 65536)) (UInt8.ofNat (n / 256))
      (UInt8.ofNat n) = n % wordBound := by
  simp only [word, wordBound, UInt8.toNat_ofNat']
  omega

/-- Writing the number that four bytes spell gives those bytes back. -/
theorem ofWord_word (a b c d : UInt8) : ofWord (word a b c d) = [a, b, c, d] := by
  have ha := a.toNat_lt
  have hb := b.toNat_lt
  have hc := c.toNat_lt
  have hd := d.toNat_lt
  simp only [ofWord, word, List.cons.injEq, and_true]
  refine ⟨?_, ?_, ?_, ?_⟩ <;> apply UInt8.toNat_inj.mp <;> simp only [UInt8.toNat_ofNat'] <;> omega

/-- A split gives back exactly the bytes that went in, cut after `n` of them. -/
theorem split?_eq_some_iff {n : Nat} {bytes front rest : Bytes} :
    split? n bytes = some (front, rest) ↔ bytes = front ++ rest ∧ front.length = n := by
  induction n generalizing bytes front with
  | zero =>
    rw [split?]
    constructor
    · rintro ⟨⟩
      exact ⟨rfl, rfl⟩
    · rintro ⟨rfl, hlen⟩
      rw [List.length_eq_zero_iff] at hlen
      simp [hlen]
  | succ n ih =>
    cases bytes with
    | nil =>
      simp only [split?, reduceCtorEq, false_iff, not_and]
      intro h hlen
      have : front.length = 0 := by simp [(List.nil_eq_append_iff.mp h).1]
      omega
    | cons b bytes =>
      simp only [split?, Option.map_eq_some_iff, Prod.mk.injEq, Prod.exists]
      constructor
      · rintro ⟨front', rest', hsplit, rfl, rfl⟩
        obtain ⟨rfl, rfl⟩ := ih.mp hsplit
        exact ⟨rfl, rfl⟩
      · rintro ⟨h, hlen⟩
        cases front with
        | nil => simp at hlen
        | cons c front =>
          simp only [List.cons_append, List.cons.injEq] at h
          exact ⟨front, rest, ih.mpr ⟨h.2, by simpa using hlen⟩, by rw [h.1], rfl⟩

/-- A split fails exactly when there are too few bytes. -/
theorem split?_eq_none_iff {n : Nat} {bytes : Bytes} :
    split? n bytes = none ↔ bytes.length < n := by
  induction n generalizing bytes with
  | zero => simp [split?]
  | succ n ih =>
    cases bytes with
    | nil => simp [split?]
    | cons b bytes => simp [split?, ih]

/-- Writing over bytes that are there leaves as many as before. -/
theorem length_writeAt {position : Nat} {others bytes : Bytes}
    (h : position + others.length ≤ bytes.length) :
    (writeAt position others bytes).length = bytes.length := by
  simp only [writeAt, List.length_append, List.length_take, List.length_drop]
  omega

end Bytes

end PeerWire
