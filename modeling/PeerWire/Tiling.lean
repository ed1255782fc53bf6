/-!
# Cutting a length into tiles

A length is cut into tiles of one size, the last of which may be shorter. Files are cut into
pieces and pieces into blocks in this way. Main statements: the tiles start where the one before
ends, none of them is empty, and past the last one every tile is empty.
-/

namespace PeerWire.Tiling

/-- How many tiles of a given size cover a length. -/
def count (total size : Nat) : Nat :=
  total / size + if total % size = 0 then 0 else 1

/-- Where a tile starts. -/
def start (size index : Nat) : Nat := size * index

/-- The length of a tile: `size`, cut short by the end of the whole. -/
def length (total size index : Nat) : Nat :=
  min (start size index + size) total - start size index

/-- A length of nothing has no tiles. -/
@[simp]
theorem count_zero (size : Nat) : count 0 size = 0 := by simp [count]

/-- A tile exists exactly when it starts inside the whole. -/
theorem lt_count_iff {total size index : Nat} (hsize : 0 < size) :
    index < count total size ↔ start size index < total := by
  have hdiv := Nat.div_add_mod total size
  have hmod := Nat.mod_lt total hsize
  rw [count, start]
  constructor
  · intro h
    split at h
    · have hle : size * (index + 1) ≤ size * (total / size) := Nat.mul_le_mul_left _ (by omega)
      rw [Nat.mul_add] at hle
      omega
    · have hle : size * index ≤ size * (total / size) := Nat.mul_le_mul_left _ (by omega)
      omega
  · intro h
    split
    · rw [Nat.add_zero]
      apply Nat.lt_of_mul_lt_mul_left (a := size)
      omega
    · apply Nat.lt_succ_of_le
      apply Nat.le_of_lt_succ
      apply Nat.lt_of_mul_lt_mul_left (a := size)
      rw [Nat.succ_eq_add_one, Nat.mul_add]
      omega

/-- Where the tiles end nothing is left. -/
theorem le_start_count (total : Nat) {size : Nat} (hsize : 0 < size) :
    total ≤ start size (count total size) := by
  apply Nat.le_of_not_lt
  intro hlt
  exact Nat.lt_irrefl _ ((lt_count_iff hsize).mpr hlt)

/-- No tile is empty. -/
theorem length_pos {total size index : Nat} (hsize : 0 < size) (h : index < count total size) :
    0 < length total size index := by
  have := (lt_count_iff hsize).mp h
  simp only [length]
  omega

/-- Past the last tile every tile is empty. -/
theorem length_eq_zero {total size index : Nat} (hsize : 0 < size)
    (h : count total size ≤ index) : length total size index = 0 := by
  have : ¬ start size index < total := fun hlt ↦ by
    have := (lt_count_iff hsize).mpr hlt
    omega
  simp only [length]
  omega

/-- A tile ends where the next one starts, or at the end of the whole. -/
theorem start_add_length {total size index : Nat} (hsize : 0 < size)
    (h : index < count total size) :
    start size index + length total size index = min (start size (index + 1)) total := by
  have := (lt_count_iff hsize).mp h
  simp only [length, start, Nat.mul_add, Nat.mul_one] at *
  omega

/-- A tile is never longer than the tile size. -/
theorem length_le (total size index : Nat) : length total size index ≤ size := by
  simp only [length]
  omega

end PeerWire.Tiling
