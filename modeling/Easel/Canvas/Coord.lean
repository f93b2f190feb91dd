import Easel.Numeric.Binary64

/-!
# Canvas coordinates

A `Coord` is an integer between `-2 ^ 31` and `2 ^ 31 - 1`. Nothing ever wraps around: a sum that
would leave the range stops at the bound it would cross, and so does a number that is turned into a
coordinate.

* `Coord.clamp` — the coordinate nearest to an integer;
* `Coord.shift` — a coordinate moved by a distance, stopping at the bounds;
* `Coord.ofBinary64` — the coordinate a real number falls on.
-/

namespace Easel

/-- An integer position along one axis of the canvas. The bounds are part of the data, so no
coordinate out of range can be built, and no later proof has to show that one is in range. -/
@[ext]
structure Coord where
  val : Int
  le_val : -2147483648 ≤ val
  val_le : val ≤ 2147483647
deriving DecidableEq

namespace Coord

/-- The coordinate nearest to an integer. It is the only way in which coordinates are made from sums
and from numbers, so stopping at the bounds is decided here alone. -/
def clamp (n : Int) : Coord where
  val := max (-2147483648) (min n 2147483647)
  le_val := by omega
  val_le := by omega

@[simp] theorem clamp_val (n : Int) : (clamp n).val = max (-2147483648) (min n 2147483647) := rfl

/-- An integer in range is its own nearest coordinate. -/
theorem clamp_val_of_mem {n : Int} (lo : -2147483648 ≤ n) (hi : n ≤ 2147483647) :
    (clamp n).val = n := by
  rw [clamp_val]; omega

@[simp] theorem clamp_self (c : Coord) : clamp c.val = c :=
  Coord.ext (clamp_val_of_mem c.le_val c.val_le)

/-- A literal stands for the coordinate nearest to it. -/
instance (n : Nat) : OfNat Coord n := ⟨clamp n⟩

@[simp] theorem zero_val : (0 : Coord).val = 0 := rfl

/-- Coordinates are ordered as the integers they are. -/
instance : LE Coord := ⟨fun a b => a.val ≤ b.val⟩

instance : LT Coord := ⟨fun a b => a.val < b.val⟩

instance (a b : Coord) : Decidable (a ≤ b) := inferInstanceAs (Decidable (a.val ≤ b.val))

instance (a b : Coord) : Decidable (a < b) := inferInstanceAs (Decidable (a.val < b.val))

/-- The lesser of two coordinates, the first one if they are equal. -/
instance : Min Coord := ⟨fun a b => if a ≤ b then a else b⟩

/-- The greater of two coordinates, the second one if they are equal. -/
instance : Max Coord := ⟨fun a b => if a ≤ b then b else a⟩

/-- A coordinate is shown as a signed decimal number. -/
instance : ToString Coord := ⟨fun c => toString c.val⟩

/-- The order of coordinates, in integers. With `min_val` and `max_val` it leaves questions about
rectangles to linear arithmetic. -/
theorem le_iff {a b : Coord} : a ≤ b ↔ a.val ≤ b.val := Iff.rfl

/-- The lesser coordinate as the lesser integer. -/
@[simp] theorem min_val (a b : Coord) : (min a b).val = min a.val b.val := by
  change (if a.val ≤ b.val then a else b).val = _
  split <;> omega

/-- The greater coordinate as the greater integer. -/
@[simp] theorem max_val (a b : Coord) : (max a b).val = max a.val b.val := by
  change (if a.val ≤ b.val then b else a).val = _
  split <;> omega

/-- The coordinate moved by a distance. It stops at the bound it would cross, and what is lost there
does not come back with a later move. -/
def shift (c : Coord) (distance : Int) : Coord := clamp (c.val + distance)

@[simp] theorem shift_val (c : Coord) (distance : Int) :
    (c.shift distance).val = max (-2147483648) (min (c.val + distance) 2147483647) := rfl

/-- The coordinate a number falls on: its integer part, or the nearer bound if that is out of range.
A NaN falls on zero. -/
def ofBinary64 (x : Binary64) : Coord :=
  if x.IsNaN then 0 else clamp x.truncate

end Coord

end Easel
