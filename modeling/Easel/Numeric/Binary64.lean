import Easel.Numeric.Rounding

/-!
# Double-precision numbers

`Binary64` is the 64-bit interchange format as a sign and a magnitude, the magnitude being the 63
bits below the sign. Read as a natural number, the magnitude orders the absolute values: zero,
subnormals, normals, infinity, then the NaNs.

Every finite number is a whole count of units of `2 ^ -1074`; `Binary64.units` gives that count, so
that exact values are natural numbers and all arithmetic here is exact up to one final rounding.

* `Binary64.roundRatio` — the magnitude nearest to a positive ratio, ties to even;
* `Binary64.mul` — the product, rounded once;
* `Binary64.truncate` — the integer part, toward zero.
-/

namespace Easel

/-- A double-precision number: its sign bit and the 63 bits below it. -/
@[ext]
structure Binary64 where
  /-- The sign bit. Zero has a sign too. -/
  negative : Bool
  /-- The exponent and fraction fields as one number. -/
  magnitude : Nat
  /-- The fields fill 63 bits. -/
  magnitude_lt : magnitude < 0x8000000000000000
deriving DecidableEq

namespace Binary64

/-! ### Words -/

/-- The number encoded by a 64-bit word: the highest bit is the sign and the others are the
magnitude. -/
def ofBits (word : UInt64) : Binary64 where
  negative := 0x8000000000000000 ≤ word.toNat
  magnitude := word.toNat % 0x8000000000000000
  magnitude_lt := Nat.mod_lt _ (by decide)

/-- The 64-bit word that encodes a number. -/
def toBits (x : Binary64) : UInt64 :=
  UInt64.ofNat (x.magnitude + if x.negative then 0x8000000000000000 else 0)

/-- The word of a number, as a sum: a minus sign stands above all bits of the magnitude, so nothing
is carried. -/
theorem toBits_toNat (x : Binary64) :
    x.toBits.toNat = x.magnitude + if x.negative then 0x8000000000000000 else 0 := by
  have h := x.magnitude_lt
  unfold toBits
  rw [UInt64.toNat_ofNat']
  split <;> omega

/-- A number is read back from its word. Every one of the `2 ^ 64` words is a number, NaNs with
their payloads included. -/
@[simp] theorem ofBits_toBits (x : Binary64) : ofBits x.toBits = x := by
  have h := x.magnitude_lt
  apply Binary64.ext
  -- The sign is the highest bit, and the magnitude fits below it.
  · change decide (0x8000000000000000 ≤ x.toBits.toNat) = x.negative
    rw [toBits_toNat]
    cases x.negative with
    | false => exact decide_eq_false (by rw [if_neg Bool.false_ne_true]; omega)
    | true => exact decide_eq_true (by rw [if_pos rfl]; omega)
  · change x.toBits.toNat % 0x8000000000000000 = x.magnitude
    rw [toBits_toNat]
    split <;> omega

/-! ### Classes -/

/-- The magnitude of infinity: every bit of the exponent field and no bit of the fraction. -/
def infinityMagnitude : Nat := 0x7FF0000000000000

/-- Infinity fits into 63 bits, with the NaNs above it. -/
theorem infinityMagnitude_lt : infinityMagnitude < 0x8000000000000000 := by decide

/-- A number that is neither infinite nor a NaN. -/
def IsFinite (x : Binary64) : Prop := x.magnitude < infinityMagnitude

/-- A number beyond all finite ones, of either sign. -/
def IsInfinite (x : Binary64) : Prop := x.magnitude = infinityMagnitude

/-- No number at all, such as the product of zero and infinity. -/
def IsNaN (x : Binary64) : Prop := infinityMagnitude < x.magnitude

/-- Zero, of either sign. -/
def IsZero (x : Binary64) : Prop := x.magnitude = 0

instance (x : Binary64) : Decidable x.IsFinite := inferInstanceAs (Decidable (_ < _))
instance (x : Binary64) : Decidable x.IsInfinite := inferInstanceAs (Decidable (_ = _))
instance (x : Binary64) : Decidable x.IsNaN := inferInstanceAs (Decidable (_ < _))
instance (x : Binary64) : Decidable x.IsZero := inferInstanceAs (Decidable (_ = _))

/-- The zero of a sign. -/
def zero (negative : Bool) : Binary64 := ⟨negative, 0, by decide⟩

/-- The infinity of a sign. -/
def infinity (negative : Bool) : Binary64 := ⟨negative, infinityMagnitude, infinityMagnitude_lt⟩

/-- The quiet NaN without a payload. -/
def nan : Binary64 := ⟨false, infinityMagnitude + 0x8000000000000, by decide⟩

/-! ### Exact values -/

/-- The significand of a magnitude, with the leading bit that normal numbers leave out. Below the
first normal number the magnitude is its own significand. -/
def significand (magnitude : Nat) : Nat :=
  if magnitude < 0x10000000000000 then magnitude
  else 0x10000000000000 + magnitude % 0x10000000000000

/-- How many places a magnitude's significand is shifted to the left of the finest grid.
Subnormals and the first binade of normals lie on that grid itself. -/
def shift (magnitude : Nat) : Nat := magnitude / 0x10000000000000 - 1

/-- The absolute value of a magnitude in units of `2 ^ -1074`. The infinite magnitude counts as
`2 ^ 1024`, where the next binade would begin. -/
def unitsOf (magnitude : Nat) : Nat := significand magnitude <<< shift magnitude

/-- The absolute value of a number in units of `2 ^ -1074`. -/
def units (x : Binary64) : Nat := unitsOf x.magnitude

/-- How many units of the finest grid make up one. Dividing by it gives whole numbers back. -/
def unitsPerOne : Nat := 1 <<< 1074

/-! ### Rounding -/

/-- The magnitude nearest to the ratio `num / den`, the even one of two equally near; a ratio from
halfway between the largest finite value and `2 ^ 1024` on becomes infinite. The quotient is cut to
53 significant bits, or to whole units where that is coarser, and a carry out of those bits moves
into the exponent field by itself. -/
def roundRatio (num den : Nat) : Nat :=
  let scaled := num * unitsPerOne
  let places := (scaled / den).log2 - 52
  -- The exponent field is counted by the places that were cut off; a carry out of the significand
  -- adds one to it, and the least of the two keeps what is too large at infinity.
  min (places * 0x10000000000000 + roundDiv scaled (den <<< places)) infinityMagnitude

/-- Rounding never gives a NaN, only a finite magnitude or infinity. -/
theorem roundRatio_le (num den : Nat) : roundRatio num den ≤ infinityMagnitude :=
  Nat.min_le_right _ _

/-- The number nearest to a ratio, with the given sign. -/
def ofRatio (negative : Bool) (num den : Nat) : Binary64 :=
  ⟨negative, roundRatio num den,
    Nat.lt_of_le_of_lt (roundRatio_le num den) infinityMagnitude_lt⟩

@[simp] theorem ofRatio_negative (negative : Bool) (num den : Nat) :
    (ofRatio negative num den).negative = negative := rfl

@[simp] theorem ofRatio_magnitude (negative : Bool) (num den : Nat) :
    (ofRatio negative num den).magnitude = roundRatio num den := rfl

/-- The product, rounded to nearest. It is a NaN if a factor is one, or if one factor is zero and
the other infinite; otherwise the signs multiply. -/
def mul (x y : Binary64) : Binary64 :=
  let negative := x.negative != y.negative
  if x.IsNaN ∨ y.IsNaN then nan
  else if x.IsInfinite ∨ y.IsInfinite then
    if x.IsZero ∨ y.IsZero then nan else infinity negative
  -- Both factors are in units, so the product is in units of units.
  else ofRatio negative (x.units * y.units) (unitsPerOne * unitsPerOne)

/-- Multiplication of numbers is the rounded product. -/
instance : Mul Binary64 := ⟨mul⟩

/-- The integer part, toward zero. An infinity counts as `2 ^ 1024` with its sign. -/
def truncate (x : Binary64) : Int :=
  let whole : Int := (x.units / unitsPerOne : Nat)
  if x.negative then -whole else whole

end Binary64

end Easel
