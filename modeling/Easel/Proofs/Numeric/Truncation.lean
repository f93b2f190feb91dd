import Easel.Proofs.Numeric.Nearest

/-!
# Integer parts of rounded numbers

Whole numbers up to `2 ^ 53` are doubles, so rounding does not carry a number across one of them,
and the integer part of the rounded number is the number's own floor or ceiling. It grows with the
number.

* `markOf`, `exists_mark` — whole numbers are marks of the grid;
* `IsRounded.truncate_bounds` — whole numbers are not crossed;
* `IsRounded.truncate_mono` — the order is kept.
-/

namespace Easel.Binary64

/-- The double with the other sign. Everything here is shown for positive numbers first and then
turned around by it. -/
def neg (x : Binary64) : Binary64 := ⟨!x.negative, x.magnitude, x.magnitude_lt⟩

instance : Neg Binary64 := ⟨neg⟩

@[simp] theorem negative_neg (x : Binary64) : (-x).negative = !x.negative := rfl

@[simp] theorem magnitude_neg (x : Binary64) : (-x).magnitude = x.magnitude := rfl

/-- Turning the sign of a double around turns that of its value. -/
@[simp] theorem value_neg (x : Binary64) : (-x).value = -x.value := by
  unfold value
  rw [negative_neg, magnitude_neg]
  cases x.negative with
  | false => rfl
  | true => exact (neg_neg _).symm

/-! ### Whole numbers on the grid -/

section Whole

variable {q : ℚ} {m n : Nat}

/-- The mark of a whole number of up to 53 bits: its significand is the number, shifted to the left
until the highest bit is in the highest place. -/
def markOf (n : Nat) : Nat := (1022 + n.log2) * 0x10000000000000 + n * 2 ^ (52 - n.log2)

/-- Shifted to the left, the number has 53 bits. -/
theorem bounds_of_log2 (hpos : 0 < n) (hlog : n.log2 ≤ 52) :
    0x10000000000000 ≤ n * 2 ^ (52 - n.log2) ∧ n * 2 ^ (52 - n.log2) < 0x20000000000000 := by
  have hpow : 2 ^ n.log2 * 2 ^ (52 - n.log2) = 0x10000000000000 := by
    rw [← Nat.pow_add, Nat.add_sub_cancel' hlog]
  -- The logarithm brackets the number between two powers, and the shift moves both to their places.
  have htwice : 2 ^ (n.log2 + 1) * 2 ^ (52 - n.log2) = 0x20000000000000 := by
    rw [Nat.pow_succ, Nat.mul_right_comm, hpow]
  rw [← hpow, ← htwice]
  exact ⟨Nat.mul_le_mul_right _ (Nat.log2_self_le hpos.ne'),
    Nat.mul_lt_mul_of_pos_right Nat.lt_log2_self (Nat.two_pow_pos _)⟩

/-- The mark of a whole number stands at the number. -/
theorem valueOf_markOf (hpos : 0 < n) (hlog : n.log2 ≤ 52) : valueOf (markOf n) = n := by
  have hbounds := bounds_of_log2 hpos hlog
  have hunits : n * 2 ^ (52 - n.log2) * 2 ^ (1022 + n.log2) = n * unitsPerOne := by
    rw [Nat.mul_assoc, ← Nat.pow_add, unitsPerOne, Nat.one_shiftLeft]
    congr 2
    omega
  rw [valueOf, markOf, unitsOf_add (.inr hbounds.1) hbounds.2.le, hunits, Nat.cast_mul,
    mul_div_cancel_right₀ _ unitsPerOne_pos.ne']

/-- It is a finite one. -/
theorem markOf_lt (hpos : 0 < n) (hlog : n.log2 ≤ 52) : markOf n < infinityMagnitude := by
  have hbounds := bounds_of_log2 hpos hlog
  unfold markOf infinityMagnitude
  omega

/-- Up to `2 ^ 53` every whole number is a mark. The last of them has 54 bits, but all except the
first are zeros. -/
theorem exists_mark (hn : n ≤ 0x20000000000000) : ∃ k ≤ infinityMagnitude, valueOf k = n := by
  rcases Nat.eq_zero_or_pos n with rfl | hpos
  · exact ⟨0, Nat.zero_le _, by rw [valueOf_zero, Nat.cast_zero]⟩
  -- All but the last have at most 53 bits, and their mark can be given.
  by_cases hlog : n.log2 ≤ 52
  · exact ⟨markOf n, (markOf_lt hpos hlog).le, valueOf_markOf hpos hlog⟩
  · -- This is the first number of 54 bits.
    have htop : 2 ^ 53 ≤ n :=
      (Nat.pow_le_pow_right (by decide) (by omega)).trans (Nat.log2_self_le hpos.ne')
    obtain rfl : n = 0x20000000000000 := Nat.le_antisymm hn htop
    refine ⟨1074 * 0x10000000000000 + 0x20000000000000, by decide, ?_⟩
    have hunits : (0x20000000000000 : Nat) * 2 ^ 1074 = 0x20000000000000 * unitsPerOne := by
      rw [unitsPerOne, Nat.one_shiftLeft]
    rw [valueOf, unitsOf_add (.inr (by decide)) le_rfl, hunits, Nat.cast_mul,
      mul_div_cancel_right₀ _ unitsPerOne_pos.ne']

/-- Rounding does not carry a number below a whole number: the whole number is its own nearest mark,
and the order is kept. -/
theorem Nearest.natCast_le (h : Nearest q m) (hn : n ≤ 0x20000000000000) (hle : n ≤ q) :
    n ≤ valueOf m := by
  obtain ⟨k, hk, hvalue⟩ := exists_mark hn
  rw [← hvalue] at hle ⊢
  exact valueOf_strictMono.monotone ((nearest_self hk).mono h hle)

/-- Rounding does not carry a number above a whole number either. -/
theorem Nearest.le_natCast (h : Nearest q m) (hn : n ≤ 0x20000000000000) (hle : q ≤ n) :
    valueOf m ≤ n := by
  obtain ⟨k, hk, hvalue⟩ := exists_mark hn
  rw [← hvalue] at hle ⊢
  exact valueOf_strictMono.monotone (h.mono (nearest_self hk) hle)

/-- A mark cut to an integer is no less than a whole number exactly if the mark is. -/
theorem le_whole_iff : n ≤ unitsOf m / unitsPerOne ↔ (n : ℚ) ≤ valueOf m := by
  rw [Nat.le_div_iff_mul_le (by decide), valueOf, le_div_iff₀ unitsPerOne_pos]
  exact_mod_cast Iff.rfl

/-- A mark cut to an integer is no more than a whole number if the mark is. -/
theorem whole_le (h : valueOf m ≤ n) : unitsOf m / unitsPerOne ≤ n := by
  rw [valueOf, div_le_iff₀ unitsPerOne_pos] at h
  exact Nat.div_le_of_le_mul (Nat.mul_comm n _ ▸ by exact_mod_cast h)

end Whole

/-! ### Integer parts -/

section Truncate

variable {x y : Binary64} {p q : ℚ}

/-- Cutting toward zero treats both signs alike. -/
@[simp] theorem truncate_neg (x : Binary64) : (-x).truncate = -x.truncate := by
  unfold truncate
  rw [negative_neg]
  cases x.negative with
  | false => rfl
  | true => exact (neg_neg _).symm

/-- For a positive double, cutting is division by the unit without its rest. -/
theorem truncate_of_positive (h : x.negative = false) :
    x.truncate = (unitsOf x.magnitude / unitsPerOne : Nat) := by
  unfold truncate
  rw [h, if_neg Bool.false_ne_true]
  rfl

/-- The sign of a rounded number can be turned around. Ties are not affected, since parity is that
of the magnitude. -/
theorem IsRounded.neg (h : x.IsRounded p) : (-x).IsRounded (-p) where
  sign := by
    have hsign := h.sign
    unfold SignFits at hsign ⊢
    rw [negative_neg]
    cases hx : x.negative with
    | false =>
      rw [hx, if_neg Bool.false_ne_true] at hsign
      exact neg_nonpos.mpr hsign
    | true =>
      rw [hx, if_pos rfl] at hsign
      exact neg_nonneg.mpr hsign
  nearest := by
    rw [abs_neg, magnitude_neg]
    exact h.nearest

/-- The sign of what is rounded is that of the double, as far as zero allows. -/
theorem IsRounded.nonneg (h : x.IsRounded p) (hx : x.negative = false) : 0 ≤ p := by
  have hsign := h.sign
  rwa [SignFits, hx, if_neg Bool.false_ne_true] at hsign

/-- The same for the other sign. -/
theorem IsRounded.nonpos (h : x.IsRounded p) (hx : x.negative = true) : p ≤ 0 := by
  have hsign := h.sign
  rwa [SignFits, hx, if_pos rfl] at hsign

/-- Numbers up to a whole number of 53 bits stay finite. It is far below the largest double, so
rounding up to it does no harm. -/
theorem IsRounded.isFinite_of_le (h : x.IsRounded p) {n : Nat} (hn : n ≤ 0x20000000000000)
    (hle : |p| ≤ n) : x.IsFinite := by
  refine valueOf_strictMono.lt_iff_lt.mp ?_
  have hcast : (n : ℚ) ≤ 2 ^ 53 := by exact_mod_cast hn
  rw [valueOf_infinityMagnitude]
  calc valueOf x.magnitude ≤ n := h.nearest.le_natCast hn hle
    _ ≤ 2 ^ 53 := hcast
    _ < 2 ^ 1024 := pow_lt_pow_right₀ (by norm_num) (by norm_num)

/-- A positive number and its integer part lie between the same whole numbers. Neither rounding nor
cutting carries it across one. -/
theorem IsRounded.truncate_bounds_of_positive (h : x.IsRounded p) (hx : x.negative = false)
    {n : ℤ} (hn : n.natAbs ≤ 0x20000000000000) :
    (n ≤ p → n ≤ x.truncate) ∧ (p ≤ n → x.truncate ≤ n) := by
  have hp := h.nonneg hx
  have hnear := h.nearest
  rw [abs_of_nonneg hp] at hnear
  rw [truncate_of_positive hx]
  rcases lt_or_ge n 0 with hneg | hnonneg
  -- A negative whole number lies below everything positive.
  · refine ⟨fun _ => hneg.le.trans (Int.natCast_nonneg _), fun hle => ?_⟩
    have hlt : (n : ℚ) < 0 := Int.cast_lt_zero.mpr hneg
    linarith
  · obtain ⟨k, rfl⟩ := Int.eq_ofNat_of_zero_le hnonneg
    constructor
    · intro hle
      exact Int.ofNat_le.mpr (le_whole_iff.mpr (hnear.natCast_le hn (by exact_mod_cast hle)))
    · intro hle
      exact Int.ofNat_le.mpr (whole_le (hnear.le_natCast hn (by exact_mod_cast hle)))

/-- **Rounding and cutting to an integer carry no number across a whole number**, not even a
negative one. -/
theorem IsRounded.truncate_bounds (h : x.IsRounded p) {n : ℤ}
    (hn : n.natAbs ≤ 0x20000000000000) :
    (n ≤ p → n ≤ x.truncate) ∧ (p ≤ n → x.truncate ≤ n) := by
  cases hx : x.negative with
  | false => exact h.truncate_bounds_of_positive hx hn
  | true =>
    -- The mirrored number is positive, and the two bounds change places.
    have hmirrored := @IsRounded.truncate_bounds_of_positive (-x) (-p) h.neg
      (by rw [negative_neg, hx]; rfl) (-n) (by rwa [Int.natAbs_neg])
    rw [truncate_neg, Int.cast_neg] at hmirrored
    exact ⟨fun hle => Int.neg_le_neg_iff.mp (hmirrored.2 (neg_le_neg hle)),
      fun hle => Int.neg_le_neg_iff.mp (hmirrored.1 (neg_le_neg hle))⟩

/-- Where the sign is the same, the order of two numbers is that of their integer parts: magnitudes
keep the order, and so does division. -/
theorem IsRounded.truncate_mono_of_positive (hx : x.IsRounded p) (hy : y.IsRounded q)
    (hle : p ≤ q) (hxpos : x.negative = false) (hypos : y.negative = false) :
    x.truncate ≤ y.truncate := by
  have hmagnitude : x.magnitude ≤ y.magnitude := by
    refine hx.nearest.mono hy.nearest ?_
    rwa [abs_of_nonneg (hx.nonneg hxpos), abs_of_nonneg (hy.nonneg hypos)]
  rw [truncate_of_positive hxpos, truncate_of_positive hypos]
  exact Int.ofNat_le.mpr (Nat.div_le_div_right (unitsOf_strictMono.monotone hmagnitude))

/-- **Larger numbers have no smaller integer parts.** -/
theorem IsRounded.truncate_mono (hx : x.IsRounded p) (hy : y.IsRounded q) (hle : p ≤ q) :
    x.truncate ≤ y.truncate := by
  -- Two signs are told apart by zero.
  have hzero : ∀ {x : Binary64} {p : ℚ}, x.IsRounded p →
      (0 ≤ p → 0 ≤ x.truncate) ∧ (p ≤ 0 → x.truncate ≤ 0) := fun h => by
    exact_mod_cast @IsRounded.truncate_bounds _ _ h 0 (by decide)
  cases hxsign : x.negative with
  | false =>
    have hp := hx.nonneg hxsign
    cases hysign : y.negative with
    | false => exact hx.truncate_mono_of_positive hy hle hxsign hysign
    | true =>
      exact ((hzero hx).2 (hle.trans (hy.nonpos hysign))).trans
        ((hzero hy).1 (hp.trans hle))
  | true =>
    have hp := hx.nonpos hxsign
    cases hysign : y.negative with
    | false => exact ((hzero hx).2 hp).trans ((hzero hy).1 (hy.nonneg hysign))
    | true =>
      -- Both numbers are mirrored, so their order is turned around twice.
      have hmirrored := hy.neg.truncate_mono_of_positive hx.neg (neg_le_neg hle)
        (by rw [negative_neg, hysign]; rfl) (by rw [negative_neg, hxsign]; rfl)
      rw [truncate_neg, truncate_neg] at hmirrored
      exact Int.neg_le_neg_iff.mp hmirrored

end Truncate

end Easel.Binary64
