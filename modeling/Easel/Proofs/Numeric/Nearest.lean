import Easel.Numeric.Decimal
import Easel.Proofs.Numeric.Grid

/-!
# Nearest doubles

What a double stands for is an exact rational number, and rounding goes to the nearest double among
all finite ones: products are rounded like that, and so are decimal numbers. The grid of magnitudes
settles which double is the nearest one; what is left here are the signs, and where the finite
doubles end.

* `value` — the exact value of a double; `IsNearest` — the double is nearest to a number;
* `IsRounded` — the same on the grid of magnitudes, where `IsRounded.isNearest` and
  `IsNearest.isRounded` lead; `Nearest.lt_infinityMagnitude_iff` — what rounds to a finite double;
* `isRounded_mul` — products; `Decimal.isRounded_toBinary64` — decimal numbers, those included
  whose power of ten is never computed.
-/

namespace Easel

namespace Binary64

/-! ### Values -/

/-- The exact value of a finite double. An infinity counts as `2 ^ 1024` with its sign. -/
def value (x : Binary64) : ℚ := if x.negative then -valueOf x.magnitude else valueOf x.magnitude

/-- A sign that a number can be written with: zero can have either. Rounding keeps the sign, also
where the number becomes zero. -/
def SignFits (negative : Bool) (q : ℚ) : Prop := if negative then q ≤ 0 else 0 ≤ q

/-- The double `x` is finite and no finite double is nearer to `q`. Of two that are equally near it
is the one with an even significand, which is to say, with an even magnitude. -/
structure IsNearest (x : Binary64) (q : ℚ) : Prop where
  finite : x.IsFinite
  nearest : ∀ y : Binary64, y.IsFinite → |q - x.value| ≤ |q - y.value|
  even : ∀ y : Binary64, y.IsFinite → y.value ≠ x.value → |q - y.value| = |q - x.value| →
    Even x.magnitude

/-- What a number is rounded to, with the number's sign: the nearest magnitude, the infinite one
included. -/
structure IsRounded (x : Binary64) (q : ℚ) : Prop where
  sign : SignFits x.negative q
  nearest : Nearest |q| x.magnitude

/-- The sign of a product is that of the factors, one if they differ. -/
theorem SignFits.mul : ∀ {a b : Bool} {p q : ℚ}, SignFits a p → SignFits b q →
    SignFits (a != b) (p * q)
  | false, false, _, _, hp, hq => mul_nonneg hp hq
  | false, true, _, _, hp, hq => mul_nonpos_of_nonneg_of_nonpos hp hq
  | true, false, _, _, hp, hq => mul_nonpos_of_nonpos_of_nonneg hp hq
  | true, true, _, _, hp, hq => mul_nonneg_of_nonpos_of_nonpos hp hq

section Value

variable {x y : Binary64} {q : ℚ}

/-- Without its sign, the value of a double is its mark. -/
theorem abs_value (x : Binary64) : |x.value| = valueOf x.magnitude := by
  unfold value
  split
  · rw [abs_neg, abs_of_nonneg (valueOf_nonneg _)]
  · exact abs_of_nonneg (valueOf_nonneg _)

/-- A double is written with a sign of its value. -/
theorem signFits_value (x : Binary64) : SignFits x.negative x.value := by
  unfold SignFits value
  split
  · exact neg_nonpos.mpr (valueOf_nonneg _)
  · exact valueOf_nonneg _

/-- Where the signs agree, a distance is one of absolute values. So what is nearest can be found on
the grid. -/
theorem abs_sub_value (h : SignFits x.negative q) :
    |q - x.value| = |(|q| - valueOf x.magnitude)| := by
  unfold SignFits at h
  unfold value
  split at h
  · next hnegative =>
    rw [if_pos hnegative, abs_of_nonpos h, ← abs_neg]
    congr 1
    ring
  · next hpositive => rw [if_neg hpositive, abs_of_nonneg h]

/-- In any case it is no less than that. -/
theorem le_abs_sub_value (q : ℚ) (y : Binary64) :
    |(|q| - valueOf y.magnitude)| ≤ |q - y.value| := by
  rw [← abs_value]
  exact abs_abs_sub_abs_le q y.value

/-- Two doubles with the same magnitude are equal or opposite. -/
theorem value_eq_of_magnitude_eq (h : y.magnitude = x.magnitude) :
    y.value = x.value ∨ y.value = -x.value := by
  have habs : |y.value| = |x.value| := by rw [abs_value, abs_value, h]
  exact abs_eq_abs.mp habs

end Value

/-! ### From the grid to doubles -/

section Grid

variable {x y : Binary64} {q : ℚ} {m : Nat}

/-- The first mark stands at zero. -/
theorem valueOf_zero : valueOf 0 = 0 := by
  rw [valueOf, unitsOf_of_lt (by decide), Nat.cast_zero, zero_div]

/-- Zero is nearest to itself. -/
theorem nearest_zero : Nearest 0 0 := by
  have h := nearest_self (show 0 ≤ infinityMagnitude by decide)
  rwa [valueOf_zero] at h

/-- The last finite mark. It is one unit of its last place before the infinite one. -/
theorem valueOf_last : valueOf (infinityMagnitude - 1) = 2 ^ 1024 - 2 ^ 971 := by
  have h : unitsOf (infinityMagnitude - 1) + 2 ^ 971 * unitsPerOne = 2 ^ 1024 * unitsPerOne := by
    decide +kernel
  have hcast : ∀ {units places top : Nat},
      units + 2 ^ places * unitsPerOne = 2 ^ top * unitsPerOne →
      (units : ℚ) / unitsPerOne = 2 ^ top - 2 ^ places := by
    intro units places top h
    rw [div_eq_iff unitsPerOne_pos.ne', sub_mul, eq_sub_iff_add_eq]
    exact_mod_cast h
  exact hcast h

/-- **A number rounds to a finite double if it lies below the point halfway between the last finite
double and the next power of two.** -/
theorem Nearest.lt_infinityMagnitude_iff (h : Nearest q m) :
    m < infinityMagnitude ↔ q < 2 ^ 1024 - 2 ^ 970 := by
  have hlast := h.lt_succ_iff (show infinityMagnitude - 1 < infinityMagnitude by decide)
  rw [show infinityMagnitude - 1 + 1 = infinityMagnitude by decide, valueOf_last,
    valueOf_infinityMagnitude, show (2 : ℚ) ^ 971 = 2 ^ 970 * 2 from pow_succ 2 970] at hlast
  rw [hlast]
  -- In the middle the last finite mark would have to be even, and it is not: all bits of its
  -- fraction are ones.
  have hodd : ¬ Even (infinityMagnitude - 1) := by decide
  -- Nothing but their difference matters of the two powers.
  generalize (2 : ℚ) ^ 1024 = limit
  generalize (2 : ℚ) ^ 970 = half
  constructor
  · rintro (hlt | ⟨-, heven⟩)
    · linarith
    · exact absurd heven hodd
  · intro hlt
    exact .inl (by linarith)

/-- The threshold for doubles, whatever their sign is. -/
theorem IsRounded.isFinite_iff (h : x.IsRounded q) : x.IsFinite ↔ |q| < 2 ^ 1024 - 2 ^ 970 :=
  h.nearest.lt_infinityMagnitude_iff

/-- **What is rounded on the grid is nearest among all finite doubles.** A double with the other
sign is no nearer than one with the same magnitude and the right sign. -/
theorem IsRounded.isNearest (h : x.IsRounded q) (hlt : |q| < 2 ^ 1024 - 2 ^ 970) :
    x.IsNearest q := by
  refine ⟨h.isFinite_iff.mpr hlt, fun y hy => ?_, fun y hy hne htie => ?_⟩
  · rw [abs_sub_value h.sign]
    exact (h.nearest.nearest y.magnitude (Nat.le_of_lt hy)).trans (le_abs_sub_value q y)
  · have hdistance : |(|q| - valueOf y.magnitude)| = |(|q| - valueOf x.magnitude)| := by
      refine le_antisymm ?_ (h.nearest.nearest y.magnitude (Nat.le_of_lt hy))
      rw [← abs_sub_value h.sign, ← htie]
      exact le_abs_sub_value q y
    by_cases hmagnitude : y.magnitude = x.magnitude
    · -- Two numbers that differ by their sign alone are equally near to zero only.
      have hopposite := (value_eq_of_magnitude_eq hmagnitude).resolve_left hne
      rw [hopposite] at htie hne
      obtain rfl : q = 0 := by
        rcases abs_eq_abs.mp htie with hsame | hmirrored
        · exact absurd (by linarith) hne
        · linarith
      have hzero := h.nearest
      rw [abs_zero] at hzero
      rw [hzero.unique nearest_zero]
      exact Even.zero
    · exact h.nearest.even y.magnitude (Nat.le_of_lt hy) hmagnitude hdistance

/-- **What is nearest among all finite doubles is what is rounded on the grid**, below the
threshold. The infinite magnitude is no double that is compared with, so it has to be seen that it
is farther away than the last finite one. -/
theorem IsNearest.isRounded (h : x.IsNearest q) (hsign : SignFits x.negative q)
    (hlt : |q| < 2 ^ 1024 - 2 ^ 970) : x.IsRounded q := by
  -- Every finite mark belongs to a double with the sign of `x`.
  have hfinite : ∀ n < infinityMagnitude, ∃ y : Binary64, y.IsFinite ∧ y.magnitude = n ∧
      |q - y.value| = |(|q| - valueOf n)| := fun n hn =>
    ⟨⟨x.negative, n, hn.trans infinityMagnitude_lt⟩, hn, rfl, abs_sub_value hsign⟩
  have hnear : ∀ n < infinityMagnitude,
      |(|q| - valueOf x.magnitude)| ≤ |(|q| - valueOf n)| := by
    intro n hn
    obtain ⟨y, hy, -, hdistance⟩ := hfinite n hn
    rw [← hdistance, ← abs_sub_value hsign]
    exact h.nearest y hy
  have hinfinity : |(|q| - valueOf x.magnitude)| < |(|q| - valueOf infinityMagnitude)| := by
    refine (hnear (infinityMagnitude - 1) (by decide)).trans_lt ?_
    have hpos : (0 : ℚ) < 2 ^ 970 := by positivity
    rw [valueOf_last, valueOf_infinityMagnitude,
      show (2 : ℚ) ^ 971 = 2 ^ 970 * 2 from pow_succ 2 970]
    generalize (2 : ℚ) ^ 1024 = limit at hlt ⊢
    generalize (2 : ℚ) ^ 970 = half at hlt hpos ⊢
    rw [abs_of_nonpos (by linarith : |q| - limit ≤ 0)]
    rcases abs_cases (|q| - (limit - half * 2)) with ⟨habs, -⟩ | ⟨habs, -⟩ <;> linarith
  -- Infinity is out of the question on both counts, and all other marks are those of doubles.
  refine ⟨hsign, Nat.le_of_lt h.finite, fun n hn => ?_, fun n hn hne htie => ?_⟩
  · rcases hn.lt_or_eq with hn | rfl
    · exact hnear n hn
    · exact hinfinity.le
  · rcases hn.lt_or_eq with hn | rfl
    · obtain ⟨y, hy, rfl, hdistance⟩ := hfinite n hn
      by_cases hvalue : y.value = x.value
      · have habs : valueOf y.magnitude = valueOf x.magnitude := by
          rw [← abs_value, ← abs_value, hvalue]
        exact absurd (valueOf_strictMono.injective habs) hne
      · exact h.even y hy hvalue (by rw [hdistance, abs_sub_value hsign, htie])
    · exact absurd htie hinfinity.ne'

/-- One sign and one number leave no choice. The sign matters for zero alone. -/
theorem IsRounded.eq (hx : x.IsRounded q) (hy : y.IsRounded q) (hsign : x.negative = y.negative) :
    x = y :=
  Binary64.ext hsign (hx.nearest.unique hy.nearest)

/-- A finite double is what its own value is rounded to. -/
theorem IsFinite.isRounded_value (h : x.IsFinite) : x.IsRounded x.value where
  sign := signFits_value x
  nearest := by
    rw [abs_value]
    exact nearest_self (Nat.le_of_lt h)

end Grid

/-! ### Products -/

section Mul

variable {x y : Binary64}

/-- A finite double is a number. -/
theorem not_isNaN_of_isFinite (h : x.IsFinite) : ¬ x.IsNaN := fun hnan =>
  Nat.lt_asymm h hnan

/-- A finite double is no infinity. -/
theorem not_isInfinite_of_isFinite (h : x.IsFinite) : ¬ x.IsInfinite := fun hinfinite =>
  Nat.ne_of_lt h hinfinite

/-- For finite factors the product is a rounded ratio. All exceptions are about factors that are not
finite. -/
theorem mul_of_isFinite (hx : x.IsFinite) (hy : y.IsFinite) :
    x * y = ofRatio (x.negative != y.negative) (x.units * y.units) (unitsPerOne * unitsPerOne) := by
  show mul x y = _
  unfold mul
  rw [if_neg (not_or.mpr ⟨not_isNaN_of_isFinite hx, not_isNaN_of_isFinite hy⟩),
    if_neg (not_or.mpr ⟨not_isInfinite_of_isFinite hx, not_isInfinite_of_isFinite hy⟩)]

/-- **A product is rounded once.** The ratio that is rounded is exact, whole units over the units of
two factors. -/
theorem isRounded_mul (hx : x.IsFinite) (hy : y.IsFinite) :
    (x * y).IsRounded (x.value * y.value) where
  sign := by
    rw [mul_of_isFinite hx hy, ofRatio_negative]
    exact (signFits_value x).mul (signFits_value y)
  nearest := by
    have h := nearest_roundRatio (x.units * y.units)
      (show 0 < unitsPerOne * unitsPerOne by decide)
    rw [mul_of_isFinite hx hy, ofRatio_magnitude, abs_mul, abs_value, abs_value]
    rwa [Nat.cast_mul, Nat.cast_mul, mul_div_mul_comm] at h

end Mul

end Binary64

/-! ### Decimal numbers -/

namespace Decimal

open Binary64 (Nearest SignFits valueOf)

/-- The exact value of a decimal number. A negative exponent divides by a power of ten. -/
def value (d : Decimal) : ℚ :=
  if d.negative then -(d.digits * 10 ^ d.exponent) else d.digits * 10 ^ d.exponent

/-- Without its sign, a decimal number is its digits at their places. -/
theorem abs_value (d : Decimal) : |d.value| = d.digits * 10 ^ d.exponent := by
  have h : (0 : ℚ) ≤ d.digits * 10 ^ d.exponent := by positivity
  unfold value
  split
  · rw [abs_neg, abs_of_nonneg h]
  · exact abs_of_nonneg h

/-- A decimal number is written with a sign of its value. -/
theorem signFits_value (d : Decimal) : SignFits d.negative d.value := by
  have h : (0 : ℚ) ≤ d.digits * 10 ^ d.exponent := by positivity
  unfold SignFits value
  split
  · exact neg_nonpos.mpr h
  · exact h

/-- The sign is kept in all cases, zero and infinity included. -/
@[simp] theorem negative_toBinary64 (d : Decimal) : d.toBinary64.negative = d.negative := by
  unfold toBinary64
  repeat' split
  all_goals rfl

/-- What is less than half of the first mark is nearest to zero. The ratio is bounded without
computing it, since it may have powers of ten of any size below it. -/
theorem nearest_zero_of_lt {num den : Nat} (h : num * 2 ^ 1075 < den) :
    Nearest (num / den) 0 := by
  have hden : (0 : ℚ) < den := Nat.cast_pos.mpr (by omega)
  have hone : valueOf 1 = 1 / 2 ^ 1074 := by
    rw [valueOf, Binary64.unitsOf_of_lt (by decide), Nat.cast_one, Binary64.cast_unitsPerOne]
  have hhalf : 2 * ((num : ℚ) / den) < valueOf (0 + 1) := by
    have hcast : (num : ℚ) * 2 ^ 1075 < den := by exact_mod_cast h
    rw [zero_add, hone, lt_div_iff₀ (by positivity), ← mul_div_assoc, div_mul_eq_mul_div,
      div_lt_one hden]
    rw [show (2 : ℚ) ^ 1075 = 2 ^ 1074 * 2 from pow_succ 2 1074] at hcast
    generalize (2 : ℚ) ^ 1074 = units at hcast ⊢
    linarith
  have hnonneg : (0 : ℚ) ≤ num / den := by positivity
  have hzero := Binary64.valueOf_zero
  exact Binary64.nearest_of_between (by decide) (by linarith) (by linarith) (.inl rfl)
    (fun _ => by linarith) (fun h => absurd h (by decide)) fun _ => Even.zero

/-- **A decimal number is rounded to the nearest mark**, also where this is settled by its exponent
alone. -/
theorem nearest_toBinary64 (d : Decimal) : Nearest |d.value| d.toBinary64.magnitude := by
  rw [abs_value]
  unfold toBinary64
  split
  · next hzero =>
    rw [hzero, Nat.cast_zero, zero_mul]
    exact Binary64.nearest_zero
  next hdigits =>
  split
  -- With an exponent beyond 400 the number is larger than every finite double.
  · next hlarge =>
    refine Binary64.nearest_infinity ?_
    rw [Binary64.valueOf_infinityMagnitude]
    have hone : (1 : ℚ) ≤ d.digits := Nat.one_le_cast.mpr (Nat.pos_of_ne_zero hdigits)
    calc (2 : ℚ) ^ 1024 ≤ 2 ^ (3 * 401) := pow_le_pow_right₀ (by norm_num) (by norm_num)
      _ = (2 ^ 3) ^ 401 := pow_mul 2 3 401
      _ ≤ 10 ^ 401 := pow_le_pow_left₀ (by norm_num) (by norm_num) 401
      _ = 10 ^ (401 : ℤ) := (zpow_natCast 10 401).symm
      _ ≤ 10 ^ d.exponent := zpow_le_zpow_right₀ (by norm_num) (by omega)
      _ ≤ d.digits * 10 ^ d.exponent := le_mul_of_one_le_left (by positivity) hone
  split
  -- With an exponent so small the digits cannot bring the number up to half a unit again: each ten
  -- is more than three halvings.
  · next hsmall =>
    obtain ⟨k, hk⟩ : ∃ k : Nat, d.exponent = -k := ⟨(-d.exponent).toNat, by omega⟩
    rw [hk, zpow_neg, zpow_natCast, ← div_eq_mul_inv, ← Nat.cast_ofNat, ← Nat.cast_pow]
    refine nearest_zero_of_lt ?_
    have hlog : ∀ n, d.digits * 2 ^ n < 2 ^ (d.digits.log2 + 1 + n) := fun n => by
      rw [Nat.pow_add]
      exact Nat.mul_lt_mul_of_pos_right Nat.lt_log2_self (Nat.two_pow_pos n)
    calc d.digits * 2 ^ 1075 < 2 ^ (d.digits.log2 + 1 + 1075) := hlog 1075
      _ ≤ 2 ^ (3 * k) := Nat.pow_le_pow_right (by decide) (by omega)
      _ = 8 ^ k := Nat.pow_mul 2 3 k
      _ ≤ 10 ^ k := Nat.pow_le_pow_left (by decide) k
  split
  -- All other numbers are ratios of whole numbers and are rounded as such.
  · next hwhole =>
    obtain ⟨k, hk⟩ : ∃ k : Nat, d.exponent = k := ⟨d.exponent.toNat, by omega⟩
    have h := Binary64.nearest_roundRatio (d.digits * 10 ^ k) Nat.one_pos
    rw [hk, Int.toNat_natCast, zpow_natCast]
    rwa [Nat.cast_one, div_one, Nat.cast_mul, Nat.cast_pow, Nat.cast_ofNat] at h
  · next hfraction =>
    obtain ⟨k, hk⟩ : ∃ k : Nat, d.exponent = -k := ⟨(-d.exponent).toNat, by omega⟩
    have h := Binary64.nearest_roundRatio d.digits (Nat.pow_pos (n := k) (show 0 < 10 by decide))
    rw [hk, neg_neg, Int.toNat_natCast, zpow_neg, zpow_natCast, ← div_eq_mul_inv]
    rwa [Nat.cast_pow, Nat.cast_ofNat] at h

/-- Sign and nearest mark together: reading a numeral rounds once. -/
theorem isRounded_toBinary64 (d : Decimal) : d.toBinary64.IsRounded d.value where
  sign := by
    rw [negative_toBinary64]
    exact d.signFits_value
  nearest := d.nearest_toBinary64

end Decimal

end Easel
