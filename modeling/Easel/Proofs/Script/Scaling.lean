import Easel.Proofs.Numeric.Truncation
import Easel.Script.Session
import Mathlib.Algebra.Order.Floor.Ring
import Mathlib.Data.Rat.Floor

/-!
# Scaling

A number of a script becomes a pixel in three steps: it is multiplied by the unit and rounded, cut
to an integer, and kept within the bounds of coordinates. All in all the pixel is the floor or the
ceiling of the exact product, and larger numbers have no smaller pixels.

* `Coord.ofBinary64_bounds` — no whole number within the bounds is crossed;
* `Binary64.isNaN_mul_iff`, `Binary64.mul_of_not_isFinite` — products with infinities and NaNs;
* `Script.Settings.scale_approximates` — what scaling does to each number.
-/

namespace Easel

namespace Binary64

variable {x y : Binary64}

/-! ### Infinite factors -/

/-- The default NaN is one. -/
theorem isNaN_nan : nan.IsNaN := by decide

/-- Infinities are numbers. -/
theorem not_isNaN_infinity (negative : Bool) : ¬ (infinity negative).IsNaN :=
  Nat.lt_irrefl infinityMagnitude

/-- A double is finite, infinite or not a number. -/
theorem isFinite_or (x : Binary64) : x.IsFinite ∨ x.IsInfinite ∨ x.IsNaN :=
  Nat.lt_trichotomy x.magnitude infinityMagnitude

/-- What a number is rounded to is a number. -/
theorem IsRounded.not_isNaN {p : ℚ} (h : x.IsRounded p) : ¬ x.IsNaN := Nat.not_lt.mpr h.nearest.le

/-- Zeros are not infinite. -/
theorem not_isZero_of_isInfinite (h : x.IsInfinite) : ¬ x.IsZero := fun hzero =>
  absurd (hzero.symm.trans h) (by decide)

/-- Zeros are finite. -/
theorem isFinite_of_isZero (h : x.IsZero) : x.IsFinite := by
  unfold IsFinite
  rw [show x.magnitude = 0 from h]
  decide

/-- **A product is no number** if a factor is none, or if infinity meets zero. -/
theorem isNaN_mul_iff : (x * y).IsNaN ↔
    x.IsNaN ∨ y.IsNaN ∨ (x.IsInfinite ∧ y.IsZero) ∨ (x.IsZero ∧ y.IsInfinite) := by
  show (mul x y).IsNaN ↔ _
  unfold mul
  dsimp only
  split
  · next hnan => exact iff_of_true isNaN_nan (hnan.elim .inl fun h => .inr (.inl h))
  next hnan =>
  rw [or_iff_right (fun h => hnan (.inl h)), or_iff_right (fun h => hnan (.inr h))]
  split
  · next hinfinite =>
    split
    · next hzero =>
      refine iff_of_true isNaN_nan ?_
      -- The factor that is zero is not the infinite one.
      rcases hinfinite with hx | hy
      · exact .inl ⟨hx, hzero.resolve_left (not_isZero_of_isInfinite hx)⟩
      · exact .inr ⟨hzero.resolve_right (not_isZero_of_isInfinite hy), hy⟩
    · next hzero =>
      exact iff_of_false (not_isNaN_infinity _) fun h =>
        hzero (h.elim (fun h => .inr h.2) fun h => .inl h.1)
  · next hinfinite =>
    exact iff_of_false (Nat.not_lt.mpr (roundRatio_le _ _)) fun h =>
      hinfinite (h.elim (fun h => .inl h.1) fun h => .inr h.2)

/-- Where a factor is not finite, a product is infinite if it is a number at all, and its sign is
that of the factors together. -/
theorem mul_of_not_isFinite (h : ¬ (x.IsFinite ∧ y.IsFinite)) (hnan : ¬ (x * y).IsNaN) :
    x * y = infinity (x.negative != y.negative) := by
  rw [isNaN_mul_iff] at hnan
  have hfactors : ¬ (x.IsNaN ∨ y.IsNaN) := fun hor => hnan (hor.imp_right .inl)
  have hinfinite : x.IsInfinite ∨ y.IsInfinite := by
    by_contra hnone
    refine h ⟨?_, ?_⟩
    · exact (isFinite_or x).resolve_right fun h => h.elim (fun h => hnone (.inl h)) fun h =>
        hfactors (.inl h)
    · exact (isFinite_or y).resolve_right fun h => h.elim (fun h => hnone (.inr h)) fun h =>
        hfactors (.inr h)
  -- A zero would have met infinity, and there would be no product.
  have hzero : ¬ (x.IsZero ∨ y.IsZero) := by
    rintro (hx | hy)
    · have hy := hinfinite.resolve_left (not_isInfinite_of_isFinite (isFinite_of_isZero hx))
      exact hnan (.inr (.inr (.inr ⟨hx, hy⟩)))
    · have hx := hinfinite.resolve_right (not_isInfinite_of_isFinite (isFinite_of_isZero hy))
      exact hnan (.inr (.inr (.inl ⟨hx, hy⟩)))
  show mul x y = _
  unfold mul
  dsimp only
  rw [if_neg hfactors, if_pos hinfinite, if_neg hzero]

/-- The sign of a factor is the sign of the product. -/
theorem neg_mul_of_isFinite (hx : x.IsFinite) (hy : y.IsFinite) : -x * y = -(x * y) := by
  have hneg : (-x).IsFinite := hx
  rw [mul_of_isFinite hx hy, mul_of_isFinite hneg hy]
  refine Binary64.ext ?_ rfl
  show ((!x.negative) != y.negative) = !(x.negative != y.negative)
  exact Bool.not_bne _ _

end Binary64

/-! ### Coordinates -/

namespace Coord

variable {x y : Binary64} {p q : ℚ}

/-- A coordinate is the integer part of the number, kept within the bounds. -/
theorem ofBinary64_val (h : ¬ x.IsNaN) :
    (ofBinary64 x).val = max (-2147483648) (min x.truncate 2147483647) := by
  unfold ofBinary64
  rw [if_neg h, clamp_val]

/-- **Neither rounding nor a bound carries a number across a whole number that is a coordinate.** -/
theorem ofBinary64_bounds (h : x.IsRounded p) {n : ℤ} (hlow : -2147483648 ≤ n)
    (hhigh : n ≤ 2147483647) :
    (n ≤ p → n ≤ (ofBinary64 x).val) ∧ (p ≤ n → (ofBinary64 x).val ≤ n) := by
  have hbounds := @Binary64.IsRounded.truncate_bounds _ _ h n (by omega)
  rw [ofBinary64_val h.not_isNaN]
  refine ⟨fun hle => ?_, fun hle => ?_⟩
  · have := hbounds.1 hle
    omega
  · have := hbounds.2 hle
    omega

/-- Larger numbers have no smaller coordinates. -/
theorem ofBinary64_mono (hx : x.IsRounded p) (hy : y.IsRounded q) (hle : p ≤ q) :
    ofBinary64 x ≤ ofBinary64 y := by
  have htruncate := hx.truncate_mono hy hle
  rw [le_iff, ofBinary64_val hx.not_isNaN, ofBinary64_val hy.not_isNaN]
  omega

/-- The sign is kept, unless it is lost at the lower bound, which has no counterpart. -/
-- Cutting takes the same away from both signs, so only the bounds can tell them apart.
theorem ofBinary64_neg (h : x.IsRounded p) (hx : (ofBinary64 x).val ≠ -2147483648)
    (hneg : (ofBinary64 (-x)).val ≠ -2147483648) : (ofBinary64 (-x)).val = -(ofBinary64 x).val := by
  rw [ofBinary64_val h.not_isNaN] at hx ⊢
  rw [ofBinary64_val h.neg.not_isNaN, Binary64.truncate_neg] at hneg ⊢
  omega

/-- Numbers from the upper bound on stop there. -/
theorem ofBinary64_of_ge (h : x.IsRounded p) (hge : 2147483647 ≤ p) :
    (ofBinary64 x).val = 2147483647 :=
  Int.le_antisymm (ofBinary64 x).val_le
    ((@ofBinary64_bounds x p h 2147483647 (by decide) (by decide)).1 (by exact_mod_cast hge))

/-- Numbers from the lower bound down stop there. -/
theorem ofBinary64_of_le (h : x.IsRounded p) (hle : p ≤ -2147483648) :
    (ofBinary64 x).val = -2147483648 :=
  Int.le_antisymm
    ((@ofBinary64_bounds x p h (-2147483648) (by decide) (by decide)).2 (by exact_mod_cast hle))
    (ofBinary64 x).le_val

/-- Within the bounds the coordinate is next to the number: its floor or its ceiling. Rounding may
carry it to a whole number, but not across one. -/
theorem ofBinary64_eq_floor_or_ceil (h : x.IsRounded p) (hlow : -2147483648 < p)
    (hhigh : p < 2147483647) :
    (ofBinary64 x).val = ⌊p⌋ ∨ (ofBinary64 x).val = ⌈p⌉ := by
  have hfloor : -2147483648 ≤ ⌊p⌋ := Int.le_floor.mpr (by exact_mod_cast hlow.le)
  have hceil : ⌈p⌉ ≤ 2147483647 := Int.ceil_le.mpr (by exact_mod_cast hhigh.le)
  have hnext := Int.ceil_le_floor_add_one p
  have horder := Int.floor_le_ceil p
  have hbelow := (ofBinary64_bounds h hfloor (by omega)).1 (Int.floor_le p)
  have habove := (ofBinary64_bounds h (by omega) hceil).2 (Int.le_ceil p)
  omega

/-- Within the bounds the coordinate is less than one away from the number. -/
theorem abs_ofBinary64_sub_lt_one (h : x.IsRounded p) (hlow : -2147483648 < p)
    (hhigh : p < 2147483647) : |((ofBinary64 x).val : ℚ) - p| < 1 := by
  have hfloor := Int.lt_floor_add_one p
  have hfloor' := Int.floor_le p
  have hceil := Int.ceil_lt_add_one p
  have hceil' := Int.le_ceil p
  rw [abs_lt]
  rcases ofBinary64_eq_floor_or_ceil h hlow hhigh with hval | hval
  · rw [hval]
    constructor <;> linarith
  · rw [hval]
    constructor <;> linarith

/-- Infinities stop at the bounds. -/
theorem ofBinary64_infinity (negative : Bool) : (ofBinary64 (.infinity negative)).val =
    if negative then -2147483648 else 2147483647 := by
  cases negative <;> decide +kernel

end Coord

/-! ### Pixels -/

namespace Script.Settings

/-- **Scaling approximates the exact product by a neighbouring whole number and keeps the order.**
Nothing is asked of the unit: where it or the number is not finite, the last two statements say what
comes of it. -/
theorem scale_approximates (settings : Settings) :
    -- The product of finite numbers is rounded once, to nearest, and then:
    (∀ c : Binary64, c.IsFinite → settings.unit.IsFinite → ∀ p, p = c.value * settings.unit.value →
      (|p| < 2 ^ 1024 - 2 ^ 970 → (c * settings.unit).IsNearest p) ∧
      (2 ^ 1024 - 2 ^ 970 ≤ |p| → (c * settings.unit).IsInfinite) ∧
      -- the pixel stops at the bounds,
      (2147483647 ≤ p → (settings.scale c).val = 2147483647) ∧
      (p ≤ -2147483648 → (settings.scale c).val = -2147483648) ∧
      -- and between them it is a neighbour of the product, or the product itself;
      (-2147483648 < p → p < 2147483647 →
        ((settings.scale c).val = ⌊p⌋ ∨ (settings.scale c).val = ⌈p⌉) ∧
        (∀ n : ℤ, p = n → (settings.scale c).val = n) ∧
        (0 ≤ p → 0 ≤ (settings.scale c).val) ∧ (p ≤ 0 → (settings.scale c).val ≤ 0) ∧
        |(settings.scale c).val - p| < 1) ∧
      -- the other sign gives the other pixel.
      ((settings.scale c).val ≠ -2147483648 → (settings.scale (-c)).val ≠ -2147483648 →
        (settings.scale (-c)).val = -(settings.scale c).val)) ∧
    -- Larger numbers have larger pixels, or smaller ones where the unit is negative.
    (∀ c₁ c₂ : Binary64, c₁.IsFinite → c₂.IsFinite → settings.unit.IsFinite → c₁.value ≤ c₂.value →
      (0 ≤ settings.unit.value → settings.scale c₁ ≤ settings.scale c₂) ∧
      (settings.unit.value ≤ 0 → settings.scale c₂ ≤ settings.scale c₁)) ∧
    -- Infinities end at the bounds, and what is no number at zero.
    (∀ c : Binary64, ¬ (c.IsFinite ∧ settings.unit.IsFinite) →
      ((c * settings.unit).IsNaN → (settings.scale c).val = 0) ∧
      (¬ (c * settings.unit).IsNaN → (settings.scale c).val =
        if c.negative != settings.unit.negative then -2147483648 else 2147483647)) ∧
    (∀ c : Binary64, (c * settings.unit).IsNaN ↔ c.IsNaN ∨ settings.unit.IsNaN ∨
      (c.IsInfinite ∧ settings.unit.IsZero) ∨ (c.IsZero ∧ settings.unit.IsInfinite)) := by
  refine ⟨fun c hc hunit p hp => ?_,
    fun c₁ c₂ hc₁ hc₂ hunit hle => ⟨fun hpos => ?_, fun hneg => ?_⟩,
    fun c hfinite => ⟨fun hnan => ?_, fun hnan => ?_⟩, fun c => Binary64.isNaN_mul_iff⟩
  · have hrounded : (c * settings.unit).IsRounded p := hp ▸ Binary64.isRounded_mul hc hunit
    refine ⟨hrounded.isNearest, fun hge => ?_, Coord.ofBinary64_of_ge hrounded,
      Coord.ofBinary64_of_le hrounded, fun hlow hhigh => ⟨?_, fun n hn => ?_, fun hpos => ?_,
        fun hneg => ?_, ?_⟩, fun hscale hmirrored => ?_⟩
    · have hnot : ¬ (c * settings.unit).IsFinite := fun hfinite =>
        absurd (hrounded.isFinite_iff.mp hfinite) (not_lt.mpr hge)
      exact Nat.le_antisymm hrounded.nearest.le (Nat.not_lt.mp hnot)
    · exact Coord.ofBinary64_eq_floor_or_ceil hrounded hlow hhigh
    · -- The floor and the ceiling of a whole number are the number.
      have hneighbour := Coord.ofBinary64_eq_floor_or_ceil hrounded hlow hhigh
      rwa [hn, Int.floor_intCast, Int.ceil_intCast, or_self] at hneighbour
    · exact (Coord.ofBinary64_bounds hrounded (by decide) (by decide)).1 (by exact_mod_cast hpos)
    · exact (Coord.ofBinary64_bounds hrounded (by decide) (by decide)).2 (by exact_mod_cast hneg)
    · exact Coord.abs_ofBinary64_sub_lt_one hrounded hlow hhigh
    · unfold scale at hscale hmirrored ⊢
      rw [Binary64.neg_mul_of_isFinite hc hunit] at hmirrored ⊢
      exact Coord.ofBinary64_neg hrounded hscale hmirrored
  -- The order of the exact products is kept by rounding and by cutting.
  · exact Coord.ofBinary64_mono (Binary64.isRounded_mul hc₁ hunit)
      (Binary64.isRounded_mul hc₂ hunit) (mul_le_mul_of_nonneg_right hle hpos)
  · exact Coord.ofBinary64_mono (Binary64.isRounded_mul hc₂ hunit)
      (Binary64.isRounded_mul hc₁ hunit) (mul_le_mul_of_nonpos_right hle hneg)
  · unfold scale Coord.ofBinary64
    rw [if_pos hnan, Coord.zero_val]
  · unfold scale
    rw [Binary64.mul_of_not_isFinite hfinite hnan, Coord.ofBinary64_infinity]

end Script.Settings

end Easel
