import Easel.Proofs.Numeric.DoubleRounding
import Easel.Proofs.Script.Grammar
import Easel.Proofs.Script.Scaling

/-!
# Numerals that name whole pixels

With the standard unit one is 400 pixels, so `0.5` names pixel 200. The number is rounded when it is
read, the product is rounded again and then cut to an integer, so a numeral that names a pixel may
land on the one before it, nearer to zero. The first pixel that is missed is 29, named by `0.0725`.

* `NamesPixel` — numerals that name a pixel; `landing`, `LandsOn` — where they land;
* `Settings.scale_standard` — all numerals for one pixel land there;
* `Command.whole_pixels` — what commands do with them; `Command.whole_pixel_missed` — pixel 29.
-/

namespace Easel.Script

open Decimal (Denotes)
open Binary64 (FallsShort)

/-- The token is a numeral for just the number of this pixel, with as many digits as it takes. The
pixel is within the range of coordinates. -/
def NamesPixel (token : String) (n : ℤ) : Prop :=
  (∃ negative v, Denotes token.toList negative v ∧ 400 * v = n) ∧ -2147483648 ≤ n ∧ n ≤ 2147483647

/-- The pixel that is found for a numeral that names one: it may be the neighbour nearer to zero. -/
def landing (n : ℤ) : ℤ := if FallsShort n.natAbs then n - n.sign else n

/-- If the token names a pixel, then this is where it lands. A token that names none lands
anywhere. -/
def LandsOn (token : String) (pixel : Coord) : Prop :=
  ∀ n, NamesPixel token n → pixel.val = landing n

/-! ### The standard unit -/

namespace Settings

/-- The standard unit is a finite double. -/
theorem isFinite_standard_unit : standard.unit.IsFinite := by decide

/-- The standard unit is 400, exactly. -/
theorem value_standard_unit : standard.unit.value = 400 := by
  have hunits : Binary64.unitsOf standard.unit.magnitude = 400 * Binary64.unitsPerOne := by
    decide +kernel
  have hpositive : ¬ standard.unit.negative = true := by decide
  rw [Binary64.value, if_neg hpositive, Binary64.valueOf, hunits, Nat.cast_mul,
    mul_div_cancel_right₀ _ Binary64.unitsPerOne_pos.ne']
  rfl

variable {x : Binary64} {v : ℚ} {n : ℤ}

/-- The absolute value of the integer part of the product: the pixel, or one less where it falls
short. The signs are left to `scale_standard`. -/
theorem whole_mul_unit (hx : x.IsRounded v) (hfinite : x.IsFinite) (hn : 400 * v = n)
    (hpos : 0 < n.natAbs) (hlt : n.natAbs < 2 ^ 50) :
    Binary64.unitsOf (x * standard.unit).magnitude / Binary64.unitsPerOne =
      if FallsShort n.natAbs then n.natAbs - 1 else n.natAbs := by
  have hv : v = n / 400 := by linarith
  have habs : |v| = (n.natAbs : ℚ) / 400 := by
    rw [hv, abs_div, abs_of_pos (by norm_num : (0 : ℚ) < 400), ← Int.cast_abs, Int.abs_eq_natAbs,
      Int.cast_natCast]
  have hquotient := hx.nearest
  have hproduct := (Binary64.isRounded_mul hfinite isFinite_standard_unit).nearest
  rw [habs] at hquotient
  rw [value_standard_unit, abs_mul, Binary64.abs_value, abs_of_pos (by norm_num : (0 : ℚ) < 400),
    mul_comm] at hproduct
  exact Binary64.whole_product hpos hlt hquotient hproduct

/-- The unit is positive, so the product has the sign of the number. -/
theorem negative_mul_unit (hfinite : x.IsFinite) : (x * standard.unit).negative = x.negative := by
  rw [Binary64.mul_of_isFinite hfinite isFinite_standard_unit, Binary64.ofRatio_negative]
  exact Bool.bne_false _

/-- The number of a pixel is far below where doubles end. -/
theorem isFinite_of_pixel (hx : x.IsRounded v) (hn : 400 * v = n) (hlow : -2147483648 ≤ n)
    (hhigh : n ≤ 2147483647) : x.IsFinite := by
  have hlow' : (-2147483648 : ℚ) ≤ n := by exact_mod_cast hlow
  have hhigh' : (n : ℚ) ≤ 2147483647 := by exact_mod_cast hhigh
  refine @Binary64.IsRounded.isFinite_of_le x v hx 2147483648 (by decide) ?_
  rw [Nat.cast_ofNat, abs_le]
  constructor <;> linarith

/-- **Where a numeral for a pixel lands.** Nothing is asked of the double but that it is what the
numeral is rounded to, so all numerals for one pixel land in one place. -/
theorem scale_standard (hx : x.IsRounded v) (hn : 400 * v = n) (hlow : -2147483648 ≤ n)
    (hhigh : n ≤ 2147483647) : (standard.scale x).val = landing n := by
  have hfinite := isFinite_of_pixel hx hn hlow hhigh
  have hproduct := Binary64.isRounded_mul hfinite isFinite_standard_unit
  rcases eq_or_ne n 0 with rfl | hne
  · -- Nothing is lost of zero.
    have hzero : x.value * standard.unit.value = 0 := by
      have hnear := hx.nearest
      rw [show v = 0 by rw [Int.cast_zero] at hn; linarith, abs_zero] at hnear
      have habs : |x.value| = 0 := by
        rw [Binary64.abs_value, hnear.unique Binary64.nearest_zero, Binary64.valueOf_zero]
      rw [abs_eq_zero.mp habs, zero_mul]
    have hbounds := @Coord.ofBinary64_bounds _ _ hproduct 0 (by decide) (by decide)
    rw [hzero, Int.cast_zero] at hbounds
    exact Int.le_antisymm (hbounds.2 le_rfl) (hbounds.1 le_rfl)
  · have hwhole := whole_mul_unit hx hfinite hn (Int.natAbs_pos.mpr hne) (by omega)
    -- The number and its pixel have the same sign, and the pixel is never moved across zero.
    have htruncate : (x * standard.unit).truncate =
        if x.negative then -((if FallsShort n.natAbs then n.natAbs - 1 else n.natAbs : Nat) : ℤ)
        else (if FallsShort n.natAbs then n.natAbs - 1 else n.natAbs : Nat) := by
      unfold Binary64.truncate Binary64.units
      rw [negative_mul_unit hfinite, hwhole]
    show (Coord.ofBinary64 (x * standard.unit)).val = landing n
    rw [Coord.ofBinary64_val hproduct.not_isNaN, htruncate]
    unfold landing
    cases hsign : x.negative with
    | false =>
      have hpos : 0 < n := by
        have hnonneg : (0 : ℚ) ≤ n := by linarith [hx.nonneg hsign]
        have : 0 ≤ n := by exact_mod_cast hnonneg
        omega
      rw [if_neg Bool.false_ne_true, Int.sign_eq_one_of_pos hpos]
      split <;> omega
    | true =>
      have hneg : n < 0 := by
        have hnonpos : (n : ℚ) ≤ 0 := by linarith [hx.nonpos hsign]
        have : n ≤ 0 := by exact_mod_cast hnonpos
        omega
      rw [if_pos rfl, Int.sign_eq_neg_one_of_neg hneg]
      split <;> omega

end Settings

/-! ### Commands -/

namespace Command

variable {token : String} {n : ℤ} {x : Binary64}

/-- A numeral for a pixel is a number that can be read, since its double is finite. -/
theorem isNumeric_of_namesPixel (h : NamesPixel token n) : IsNumeric token := by
  obtain ⟨⟨negative, v, hdenotes, hn⟩, hlow, hhigh⟩ := h
  obtain ⟨d, hd, -, rfl⟩ := Decimal.denotes_iff.mp hdenotes
  have hrounded := d.isRounded_toBinary64
  have hfinite := Settings.isFinite_of_pixel hrounded hn hlow hhigh
  exact ⟨d.toBinary64,
    Decimal.finite?_eq_some_iff.mpr ⟨d, hd, hrounded.isFinite_iff.mp hfinite, rfl⟩⟩

/-- What a token is read as lands where the token does. -/
theorem landsOn_scale (h : Decimal.finite? token = some x) :
    LandsOn token (Settings.standard.scale x) := by
  obtain ⟨d, hd, -, rfl⟩ := Decimal.finite?_eq_some_iff.mp h
  rintro n ⟨⟨negative, v, hdenotes, hn⟩, hlow, hhigh⟩
  obtain ⟨_, hd', -, rfl⟩ := Decimal.denotes_iff.mp hdenotes
  obtain rfl := Option.some.inj (hd.symm.trans hd')
  exact Settings.scale_standard d.isRounded_toBinary64 hn hlow hhigh

/-- **Commands use the pixels that their numerals land on**, which are those that they name unless
they fall short. -/
theorem whole_pixels (text : String) (line : Nat) :
    -- Numerals for pixels are never refused.
    (∀ token n, NamesPixel token n → IsNumeric token) ∧
    -- A figure is added at the pixel that its numerals land on,
    (∀ a b, Text.tokens text = ["figure", a, b] → IsNumeric a → IsNumeric b →
      ∃ command px py, parseLine text line = .ok (some command) ∧ LandsOn a px ∧ LandsOn b py ∧
        ∀ (s : Session) (scenes : Scenes), s.execute .standard scenes command =
          (match scenes.insert s.scene ⟨px, py, .pureRed⟩ with
          | (id, scenes) => ({ s with figures := s.figures ++ [id] }, scenes))) ∧
    -- a move goes as far,
    (∀ a b, Text.tokens text = ["move", a, b] → IsNumeric a → IsNumeric b →
      ∃ command px py, parseLine text line = .ok (some command) ∧ LandsOn a px ∧ LandsOn b py ∧
        ∀ (s : Session) (scenes : Scenes), s.execute .standard scenes command =
          ({ s with moves := s.moves ++ [⟨px, py, s.scene, s.figures⟩] }, scenes)) ∧
    -- and the corners of a rectangle are there.
    (∀ a b c d, Text.tokens text = ["bgrect", a, b, c, d] →
      IsNumeric a → IsNumeric b → IsNumeric c → IsNumeric d →
      ∃ command px py qx qy, parseLine text line = .ok (some command) ∧
        LandsOn a px ∧ LandsOn b py ∧ LandsOn c qx ∧ LandsOn d qy ∧
        ∀ (s : Session) (scenes : Scenes), s.execute .standard scenes command =
          ({ s with overlay? := some (.ofCorners px py qx qy) }, scenes)) := by
  refine ⟨fun token n => isNumeric_of_namesPixel, fun a b htokens => ?_, fun a b htokens => ?_,
    fun a b c d htokens => ?_⟩
  -- In each of the three commands the pixels are the scaled numbers, argument by argument.
  · rintro ⟨x, hx⟩ ⟨y, hy⟩
    refine ⟨.figure x y, _, _, parseLine_eq_command htokens nofun ?_, landsOn_scale hx,
      landsOn_scale hy, fun s scenes => rfl⟩
    rw [List.map_cons, hx, List.map_cons, hy]
    rfl
  · rintro ⟨dx, hdx⟩ ⟨dy, hdy⟩
    refine ⟨.move dx dy, _, _, parseLine_eq_command htokens nofun ?_, landsOn_scale hdx,
      landsOn_scale hdy, fun s scenes => rfl⟩
    rw [List.map_cons, hdx, List.map_cons, hdy]
    rfl
  · rintro ⟨x1, hx1⟩ ⟨y1, hy1⟩ ⟨x2, hx2⟩ ⟨y2, hy2⟩
    refine ⟨.bgrect x1 y1 x2 y2, _, _, _, _, parseLine_eq_command htokens nofun ?_,
      landsOn_scale hx1, landsOn_scale hy1, landsOn_scale hx2, landsOn_scale hy2,
      fun s scenes => rfl⟩
    rw [List.map_cons, hx1, List.map_cons, hy1, List.map_cons, hx2, List.map_cons, hy2]
    rfl

/-- Pixel 29 is missed: its numeral lands on pixel 28. -/
theorem whole_pixel_missed : NamesPixel "0.0725" 29 ∧
    parseLine "figure 0.0725 0.0725" 1 =
      .ok (some (.figure (.ofBits 0x3FB28F5C28F5C28F) (.ofBits 0x3FB28F5C28F5C28F))) ∧
    (Settings.standard.scale (.ofBits 0x3FB28F5C28F5C28F)).val = 28 := by
  -- The numeral and its double are written out; the rest is computed.
  refine ⟨⟨⟨false, 29 / 400, ?_, by norm_num⟩, by decide, by decide⟩, by decide +kernel,
    by decide +kernel⟩
  refine Decimal.denotes_iff.mpr ⟨⟨false, 725, -4⟩, by decide, rfl, ?_⟩
  rw [Decimal.value, if_neg Bool.false_ne_true]
  norm_num

end Command

end Easel.Script
