import Easel.Proofs.Numeric.Truncation

/-!
# Rounding twice

A whole number that is divided by 400, rounded, multiplied by 400 and rounded again does not always
come back. Where it does not, something right before it comes back, and its integer part is less by
one. Whether this happens is a matter of a remainder modulo 25.

* `Nearest.lt_markOf_iff` — what is rounded to less than a whole number;
* `FallsShort` — the remainder; `product_lt_markOf_iff` — it decides;
* `whole_product` — the integer part that is left.
-/

namespace Easel.Binary64

/-! ### Whole numbers and what is before them -/

section Before

variable {p : ℚ} {a b m n : Nat}

/-- What is nearer to one mark than to another one beyond it is not rounded to the latter. -/
theorem Nearest.lt_of_nearer (h : Nearest p m) (hab : a < b) (hb : b ≤ infinityMagnitude)
    (hlt : 2 * p < valueOf a + valueOf b) : m < b := by
  obtain ⟨k, rfl⟩ : ∃ k, b = k + 1 := ⟨b - 1, by omega⟩
  have hle := valueOf_strictMono.monotone (Nat.le_of_lt_succ hab)
  exact (h.lt_succ_iff hb).mpr (.inl (by linarith))

/-- What is rounded to less than a whole number of fewer than 53 bits is what is nearer to the mark
before it. In the middle it would be rounded up, since the mark of the whole number is even. -/
theorem Nearest.lt_markOf_iff (h : Nearest p m) (hpos : 0 < n) (hlog : n.log2 ≤ 51) :
    m < markOf n ↔ 2 ^ shift (markOf n - 1) < 2 * (n - p) * unitsPerOne := by
  have hbounds := bounds_of_log2 hpos (by omega)
  obtain ⟨k, hk⟩ : ∃ k, markOf n = k + 1 := ⟨markOf n - 1, by unfold markOf; omega⟩
  -- The last bit of a whole number is not the last one of its mark.
  have hodd : ¬ Even k := by
    have heven : Even (markOf n) := by
      obtain ⟨places, hplaces⟩ :
          ∃ places, 52 - n.log2 = places + 1 := ⟨51 - n.log2, by omega⟩
      have htwo : n * 2 ^ (52 - n.log2) = 2 * (n * 2 ^ places) := by
        rw [hplaces, Nat.pow_succ]
        ring
      rw [markOf, htwo, Nat.even_iff]
      omega
    rw [hk] at heven
    exact Nat.even_add_one.mp heven
  -- The gap before the whole number, in units.
  have hgap : valueOf k * unitsPerOne + 2 ^ shift k = n * unitsPerOne := by
    have hvalue := valueOf_markOf hpos (show n.log2 ≤ 52 by omega)
    rw [← hvalue, hk, valueOf, valueOf, div_mul_cancel₀ _ unitsPerOne_pos.ne',
      div_mul_cancel₀ _ unitsPerOne_pos.ne', unitsOf_succ]
    push_cast
    rfl
  have hlt : k < infinityMagnitude := by
    have := markOf_lt hpos (show n.log2 ≤ 52 by omega)
    omega
  have hvalue := valueOf_markOf hpos (show n.log2 ≤ 52 by omega)
  rw [hk] at hvalue ⊢
  rw [h.lt_succ_iff hlt, or_iff_left (fun h => hodd h.2), Nat.add_sub_cancel, hvalue,
    ← mul_lt_mul_iff_left₀ unitsPerOne_pos]
  constructor <;> intro h <;> linarith

end Before

/-! ### Divided by 400 and multiplied again -/

/-- The whole numbers that do not come back. Those are in the upper part of their binade, and the
quotient has 53 bits if the number is shifted to the left by as many places as here. What is then
lost by rounding the quotient down is a remainder modulo 25, since the rest of 400 is a power of
two. -/
def FallsShort (n : Nat) : Prop :=
  25 * 2 ^ n.log2 ≤ 16 * n ∧ 8 < n * 2 ^ (56 - n.log2) % 25 ∧ n * 2 ^ (56 - n.log2) % 25 < 13

instance (n : Nat) : Decidable (FallsShort n) := inferInstanceAs (Decidable (_ ∧ _))

section Product

variable {k m n : Nat}

/-- By how much a number is rounded, as a whole number: its remainder, or what the remainder lacks.
There is no tie, since 25 is odd. -/
theorem sub_roundDiv (num : Nat) : (num : ℤ) - 25 * roundDiv num 25 =
    if num % 25 < 13 then ((num % 25 : Nat) : ℤ) else (num % 25 : Nat) - 25 := by
  have hround : roundDiv num 25 = if num % 25 < 13 then num / 25 else num / 25 + 1 := by
    unfold roundDiv
    dsimp only
    split <;> split <;> omega
  rw [hround]
  split <;> omega

/-- A power of two is told by its significand. -/
theorem eq_two_pow_iff (hlog : n.log2 ≤ 52) :
    n = 2 ^ n.log2 ↔ n * 2 ^ (52 - n.log2) = 0x10000000000000 := by
  have hpow : 2 ^ n.log2 * 2 ^ (52 - n.log2) = 0x10000000000000 := by
    rw [← Nat.pow_add, Nat.add_sub_cancel' hlog]
  rw [← hpow, Nat.mul_left_inj (Nat.two_pow_pos _).ne']

/-- From a whole number back to the mark before it it is one unit of the last place, or half of one
for a power of two. -/
theorem shift_before_markOf (hpos : 0 < n) (hlog : n.log2 ≤ 52) :
    shift (markOf n - 1) = if n = 2 ^ n.log2 then 1021 + n.log2 else 1022 + n.log2 := by
  have hbounds := bounds_of_log2 hpos hlog
  simp only [eq_two_pow_iff hlog]
  unfold markOf shift
  split <;> omega

/-- A common power of two does not matter. -/
theorem two_pow_lt_iff (bits places : Nat) (rest : ℤ) :
    (2 : ℤ) ^ (bits + places) < 32 * rest * 2 ^ places ↔ (2 : ℤ) ^ bits < 32 * rest := by
  rw [pow_add]
  exact mul_lt_mul_iff_left₀ (pow_pos (by norm_num) places)

/-- Dividing by 16 only moves the point, so a number that is shifted far enough to the left stays a
whole number of units. -/
theorem shifted_eq (n : Nat) {left places all : Nat} (h : 4 + left + places = all) :
    16 * (n * 2 ^ left) * 2 ^ places = n * (1 <<< all) := by
  rw [Nat.one_shiftLeft, ← h, Nat.pow_add, Nat.pow_add]
  ring

/-- The number, shifted to the left until its quotient by 25 has 53 bits, with the places that its
quotient by 400 then has. How much the quotient is rounded down decides, and only in the upper part
of a binade it can be enough. -/
theorem exists_places (hpos : 0 < n) (hlog : n.log2 ≤ 50) : ∃ num places : Nat,
    25 * 0x10000000000000 ≤ num ∧ num < 25 * 0x20000000000000 ∧ places ≤ 1065 ∧
      16 * num * 2 ^ places = n * unitsPerOne ∧
      ((2 : ℤ) ^ shift (markOf n - 1) < 32 * (num - 25 * roundDiv num 25) * 2 ^ places ↔
        FallsShort n) := by
  have hbounds := bounds_of_log2 hpos (show n.log2 ≤ 52 by omega)
  have hshift := shift_before_markOf hpos (show n.log2 ≤ 52 by omega)
  have hpow : ∀ c, n * 2 ^ (c + (52 - n.log2)) = 2 ^ c * (n * 2 ^ (52 - n.log2)) := fun c => by
    rw [Nat.pow_add, Nat.mul_left_comm]
  have hfull : 25 * 2 ^ n.log2 * 2 ^ (52 - n.log2) = 25 * 0x10000000000000 := by
    rw [Nat.mul_assoc, ← Nat.pow_add, Nat.add_sub_cancel' (by omega)]
  by_cases hupper : 25 * 2 ^ n.log2 ≤ 16 * n
  -- In the upper part the quotient has 53 bits after 56 places.
  · have hnum := hpow 4
    rw [show 4 + (52 - n.log2) = 56 - n.log2 by omega] at hnum
    have hlow : 25 * 0x10000000000000 ≤ 16 * (n * 2 ^ (52 - n.log2)) := by
      rw [← hfull, ← Nat.mul_assoc]
      exact Nat.mul_le_mul_right _ hupper
    -- This is not a power of two.
    have hpower : n ≠ 2 ^ n.log2 := by
      intro heq
      rw [← heq] at hupper
      omega
    refine ⟨n * 2 ^ (56 - n.log2), 1014 + n.log2, by omega, by omega, by omega, ?_, ?_⟩
    · exact @shifted_eq n _ _ 1074 (by omega)
    · rw [hshift, if_neg hpower, show 1022 + n.log2 = 8 + (1014 + n.log2) by omega, two_pow_lt_iff,
        sub_roundDiv, FallsShort, and_iff_right hupper]
      split <;> omega
  -- In the lower part it takes one place more, and so twice as much would have to be lost.
  · have hnum := hpow 5
    rw [show 5 + (52 - n.log2) = 57 - n.log2 by omega] at hnum
    have hhigh : 16 * (n * 2 ^ (52 - n.log2)) < 25 * 0x10000000000000 := by
      rw [← hfull, ← Nat.mul_assoc]
      exact Nat.mul_lt_mul_of_pos_right (Nat.not_le.mp hupper) (Nat.two_pow_pos _)
    refine ⟨n * 2 ^ (57 - n.log2), 1013 + n.log2, by omega, by omega, by omega, ?_, ?_⟩
    · exact @shifted_eq n _ _ 1074 (by omega)
    · rw [FallsShort, iff_false_intro (fun h => hupper h.1 : ¬ (_ ∧ _)), iff_false]
      rw [hshift]
      split
      · -- A power of two is rounded up.
        next hpower =>
        have hremainder : n * 2 ^ (57 - n.log2) % 25 = 22 := by
          rw [hnum, (eq_two_pow_iff (show n.log2 ≤ 52 by omega)).mp hpower]
          rfl
        rw [show 1021 + n.log2 = 8 + (1013 + n.log2) by omega, two_pow_lt_iff, sub_roundDiv,
          hremainder]
        decide
      -- In the lower part at most twelve of 25 are lost, which is not enough.
      · rw [show 1022 + n.log2 = 9 + (1013 + n.log2) by omega, two_pow_lt_iff, sub_roundDiv]
        split <;> omega

/-- **How far the exact product is from the whole number**, and whether that is more than half of
the way to the mark before it. The first rounding is exact up to a remainder; 400 times that
remainder is what the product misses. -/
theorem exists_error (hpos : 0 < n) (hlog : n.log2 ≤ 50) (hk : Nearest (n / 400) k) :
    ∃ (rest : ℤ) (places : Nat), |rest| ≤ 12 ∧ places ≤ 1065 ∧
      (n - 400 * valueOf k) * unitsPerOne = 16 * rest * 2 ^ places ∧
      ((2 : ℤ) ^ shift (markOf n - 1) < 32 * rest * 2 ^ places ↔ FallsShort n) := by
  obtain ⟨num, places, hlow, hhigh, hplaces, hunits, hshort⟩ := exists_places hpos hlog
  have hrest : |(num : ℤ) - 25 * roundDiv num 25| ≤ 12 := by
    rw [sub_roundDiv, abs_le]
    split <;> omega
  refine ⟨num - 25 * roundDiv num 25, places, hrest, hplaces, ?_, hshort⟩
  have hcast : (n : ℚ) * unitsPerOne = 16 * num * 2 ^ places := by exact_mod_cast hunits.symm
  have hquotient : (n : ℚ) / 400 = num * 2 ^ places / ((25 : Nat) * unitsPerOne) := by
    have hne := unitsPerOne_pos.ne'
    rw [Nat.cast_ofNat, div_eq_div_iff (by norm_num) (mul_ne_zero (by norm_num) hne)]
    linarith
  -- The rounded quotient still has 53 bits, or one more if it has become a power of two.
  have hbounds : 0x10000000000000 ≤ roundDiv num 25 ∧ roundDiv num 25 ≤ 0x20000000000000 := by
    have := div_le_roundDiv num 25
    have := roundDiv_le_div_add_one num 25
    omega
  -- So it is known which mark the quotient is rounded to.
  obtain rfl : k = places * 0x10000000000000 + roundDiv num 25 := by
    have hfinite : places * 0x10000000000000 + roundDiv num 25 ≤ infinityMagnitude := by
      unfold infinityMagnitude
      omega
    have hnear := @nearest_of_quotient num 25 places (by decide) (by omega) (.inr (by omega))
    rw [Nat.min_eq_left hfinite, ← hquotient] at hnear
    exact hk.unique hnear
  have hvalue : valueOf (places * 0x10000000000000 + roundDiv num 25) * unitsPerOne =
      roundDiv num 25 * 2 ^ places := by
    rw [valueOf, div_mul_cancel₀ _ unitsPerOne_pos.ne', unitsOf_add (.inr hbounds.1) hbounds.2]
    push_cast
    rfl
  calc ((n : ℚ) - 400 * valueOf (places * 0x10000000000000 + roundDiv num 25)) * unitsPerOne
      = n * unitsPerOne -
          400 * (valueOf (places * 0x10000000000000 + roundDiv num 25) * unitsPerOne) := by ring
    _ = 16 * num * 2 ^ places - 400 * (roundDiv num 25 * 2 ^ places) := by rw [hcast, hvalue]
    _ = 16 * (num - 25 * roundDiv num 25 : ℤ) * 2 ^ places := by
      push_cast
      ring

/-- **The remainder decides whether the product is rounded to less than the whole number.** Nothing
else of the number matters but the part of its binade that it is in. -/
theorem product_lt_markOf_iff (hpos : 0 < n) (hlog : n.log2 ≤ 50) (hk : Nearest (n / 400) k)
    (hm : Nearest (400 * valueOf k) m) : m < markOf n ↔ FallsShort n := by
  obtain ⟨rest, places, -, -, herror, hshort⟩ := exists_error hpos hlog hk
  rw [hm.lt_markOf_iff hpos (by omega), mul_assoc, herror, ← hshort]
  have hdouble : (2 : ℚ) * (16 * rest * 2 ^ places) = (32 * rest * 2 ^ places : ℤ) := by
    push_cast
    ring
  rw [hdouble]
  exact_mod_cast Iff.rfl

/-- In any case the exact product is close to it, so no other whole number than the one before comes
into question. -/
theorem abs_sub_product_lt (hpos : 0 < n) (hlog : n.log2 ≤ 50) (hk : Nearest (n / 400) k) :
    |(n : ℚ) - 400 * valueOf k| < 1 / 2 := by
  obtain ⟨rest, places, hrest, hplaces, herror, -⟩ := exists_error hpos hlog hk
  have hsmall : ∀ {places top : Nat}, 9 + places ≤ top → 384 * 2 ^ places < 1 <<< top := by
    -- The error is a number of units that is small against one.
    intro places top h
    calc 384 * 2 ^ places < 2 ^ 9 * 2 ^ places :=
          Nat.mul_lt_mul_of_pos_right (by decide) (Nat.two_pow_pos places)
      _ = 2 ^ (9 + places) := (Nat.pow_add 2 9 places).symm
      _ ≤ 1 <<< top := by
        rw [Nat.one_shiftLeft]
        exact Nat.pow_le_pow_right (by decide) h
  have hunits : (384 : ℚ) * 2 ^ places < unitsPerOne := by
    exact_mod_cast @hsmall places 1074 (by omega)
  have hrest' : |(rest : ℚ)| ≤ 12 := by exact_mod_cast hrest
  have hpow : (0 : ℚ) < 2 ^ places := pow_pos (by norm_num) places
  refine lt_of_mul_lt_mul_right ?_ unitsPerOne_pos.le
  calc |(n : ℚ) - 400 * valueOf k| * unitsPerOne = |16 * (rest : ℚ) * 2 ^ places| := by
        rw [← herror, abs_mul, abs_of_pos unitsPerOne_pos]
    _ = 16 * |(rest : ℚ)| * 2 ^ places := by
        rw [abs_mul, abs_mul, abs_of_pos hpow, abs_of_pos (by norm_num : (0 : ℚ) < 16)]
    _ ≤ 16 * 12 * 2 ^ places :=
        mul_le_mul_of_nonneg_right (mul_le_mul_of_nonneg_left hrest' (by norm_num)) hpow.le
    _ < 1 / 2 * unitsPerOne := by linarith

/-- **The integer part of what comes back** is the whole number, or one less. -/
theorem whole_product (hpos : 0 < n) (hlt : n < 2 ^ 50) (hk : Nearest (n / 400) k)
    (hm : Nearest (400 * valueOf k) m) :
    unitsOf m / unitsPerOne = if FallsShort n then n - 1 else n := by
  have hlog : n.log2 < 50 := (Nat.log2_lt hpos.ne').mpr hlt
  have hlogNext : (n + 1).log2 < 52 := (Nat.log2_lt n.succ_ne_zero).mpr (by omega)
  have hclose := abs_lt.mp (abs_sub_product_lt hpos hlog.le hk)
  have hshort := product_lt_markOf_iff hpos hlog.le hk hm
  have hmark := valueOf_markOf hpos (show n.log2 ≤ 52 by omega)
  split
  -- The product is rounded to something between the number before and the number.
  · next h =>
    have hbelow : valueOf m < n := by
      rw [← hmark]
      exact valueOf_strictMono (hshort.mpr h)
    have habove : ((n - 1 : Nat) : ℚ) ≤ valueOf m := by
      refine hm.natCast_le (by omega) ?_
      rw [Nat.cast_pred hpos]
      linarith
    have hnot : ¬ n ≤ unitsOf m / unitsPerOne := fun hle =>
      absurd (le_whole_iff.mp hle) (not_le.mpr hbelow)
    have hge := le_whole_iff.mpr habove
    omega
  -- It is rounded to the number or to something behind it.
  · next h =>
    have habove : (n : ℚ) ≤ valueOf m := by
      rw [← hmark]
      exact valueOf_strictMono.monotone (Nat.not_lt.mp (hshort.not.mpr h))
    -- The whole number that comes next is further away.
    have hmarkNext : valueOf (markOf (n + 1)) = n + 1 := by
      rw [valueOf_markOf n.succ_pos hlogNext.le]
      push_cast
      rfl
    have horder : markOf n < markOf (n + 1) := by
      rw [← valueOf_strictMono.lt_iff_lt, hmark, hmarkNext]
      exact lt_add_one _
    have hbelow : valueOf m < (n + 1 : Nat) := by
      rw [Nat.cast_add_one, ← hmarkNext]
      refine valueOf_strictMono (hm.lt_of_nearer horder (markOf_lt n.succ_pos hlogNext.le).le ?_)
      rw [hmark, hmarkNext]
      linarith
    have hnot : ¬ n + 1 ≤ unitsOf m / unitsPerOne := fun hle =>
      absurd (le_whole_iff.mp hle) (not_le.mpr hbelow)
    have hge := le_whole_iff.mpr habove
    omega

/-- The first number that does not come back is 29. -/
example : FallsShort 29 ∧ ∀ n < 29, ¬ FallsShort n := by decide +kernel

end Product

end Easel.Binary64
