import Easel.Numeric.Binary64
import Mathlib.Algebra.Order.Field.Power
import Mathlib.Data.Rat.Cast.Order
import Mathlib.Order.Monotone.Basic
import Mathlib.Tactic.FieldSimp
import Mathlib.Tactic.Linarith
import Mathlib.Tactic.NormNum
import Mathlib.Tactic.Positivity
import Mathlib.Tactic.Ring

/-!
# The grid of doubles

The magnitudes of doubles, in their order as numbers, are the marks of a grid on the half line from
zero to `2 ^ 1024`. From each mark to the next it is a power of two, and `Nearest q m` says that `m`
is the mark nearest to `q`, the even one of two equally near.

* `unitsOf_succ` — how far it is from one mark to the next;
* `Nearest` — the nearest mark; `nearest_roundRatio` — rounding a ratio gives it;
* `Nearest.lt_succ_iff` — the marks below a given one are nearest to what lies below a halfway
  point, from which `Nearest.mono` and `Nearest.unique` follow.
-/

namespace Easel

namespace Binary64

/-! ### Marks -/

/-- The first marks are the magnitudes themselves, one unit from each to the next. -/
theorem unitsOf_of_lt {m : Nat} (h : m < 0x10000000000000) : unitsOf m = m := by
  rw [unitsOf, significand, if_pos h, shift, Nat.div_eq_of_lt h]
  rfl

/-- A magnitude by its exponent field and its fraction: the leading bit that is not written down
comes back, and the exponent field says how far it is shifted. -/
theorem unitsOf_normal (places : Nat) {fraction : Nat} (h : fraction < 0x10000000000000) :
    unitsOf ((places + 1) * 0x10000000000000 + fraction) =
      (0x10000000000000 + fraction) * 2 ^ places := by
  have hnormal : ¬ (places + 1) * 0x10000000000000 + fraction < 0x10000000000000 := by omega
  have hfraction : ((places + 1) * 0x10000000000000 + fraction) % 0x10000000000000 = fraction := by
    omega
  have hplaces : ((places + 1) * 0x10000000000000 + fraction) / 0x10000000000000 - 1 = places := by
    omega
  rw [unitsOf, significand, if_neg hnormal, shift, hfraction, hplaces, Nat.shiftLeft_eq]

/-- A significand that is given its places, also if it has 53 bits and one: the carry moves into the
exponent field. This is why rounding may add to a magnitude as to a plain number. -/
theorem unitsOf_add {places r : Nat} (hr : places = 0 ∨ 0x10000000000000 ≤ r)
    (hle : r ≤ 0x20000000000000) :
    unitsOf (places * 0x10000000000000 + r) = r * 2 ^ places := by
  by_cases hsmall : r < 0x10000000000000
  -- A significand of fewer bits than it could have lies on the finest grid.
  · obtain rfl : places = 0 := hr.resolve_right (by omega)
    rw [Nat.zero_mul, Nat.zero_add, unitsOf_of_lt hsmall, Nat.pow_zero, Nat.mul_one]
  · by_cases hcarry : r = 0x20000000000000
    -- The carry makes the fraction zero and the exponent field larger by one.
    · have h := @unitsOf_normal (places + 1) 0 (by omega)
      have hsum : (places + 1 + 1) * 0x10000000000000 + 0 =
          places * 0x10000000000000 + 0x20000000000000 := by omega
      rw [hsum] at h
      rw [hcarry, h, Nat.pow_succ]
      omega
    · obtain ⟨fraction, rfl⟩ : ∃ fraction, r = 0x10000000000000 + fraction :=
        ⟨r - 0x10000000000000, by omega⟩
      have h := @unitsOf_normal places fraction (by omega)
      have hsum : (places + 1) * 0x10000000000000 + fraction =
          places * 0x10000000000000 + (0x10000000000000 + fraction) := by omega
      rwa [hsum] at h

/-- From one mark to the next it is one unit of the last place. Where an exponent field ends, the
step after it is twice as long, and the mark there belongs to both. -/
theorem unitsOf_succ (m : Nat) : unitsOf (m + 1) = unitsOf m + 2 ^ shift m := by
  -- The magnitude is taken apart into places and significand, so that the next one is one
  -- significand further.
  obtain ⟨places, r, hr, hlt, rfl⟩ : ∃ places r, (places = 0 ∨ 0x10000000000000 ≤ r) ∧
      r < 0x20000000000000 ∧ m = places * 0x10000000000000 + r := by
    by_cases hsmall : m < 0x10000000000000
    · exact ⟨0, m, .inl rfl, by omega, by omega⟩
    · exact ⟨m / 0x10000000000000 - 1, 0x10000000000000 + m % 0x10000000000000,
        .inr (by omega), by omega, by omega⟩
  have hshift : shift (places * 0x10000000000000 + r) = places := by
    unfold shift
    omega
  rw [Nat.add_assoc, unitsOf_add (by omega) (by omega), unitsOf_add hr (by omega), hshift,
    Nat.succ_mul]

/-- The marks are in the order of the magnitudes. -/
theorem unitsOf_strictMono : StrictMono unitsOf :=
  strictMono_nat_of_lt_succ fun m => by
    rw [unitsOf_succ]
    exact Nat.lt_add_of_pos_right (Nat.two_pow_pos _)

/-- The unit is no zero, so it may be divided by. -/
theorem unitsPerOne_pos : (0 : ℚ) < unitsPerOne := Nat.cast_pos.mpr (by decide)

/-- The number of units in one is a power of two. -/
theorem cast_unitsPerOne : (unitsPerOne : ℚ) = 2 ^ 1074 := by
  have h : ∀ n, ((1 <<< n : Nat) : ℚ) = 2 ^ n := fun n => by
    rw [Nat.one_shiftLeft, Nat.cast_pow, Nat.cast_ofNat]
  exact h 1074

/-- Where a mark stands. The infinite magnitude is the mark at `2 ^ 1024`. -/
def valueOf (m : Nat) : ℚ := unitsOf m / unitsPerOne

/-- The values of the marks are in the order of their numbers, and no two marks stand at the same
place. -/
theorem valueOf_strictMono : StrictMono valueOf := fun _ _ h =>
  div_lt_div_of_pos_right (Nat.cast_lt.mpr (unitsOf_strictMono h)) unitsPerOne_pos

/-- No mark stands below zero. -/
theorem valueOf_nonneg (m : Nat) : 0 ≤ valueOf m :=
  div_nonneg (Nat.cast_nonneg _) unitsPerOne_pos.le

/-- The infinite magnitude stands where the next binade would begin. The comparison of the two large
numbers is left to evaluation. -/
theorem valueOf_infinityMagnitude : valueOf infinityMagnitude = 2 ^ 1024 := by
  have hcast : ∀ n, ((2 ^ n : Nat) : ℚ) = 2 ^ n := fun n => by
    rw [Nat.cast_pow, Nat.cast_ofNat]
  have h : unitsOf infinityMagnitude = 2 ^ 1024 * unitsPerOne := by decide +kernel
  rw [valueOf, h, Nat.cast_mul, mul_div_cancel_right₀ _ unitsPerOne_pos.ne']
  exact hcast 1024

/-! ### The nearest mark -/

/-- The mark `m` is nearest to `q`. Of two marks that are equally near it is the even one. The
infinite magnitude is a mark like the others here, which is how numbers beyond the last finite
double round to infinity. -/
structure Nearest (q : ℚ) (m : Nat) : Prop where
  le : m ≤ infinityMagnitude
  nearest : ∀ n ≤ infinityMagnitude, |q - valueOf m| ≤ |q - valueOf n|
  even : ∀ n ≤ infinityMagnitude, n ≠ m → |q - valueOf n| = |q - valueOf m| → Even m

section Nearest

variable {q : ℚ} {m n : Nat}

/-- **A mark lies below another one if what it is nearest to lies below the halfway point before the
other.** At this point the parity of the other mark decides. -/
theorem Nearest.lt_succ_iff (h : Nearest q m) (hn : n < infinityMagnitude) :
    m < n + 1 ↔ 2 * q < valueOf n + valueOf (n + 1) ∨
      (2 * q = valueOf n + valueOf (n + 1) ∧ Even n) := by
  have hgap := valueOf_strictMono n.lt_succ_self
  constructor
  · intro hlt
    -- The mark is at `n` or before, so `q` is not beyond the halfway point.
    have hbefore := valueOf_strictMono.monotone (Nat.le_of_lt_succ hlt)
    have hnear := h.nearest (n + 1) hn
    rcases lt_trichotomy (2 * q) (valueOf n + valueOf (n + 1)) with hq | hq | hq
    · exact .inl hq
    · refine .inr ⟨hq, ?_⟩
      rw [abs_of_nonneg (by linarith), abs_of_nonpos (by linarith)] at hnear
      obtain rfl : m = n := valueOf_strictMono.injective (by linarith)
      refine h.even (m + 1) hn (by omega) ?_
      rw [abs_of_nonneg (by linarith : 0 ≤ q - valueOf m), abs_of_nonpos (by linarith)]
      linarith
    · exfalso
      rw [abs_of_nonneg (by linarith)] at hnear
      -- Beyond the halfway point the next mark is nearer than any mark before it.
      rcases abs_cases (q - valueOf (n + 1)) with ⟨habs, -⟩ | ⟨habs, -⟩ <;> linarith
  -- In the other direction, a mark at `n + 1` or behind it would be farther away than `n`.
  · intro hq
    by_contra hge
    have hafter := valueOf_strictMono.monotone (Nat.not_lt.mp hge)
    have hnear := h.nearest n hn.le
    rcases hq with hq | ⟨hq, heven⟩
    · rw [abs_of_nonpos (by linarith : q - valueOf m ≤ 0)] at hnear
      rcases abs_cases (q - valueOf n) with ⟨habs, -⟩ | ⟨habs, -⟩ <;> linarith
    · rw [abs_of_nonpos (by linarith), abs_of_nonneg (by linarith)] at hnear
      obtain rfl : m = n + 1 := valueOf_strictMono.injective (by linarith)
      -- The two marks on either side of a halfway point cannot both be even.
      have hodd : Even (n + 1) := by
        refine h.even n hn.le (by omega) ?_
        rw [abs_of_nonneg (by linarith : 0 ≤ q - valueOf n), abs_of_nonpos (by linarith)]
        linarith
      exact (Nat.even_add_one.mp hodd) heven

/-- What is nearest does not change its order. If it did, some halfway point would lie both above
the larger number and below the smaller one. -/
theorem Nearest.mono {p : ℚ} (hp : Nearest p m) (hq : Nearest q n) (hle : p ≤ q) : m ≤ n := by
  by_contra hlt
  obtain ⟨k, rfl⟩ : ∃ k, m = k + 1 := ⟨m - 1, by omega⟩
  have hk : k < infinityMagnitude := hp.le
  have hbelow := (hq.lt_succ_iff hk).mp (by omega)
  have habove := (hp.lt_succ_iff hk).not.mp (by omega)
  refine habove ?_
  rcases hbelow with hq | ⟨hq, heven⟩
  · exact .inl (by linarith)
  · rcases hle.lt_or_eq with hlt | rfl
    · exact .inl (by linarith)
    · exact .inr ⟨hq, heven⟩

/-- There is one nearest mark. -/
theorem Nearest.unique (hm : Nearest q m) (hn : Nearest q n) : m = n :=
  Nat.le_antisymm (hm.mono hn le_rfl) (hn.mono hm le_rfl)

/-- Every mark is nearest to itself. No other one is as near, so parity is not asked. -/
theorem nearest_self (h : m ≤ infinityMagnitude) : Nearest (valueOf m) m := by
  refine ⟨h, fun n _ => ?_, fun n _ hne htie => absurd ?_ hne⟩
  · rw [sub_self, abs_zero]
    exact abs_nonneg _
  · rw [sub_self, abs_zero, abs_eq_zero, sub_eq_zero] at htie
    exact valueOf_strictMono.injective htie.symm

/-- Between two marks the nearer one is nearest of all. Parity is asked only in the middle. -/
theorem nearest_of_between {b : Nat} (hb : b < infinityMagnitude) (hlow : valueOf b ≤ q)
    (hhigh : q < valueOf (b + 1)) (hm : m = b ∨ m = b + 1)
    (hbelow : m = b → 2 * q ≤ valueOf b + valueOf (b + 1))
    (habove : m = b + 1 → valueOf b + valueOf (b + 1) ≤ 2 * q)
    (heven : 2 * q = valueOf b + valueOf (b + 1) → Even m) : Nearest q m := by
  -- The marks are `b` and those before it, or `b + 1` and those after it.
  have hsides : ∀ n, valueOf n ≤ valueOf b ∨ valueOf (b + 1) ≤ valueOf n := fun n =>
    (Nat.lt_or_ge b n).symm.imp (fun h => valueOf_strictMono.monotone h) fun h =>
      valueOf_strictMono.monotone h
  have hdistance : ∀ n, |q - valueOf m| ≤ |q - valueOf n| := by
    intro n
    rcases hm with rfl | rfl
    · have := hbelow rfl
      rw [abs_of_nonneg (by linarith : 0 ≤ q - valueOf m)]
      rcases hsides n with h | h
      · rw [abs_of_nonneg (by linarith)]
        linarith
      · rw [abs_of_nonpos (by linarith)]
        linarith
    · have := habove rfl
      rw [abs_of_nonpos (by linarith : q - valueOf (b + 1) ≤ 0)]
      rcases hsides n with h | h
      · rw [abs_of_nonneg (by linarith)]
        linarith
      · rw [abs_of_nonpos (by linarith)]
        linarith
  -- A mark that is as near as `m` is the other one of the two, and `q` lies in the middle.
  refine ⟨by omega, fun n _ => hdistance n, fun n _ hne htie => heven ?_⟩
  rcases hm with rfl | rfl
  · have := hbelow rfl
    rw [abs_of_nonneg (by linarith : 0 ≤ q - valueOf m)] at htie
    rcases Nat.lt_or_ge m n with h | h
    · have := valueOf_strictMono.monotone (show m + 1 ≤ n from h)
      rw [abs_of_nonpos (by linarith)] at htie
      linarith
    · have := valueOf_strictMono (show n < m by omega)
      rw [abs_of_nonneg (by linarith)] at htie
      linarith
  · have := habove rfl
    rw [abs_of_nonpos (by linarith : q - valueOf (b + 1) ≤ 0)] at htie
    rcases Nat.lt_or_ge b n with h | h
    · have := valueOf_strictMono (show b + 1 < n by omega)
      rw [abs_of_nonpos (by linarith)] at htie
      linarith
    · have := valueOf_strictMono.monotone h
      rw [abs_of_nonneg (by linarith)] at htie
      linarith

/-- Beyond the last mark it is infinity that is nearest. Its magnitude is even, so a tie would go to
it as well. -/
theorem nearest_infinity (h : valueOf infinityMagnitude ≤ q) : Nearest q infinityMagnitude := by
  refine ⟨le_rfl, fun n hn => ?_, fun _ _ _ _ => ⟨infinityMagnitude / 2, by decide⟩⟩
  have := valueOf_strictMono.monotone hn
  rw [abs_of_nonneg (by linarith), abs_of_nonneg (by linarith)]
  linarith

end Nearest

/-! ### Rounding a ratio -/

/-- The places that a whole number of units is shifted to the right until it has 53 bits. A number
that has no more than 53 is not shifted. -/
theorem bounds_of_places {units : Nat} :
    units / 2 ^ (units.log2 - 52) < 0x20000000000000 ∧
      (units.log2 - 52 = 0 ∨ 0x10000000000000 ≤ units / 2 ^ (units.log2 - 52)) := by
  have hpos : 0 < 2 ^ (units.log2 - 52) := Nat.two_pow_pos _
  have hpow : ∀ n, (0x10000000000000 : Nat) * 2 ^ n = 2 ^ (52 + n) := fun n =>
    (Nat.pow_add 2 52 n).symm
  constructor
  · rw [Nat.div_lt_iff_lt_mul hpos]
    calc units < 2 ^ (units.log2 + 1) := Nat.lt_log2_self
      _ ≤ 2 ^ (52 + (units.log2 - 52 + 1)) := Nat.pow_le_pow_right (by decide) (by omega)
      _ = 0x20000000000000 * 2 ^ (units.log2 - 52) := by
        rw [← hpow, Nat.pow_succ]
        omega
  -- If it is shifted at all, its highest bit comes to the highest place.
  · refine (Nat.eq_zero_or_pos _).imp_right fun h => ?_
    rw [Nat.le_div_iff_mul_le hpos, hpow, show 52 + (units.log2 - 52) = units.log2 by omega]
    exact Nat.log2_self_le (by rintro rfl; simp at h)

/-- What lies `rest` behind a mark, where it is `den` to the next one, goes to the next one if it is
nearer, or as near and the next one is even. All distances may be multiplied by some factor, so that
they can be given as whole numbers. -/
theorem nearest_of_rest {q factor : ℚ} {b whole rest den : Nat} (hfactor : 0 < factor)
    (hq : q * factor = whole * den + rest) (hlow : valueOf b * factor = whole * den)
    (hhigh : valueOf (b + 1) * factor = whole * den + den) (hrest : rest < den)
    (hparity : Even b ↔ whole % 2 = 0) :
    Nearest q (min (if den < 2 * rest ∨ (2 * rest = den ∧ whole % 2 = 1) then b + 1 else b)
      infinityMagnitude) := by
  have hrestNonneg : (0 : ℚ) ≤ rest := Nat.cast_nonneg _
  have hrestLt : (rest : ℚ) < den := Nat.cast_lt.mpr hrest
  rcases Nat.lt_or_ge b infinityMagnitude with hfinite | hinfinite
  · have hqlow : valueOf b ≤ q := le_of_mul_le_mul_right (by linarith) hfactor
    have hqhigh : q < valueOf (b + 1) := lt_of_mul_lt_mul_right (by linarith) hfactor.le
    -- In the middle the number of whole steps decides by its parity.
    have hmiddle : 2 * q = valueOf b + valueOf (b + 1) → den = 2 * rest := fun htie => by
      have hscaled : (den : ℚ) = 2 * rest := by linarith [congrArg (· * factor) htie]
      exact_mod_cast hscaled
    split
    -- To the next mark: it is nearer, or in the middle and even.
    · next hup =>
      rw [Nat.min_eq_left hfinite]
      refine nearest_of_between hfinite hqlow hqhigh (.inr rfl) (fun h => absurd h (by omega))
        (fun _ => le_of_mul_le_mul_right ?_ hfactor) fun htie => ?_
      · have : (den : ℚ) ≤ 2 * rest := by exact_mod_cast (show den ≤ 2 * rest by omega)
        linarith
      · have := hmiddle htie
        rw [Nat.even_add_one, hparity]
        omega
    -- To the mark before, in the same way.
    · next hdown =>
      rw [Nat.min_eq_left hfinite.le]
      refine nearest_of_between hfinite hqlow hqhigh (.inl rfl)
        (fun _ => le_of_mul_le_mul_right ?_ hfactor) (fun h => absurd h (by omega)) fun htie => ?_
      · have : (2 * rest : ℚ) ≤ den := by exact_mod_cast (show 2 * rest ≤ den by omega)
        linarith
      · have := hmiddle htie
        rw [hparity]
        omega
  -- The number is cut to infinity.
  · rw [Nat.min_eq_right (by split <;> omega)]
    have hbeyond := valueOf_strictMono.monotone hinfinite
    refine nearest_infinity (hbeyond.trans (le_of_mul_le_mul_right ?_ hfactor))
    linarith

/-- A quotient of at most 53 bits, or of 53 bits exactly where it is shifted, is rounded to a whole
number of units of its last place. The mark before the quotient has the same parity as the whole
part, since a full exponent field is an even number. -/
theorem nearest_of_quotient {num den places : Nat} (hden : 0 < den)
    (hhigh : num / den < 0x20000000000000) (hlow : places = 0 ∨ 0x10000000000000 ≤ num / den) :
    Nearest (num * 2 ^ places / (den * unitsPerOne))
      (min (places * 0x10000000000000 + roundDiv num den) infinityMagnitude) := by
  have hpow : (0 : ℚ) < 2 ^ places := pow_pos (by norm_num) places
  have hdenPos : (0 : ℚ) < den := Nat.cast_pos.mpr hden
  have hmark : ∀ {m n : Nat}, unitsOf m = n * 2 ^ places →
      valueOf m * (den * unitsPerOne / 2 ^ places) = n * den := by
    intro m n h
    rw [valueOf, h, Nat.cast_mul, Nat.cast_pow, Nat.cast_ofNat]
    have := unitsPerOne_pos.ne'
    field_simp
  -- Rounding the quotient is choosing between two neighbouring magnitudes.
  have hround : places * 0x10000000000000 + roundDiv num den =
      if den < 2 * (num % den) ∨ (2 * (num % den) = den ∧ num / den % 2 = 1)
      then places * 0x10000000000000 + num / den + 1
      else places * 0x10000000000000 + num / den := by
    unfold roundDiv
    dsimp only
    split
    · exact (Nat.add_assoc _ _ _).symm
    · rfl
  rw [hround]
  refine nearest_of_rest (div_pos (mul_pos hdenPos unitsPerOne_pos) hpow) ?_
    (hmark (unitsOf_add hlow hhigh.le)) ?_ (Nat.mod_lt num hden) ?_
  · have hdivision : (num : ℚ) = (num / den : Nat) * den + (num % den : Nat) := by
      exact_mod_cast (Nat.div_add_mod' num den).symm
    have := unitsPerOne_pos.ne'
    rw [← hdivision]
    field_simp
  · rw [Nat.add_assoc, hmark (unitsOf_add (by omega) hhigh), Nat.cast_add_one, add_mul, one_mul]
  · rw [Nat.even_iff]
    omega

/-- **Rounding gives the nearest mark.** The ratio in units is cut to 53 bits or to whole units,
whichever is coarser, and what is left of it decides. -/
theorem nearest_roundRatio (num : Nat) {den : Nat} (hden : 0 < den) :
    Nearest (num / den) (roundRatio num den) := by
  obtain ⟨places, hplaces⟩ :
      ∃ places, places = (num * unitsPerOne / den).log2 - 52 := ⟨_, rfl⟩
  have hbounds : num * unitsPerOne / (den * 2 ^ places) < 0x20000000000000 ∧
      (places = 0 ∨ 0x10000000000000 ≤ num * unitsPerOne / (den * 2 ^ places)) := by
    rw [← Nat.div_div_eq_div_mul, hplaces]
    exact bounds_of_places
  have h := nearest_of_quotient (Nat.mul_pos hden (Nat.two_pow_pos places)) hbounds.1 hbounds.2
  have hquotient :
      ((num * unitsPerOne : Nat) * 2 ^ places / ((den * 2 ^ places : Nat) * unitsPerOne) : ℚ) =
        num / den := by
    have := unitsPerOne_pos.ne'
    have : (den : ℚ) ≠ 0 := Nat.cast_ne_zero.mpr hden.ne'
    push_cast
    field_simp
  rw [hquotient] at h
  rwa [roundRatio, ← hplaces, Nat.shiftLeft_eq]

end Binary64

end Easel
