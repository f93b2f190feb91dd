import Easel.Terminal.Presenter
import Mathlib.Algebra.Order.Floor.Div
import Mathlib.Data.Set.Function
import Mathlib.Tactic.Linarith

/-!
# Fair samples

The samples along an axis are spread as evenly as whole pixels allow. The square may have fewer
samples than there are pixels, or more: sampling the longer by the shorter takes back sampling the
shorter by the longer. So no pixel is taken twice in the one case, and every pixel is taken in the
other.

* `samplePosition_add_bounds`, `samplePosition_succ` — how far samples are from each other;
* `samplePosition_samplePosition` — sampling one way and back;
* `Grid.sampleWord`, `Grid.toNat_sampleWord` — the computation in words, and what comes of it;
* `Grid.sampling_fair` — the main result.
-/

namespace Easel.Terminal

section Position

variable {count length : Nat}

/-! ### Distances -/

/-- Later samples are taken from later pixels, or from the same. Rounding down keeps the order of
the middles. -/
theorem samplePosition_monotone (count length : Nat) :
    Monotone fun i => samplePosition count i length := fun _ _ hle =>
  Nat.div_le_div_right (Nat.mul_le_mul_right length (by omega))

/-- **Samples are spread evenly.** Some steps from sample to sample are as many equal parts of the
axis long, rounded down or up to whole pixels. The middles are exactly that far from each other, and
each of them is rounded down once. -/
theorem samplePosition_add_bounds (hcount : 0 < count) (i steps length : Nat) :
    samplePosition count i length + steps * length / count ≤
        samplePosition count (i + steps) length ∧
      samplePosition count (i + steps) length ≤
        samplePosition count i length + steps * length ⌈/⌉ count := by
  -- Each step moves the middle on by twice the length, counted in halves of a part.
  have hsum : (2 * (i + steps) + 1) * length = (2 * i + 1) * length + 2 * (steps * length) := by
    rw [← Nat.mul_assoc, ← Nat.add_mul]
    congr 1
    omega
  unfold samplePosition
  rw [hsum]
  constructor
  · rw [← Nat.mul_div_mul_left (steps * length) count Nat.two_pos]
    exact Nat.div_add_div_le_add_div
  · have hparts : steps * length ≤ count * (steps * length ⌈/⌉ count) :=
      (ceilDiv_le_iff_le_mul hcount).mp le_rfl
    calc ((2 * i + 1) * length + 2 * (steps * length)) / (2 * count)
        ≤ ((2 * i + 1) * length + 2 * count * (steps * length ⌈/⌉ count)) / (2 * count) := by
          rw [Nat.mul_assoc 2 count]
          exact Nat.div_le_div_right (Nat.add_le_add_left (Nat.mul_le_mul_left 2 hparts) _)
      _ = (2 * i + 1) * length / (2 * count) + steps * length ⌈/⌉ count :=
          Nat.add_mul_div_left _ _ (Nat.mul_pos Nat.two_pos hcount)

/-- **One step is one part long**, rounded down or up. There is no third possibility, since the two
differ by at most one pixel. -/
theorem samplePosition_succ (hcount : 0 < count) (i length : Nat) :
    samplePosition count (i + 1) length = samplePosition count i length + length / count ∨
      samplePosition count (i + 1) length = samplePosition count i length + length ⌈/⌉ count := by
  obtain ⟨hlow, hhigh⟩ := samplePosition_add_bounds hcount i 1 length
  rw [Nat.one_mul] at hlow hhigh
  -- There is no whole number between the two.
  have hnext : length ⌈/⌉ count ≤ length / count + 1 :=
    (ceilDiv_le_iff_le_mul hcount).mpr (Nat.lt_mul_div_succ length hcount).le
  omega

/-! ### There and back -/

/-- As many samples as pixels are the pixels themselves: the middle of each part lies inside its own
pixel. -/
theorem samplePosition_self (hcount : 0 < count) (i : Nat) : samplePosition count i count = i := by
  rw [samplePosition, Nat.mul_div_mul_right _ _ hcount]
  omega

/-- **Sampling the longer axis by the shorter one and back** ends where it began. -/
theorem samplePosition_samplePosition (hlength : 0 < length) (hle : length ≤ count) (x : Nat) :
    samplePosition count (samplePosition length x count) length = x := by
  rcases Nat.eq_or_lt_of_le hle with rfl | hlt
  · rw [samplePosition_self hlength, samplePosition_self hlength]
  · obtain ⟨i, hi⟩ : ∃ i, samplePosition length x count = i := ⟨_, rfl⟩
    -- Place `i` of the longer axis holds the middle of part `x`. Its own middle is at most half a
    -- place away from there, and that is less than half a part.
    have hlow : 2 * length * i ≤ (2 * x + 1) * count := by
      rw [← hi]
      exact Nat.mul_div_le _ _
    have hhigh : (2 * x + 1) * count < 2 * length * (i + 1) := by
      rw [← hi]
      exact Nat.lt_mul_div_succ _ (by omega)
    rw [hi, samplePosition]
    refine Nat.div_eq_of_lt_le ?_ ?_
    · linarith
    · linarith

/-! ### Computing in words -/

/-- A square has fewer than `2 ^ 16` samples to a side, and an axis fewer than `2 ^ 32` pixels.
Their products are far from the end of 64 bits. -/
theorem odd_mul_lt {i : Nat} (hi : i < 65536) (hlength : length < 4294967296) :
    (2 * i + 1) * length < 562949953421312 :=
  Nat.mul_lt_mul'' (show 2 * i + 1 < 131072 by omega) hlength

end Position

namespace Grid

/-- A square has fewer samples to a side than 16 bits can count. -/
theorem side_lt (g : Grid) : g.side < 65536 := lt_of_le_of_lt (Nat.min_le_left _ _) g.columns_lt

/-- The side of a square fits in 32 bits. -/
theorem toNat_ofNat_side (g : Grid) : (UInt32.ofNat g.side).toNat = g.side :=
  UInt32.toNat_ofNat_of_lt' (lt_trans g.side_lt (by decide))

/-- The middle of a part, computed in words of 64 bits. -/
def positionWord (g : Grid) (i length : UInt32) : UInt64 :=
  (i.toUInt64 * 2 + 1) * length.toUInt64 / ((UInt32.ofNat g.side).toUInt64 * 2)

/-- A sample, computed in words. A middle that does not fit in 32 bits becomes the largest number
that does. -/
def sampleWord (g : Grid) (i length : UInt32) : UInt32 :=
  if g.positionWord i length < 4294967296 then (g.positionWord i length).toUInt32 else 4294967295

/-- **Nothing wraps around on the way**, up to the sample behind the last one. What comes of each
operation fits in 64 bits. -/
theorem toNat_positionWord (g : Grid) {i : UInt32} (hi : i.toNat ≤ g.side) (length : UInt32) :
    (g.positionWord i length).toNat = g.sample i.toNat length.toNat := by
  have hside := g.side_lt
  have hodd : (i.toUInt64 * 2 + 1).toNat = 2 * i.toNat + 1 := by
    rw [UInt64.toNat_add, UInt64.toNat_mul, UInt32.toNat_toUInt64]
    simp only [UInt64.reduceToNat]
    omega
  have hparts : ((UInt32.ofNat g.side).toUInt64 * 2).toNat = 2 * g.side := by
    rw [UInt64.toNat_mul, UInt32.toNat_toUInt64, toNat_ofNat_side]
    simp only [UInt64.reduceToNat]
    omega
  have hproduct := odd_mul_lt (show i.toNat < 65536 by omega) length.toNat_lt
  rw [positionWord, UInt64.toNat_div, UInt64.toNat_mul, hodd, hparts, UInt32.toNat_toUInt64,
    Nat.mod_eq_of_lt (lt_trans hproduct (by decide)), sample, samplePosition]

/-- A sample that fits in 32 bits is what it is in numbers without an end, and a larger one becomes
the largest number that fits. -/
theorem toNat_sampleWord (g : Grid) {i : UInt32} (hi : i.toNat ≤ g.side) (length : UInt32) :
    (g.sampleWord i length).toNat = min (g.sample i.toNat length.toNat) 4294967295 := by
  have hposition := g.toNat_positionWord hi length
  unfold sampleWord
  split
  · next hfits =>
    rw [UInt64.lt_iff_toNat_lt, hposition] at hfits
    simp only [UInt64.reduceToNat] at hfits
    rw [UInt64.toNat_toUInt32, hposition]
    omega
  · next hlarge =>
    rw [UInt64.lt_iff_toNat_lt, hposition] at hlarge
    simp only [UInt64.reduceToNat] at hlarge
    simp only [UInt32.reduceToNat]
    omega

/-! ### The main result -/

/-- The sides that squares have: all numbers of 16 bits but zero. A screen with as many columns as
rows has a side of that number. -/
theorem exists_side_eq_iff {n : Nat} :
    (∃ columns rows : Fin 65536, (new columns rows).side = n) ↔ 1 ≤ n ∧ n ≤ 65535 := by
  constructor
  · rintro ⟨columns, rows, rfl⟩
    have := (new columns rows).side_pos
    have := (new columns rows).side_lt
    omega
  · rintro ⟨hlow, hhigh⟩
    refine ⟨⟨n, by omega⟩, ⟨n, by omega⟩, ?_⟩
    simp only [side, new]
    omega

/-- **Sampling is fair**, on a square of any side and along an axis of any length.

Samples are in order and on the axis. Where the axis has at least as many pixels as the square has
samples, no pixel is taken twice; where it has at most as many, every pixel is taken. It is one part
of the axis from one sample to the next, rounded down or up, and several steps are as even.

All numbers on the way are below `2 ^ 64`, also for the sample that an odd square lacks, and so the
computation in words comes to the same. That sample lies behind the last pixel, whether or not it
has been cut to 32 bits. -/
theorem sampling_fair (g : Grid) (length : UInt32) (hlength : 0 < length) :
    let side := g.side
    let len := length.toNat
    let sample := fun i => g.sample i len
    -- the squares that there are
    (∀ n, (∃ columns rows : Fin 65536, (new columns rows).side = n) ↔ 1 ≤ n ∧ n ≤ 65535) ∧
    -- order and range
    (∀ i, sample i = (2 * i + 1) * len / (2 * side)) ∧
    Monotone sample ∧ (∀ i < side, sample i < len) ∧
    -- shrinking and enlarging
    (side ≤ len → Set.InjOn sample (Set.Iio side)) ∧
    (len ≤ side → Set.SurjOn sample (Set.Iio side) (Set.Iio len)) ∧
    -- one step, and several
    (∀ i, sample (i + 1) = sample i + len / side ∨ sample (i + 1) = sample i + len ⌈/⌉ side) ∧
    (∀ i steps, sample i + steps * len / side ≤ sample (i + steps) ∧
      sample (i + steps) ≤ sample i + steps * len ⌈/⌉ side) ∧
    -- the numbers on the way
    (∀ i ≤ side, ∀ n ∈ [i * 2, i * 2 + 1, (i * 2 + 1) * len, side * 2,
      (i * 2 + 1) * len / (side * 2)], n < 18446744073709551616) ∧
    (∀ i : UInt32, i.toNat < side → (g.sampleWord i length).toNat = sample i.toNat) ∧
    -- the sample that an odd square lacks
    len ≤ sample side ∧ len ≤ (g.sampleWord (.ofNat side) length).toNat := by
  intro side len sample
  have hpos : 0 < len := UInt32.lt_iff_toNat_lt.mp hlength
  have hlen : len < 4294967296 := length.toNat_lt
  have hside : 0 < side := g.side_pos
  have hsideLt : side < 65536 := g.side_lt
  have hbeyond : len ≤ sample side := le_samplePosition hside le_rfl len
  refine ⟨fun n => exists_side_eq_iff, fun i => rfl, samplePosition_monotone side len,
    fun i hi => sample_lt hi hpos, fun hshrink => ?injective, fun henlarge => ?surjective,
    fun i => samplePosition_succ hside i len,
    fun i steps => samplePosition_add_bounds hside i steps len, fun i hi n hn => ?numbers,
    fun i hi => ?words, hbeyond, ?missing⟩
  case injective =>
    -- A pixel tells which sample it was taken for.
    have hback : Set.LeftInvOn (fun x => samplePosition len x side) sample (Set.Iio side) :=
      fun i _ => samplePosition_samplePosition hside hshrink i
    exact hback.injOn
  case surjective =>
    -- The sample for a pixel is found by sampling the square by the axis.
    intro x hx
    exact ⟨samplePosition len x side, samplePosition_lt hx hside,
      samplePosition_samplePosition hpos henlarge x⟩
  case numbers =>
    have hproduct := odd_mul_lt (show i < 65536 by omega) hlen
    have hquotient := Nat.div_le_self ((i * 2 + 1) * len) (side * 2)
    rw [Nat.mul_comm i 2] at hn hquotient
    simp only [List.mem_cons, List.not_mem_nil, or_false] at hn
    omega
  case words =>
    have hrange : sample i.toNat < len := sample_lt hi hpos
    rw [toNat_sampleWord g hi.le]
    exact Nat.min_eq_left (Nat.le_of_lt_succ (hrange.trans hlen))
  case missing =>
    rw [toNat_sampleWord g g.toNat_ofNat_side.le, toNat_ofNat_side]
    exact le_min hbeyond (Nat.le_of_lt_succ hlen)

/-- The longest axis by a single sample. The sample that is lacking would not fit in 32 bits. -/
theorem sampling_fair_longest :
    let g := new 1 1
    (0 : UInt32) < 4294967295 ∧ g.side = 1 ∧ g.sample 0 4294967295 < 4294967295 ∧
      4294967296 ≤ g.sample 1 4294967295 ∧ 4294967295 ≤ (g.sampleWord 1 4294967295).toNat := by
  obtain ⟨-, hformula, -, hrange, -, -, -, -, -, -, -, hword⟩ :=
    sampling_fair (new 1 1) 4294967295 (by decide)
  refine ⟨by decide, rfl, hrange 0 (by decide), ?_, hword⟩
  exact (show 4294967296 ≤ (2 * 1 + 1) * 4294967295 / (2 * 1) by decide).trans_eq (hformula 1).symm

end Grid

end Easel.Terminal
