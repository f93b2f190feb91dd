import Easel.Proofs.Canvas.Places
import Mathlib.Order.Interval.Finset.Nat

/-!
# Filling row by row

A fill goes through the rows of its clipped rectangle from the top, and overwrites one slice of the
pixels in each. Filling a slice fails if its ends are in the wrong order, or if it ends beyond the
pixels. That never happens, and what comes of it is the fill.

* `Slice`, `Slice.fill?` — a part of the pixels, and filling it;
* `Pixmap.slices` — the slices of a fill;
* `Pixmap.exists_mem_slices_iff` — the pixels in them are those that the rectangle covers;
* `Pixmap.foldlM_slices` — filling them one after another succeeds, and is the fill;
* `Pixmap.card_overwritten` — how many pixels take a new color;
* `Pixmap.fill_paints_exactly` — the main result.
-/

namespace Easel

/-- A part of the pixels, from one place up to and not including another one. The two may be in any
order, as the ends of a slice that is computed may be. -/
structure Slice where
  start : Nat
  stop : Nat
deriving DecidableEq

namespace Slice

/-- Fills a part of the pixels. It fails if that is no part of them: the ends are in the wrong
order, or the second one lies beyond the pixels. -/
def fill? (s : Slice) (color : Color) (pixels : Array Color) : Option (Array Color) :=
  if s.start ≤ s.stop ∧ s.stop ≤ pixels.size then
    some (pixels.mapIdx fun i old => if s.start ≤ i ∧ i < s.stop then color else old)
  else none

/-- Slices that are parts of the pixels are filled one after another. None of them fails, since
filling one leaves as many pixels as there were. -/
theorem foldlM_fill? {slices : List Slice} {pixels : Array Color}
    (h : ∀ s ∈ slices, s.start ≤ s.stop ∧ s.stop ≤ pixels.size) (color : Color) :
    ∃ filled, slices.foldlM (fun pixels s => s.fill? color pixels) pixels = some filled ∧
      filled.size = pixels.size ∧
      ∀ i < pixels.size, filled[i]? =
        if ∃ s ∈ slices, s.start ≤ i ∧ i < s.stop then some color else pixels[i]? := by
  induction slices generalizing pixels with
  | nil => exact ⟨pixels, rfl, rfl, fun i _ => by simp⟩
  | cons s rest ih =>
    obtain ⟨hs, hrest⟩ := List.forall_mem_cons.mp h
    set once := pixels.mapIdx fun i old => if s.start ≤ i ∧ i < s.stop then color else old
      with honce
    have hsize : once.size = pixels.size := Array.size_mapIdx
    have hget : ∀ i < pixels.size, once[i]? =
        if s.start ≤ i ∧ i < s.stop then some color else pixels[i]? := by
      intro i hi
      rw [honce, Array.getElem?_mapIdx, Array.getElem?_eq_getElem hi, Option.map_some]
      split <;> rfl
    -- The other slices are still parts of the pixels.
    have hwithin : ∀ s ∈ rest, s.start ≤ s.stop ∧ s.stop ≤ once.size := by rwa [hsize]
    obtain ⟨filled, hfilled, hfsize, hfget⟩ := ih hwithin
    refine ⟨filled, ?_, hfsize.trans hsize, fun i hi => ?_⟩
    · rw [List.foldlM_cons, fill?, if_pos hs]
      exact hfilled
    · rw [hfget i (by rwa [hsize]), hget i hi]
      -- The first slice is filled first, but all of them with the same color.
      simp only [List.mem_cons, exists_eq_or_imp]
      by_cases hfirst : s.start ≤ i ∧ i < s.stop
      · rw [if_pos hfirst, if_pos (Or.inl hfirst), ite_self]
      · rw [if_neg hfirst]
        simp only [hfirst, false_or]

end Slice

namespace Pixmap

variable (p : Pixmap) (rect : Rect) (color : Color)

/-! ### Clipping -/

/-- The part of a rectangle that lies on the pixmap. The three laws below are those of clipping, for
this pixmap. -/
def clip : Rect := rect.intersect p.bounds

/-- The clipped rectangle begins on the pixmap or behind it. -/
theorem near_edges_clip : 0 ≤ (p.clip rect).left.val ∧ 0 ≤ (p.clip rect).top.val :=
  clip_near_edges rect p.size

variable {p rect} in
/-- Where something is left of the rectangle, it ends on the pixmap. -/
theorem far_edges_clip (h : ¬ (p.clip rect).IsEmpty) :
    (p.clip rect).right.val ≤ p.size.width ∧ (p.clip rect).bottom.val ≤ p.size.height ∧
      (p.clip rect).left.val < (p.clip rect).right.val ∧
      (p.clip rect).top.val < (p.clip rect).bottom.val :=
  clip_far_edges h

variable {p} in
/-- Clipping changes nothing about the pixels of the pixmap. -/
theorem covers_clip {x y : Nat} (hx : x < p.size.width) (hy : y < p.size.height) :
    (p.clip rect).Covers x y ↔ rect.Covers x y :=
  clip_covers rect p.size hx hy

/-! ### Slices -/

/-- The slices that a fill overwrites, one for each row of the clipped rectangle. -/
def slices : List Slice :=
  let clipped := p.clip rect
  if clipped.IsEmpty then []
  else
    let left := clipped.left.val.natAbs
    let right := clipped.right.val.natAbs
    let top := clipped.top.val.natAbs
    let bottom := clipped.bottom.val.natAbs
    (List.range' top (bottom - top)).map fun row =>
      ⟨row * p.size.width + left, row * p.size.width + right⟩

variable {p rect} in
/-- The slices are those of the rows of the clipped rectangle, each from its left to its right
edge. -/
theorem mem_slices_iff (h : ¬ (p.clip rect).IsEmpty) {s : Slice} :
    s ∈ p.slices rect ↔ ∃ row : Nat,
      ((p.clip rect).top.val ≤ row ∧ row < (p.clip rect).bottom.val) ∧
        s = ⟨row * p.size.width + (p.clip rect).left.val.toNat,
          row * p.size.width + (p.clip rect).right.val.toNat⟩ := by
  obtain ⟨hleft, htop⟩ := p.near_edges_clip rect
  obtain ⟨-, -, hacross, hdown⟩ := far_edges_clip h
  -- No edge is negative, so each is its own absolute value.
  have habs : ∀ n : Int, 0 ≤ n → n.natAbs = n.toNat := by omega
  rw [slices, if_neg h]
  dsimp only
  rw [habs _ hleft, habs _ htop, habs (p.clip rect).right.val (by omega),
    habs (p.clip rect).bottom.val (by omega), List.mem_map]
  constructor
  · rintro ⟨row, hrow, rfl⟩
    rw [List.mem_range'_1] at hrow
    exact ⟨row, by omega, rfl⟩
  · rintro ⟨row, hrow, rfl⟩
    exact ⟨row, List.mem_range'_1.mpr (by omega), rfl⟩

/-- **Every slice is a part of the pixels.** It ends within its own row, and the row within the
pixels. -/
theorem slice_le_size {s : Slice} (hs : s ∈ p.slices rect) :
    s.start ≤ s.stop ∧ s.stop ≤ p.pixels.size := by
  by_cases hempty : (p.clip rect).IsEmpty
  · rw [slices, if_pos hempty] at hs
    exact absurd hs List.not_mem_nil
  · obtain ⟨row, hrow, rfl⟩ := (mem_slices_iff hempty).mp hs
    obtain ⟨hright, hbottom, hacross, -⟩ := far_edges_clip hempty
    have hbelow : row < p.size.height := by omega
    have hend := p.row_end_le hbelow
    rw [Nat.succ_mul] at hend
    dsimp only
    omega

variable {p} in
/-- **The places in the slices are those of the pixels that the rectangle covers.** -/
theorem exists_mem_slices_iff {x y : Nat} (hx : x < p.size.width) (hy : y < p.size.height) :
    (∃ s ∈ p.slices rect, s.start ≤ y * p.size.width + x ∧
        y * p.size.width + x < s.stop) ↔
      rect.Covers x y := by
  rw [← covers_clip rect hx hy]
  by_cases hempty : (p.clip rect).IsEmpty
  -- Without a clipped rectangle there are neither slices nor covered pixels.
  · rw [slices, if_pos hempty]
    refine iff_of_false ?_ (Rect.isEmpty_iff_forall_not_covers.mp hempty x y)
    rintro ⟨s, hs, -⟩
    exact absurd hs List.not_mem_nil
  · obtain ⟨hright, -, hacross, -⟩ := far_edges_clip hempty
    obtain ⟨hleft, -⟩ := p.near_edges_clip rect
    -- A place in the slice of a row is a pixel of that row, between the two edges.
    have hrun : ∀ row : Nat,
        (row * p.size.width + (p.clip rect).left.val.toNat ≤ y * p.size.width + x ∧
          y * p.size.width + x < row * p.size.width + (p.clip rect).right.val.toNat) ↔
        y = row ∧ (p.clip rect).left.val ≤ x ∧ x < (p.clip rect).right.val := by
      intro row
      have hrow := mem_run_iff y row (p.clip rect).left.val.toNat hx (Int.toNat_le.mpr hright)
      omega
    constructor
    · rintro ⟨s, hs, hplace⟩
      obtain ⟨row, ⟨hlow, hhigh⟩, rfl⟩ := (mem_slices_iff hempty).mp hs
      obtain ⟨rfl, hx₀, hx₁⟩ := (hrun row).mp hplace
      exact ⟨hx₀, hx₁, hlow, hhigh⟩
    · rintro ⟨hx₀, hx₁, hlow, hhigh⟩
      exact ⟨_, (mem_slices_iff hempty).mpr ⟨y, ⟨hlow, hhigh⟩, rfl⟩,
        (hrun y).mpr ⟨rfl, hx₀, hx₁⟩⟩

/-- **Filling the slices one after another succeeds, and is the fill.** Arrays are compared place by
place: both are as long as before, and both have the color where the rectangle covers. -/
theorem foldlM_slices :
    (p.slices rect).foldlM (fun pixels s => s.fill? color pixels) p.pixels =
      some (p.fill rect color).pixels := by
  obtain ⟨filled, hfilled, hsize, hget⟩ :=
    Slice.foldlM_fill? (fun s hs => p.slice_le_size rect hs) color
  -- A fill keeps the size, and the size tells how many pixels there are.
  have hfsize : (p.fill rect color).pixels.size = p.pixels.size := by
    rw [(p.fill rect color).size_pixels, size_fill, p.size_pixels]
  rw [hfilled]
  congr 1
  refine Array.ext_getElem? fun i => ?_
  rcases Nat.lt_or_ge i p.pixels.size with hi | hi
  · -- Both overwrite a place if the rectangle covers the pixel that is there.
    have hplace := hi
    rw [p.size_pixels] at hplace
    obtain ⟨hx, hy, heq⟩ := p.coordinates_of_place hplace
    have hcovers := exists_mem_slices_iff rect hx hy
    rw [heq] at hcovers
    rw [hget i hi, (p.fill rect color).getElem?_pixels (by rwa [hfsize]), size_fill,
      pixel?_fill p rect color hx hy, ← p.getElem?_pixels hi]
    exact if_congr hcovers rfl rfl
  -- Beyond the pixels there is nothing on either side.
  · rw [Array.getElem?_eq_none (by omega), Array.getElem?_eq_none (by omega)]

/-! ### How many pixels change -/

/-- **A rectangle covers as many pixels as its clipped part has**, its width times its height. -/
theorem card_covered :
    (p.coordinates.filter fun place => rect.Covers place.1 place.2).card =
      ((p.clip rect).right.val - (p.clip rect).left.val).toNat *
        ((p.clip rect).bottom.val - (p.clip rect).top.val).toNat := by
  have hclip : ∀ place ∈ p.coordinates, rect.Covers place.1 place.2 ↔
      (p.clip rect).Covers place.1 place.2 := by
    intro place hplace
    obtain ⟨hx, hy⟩ := p.mem_coordinates.mp hplace
    exact (covers_clip rect hx hy).symm
  rw [Finset.filter_congr hclip]
  by_cases hempty : (p.clip rect).IsEmpty
  · have hnone : ∀ place ∈ p.coordinates, ¬ (p.clip rect).Covers place.1 place.2 :=
      fun place _ => Rect.isEmpty_iff_forall_not_covers.mp hempty place.1 place.2
    rw [Finset.filter_false_of_mem hnone, Finset.card_empty]
    -- One of the two sides has no length.
    rcases hempty with hacross | hdown
    · rw [Int.toNat_of_nonpos (Int.sub_nonpos_of_le hacross), Nat.zero_mul]
    · rw [Int.toNat_of_nonpos (Int.sub_nonpos_of_le hdown), Nat.mul_zero]
  -- The covered pixels are a product of two intervals, one for each axis.
  · obtain ⟨hleft, htop⟩ := p.near_edges_clip rect
    obtain ⟨hright, hbottom, -, -⟩ := far_edges_clip hempty
    have hproduct : (p.coordinates.filter fun place => (p.clip rect).Covers place.1 place.2) =
        Finset.Ico (p.clip rect).left.val.toNat (p.clip rect).right.val.toNat ×ˢ
          Finset.Ico (p.clip rect).top.val.toNat (p.clip rect).bottom.val.toNat := by
      ext ⟨x, y⟩
      rw [Finset.mem_filter, mem_coordinates, Finset.mem_product, Finset.mem_Ico, Finset.mem_Ico,
        Rect.Covers]
      dsimp only
      omega
    have hlength : ∀ near far : Int, 0 ≤ near →
        far.toNat - near.toNat = (far - near).toNat := by omega
    rw [hproduct, Finset.card_product, Nat.card_Ico, Nat.card_Ico, hlength _ _ hleft,
      hlength _ _ htop]

/-- The pixels that take the color of a fill and had another one. They are found by comparing before
and after, not by the rectangle. -/
def overwritten : Finset (Nat × Nat) :=
  p.coordinates.filter fun place =>
    p.pixel? place.1 place.2 ≠ some color ∧
      (p.fill rect color).pixel? place.1 place.2 = some color

/-- A fill overwrites what it covers and is not of its color yet. -/
theorem overwritten_eq :
    p.overwritten rect color =
      (p.coordinates.filter fun place => rect.Covers place.1 place.2).filter fun place =>
        ¬ p.pixel? place.1 place.2 = some color := by
  rw [overwritten, Finset.filter_filter]
  refine Finset.filter_congr fun place hplace => ?_
  obtain ⟨hx, hy⟩ := p.mem_coordinates.mp hplace
  rw [pixel?_fill p rect color hx hy]
  by_cases hcovers : rect.Covers place.1 place.2
  · rw [if_pos hcovers]
    exact ⟨fun h => ⟨hcovers, h.1⟩, fun h => ⟨h.2, rfl⟩⟩
  · rw [if_neg hcovers]
    exact ⟨fun h => absurd h.2 h.1, fun h => absurd h.1 hcovers⟩

/-- **A fill overwrites as many pixels as its clipped rectangle has**, less those that are of its
color already. -/
theorem card_overwritten :
    (p.overwritten rect color).card +
        (p.coordinates.filter fun place =>
          rect.Covers place.1 place.2 ∧ p.pixel? place.1 place.2 = some color).card =
      ((p.clip rect).right.val - (p.clip rect).left.val).toNat *
        ((p.clip rect).bottom.val - (p.clip rect).top.val).toNat := by
  rw [overwritten_eq, ← Finset.filter_filter, Nat.add_comm,
    Finset.card_filter_add_card_filter_not, card_covered]

/-- Pixels of the color keep it, so those that take it are what is gained. Those that have the color
after the fill are a disjoint union of the two. -/
theorem count_fill :
    (p.fill rect color).count color = p.count color + (p.overwritten rect color).card := by
  have hunion : (p.coordinates.filter fun place =>
      (p.fill rect color).pixel? place.1 place.2 = some color) =
      (p.coordinates.filter fun place => p.pixel? place.1 place.2 = some color) ∪
        p.overwritten rect color := by
    rw [overwritten, ← Finset.filter_or]
    refine Finset.filter_congr fun place hplace => ?_
    obtain ⟨hx, hy⟩ := p.mem_coordinates.mp hplace
    rw [pixel?_fill p rect color hx hy]
    by_cases hold : p.pixel? place.1 place.2 = some color
    · rw [hold, ite_self]
      exact iff_of_true rfl (.inl rfl)
    · exact ⟨fun hnew => .inr ⟨hold, hnew⟩, fun h => (h.resolve_left hold).2⟩
  have hdisjoint : Disjoint
      (p.coordinates.filter fun place => p.pixel? place.1 place.2 = some color)
      (p.overwritten rect color) :=
    Finset.disjoint_filter.mpr fun place _ hold hnew => hnew.1 hold
  rw [count_eq_card, count_eq_card, coordinates, size_fill, ← coordinates, hunion,
    Finset.card_union_of_disjoint hdisjoint]

/-! ### The main result -/

/-- **A fill paints exactly its rectangle**, whichever way the edges of the rectangle stand and
however far they reach beyond the pixmap.

A pixel takes the color if the rectangle covers it, and keeps its own otherwise. The slices that are
filled are parts of the pixels, so none of them fails. The size stays as it is. The places of the
pixels are all places, each once, and the rows have the same pixels as the coordinates. The pixels
that take the color are as many as the clipped rectangle has, less those that had it already. -/
theorem fill_paints_exactly (p : Pixmap) (rect : Rect) (color : Color) :
    let filled := p.fill rect color
    let width := p.size.width
    let height := p.size.height
    let clipped := rect.intersect p.bounds
    let coordinates := Finset.range width ×ˢ Finset.range height
    -- the pixels
    (∀ x < width, ∀ y < height, filled.pixel? x y =
      if rect.left.val ≤ x ∧ x < rect.right.val ∧ rect.top.val ≤ y ∧ y < rect.bottom.val
      then some color else p.pixel? x y) ∧
    -- the slices
    (∀ s ∈ p.slices rect, s.start ≤ s.stop ∧ s.stop ≤ p.pixels.size ∧
      s.stop < 18446744073709551616) ∧
    (p.slices rect).foldlM (fun pixels s => s.fill? color pixels) p.pixels = some filled.pixels ∧
    -- the size
    filled.size = p.size ∧ filled.pixels.size = width * height ∧
    -- the places
    Set.BijOn (fun place : Nat × Nat => p.index? place.1 place.2) coordinates
      (some '' Set.Iio (width * height)) ∧
    -- the rows
    p.rows.length = height ∧
    (∀ y < height, ∃ row, p.rows[y]? = some row ∧ row.size = width ∧
      ∀ x < width, row[x]? = p.pixel? x y) ∧
    (p.rows.map Array.toList).flatten = p.pixels.toList ∧
    -- the number of pixels that change
    (let changed := coordinates.filter fun place =>
        p.pixel? place.1 place.2 ≠ some color ∧ filled.pixel? place.1 place.2 = some color
      let already := coordinates.filter fun place =>
        rect.Covers place.1 place.2 ∧ p.pixel? place.1 place.2 = some color
      changed.card + already.card =
          (clipped.right.val - clipped.left.val).toNat *
            (clipped.bottom.val - clipped.top.val).toNat ∧
        filled.count color = p.count color + changed.card) := by
  intro filled width height clipped coordinates
  have hsize : filled.size = p.size := size_fill p rect color
  refine ⟨fun x hx y hy => pixel?_fill p rect color hx hy, fun s hs => ?_,
    p.foldlM_slices rect color, hsize, ?_, p.index?_bijOn, p.length_rows, fun y hy => ?_,
    p.flatten_rows, p.card_overwritten rect color, p.count_fill rect color⟩
  -- A slice ends within the pixels, and there are fewer of these than a word can count.
  · obtain ⟨hordered, hle⟩ := p.slice_le_size rect hs
    refine ⟨hordered, hle, Nat.lt_of_le_of_lt hle ?_⟩
    rw [p.size_pixels]
    exact Nat.lt_of_lt_of_le (Nat.mul_lt_mul'' p.size.width_lt p.size.height_lt) (by decide)
  -- The pixels of a pixmap are as many as its size says.
  · rw [filled.size_pixels, hsize]
    rfl
  · exact ⟨p.row y, p.getElem?_rows hy, p.size_row hy, fun x hx => p.getElem?_row hx hy⟩

end Pixmap

end Easel
