import Easel.Canvas.Pixmap
import Easel.Canvas.Recording
import Mathlib.Data.List.Induction
import Mathlib.Tactic.Set

/-!
# What fills leave on a surface

A fill is a rectangle with a color. `Surface.paint` applies a row of fills in order, and everything
that the library draws comes down to it. Two facts about the surfaces at hand carry the rest:

* `Pixmap.pixel?_fill` — a fill overwrites exactly the pixels that its rectangle covers, whichever
  way its edges stand and however far they reach beyond the pixmap;
* `Pixmap.pixel?_paint` — after a row of fills a pixel has the color of the last one that covers
  it, `lastCovering`, or its old color if none does;
* `Recording.paint_eq` — a recording keeps a row of fills as it is.

`LawfulSurface` says that filling does not change the bounds of a surface. An operation reads
nothing else of a surface, so what it draws depends on the bounds alone.
-/

namespace Easel

/-- One fill: a rectangle and the color it is filled with. Fills are data, so they can be listed,
cut and compared before anything is drawn. -/
abbrev Fill := Rect × Color

/-- A surface whose bounds stay what they are while it is drawn on. Then the fill of a whole surface
is the same rectangle whenever it is drawn. -/
class LawfulSurface (σ : Type) [Surface σ] : Prop where
  bounds_fill : ∀ (surface : σ) (rect : Rect) (color : Color),
    Surface.bounds (Surface.fill surface rect color) = Surface.bounds surface

namespace Surface

variable {σ : Type} [Surface σ]

/-- The surface after a row of fills. Drawing of every kind comes down to this, so what a surface
looks like is a matter of the row alone. -/
def paint (fills : List Fill) (surface : σ) : σ :=
  fills.foldl (fun surface f => Surface.fill surface f.1 f.2) surface

@[simp] theorem paint_nil (surface : σ) : paint [] surface = surface := rfl

/-- The first fill is drawn first. -/
@[simp] theorem paint_cons (f : Fill) (fills : List Fill) (surface : σ) :
    paint (f :: fills) surface = paint fills (Surface.fill surface f.1 f.2) := rfl

/-- A row of fills may be drawn in two parts. -/
theorem paint_append (fills later : List Fill) (surface : σ) :
    paint (fills ++ later) surface = paint later (paint fills surface) :=
  List.foldl_append

/-- The bounds are the same whenever they are asked for. -/
@[simp] theorem bounds_paint [LawfulSurface σ] (fills : List Fill) (surface : σ) :
    Surface.bounds (paint fills surface) = Surface.bounds surface := by
  induction fills generalizing surface with
  | nil => rfl
  | cons f fills ih => rw [paint_cons, ih, LawfulSurface.bounds_fill]

end Surface

/-! ### Pixmaps -/

/-- A run of pixels takes the color, and no other pixel changes. Places beyond the pixels are not
there to be painted. -/
theorem getElem?_paintRun (color : Color) (start count : Nat) (pixels : Array Color) (i : Nat) :
    (paintRun color start count pixels)[i]? =
      if start ≤ i ∧ i < start + count ∧ i < pixels.size then some color else pixels[i]? := by
  induction count generalizing pixels with
  | zero => rw [paintRun, if_neg (by omega)]
  | succ count ih =>
    rw [paintRun, ih, Array.size_setIfInBounds, Array.getElem?_setIfInBounds]
    -- The last pixel of the run is painted first, so it may be the one asked for.
    by_cases hi : start + count = i
    · subst hi
      by_cases hs : start + count < pixels.size
      · simp [hs]
      · rw [if_neg (by omega), if_pos rfl, if_neg hs, if_neg (by omega),
          Array.getElem?_eq_none (by omega)]
    · rw [if_neg hi]
      have : (start ≤ i ∧ i < start + count ∧ i < pixels.size) ↔
          (start ≤ i ∧ i < start + (count + 1) ∧ i < pixels.size) := by omega
      simp only [this]

/-- In rows of `width` pixels, the place of a pixel tells its row and its column. -/
theorem mem_run_iff {width x right : Nat} (y row left : Nat) (hx : x < width)
    (hr : right ≤ width) :
    (row * width + left ≤ y * width + x ∧
      y * width + x < row * width + left + (right - left)) ↔
      (y = row ∧ left ≤ x ∧ x < right) := by
  constructor
  · rintro ⟨h₁, h₂⟩
    -- Another row is a whole `width` away, which is more than a column can make up for.
    have hy : y = row := by
      rcases Nat.lt_trichotomy y row with h | h | h
      · have := Nat.mul_le_mul_right width h
        rw [Nat.succ_mul] at this
        omega
      · exact h
      · have := Nat.mul_le_mul_right width h
        rw [Nat.succ_mul] at this
        omega
    subst hy
    omega
  -- In the row itself the row part is the same on both sides.
  · rintro ⟨rfl, h₁, h₂⟩
    omega

/-- Rows of runs overwrite a rectangle, and no other pixel changes. The pixel is given by its
coordinates, since its place alone does not tell which row it is in without the width. -/
theorem getElem?_paintRows (color : Color) {width left right : Nat} (top count : Nat)
    (pixels : Array Color) {x y : Nat} (hx : x < width) (hr : right ≤ width)
    (hs : y * width + x < pixels.size) :
    (paintRows color width left right top count pixels)[y * width + x]? =
      if left ≤ x ∧ x < right ∧ top ≤ y ∧ y < top + count then some color
      else pixels[y * width + x]? := by
  induction count generalizing pixels with
  | zero => rw [paintRows, if_neg (by omega)]
  | succ count ih =>
    rw [paintRows, ih _ (by rwa [size_paintRun]), getElem?_paintRun]
    -- The lowest row comes first; the others are painted over what it leaves.
    have hrow := mem_run_iff y (top + count) left hx hr
    -- A pixel of the rows above the last one is painted by them, whatever the last row has done.
    by_cases h : left ≤ x ∧ x < right ∧ top ≤ y ∧ y < top + count
    · rw [if_pos h, if_pos (by omega)]
    · rw [if_neg h]
      by_cases hl : y = top + count ∧ left ≤ x ∧ x < right
      · obtain ⟨h₁, h₂⟩ := hrow.mpr hl
        rw [if_pos ⟨h₁, h₂, hs⟩, if_pos (by omega)]
      · rw [if_neg (fun hc => hl (hrow.mp ⟨hc.1, hc.2.1⟩)), if_neg (by omega)]

namespace Pixmap

/-- A pixel with a column and a row of the pixmap has a place in it. -/
theorem index_lt_size_pixels (p : Pixmap) {x y : Nat} (hx : x < p.size.width)
    (hy : y < p.size.height) : y * p.size.width + x < p.pixels.size := by
  rw [p.size_pixels, Size.area, Nat.mul_comm p.size.width]
  have := Nat.mul_le_mul_right p.size.width (Nat.succ_le_of_lt hy)
  rw [Nat.succ_mul] at this
  omega

/-- A pixel on the pixmap is read from its place. -/
theorem pixel?_eq_getElem? (p : Pixmap) {x y : Nat} (hx : x < p.size.width)
    (hy : y < p.size.height) : p.pixel? x y = p.pixels[y * p.size.width + x]? := by
  simp [pixel?, index?, hx, hy]

/-- The part of a rectangle that lies on a pixmap has natural edges, and covers the pixels of the
pixmap that the rectangle covers. -/
theorem clip_covers (rect : Rect) (size : Size) {x y : Nat} (hx : x < size.width)
    (hy : y < size.height) :
    (rect.intersect (.ofSize size)).Covers x y ↔ rect.Covers x y := by
  rw [Rect.covers_intersect]
  -- Being on the pixmap, the pixel is covered by the bounds; no coordinate is too large for that,
  -- since the rectangle itself reaches behind it.
  refine and_iff_left_of_imp ?_
  intro h
  have hr := rect.right.val_le
  have hb := rect.bottom.val_le
  simp only [Rect.Covers] at h
  simp only [Rect.Covers, Rect.ofSize, Coord.zero_val, Coord.clamp_val]
  omega

/-- Clipping puts the near edges at the origin or beyond it. -/
theorem clip_near_edges (rect : Rect) (size : Size) :
    0 ≤ (rect.intersect (.ofSize size)).left.val ∧
      0 ≤ (rect.intersect (.ofSize size)).top.val := by
  simp only [Rect.intersect, Rect.ofSize, Coord.max_val, Coord.zero_val]
  omega

/-- Where something is left of a rectangle, clipping puts the far edges beyond the near ones, and
not beyond the last pixel. -/
theorem clip_far_edges {rect : Rect} {size : Size}
    (h : ¬ (rect.intersect (.ofSize size)).IsEmpty) :
    (rect.intersect (.ofSize size)).right.val ≤ size.width ∧
      (rect.intersect (.ofSize size)).bottom.val ≤ size.height ∧
      (rect.intersect (.ofSize size)).left.val < (rect.intersect (.ofSize size)).right.val ∧
      (rect.intersect (.ofSize size)).top.val < (rect.intersect (.ofSize size)).bottom.val := by
  simp only [Rect.IsEmpty, Coord.le_iff, Rect.intersect, Rect.ofSize, Coord.max_val, Coord.min_val,
    Coord.clamp_val, Coord.zero_val] at h ⊢
  omega

/-- **A fill overwrites the pixels that its rectangle covers.** This is all that is ever used of a
fill: clipping, places and rows are not seen behind it. -/
theorem pixel?_fill (p : Pixmap) (rect : Rect) (color : Color) {x y : Nat}
    (hx : x < p.size.width) (hy : y < p.size.height) :
    (p.fill rect color).pixel? x y =
      if rect.Covers x y then some color else p.pixel? x y := by
  have hsize := size_fill p rect color
  rw [pixel?_eq_getElem? _ (by rwa [hsize]) (by rwa [hsize]), pixel?_eq_getElem? _ hx hy, hsize]
  have hs := p.index_lt_size_pixels hx hy
  have hclip := clip_covers rect p.size hx hy
  obtain ⟨size, pixels, nonempty, size_pixels⟩ := p
  simp only [fill]
  obtain ⟨hl, ht⟩ := clip_near_edges rect size
  split
  -- Nothing is left of the rectangle on the pixmap, so it covers none of its pixels.
  · next hempty =>
    rw [if_neg (fun h => Rect.isEmpty_iff_forall_not_covers.mp hempty x y (hclip.mpr h))]
  · next hsome =>
    have hr := Int.toNat_le.mpr (clip_far_edges hsome).1
    rw [getElem?_paintRows color _ _ pixels hx hr hs]
    refine if_congr ?_ rfl rfl
    rw [← hclip]
    simp only [Rect.Covers]
    omega

/-- The bounds cover every pixel of a pixmap that is no larger than the range of coordinates. -/
theorem covers_bounds (p : Pixmap) (hw : p.size.width ≤ 2147483647)
    (hh : p.size.height ≤ 2147483647) {x y : Nat} (hx : x < p.size.width)
    (hy : y < p.size.height) : p.bounds.Covers x y := by
  simp only [bounds, Rect.Covers, Rect.ofSize, Coord.zero_val, Coord.clamp_val]
  omega

end Pixmap

/-- The bounds of a pixmap depend on its size, which a fill keeps. -/
instance : LawfulSurface Pixmap where
  bounds_fill p rect color := by
    change (p.fill rect color).bounds = p.bounds
    rw [Pixmap.bounds, Pixmap.bounds, Pixmap.size_fill]

/-- The bounds of a recording are a field that a fill does not touch. -/
instance : LawfulSurface Recording where
  bounds_fill _ _ _ := rfl

/-- The color of the last fill that covers a pixel, if one does. It is all that a row of fills says
of a pixel. -/
def lastCovering (fills : List Fill) (x y : Int) : Option Color :=
  (fills.filter fun f => f.1.Covers x y).getLast?.map Prod.snd

@[simp] theorem lastCovering_nil (x y : Int) : lastCovering [] x y = none := rfl

/-- Later fills come first in the choice. -/
theorem lastCovering_append (fills later : List Fill) (x y : Int) :
    lastCovering (fills ++ later) x y = (lastCovering later x y).or (lastCovering fills x y) := by
  rw [lastCovering, List.filter_append, List.getLast?_append, lastCovering, lastCovering]
  cases (later.filter fun f => f.1.Covers x y).getLast? <;> rfl

/-- One fill decides if it covers the pixel. -/
theorem lastCovering_singleton (f : Fill) (x y : Int) :
    lastCovering [f] x y = if f.1.Covers x y then some f.2 else none := by
  by_cases h : f.1.Covers x y <;> simp [lastCovering, h]

/-- Fills of one color: whether any of them covers the pixel decides. -/
theorem lastCovering_of_forall_eq {fills : List Fill} {color : Color}
    (h : ∀ f ∈ fills, f.2 = color) (x y : Int) :
    lastCovering fills x y = if ∃ f ∈ fills, f.1.Covers x y then some color else none := by
  induction fills using List.reverseRecOn with
  | nil => simp
  | append_singleton fills last ih =>
    have hlast : last.2 = color := h last (by simp)
    have hinit := ih fun f hf => h f (List.mem_append_left _ hf)
    rw [lastCovering_append, lastCovering_singleton, hinit, hlast]
    -- The last fill decides if it covers the pixel, and otherwise adds nothing to the choice.
    by_cases hc : last.1.Covers x y
    · rw [if_pos hc, Option.some_or,
        if_pos ⟨last, List.mem_append_right _ (List.mem_singleton_self last), hc⟩]
    · have hex : (∃ f ∈ fills ++ [last], f.1.Covers x y) ↔ ∃ f ∈ fills, f.1.Covers x y := by
        constructor
        · rintro ⟨f, hf, hcov⟩
          rcases List.mem_append.mp hf with hf | hf
          · exact ⟨f, hf, hcov⟩
          · rw [List.mem_singleton.mp hf] at hcov
            exact absurd hcov hc
        · rintro ⟨f, hf, hcov⟩
          exact ⟨f, List.mem_append_left _ hf, hcov⟩
      rw [if_neg hc, Option.none_or]
      simp only [hex]

namespace Pixmap

/-- Fills keep the size. -/
@[simp] theorem size_paint (fills : List Fill) (p : Pixmap) :
    (Surface.paint fills p).size = p.size := by
  induction fills generalizing p with
  | nil => rfl
  | cons f fills ih => rw [Surface.paint_cons, ih]; exact size_fill p f.1 f.2

/-- **The last writer wins.** After a row of fills a pixel has the color of the last one that covers
it, or its old color. The induction takes off the last fill, which is the one that decides first. -/
theorem pixel?_paint (fills : List Fill) (p : Pixmap) {x y : Nat} (hx : x < p.size.width)
    (hy : y < p.size.height) :
    (Surface.paint fills p).pixel? x y = (lastCovering fills x y).or (p.pixel? x y) := by
  induction fills using List.reverseRecOn with
  | nil => rfl
  | append_singleton fills last ih =>
    rw [Surface.paint_append, lastCovering_append, lastCovering_singleton]
    have hfill := pixel?_fill (Surface.paint fills p) last.1 last.2
      (by rwa [size_paint]) (by rwa [size_paint] : y < _)
    change ((Surface.paint fills p).fill last.1 last.2).pixel? x y = _
    rw [hfill, ih]
    -- What the last fill does not cover is as the others have left it.
    by_cases hc : last.1.Covers x y <;> simp [hc]

end Pixmap

/-! ### Recordings -/

namespace Recording

/-- **A recording keeps a row of fills as it is.** Together with `Pixmap.pixel?_paint` it makes a
recording a plan of what a pixmap of the same bounds would show. -/
theorem paint_eq (fills : List Fill) (recording : Recording) :
    Surface.paint fills recording =
      { recording with fills := recording.fills ++ fills.toArray } := by
  induction fills generalizing recording with
  | nil => simp
  | cons f fills ih =>
    rw [Surface.paint_cons, ih]
    obtain ⟨id, bounds, kept⟩ := recording
    change (⟨id, bounds, kept.push f ++ fills.toArray⟩ : Recording) =
      ⟨id, bounds, kept ++ (f :: fills).toArray⟩
    congr 1
    apply Array.toList_inj.mp
    simp

end Recording

end Easel
