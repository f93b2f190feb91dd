import Easel.Canvas.Surface

/-!
# Pixmaps

A `Pixmap` is a surface that holds its pixels, row after row from the top. It has at least one
pixel. Fills are clipped to its bounds.

* `Pixmap.blank?` — a black pixmap, refused for a size without pixels;
* `Pixmap.pixel?` — reading one pixel;
* `Pixmap.fill` — overwriting the pixels that a rectangle covers.
-/

namespace Easel

/-- Overwrites `count` neighbouring pixels from `start` on. Places off the array are left out, so
the recursion needs no bounds. -/
def paintRun (color : Color) (start : Nat) : Nat → Array Color → Array Color
  | 0, pixels => pixels
  | count + 1, pixels => paintRun color start count (pixels.setIfInBounds (start + count) color)

/-- Overwrites the columns from `left` to before `right` in `count` neighbouring rows from `top`
on, in rows of `width` pixels. -/
def paintRows (color : Color) (width left right top : Nat) : Nat → Array Color → Array Color
  | 0, pixels => pixels
  | count + 1, pixels =>
    paintRows color width left right top count
      (paintRun color ((top + count) * width + left) (right - left) pixels)

@[simp] theorem size_paintRun (color : Color) (start count : Nat) (pixels : Array Color) :
    (paintRun color start count pixels).size = pixels.size := by
  induction count generalizing pixels with
  | zero => rfl
  | succ count ih => simp [paintRun, ih]

@[simp] theorem size_paintRows (color : Color) (width left right top count : Nat)
    (pixels : Array Color) :
    (paintRows color width left right top count pixels).size = pixels.size := by
  induction count generalizing pixels with
  | zero => rfl
  | succ count ih => simp [paintRows, ih]

/-- A grid of pixels. That it has pixels, and as many as its size says, is part of the data: every
later fill keeps it, and readers may rely on it. -/
@[ext]
structure Pixmap where
  size : Size
  /-- The pixels, row after row. -/
  pixels : Array Color
  nonempty : ¬ size.IsEmpty
  size_pixels : pixels.size = size.area
deriving DecidableEq

namespace Pixmap

/-- Why there is no pixmap of a size. -/
inductive CreationError where
  | withoutPixels
deriving DecidableEq, Repr

/-- The wording of the refusal. -/
def CreationError.message : CreationError → String
  | .withoutPixels => "Pixmap dimensions must be non-zero"

/-- The black pixmap of a size that has pixels. -/
def blank (size : Size) (h : ¬ size.IsEmpty) : Pixmap :=
  ⟨size, Array.replicate size.area .black, h, Array.size_replicate⟩

/-- The black pixmap of a size; a size without pixels is refused. -/
def blank? (size : Size) : Except CreationError Pixmap :=
  if h : size.IsEmpty then .error .withoutPixels else .ok (blank size h)

/-- The place of a pixel in the row-major order, if it is on the pixmap. A column beyond the width
is off the pixmap and is not read in the next row. -/
def index? (p : Pixmap) (x y : Nat) : Option Nat :=
  if x < p.size.width ∧ y < p.size.height then some (y * p.size.width + x) else none

/-- The color of a pixel, if it is on the pixmap. -/
def pixel? (p : Pixmap) (x y : Nat) : Option Color :=
  (p.index? x y).bind fun i => p.pixels[i]?

/-- The row with a number, from left to right. -/
def row (p : Pixmap) (y : Nat) : Array Color :=
  p.pixels.extract (y * p.size.width) ((y + 1) * p.size.width)

/-- The rows from top to bottom. -/
def rows (p : Pixmap) : List (Array Color) :=
  (List.range p.size.height).map p.row

/-- How many pixels have a color. -/
def count (p : Pixmap) (color : Color) : Nat := p.pixels.countP (· = color)

/-- The rectangle that the pixmap fills. -/
def bounds (p : Pixmap) : Rect := .ofSize p.size

/-- The pixmap after the pixels that a rectangle covers have been overwritten. The rectangle is
clipped to the bounds first, so one that lies outside, or has its edges in the wrong order, changes
nothing. -/
def fill (p : Pixmap) (rect : Rect) (color : Color) : Pixmap :=
  match p with
  | ⟨size, pixels, nonempty, size_pixels⟩ =>
    let clipped := rect.intersect (.ofSize size)
    if clipped.IsEmpty then ⟨size, pixels, nonempty, size_pixels⟩
    else
      -- Clipped to bounds that begin at the origin, every edge is a natural number.
      let top := clipped.top.val.toNat
      { size, nonempty
        pixels := paintRows color size.width clipped.left.val.toNat clipped.right.val.toNat top
          (clipped.bottom.val.toNat - top) pixels
        size_pixels := by rw [size_paintRows, size_pixels] }

/-- A pixmap is a surface that shows what is filled. -/
instance : Surface Pixmap := ⟨bounds, fill⟩

/-- A fill overwrites pixels and adds none. The size is what the bounds depend on, so it makes
pixmaps lawful surfaces. -/
@[simp] theorem size_fill (p : Pixmap) (rect : Rect) (color : Color) :
    (p.fill rect color).size = p.size := by
  unfold fill
  dsimp only
  split <;> rfl

/-- The form `Pixmap { width: 4, height: 3, .. }`. -/
def describe (p : Pixmap) : String :=
  s!"Pixmap \x7b width: {p.size.width}, height: {p.size.height}, .. \x7d"

end Pixmap

end Easel
