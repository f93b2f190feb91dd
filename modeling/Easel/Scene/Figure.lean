import Easel.Canvas.Surface

/-!
# Figures

A figure is a T-shaped glyph around its center: a horizontal bar over a vertical stem. Its edges
stop at the range of coordinates, so a figure far off the canvas still has well-formed rectangles.

* `Figure.bar`, `Figure.stem` — the two rectangles, drawn in this order by `Figure.draw`;
* `Figure.shift` — the figure moved by a distance on each axis.
-/

namespace Easel

/-- A glyph with its center and color. Its size is the same for all figures and is not part of
it. -/
@[ext]
structure Figure where
  x : Coord
  y : Coord
  color : Color
deriving DecidableEq

namespace Figure

/-- How far the bar reaches to either side of the center. -/
def barReach : Int := 75

/-- How far the stem reaches to either side of the center. -/
def stemReach : Int := 30

/-- How far the glyph reaches above and below the center. -/
def halfHeight : Int := 70

/-- The horizontal bar, from the top of the glyph down to its center. Corners are put in order, so
the bar is well formed wherever the center is. -/
def bar (f : Figure) : Rect :=
  .ofCorners (f.x.shift (-barReach)) f.y (f.x.shift barReach) (f.y.shift (-halfHeight))

/-- The vertical stem, over the whole height of the glyph. -/
def stem (f : Figure) : Rect :=
  .ofCorners (f.x.shift (-stemReach)) (f.y.shift (-halfHeight)) (f.x.shift stemReach)
    (f.y.shift halfHeight)

/-- Draws the two rectangles of a figure in its color, the bar first. Where they meet the stem
overwrites the bar with the same color. -/
def draw {σ : Type} [Surface σ] (f : Figure) (surface : σ) : σ :=
  Surface.fill (Surface.fill surface f.bar f.color) f.stem f.color

/-- The figure moved by a distance on each axis. Each axis stops at its own bound, and the color
stays. -/
def shift (f : Figure) (dx dy : Coord) : Figure :=
  ⟨f.x.shift dx.val, f.y.shift dy.val, f.color⟩

@[simp] theorem shift_color (f : Figure) (dx dy : Coord) : (f.shift dx dy).color = f.color := rfl

/-- The form `Figure { x: 5, y: 5, color: #ff0000 }`. -/
def describe (f : Figure) : String :=
  s!"Figure \x7b x: {f.x}, y: {f.y}, color: {f.color.describe} \x7d"

end Figure

end Easel
