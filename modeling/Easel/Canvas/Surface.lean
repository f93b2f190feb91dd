import Easel.Canvas.Color
import Easel.Canvas.Rect

/-!
# Surfaces

Everything is drawn by filling rectangles with one color. A `Surface` is a type that can be filled;
drawing never reads anything back but the bounds.
-/

namespace Easel

/-- A type of things to draw on. Pixmaps and recordings are the two that the library has; what is
proved for any surface holds of both. -/
class Surface (σ : Type) where
  /-- The whole extent of a surface, which is what a fill of the whole surface covers. -/
  bounds : σ → Rect
  /-- The surface after a rectangle of it has been filled with a color. -/
  fill : σ → Rect → Color → σ

end Easel
