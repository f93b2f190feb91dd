import Easel.Canvas.Coord

/-!
# Sizes and rectangles

A `Rect` is half open: it covers the pixels from its left and top edge up to, and not including, its
right and bottom edge. Its edges may lie outside any surface, and they may be in the wrong order; a
rectangle whose edges meet or are in the wrong order covers nothing.

* `Rect.ofCorners` — the rectangle between two opposite corners, whichever they are;
* `Rect.intersect` — the overlap of two rectangles, with `covers_intersect` for its pixels;
* `Rect.ofSize` — the rectangle a surface fills.
-/

namespace Easel

/-- The dimensions of a surface in pixels, each below `2 ^ 32`. Either may be zero; whether a
surface of such a size exists is up to the surface. -/
@[ext]
structure Size where
  width : Nat
  height : Nat
  width_lt : width < 4294967296
  height_lt : height < 4294967296
deriving DecidableEq

namespace Size

/-- The number of pixels. -/
def area (s : Size) : Nat := s.width * s.height

/-- A size without pixels: one dimension is zero, whatever the other one is. -/
def IsEmpty (s : Size) : Prop := s.width = 0 ∨ s.height = 0

instance (s : Size) : Decidable s.IsEmpty := inferInstanceAs (Decidable (_ ∨ _))

end Size

/-- A half-open rectangle of pixels. Nothing is said about the order of its edges, since a rectangle
may be written down the wrong way round; it covers nothing then. -/
@[ext]
structure Rect where
  left : Coord
  top : Coord
  right : Coord
  bottom : Coord
deriving DecidableEq

namespace Rect

/-- The pixels that a rectangle covers: from the left and top edge on, and before the right and
bottom edge. The pixels are integers, so a rectangle covers pixels outside any surface too. -/
def Covers (r : Rect) (x y : Int) : Prop :=
  r.left.val ≤ x ∧ x < r.right.val ∧ r.top.val ≤ y ∧ y < r.bottom.val

instance (r : Rect) (x y : Int) : Decidable (r.Covers x y) :=
  inferInstanceAs (Decidable (_ ∧ _))

/-- The rectangle between two opposite corners, given in either order on each axis. Its edges are in
order. -/
def ofCorners (xa ya xb yb : Coord) : Rect :=
  ⟨min xa xb, min ya yb, max xa xb, max ya yb⟩

/-- The rectangle of a surface, its top left corner at the origin. A dimension beyond the range of
coordinates ends at the last coordinate. -/
def ofSize (s : Size) : Rect :=
  ⟨0, 0, .clamp s.width, .clamp s.height⟩

/-- A rectangle that covers no pixel, since its edges meet or are in the wrong order on some
axis. -/
def IsEmpty (r : Rect) : Prop := r.right ≤ r.left ∨ r.bottom ≤ r.top

instance (r : Rect) : Decidable r.IsEmpty := inferInstanceAs (Decidable (_ ∨ _))

/-- The overlap of two rectangles. Where there is none, the far edges fall on the near ones. -/
def intersect (a b : Rect) : Rect :=
  let left := max a.left b.left
  let top := max a.top b.top
  ⟨left, top, max (min a.right b.right) left, max (min a.bottom b.bottom) top⟩

/-- The overlap covers the pixels that both rectangles cover, and no others, even if the edges of
either are in the wrong order. -/
@[simp] theorem covers_intersect {a b : Rect} {x y : Int} :
    (a.intersect b).Covers x y ↔ a.Covers x y ∧ b.Covers x y := by
  simp only [Covers, intersect, Coord.max_val, Coord.min_val]
  omega

/-- Emptiness, which is told from the edges, is the absence of covered pixels. If there is one at
all, the left top corner is one. -/
theorem isEmpty_iff_forall_not_covers {r : Rect} : r.IsEmpty ↔ ∀ x y, ¬ r.Covers x y := by
  constructor
  · intro h x y
    simp only [IsEmpty, Coord.le_iff] at h
    simp only [Covers]
    omega
  · intro h
    -- The left top corner would be covered if both axes had room for a pixel.
    have := h r.left.val r.top.val
    simp only [Covers] at this
    simp only [IsEmpty, Coord.le_iff]
    omega

/-- The form `Rect(left, top)-(right, bottom)`. -/
def describe (r : Rect) : String :=
  s!"Rect({r.left}, {r.top})-({r.right}, {r.bottom})"

end Rect

end Easel
