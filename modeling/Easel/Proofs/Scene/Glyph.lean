import Easel.Proofs.Canvas.Painting
import Easel.Scene.Figure

/-!
# The glyph of a figure

The rectangles of a figure stop at the range of coordinates. On a canvas this cannot be seen: there
they cover the pixels of the glyph as it is meant, in integers without bounds (`Figure.Glyph`).

* `Figure.bar_eq`, `Figure.stem_eq` — the edges of the two rectangles, each the coordinate nearest
  to where it is meant to be;
* `Figure.covers_iff_glyph` — the pixels of the two rectangles;
* `Figure.fills` — the fills that draw a figure;
* `Figure.pixel?_draw` — a pixmap on which a figure has been drawn;
* `Figure.draw_paints_glyph` — the main result.
-/

namespace Easel

namespace Figure

/-- The pixels of the glyph: a bar 150 wide and 70 high that stands on the center, and a stem 60
wide and 140 high around it. -/
def Glyph (f : Figure) (x y : Int) : Prop :=
  (f.x.val - 75 ≤ x ∧ x < f.x.val + 75 ∧ f.y.val - 70 ≤ y ∧ y < f.y.val) ∨
    (f.x.val - 30 ≤ x ∧ x < f.x.val + 30 ∧ f.y.val - 70 ≤ y ∧ y < f.y.val + 70)

instance (f : Figure) (x y : Int) : Decidable (f.Glyph x y) :=
  inferInstanceAs (Decidable (_ ∨ _))

/-! ### Edges -/

/-- **The edges of the bar.** Its corners are given the wrong way up, and its top is above its
center also where it stops at the range. -/
theorem bar_eq (f : Figure) : f.bar =
    ⟨.clamp (f.x.val - 75), .clamp (f.y.val - 70), .clamp (f.x.val + 75), f.y⟩ := by
  have hlow := f.y.le_val
  have hhigh := f.y.val_le
  -- Each edge is clamped on its own; the center lies in the range, so where an edge is clamped the
  -- other edges are still on the right side of it.
  refine Rect.ext ?left ?top ?right ?bottom
  all_goals
    refine Coord.ext ?_
    simp only [bar, Rect.ofCorners, Coord.min_val, Coord.max_val, Coord.shift_val, Coord.clamp_val,
      barReach, halfHeight]
    omega

/-- **The edges of the stem.** -/
theorem stem_eq (f : Figure) : f.stem =
    ⟨.clamp (f.x.val - 30), .clamp (f.y.val - 70), .clamp (f.x.val + 30),
      .clamp (f.y.val + 70)⟩ := by
  refine Rect.ext ?left ?top ?right ?bottom
  -- As for the bar, edge by edge.
  all_goals
    refine Coord.ext ?_
    simp only [stem, Rect.ofCorners, Coord.min_val, Coord.max_val, Coord.shift_val, Coord.clamp_val,
      stemReach, halfHeight]
    omega

/-- **On a canvas the two rectangles of a figure cover its glyph**, wherever its center is. -/
theorem covers_iff_glyph (f : Figure) {x y : Int} (hx : 0 ≤ x) (hxlt : x < 2147483647)
    (hy : 0 ≤ y) (hylt : y < 2147483647) :
    f.bar.Covers x y ∨ f.stem.Covers x y ↔ f.Glyph x y := by
  -- An edge that is clamped lies at a bound of the coordinates, and no pixel lies beyond it.
  have hbar : f.bar.Covers x y ↔
      f.x.val - 75 ≤ x ∧ x < f.x.val + 75 ∧ f.y.val - 70 ≤ y ∧ y < f.y.val := by
    rw [bar_eq]
    simp only [Rect.Covers, Coord.clamp_val]
    omega
  have hstem : f.stem.Covers x y ↔
      f.x.val - 30 ≤ x ∧ x < f.x.val + 30 ∧ f.y.val - 70 ≤ y ∧ y < f.y.val + 70 := by
    rw [stem_eq]
    simp only [Rect.Covers, Coord.clamp_val]
    omega
  rw [hbar, hstem, Glyph]

/-! ### Drawing -/

/-- The fills that draw a figure: the bar first, then the stem, both in the color of the figure. -/
def fills (f : Figure) : List Fill := [(f.bar, f.color), (f.stem, f.color)]

/-- Drawing a figure is painting its two fills, on any surface. -/
theorem draw_eq_paint {σ : Type} [Surface σ] (f : Figure) (surface : σ) :
    f.draw surface = Surface.paint f.fills surface := rfl

/-- Both fills have the same color, so a pixel that either of them covers has it, whichever is
last. -/
theorem lastCovering_fills (f : Figure) (x y : Int) :
    lastCovering f.fills x y =
      if f.bar.Covers x y ∨ f.stem.Covers x y then some f.color else none := by
  have hcolor : ∀ fill ∈ f.fills, fill.2 = f.color := by
    intro fill hfill
    rcases List.mem_cons.mp hfill with rfl | hfill
    · rfl
    · rw [List.mem_singleton.mp hfill]
  rw [lastCovering_of_forall_eq hcolor]
  refine if_congr ?_ rfl rfl
  simp only [fills, List.mem_cons, List.not_mem_nil, or_false, exists_eq_or_imp, exists_eq_left]

/-- **Drawing a figure paints its glyph**, on a pixmap all of whose pixels have coordinates. The
pixels outside the glyph keep the colors that they have. -/
theorem pixel?_draw (f : Figure) {p : Pixmap} (hwidth : p.size.width ≤ 2147483647)
    (hheight : p.size.height ≤ 2147483647) {x y : Nat} (hx : x < p.size.width)
    (hy : y < p.size.height) :
    (f.draw p).pixel? x y = if f.Glyph x y then some f.color else p.pixel? x y := by
  -- The pixels of such a pixmap lie in the range where the rectangles and the glyph agree.
  have hglyph : f.bar.Covers x y ∨ f.stem.Covers x y ↔ f.Glyph x y :=
    f.covers_iff_glyph (by omega) (by omega) (by omega) (by omega)
  rw [draw_eq_paint, Pixmap.pixel?_paint f.fills p hx hy, lastCovering_fills,
    if_congr hglyph rfl rfl]
  split <;> rfl

/-! ### The main result -/

/-- **Where a figure stops at the range of coordinates cannot be seen.**

Each of the eight edges is where it is meant to be, or at the bound that it would cross; so the
edges are in order. On a pixmap that has a coordinate behind its last pixel, drawing the figure
changes the pixels of the glyph as it is meant, in integers without bounds, and no others. -/
theorem draw_paints_glyph (f : Figure) (p : Pixmap) (hwidth : p.size.width ≤ 2147483647)
    (hheight : p.size.height ≤ 2147483647) :
    let x := f.x.val
    let y := f.y.val
    let edge := fun meant : Int => max (-2147483648) (min meant 2147483647)
    let drawn := f.draw p
    -- the edges
    (f.bar.left.val = edge (x - 75) ∧ f.bar.right.val = edge (x + 75) ∧
      f.bar.top.val = edge (y - 70) ∧ f.bar.bottom.val = edge y) ∧
    (f.stem.left.val = edge (x - 30) ∧ f.stem.right.val = edge (x + 30) ∧
      f.stem.top.val = edge (y - 70) ∧ f.stem.bottom.val = edge (y + 70)) ∧
    -- their order
    (f.bar.left ≤ f.bar.right ∧ f.bar.top ≤ f.bar.bottom) ∧
    (f.stem.left ≤ f.stem.right ∧ f.stem.top ≤ f.stem.bottom) ∧
    -- the pixels
    drawn.size = p.size ∧
    ∀ px < p.size.width, ∀ py < p.size.height, drawn.pixel? px py =
      if (x - 75 ≤ px ∧ px < x + 75 ∧ y - 70 ≤ py ∧ py < y) ∨
          (x - 30 ≤ px ∧ px < x + 30 ∧ y - 70 ≤ py ∧ py < y + 70)
      then some f.color else p.pixel? px py := by
  intro x y edge drawn
  -- The bottom edge of the bar is the center itself, which no bound moves.
  have hcenter : f.y.val = max (-2147483648) (min f.y.val 2147483647) := by
    have hlow := f.y.le_val
    have hhigh := f.y.val_le
    omega
  refine ⟨?bar, ?stem, ?barOrder, ?stemOrder, ?size, ?pixels⟩
  case bar =>
    rw [bar_eq]
    exact ⟨rfl, rfl, rfl, hcenter⟩
  case stem =>
    rw [stem_eq]
    exact ⟨rfl, rfl, rfl, rfl⟩
  case barOrder =>
    have hlow := f.y.le_val
    rw [bar_eq, Coord.le_iff, Coord.le_iff, Coord.clamp_val, Coord.clamp_val, Coord.clamp_val]
    dsimp only
    omega
  case stemOrder =>
    rw [stem_eq, Coord.le_iff, Coord.le_iff, Coord.clamp_val, Coord.clamp_val, Coord.clamp_val,
      Coord.clamp_val]
    omega
  case size => exact Pixmap.size_paint f.fills p
  case pixels => exact fun px hpx py hpy => f.pixel?_draw hwidth hheight hpx hpy

/-- The widest row of pixels, and a figure whose center is the last coordinate. Its right edges stop
there, its left edges do not, and the last pixel is painted. -/
theorem draw_paints_glyph_last :
    let f : Figure := ⟨2147483647, 0, .white⟩
    let p := Pixmap.blank ⟨2147483647, 1, by decide, by decide⟩ (by decide)
    f.bar.right.val = 2147483647 ∧ f.stem.left.val = 2147483617 ∧
    (f.draw p).pixel? 2147483646 0 = some .white ∧
    (f.draw p).pixel? 2147483617 0 = some .white ∧
    (f.draw p).pixel? 2147483616 0 = p.pixel? 2147483616 0 := by
  intro f p
  obtain ⟨⟨-, hright, -⟩, ⟨hleft, -⟩, -, -, -, hpixels⟩ :=
    f.draw_paints_glyph p (by decide) (by decide)
  refine ⟨hright, hleft, ?_, ?_, ?_⟩
  · rw [hpixels 2147483646 (by decide) 0 (by decide), if_pos (by decide)]
  · rw [hpixels 2147483617 (by decide) 0 (by decide), if_pos (by decide)]
  · rw [hpixels 2147483616 (by decide) 0 (by decide), if_neg (by decide)]

end Figure

end Easel
