import Easel.Canvas.Rect
import Mathlib.Data.List.Perm.Basic
import Mathlib.Order.MinMax

/-!
# Overlaps of rectangles

An overlap without pixels still has a place: its near edges are the later ones of those that were
given, and a far edge that would come before one falls on it. Near edges only move on when the
overlap is clipped again, so a far edge that has been moved comes to where it would have come at
once. That is why several rectangles have one overlap, edge by edge, in whatever order and grouping
it is taken, also where they lie apart or have edges in the wrong order.

* `max_min_max_of_le` — a far edge that is moved twice;
* `Rect.intersect_comm`, `Rect.intersect_assoc`, `Rect.intersect_self_iff` — the laws of an
  overlap;
* `Rect.covers_ofCorners` — the pixels between two corners;
* `Clipping.overlap_perm` — several rectangles in any order and grouping;
* `Rect.intersect_exact` — the main result.
-/

namespace Easel

/-- Coordinates are linearly ordered, as integers are. The library's laws of `max` and `min` hold
for them with that. -/
instance : LinearOrder Coord where
  le_refl a := Int.le_refl a.val
  le_trans a b c := Int.le_trans (a := a.val)
  lt_iff_le_not_ge _ _ := Int.lt_iff_le_and_not_ge
  le_antisymm _ _ hle hge := Coord.ext (Int.le_antisymm hle hge)
  le_total a b := Int.le_total a.val b.val
  toDecidableLE := inferInstance

/-- **A far edge that is moved twice** comes to where it would have come at once, since near edges
only move on. -/
theorem max_min_max_of_le {α : Type} [LinearOrder α] {near later : α} (far other : α)
    (h : near ≤ later) :
    max (min (max far near) other) later = max (min far other) later := by
  have hbehind : min near other ≤ later := (min_le_left near other).trans h
  calc max (min (max far near) other) later
      -- Clipping the moved edge moves both what it was and the near edge that it was moved to.
      = max (max (min far other) (min near other)) later := by rw [min_max_distrib_right]
    -- What has become of the near edge lies before the later one and can be left out.
    _ = max (min far other) (max (min near other) later) := max_assoc _ _ _
    _ = max (min far other) later := by rw [max_eq_right hbehind]

namespace Rect

/-! ### Laws of an overlap -/

/-- A rectangle whose edges are in order. It may be without pixels. -/
def IsOrdered (r : Rect) : Prop := r.left ≤ r.right ∧ r.top ≤ r.bottom

instance (r : Rect) : Decidable r.IsOrdered := inferInstanceAs (Decidable (_ ∧ _))

/-- An overlap has its edges in order, even if neither of the two rectangles has: far edges are
never left before near ones. -/
theorem isOrdered_intersect (a b : Rect) : (a.intersect b).IsOrdered :=
  ⟨le_max_right _ _, le_max_right _ _⟩

/-- An overlap does not depend on the order of the two rectangles. On each axis it is the
commutativity of `max` and `min`. -/
theorem intersect_comm (a b : Rect) : a.intersect b = b.intersect a := by
  refine Rect.ext (max_comm _ _) (max_comm _ _) ?right ?bottom
  case right => exact congrArg₂ max (min_comm _ _) (max_comm _ _)
  case bottom => exact congrArg₂ max (min_comm _ _) (max_comm _ _)

/-- The overlap of three rectangles: the near edges are the last of the three, and the far edges are
the first of the three unless that comes before a near edge. The far edges of the first overlap may
have been moved, but `max_min_max_of_le` says that this leaves no trace. -/
theorem intersect_intersect (a b c : Rect) :
    (a.intersect b).intersect c =
      ⟨max (max a.left b.left) c.left, max (max a.top b.top) c.top,
        max (min (min a.right b.right) c.right) (max (max a.left b.left) c.left),
        max (min (min a.bottom b.bottom) c.bottom) (max (max a.top b.top) c.top)⟩ := by
  refine Rect.ext rfl rfl ?right ?bottom
  case right => exact max_min_max_of_le _ _ (le_max_left _ _)
  case bottom => exact max_min_max_of_le _ _ (le_max_left _ _)

/-- An overlap does not depend on the grouping of three rectangles. -/
theorem intersect_assoc (a b c : Rect) :
    (a.intersect b).intersect c = a.intersect (b.intersect c) := by
  -- The overlap of three is the same for each of them as the last one.
  rw [intersect_comm a (b.intersect c), intersect_intersect, intersect_intersect]
  have hmax : ∀ p q r : Coord, max (max p q) r = max (max q r) p := fun p q r =>
    (max_assoc p q r).trans (max_comm p _)
  have hmin : ∀ p q r : Coord, min (min p q) r = min (min q r) p := fun p q r =>
    (min_assoc p q r).trans (min_comm p _)
  rw [hmax a.left, hmax a.top, hmin a.right, hmin a.bottom]

/-- Overlaps of rectangles may be taken in any order by the library's lemmas on folds. -/
instance : Std.Commutative intersect := ⟨intersect_comm⟩

instance : Std.Associative intersect := ⟨intersect_assoc⟩

/-- **A rectangle is its overlap with itself** if its edges are in order, and only then. -/
theorem intersect_self_iff {r : Rect} : r.intersect r = r ↔ r.IsOrdered := by
  constructor
  -- An overlap has its edges in order, so a rectangle that is one has too.
  · intro h
    rw [← h]
    exact r.isOrdered_intersect r
  · rintro ⟨hacross, hdown⟩
    refine Rect.ext (max_self _) (max_self _) ?right ?bottom
    case right =>
      calc max (min r.right r.right) (max r.left r.left)
          = max r.right r.left := congrArg₂ max (min_self _) (max_self _)
        _ = r.right := max_eq_left hacross
    case bottom =>
      calc max (min r.bottom r.bottom) (max r.top r.top)
          = max r.bottom r.top := congrArg₂ max (min_self _) (max_self _)
        _ = r.bottom := max_eq_left hdown

/-- An overlap is without pixels exactly if the two rectangles share none. -/
theorem isEmpty_intersect_iff {a b : Rect} :
    (a.intersect b).IsEmpty ↔ ¬ ∃ x y, a.Covers x y ∧ b.Covers x y := by
  rw [isEmpty_iff_forall_not_covers]
  push Not
  simp only [covers_intersect, not_and]

/-! ### Corners -/

section Corners

variable (xa ya xb yb : Coord)

/-- Two corners may exchange their columns. -/
theorem ofCorners_swap_columns : ofCorners xb ya xa yb = ofCorners xa ya xb yb :=
  Rect.ext (min_comm _ _) rfl (max_comm _ _) rfl

/-- Two corners may exchange their rows. So it does not matter which of the four corners is given
first. -/
theorem ofCorners_swap_rows : ofCorners xa yb xb ya = ofCorners xa ya xb yb :=
  Rect.ext rfl (min_comm _ _) rfl (max_comm _ _)

/-- **The rectangle between two corners covers what is between them**, on each axis from the one
that comes first up to the other one. -/
theorem covers_ofCorners {x y : Int} :
    (ofCorners xa ya xb yb).Covers x y ↔
      ((xa.val ≤ x ∧ x < xb.val) ∨ (xb.val ≤ x ∧ x < xa.val)) ∧
        ((ya.val ≤ y ∧ y < yb.val) ∨ (yb.val ≤ y ∧ y < ya.val)) := by
  -- Which of the two comes first is decided on each axis on its own.
  simp only [Covers, ofCorners, Coord.min_val, Coord.max_val]
  omega

end Corners

end Rect

/-! ### Several rectangles -/

/-- Rectangles to be clipped by each other, in some order and grouping. There is at least one, so
there always is an overlap, though no rectangle covers everything. -/
inductive Clipping
  | only (r : Rect)
  | both (s t : Clipping)

namespace Clipping

/-- The rectangles, from left to right. -/
def rects : Clipping → List Rect
  | only r => [r]
  | both s t => s.rects ++ t.rects

/-- Their overlap, taken in this order and grouping. -/
def overlap : Clipping → Rect
  | only r => r
  | both s t => s.overlap.intersect t.overlap

/-- There is at least one rectangle. -/
theorem rects_ne_nil (t : Clipping) : t.rects ≠ [] := by
  induction t with
  | only r => exact List.cons_ne_nil r []
  | both s t ihs iht => exact List.append_ne_nil_of_left_ne_nil ihs _

/-- **The pixels of the overlap** are those that all rectangles cover. -/
theorem covers_overlap (t : Clipping) {x y : Int} :
    t.overlap.Covers x y ↔ ∀ r ∈ t.rects, r.Covers x y := by
  induction t with
  | only r => rw [overlap, rects, List.forall_mem_singleton]
  | both s t ihs iht => rw [overlap, rects, Rect.covers_intersect, ihs, iht, List.forall_mem_append]

/-- To clip by an overlap is to clip by the rectangles, one after another. Here the grouping is
lost, and what is left is the order. -/
theorem intersect_overlap (t : Clipping) (r : Rect) :
    r.intersect t.overlap = t.rects.foldl Rect.intersect r := by
  induction t generalizing r with
  | only only => rfl
  | both s t ihs iht =>
    rw [overlap, rects, List.foldl_append, ← ihs, ← iht, Rect.intersect_assoc]

/-- **Order and grouping make no difference** to the overlap. A single rectangle may be without
pixels and have its edges in any order, so it need not be its own overlap with itself; but it has no
other order or grouping either. -/
theorem overlap_perm {s t : Clipping} (h : s.rects.Perm t.rects) : s.overlap = t.overlap := by
  -- What is clipped by the one comes out as what is clipped by the other.
  have hclip : ∀ r : Rect, r.intersect s.overlap = r.intersect t.overlap := fun r => by
    rw [intersect_overlap, intersect_overlap, h.foldl_eq]
  -- An overlap of two or more has its edges in order.
  have hboth : ∀ u v : Clipping, (both u v).overlap.intersect (both u v).overlap =
      (both u v).overlap := fun u v => Rect.intersect_self_iff.mpr (Rect.isOrdered_intersect _ _)
  have hlength : ∀ u v : Clipping, (both u v).rects.length ≠ 1 := fun u v => by
    have hu := List.length_pos_iff.mpr u.rects_ne_nil
    have hv := List.length_pos_iff.mpr v.rects_ne_nil
    rw [rects, List.length_append]
    omega
  -- With one rectangle there is nothing to exchange, and one is never as many as two or more.
  cases s with
  | only r =>
    cases t with
    | only r' => exact List.singleton_perm_singleton.mp h
    | both u v => exact absurd h.length_eq.symm (hlength u v)
  | both u v =>
    cases t with
    | only r => exact absurd h.length_eq (hlength u v)
    | both u' v' =>
      -- Neither of the two is changed by being clipped by itself, so each is their overlap.
      calc (both u v).overlap
          = (both u v).overlap.intersect (both u v).overlap := (hboth u v).symm
        _ = (both u v).overlap.intersect (both u' v').overlap := hclip _
        _ = (both u' v').overlap.intersect (both u v).overlap := Rect.intersect_comm _ _
        _ = (both u' v').overlap.intersect (both u' v').overlap := hclip _
        _ = (both u' v').overlap := hboth u' v'

end Clipping

/-! ### The main result -/

/-- **The overlap of rectangles is exact, and one and the same**, whatever edges they have.

It covers the pixels that both of them cover, so it is empty where they share none; its edges are in
order. It depends neither on the order of two nor on the grouping of three, edge by edge, and a
rectangle with edges in order, but no other, is its own overlap with itself.

Two corners may exchange their columns, and their rows, and what is between them is covered. However
many rectangles there are, the overlap is the same in any order and grouping, and covers what all of
them cover. -/
theorem Rect.intersect_exact (a b c : Rect) (xa ya xb yb : Coord) :
    -- pixels
    (∀ x y, (a.intersect b).Covers x y ↔ a.Covers x y ∧ b.Covers x y) ∧
    ((a.intersect b).IsEmpty ↔ ¬ ∃ x y, a.Covers x y ∧ b.Covers x y) ∧
    -- edges
    ((a.intersect b).left ≤ (a.intersect b).right ∧
      (a.intersect b).top ≤ (a.intersect b).bottom) ∧
    a.intersect b = b.intersect a ∧
    (a.intersect b).intersect c = a.intersect (b.intersect c) ∧
    (a.intersect a = a ↔ a.left ≤ a.right ∧ a.top ≤ a.bottom) ∧
    -- corners
    ofCorners xb ya xa yb = ofCorners xa ya xb yb ∧
    ofCorners xa yb xb ya = ofCorners xa ya xb yb ∧
    (∀ x y, (ofCorners xa ya xb yb).Covers x y ↔
      ((xa.val ≤ x ∧ x < xb.val) ∨ (xb.val ≤ x ∧ x < xa.val)) ∧
        ((ya.val ≤ y ∧ y < yb.val) ∨ (yb.val ≤ y ∧ y < ya.val))) ∧
    -- several rectangles
    (∀ s t : Clipping, s.rects.Perm t.rects → s.overlap = t.overlap) ∧
    (∀ t : Clipping, ∀ x y, t.overlap.Covers x y ↔ ∀ r ∈ t.rects, r.Covers x y) := by
  refine ⟨fun x y => covers_intersect, isEmpty_intersect_iff, isOrdered_intersect a b,
    intersect_comm a b, intersect_assoc a b c, intersect_self_iff, ?columns, ?rows, ?between,
    ?several, ?covered⟩
  case columns => exact ofCorners_swap_columns xa ya xb yb
  case rows => exact ofCorners_swap_rows xa ya xb yb
  case between => exact fun x y => covers_ofCorners xa ya xb yb
  case several => exact fun s t h => Clipping.overlap_perm h
  case covered => exact fun t x y => t.covers_overlap

/-- An overlap without pixels has a place, here of three rectangles one of which is the wrong way
around. -/
example :
    ((⟨5, 5, 0, 0⟩ : Rect).intersect ⟨8, 0, 9, 9⟩).intersect ⟨1, 1, 3, 3⟩ = ⟨8, 5, 8, 5⟩ := by
  decide

end Easel
