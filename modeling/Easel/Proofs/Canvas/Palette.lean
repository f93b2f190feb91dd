import Easel.Proofs.Canvas.Painting
import Mathlib.Algebra.BigOperators.Group.Finset.Basic

/-!
# Palettes

A pixmap keeps to a palette if it has no other colors. Then so it does after fills with colors of
the palette, whatever they cover, and the counts of the colors add up to the number of pixels.

* `Pixmap.KeepsTo` — no other colors;
* `Pixmap.KeepsTo.paint` — fills with colors of the palette;
* `Pixmap.KeepsTo.sum_count` — the counts of the colors.
-/

namespace Easel

/-- A row of pixels that has been overwritten has its old colors and the new one. -/
theorem mem_paintRun {color other : Color} {start count : Nat} {pixels : Array Color}
    (h : other ∈ paintRun color start count pixels) : other ∈ pixels ∨ other = color := by
  induction count generalizing pixels with
  | zero => exact .inl h
  | succ count ih =>
    rcases ih h with hmem | hcolor
    · exact Array.mem_or_eq_of_mem_setIfInBounds hmem
    · exact .inr hcolor

/-- The same of several such rows. -/
theorem mem_paintRows {color other : Color} {width left right top count : Nat}
    {pixels : Array Color} (h : other ∈ paintRows color width left right top count pixels) :
    other ∈ pixels ∨ other = color := by
  induction count generalizing pixels with
  | zero => exact .inl h
  | succ count ih =>
    rcases ih h with hmem | hcolor
    · exact mem_paintRun hmem
    · exact .inr hcolor

namespace Pixmap

variable {palette : Finset Color} {p : Pixmap}

/-- All pixels have colors of the palette. The palette may have colors that no pixel has. -/
def KeepsTo (palette : Finset Color) (p : Pixmap) : Prop :=
  ∀ color ∈ p.pixels, color ∈ palette

/-- A blank pixmap keeps to every palette with black in it. -/
theorem keepsTo_blank {size : Size} (h : ¬ size.IsEmpty) (hblack : .black ∈ palette) :
    (blank size h).KeepsTo palette := by
  intro color hcolor
  rw [(Array.mem_replicate.mp hcolor).2]
  exact hblack

/-- One fill keeps to the palette, whatever it covers. -/
theorem KeepsTo.fill (h : p.KeepsTo palette) (rect : Rect) {color : Color}
    (hcolor : color ∈ palette) : (p.fill rect color).KeepsTo palette := by
  obtain ⟨size, pixels, nonempty, size_pixels⟩ := p
  unfold Pixmap.fill
  dsimp only
  split
  -- Nothing of the rectangle is on the pixmap.
  · exact h
  · intro other hother
    rcases mem_paintRows hother with hmem | rfl
    · exact h other hmem
    · exact hcolor

/-- Fills one after another keep to the palette, if each of them has a color of it. -/
theorem KeepsTo.paint {fills : List Fill} (h : p.KeepsTo palette)
    (hfills : ∀ f ∈ fills, f.2 ∈ palette) : (Surface.paint fills p).KeepsTo palette := by
  induction fills generalizing p with
  | nil => exact h
  | cons f rest ih =>
    obtain ⟨hcolor, hrest⟩ := List.forall_mem_cons.mp hfills
    exact ih (h.fill f.1 hcolor) hrest

/-- **The counts of the colors add up to the number of pixels.** Each pixel has one color, and the
palette has it. -/
theorem KeepsTo.sum_count (h : p.KeepsTo palette) :
    ∑ color ∈ palette, p.count color = p.size.area := by
  -- The library adds up the counts of a multiset.
  have hcount : ∀ color,
      p.count color = Multiset.count color (p.pixels.toList : Multiset Color) := by
    intro color
    rw [count, ← Array.countP_toList, Multiset.coe_count, List.count]
    exact List.countP_congr fun other _ => by simp
  have hmem : ∀ color ∈ (p.pixels.toList : Multiset Color), color ∈ palette :=
    fun color hcolor => h color (Array.mem_toList_iff.mp hcolor)
  rw [Finset.sum_congr rfl fun color _ => hcount color, Multiset.sum_count_eq_card hmem,
    Multiset.coe_card, Array.length_toList, p.size_pixels]

end Pixmap

end Easel
