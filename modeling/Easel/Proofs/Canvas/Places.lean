import Easel.Canvas.Pixmap
import Easel.Proofs.Canvas.Painting
import Mathlib.Data.Finset.Prod
import Mathlib.Data.Set.Function

/-!
# The places of pixels

A pixmap holds its pixels in one row-major sequence. A pixel with a column and a row of the pixmap
has exactly one place in it, and every place is the one of exactly one pixel. So the pixels may be
gone through by their coordinates, by rows, or one after another.

* `Pixmap.index?_bijOn` — coordinates on the pixmap and places;
* `Pixmap.ext_pixel?` — two pixmaps with the same pixels are the same;
* `Pixmap.getElem?_rows`, `Pixmap.flatten_rows` — the rows, and the pixels in them;
* `Pixmap.count_eq_card` — counting a color is counting the coordinates of its pixels.
-/

namespace Easel

namespace Pixmap

variable (p : Pixmap)

/-- The coordinates of all pixels, column first. -/
def coordinates : Finset (Nat × Nat) := Finset.range p.size.width ×ˢ Finset.range p.size.height

/-- The coordinates on the pixmap are those with a column and a row of it. -/
theorem mem_coordinates {place : Nat × Nat} :
    place ∈ p.coordinates ↔ place.1 < p.size.width ∧ place.2 < p.size.height := by
  rw [coordinates, Finset.mem_product, Finset.mem_range, Finset.mem_range]

/-! ### Places -/

/-- The place of a pixel, and that it has one, in one equation. -/
theorem index?_eq_some_iff {x y i : Nat} :
    p.index? x y = some i ↔
      (x < p.size.width ∧ y < p.size.height) ∧ y * p.size.width + x = i := by
  unfold index?
  split
  · next h => simp [h]
  · next h => simp [h]

/-- The coordinates of a place: dividing by the width gives the row, and what is left over the
column. -/
theorem coordinates_of_place {i : Nat} (hi : i < p.size.width * p.size.height) :
    i % p.size.width < p.size.width ∧ i / p.size.width < p.size.height ∧
      i / p.size.width * p.size.width + i % p.size.width = i := by
  have hwidth : 0 < p.size.width := Nat.pos_of_ne_zero fun hzero => p.nonempty (.inl hzero)
  exact ⟨Nat.mod_lt _ hwidth, Nat.div_lt_of_lt_mul hi, Nat.div_add_mod' _ _⟩

/-- A place tells its column and its row. With `coordinates_of_place` it makes places and
coordinates inverse to each other. -/
theorem place_of_coordinates {x : Nat} (hx : x < p.size.width) (y : Nat) :
    (y * p.size.width + x) % p.size.width = x ∧ (y * p.size.width + x) / p.size.width = y := by
  have hwidth : 0 < p.size.width := Nat.lt_of_le_of_lt (Nat.zero_le x) hx
  constructor
  · rw [Nat.mul_comm, Nat.mul_add_mod, Nat.mod_eq_of_lt hx]
  · rw [Nat.mul_comm, Nat.mul_add_div hwidth, Nat.div_eq_of_lt hx, Nat.add_zero]

/-- **The places of the pixels are all places, each once.** No two pixels share a place, and no
place is left over. -/
theorem index?_bijOn :
    Set.BijOn (fun place : Nat × Nat => p.index? place.1 place.2) p.coordinates
      (some '' Set.Iio (p.size.width * p.size.height)) := by
  refine ⟨?_, ?_, ?_⟩
  -- Every pixel has a place among the pixels.
  · rintro ⟨x, y⟩ hplace
    obtain ⟨hx, hy⟩ := p.mem_coordinates.mp hplace
    have hindex : p.index? x y = some (y * p.size.width + x) :=
      p.index?_eq_some_iff.mpr ⟨⟨hx, hy⟩, rfl⟩
    have hlt := p.index_lt_size_pixels hx hy
    rw [p.size_pixels] at hlt
    exact ⟨_, hlt, hindex.symm⟩
  -- Two pixels with the same place have the same column and the same row.
  · rintro ⟨x, y⟩ hplace ⟨x', y'⟩ hplace' hsame
    obtain ⟨hx, hy⟩ := p.mem_coordinates.mp hplace
    obtain ⟨hx', hy'⟩ := p.mem_coordinates.mp hplace'
    have hindex : p.index? x' y' = some (y * p.size.width + x) :=
      hsame.symm.trans (p.index?_eq_some_iff.mpr ⟨⟨hx, hy⟩, rfl⟩)
    obtain ⟨-, heq⟩ := p.index?_eq_some_iff.mp hindex
    obtain ⟨hcolumn, hrow⟩ := p.place_of_coordinates hx y
    obtain ⟨hcolumn', hrow'⟩ := p.place_of_coordinates hx' y'
    rw [heq] at hcolumn' hrow'
    exact Prod.ext (hcolumn.symm.trans hcolumn') (hrow.symm.trans hrow')
  -- A place is that of its own coordinates.
  · rintro _ ⟨i, hi, rfl⟩
    obtain ⟨hx, hy, heq⟩ := p.coordinates_of_place hi
    exact ⟨(i % p.size.width, i / p.size.width), p.mem_coordinates.mpr ⟨hx, hy⟩,
      p.index?_eq_some_iff.mpr ⟨⟨hx, hy⟩, heq⟩⟩

/-- The pixels by their places are the pixels by their coordinates. So what holds of every pixel
holds of the whole array. -/
theorem getElem?_pixels {i : Nat} (hi : i < p.pixels.size) :
    p.pixels[i]? = p.pixel? (i % p.size.width) (i / p.size.width) := by
  rw [p.size_pixels] at hi
  obtain ⟨hx, hy, heq⟩ := p.coordinates_of_place hi
  rw [p.pixel?_eq_getElem? hx hy, heq]

variable {p} in
/-- **A pixmap is its size and its pixels.** -/
theorem ext_pixel? {q : Pixmap} (hsize : p.size = q.size)
    (h : ∀ x < p.size.width, ∀ y < p.size.height, p.pixel? x y = q.pixel? x y) : p = q := by
  refine Pixmap.ext hsize (Array.ext_getElem? fun i => ?_)
  have harea : p.pixels.size = q.pixels.size := by rw [p.size_pixels, q.size_pixels, hsize]
  -- Within the array a place has coordinates, and beyond it there is nothing in either.
  rcases Nat.lt_or_ge i p.pixels.size with hi | hi
  · have hplace := hi
    rw [p.size_pixels] at hplace
    obtain ⟨hx, hy, -⟩ := p.coordinates_of_place hplace
    rw [p.getElem?_pixels hi, q.getElem?_pixels (harea ▸ hi), h _ hx _ hy, hsize]
  · rw [Array.getElem?_eq_none hi, Array.getElem?_eq_none (harea ▸ hi)]

/-! ### Rows -/

/-- A row ends within the pixels, since the rows below it take up the rest. -/
theorem row_end_le {y : Nat} (hy : y < p.size.height) :
    (y + 1) * p.size.width ≤ p.pixels.size := by
  rw [p.size_pixels, Size.area, Nat.mul_comm p.size.width]
  exact Nat.mul_le_mul_right _ hy

/-- Every row is as long as the pixmap is wide. -/
theorem size_row {y : Nat} (hy : y < p.size.height) : (p.row y).size = p.size.width := by
  have hend := p.row_end_le hy
  rw [row, Array.size_extract, Nat.min_eq_left hend, Nat.succ_mul, Nat.add_sub_cancel_left]

/-- A row has the pixels with its number as their row. -/
theorem getElem?_row {x y : Nat} (hx : x < p.size.width) (hy : y < p.size.height) :
    (p.row y)[x]? = p.pixel? x y := by
  have hend := p.row_end_le hy
  have hlt : x < min ((y + 1) * p.size.width) p.pixels.size - y * p.size.width := by
    rw [Nat.min_eq_left hend, Nat.succ_mul, Nat.add_sub_cancel_left]
    exact hx
  rw [row, Array.getElem?_extract, if_pos hlt, p.pixel?_eq_getElem? hx hy]

/-- There are as many rows as the pixmap is high. -/
theorem length_rows : p.rows.length = p.size.height := by
  rw [rows, List.length_map, List.length_range]

/-- The rows are listed by their numbers. -/
theorem getElem?_rows {y : Nat} (hy : y < p.size.height) : p.rows[y]? = some (p.row y) := by
  rw [rows, List.getElem?_map, List.getElem?_range hy]
  rfl

/-- **The rows one after another are the pixels.** The first rows are the first pixels, by induction
on how many rows there are. -/
theorem flatten_rows : (p.rows.map Array.toList).flatten = p.pixels.toList := by
  have hfirst : ∀ count, (((List.range count).map p.row).map Array.toList).flatten =
      p.pixels.toList.take (count * p.size.width) := by
    intro count
    induction count with
    | zero => rw [Nat.zero_mul, List.take_zero]; rfl
    | succ count ih =>
      -- The last of them goes on where the others have ended.
      have hlast : (p.row count).toList =
          (p.pixels.toList.drop (count * p.size.width)).take p.size.width := by
        rw [row, Array.toList_extract, List.extract, Nat.succ_mul, Nat.add_sub_cancel_left]
      rw [List.range_succ, List.map_append, List.map_append, List.flatten_append, ih,
        List.map_singleton, List.map_singleton, List.flatten_singleton, hlast, Nat.succ_mul,
        List.take_add]
  rw [rows, hfirst, Nat.mul_comm, ← Size.area, ← p.size_pixels, ← Array.length_toList,
    List.take_length]

/-! ### Counting -/

/-- What a list has of an element are the places where it stands. The induction adds an element at
the end, where it changes no place of the others. -/
theorem countP_eq_card_filter_range {α : Type} [DecidableEq α] (l : List α) (a : α) :
    l.countP (· = a) = ((Finset.range l.length).filter fun i => l[i]? = some a).card := by
  induction l using List.reverseRecOn with
  | nil => rfl
  | append_singleton l b ih =>
    -- The places before stay what they are.
    have hold : ((Finset.range l.length).filter fun i => (l ++ [b])[i]? = some a) =
        (Finset.range l.length).filter fun i => l[i]? = some a := by
      refine Finset.filter_congr fun i hi => ?_
      rw [List.getElem?_append_left (Finset.mem_range.mp hi)]
    have hnew : (l ++ [b])[l.length]? = some b := List.getElem?_concat_length
    rw [List.countP_append, List.length_append, List.length_singleton, Finset.range_add_one,
      Finset.filter_insert, hold, hnew, ih]
    -- The new place counts exactly if the element is there.
    by_cases hb : b = a
    · subst hb
      rw [if_pos rfl, Finset.card_insert_of_notMem (by simp)]
      simp
    · rw [if_neg fun hc => hb (Option.some.inj hc)]
      simp [hb]

/-- **Counting a color is counting the coordinates of its pixels.** Places and coordinates are
exchanged by division and multiplication, which undo each other. -/
theorem count_eq_card (color : Color) :
    p.count color =
      (p.coordinates.filter fun place => p.pixel? place.1 place.2 = some color).card := by
  rw [count, ← Array.countP_toList, countP_eq_card_filter_range, Array.length_toList]
  refine Finset.card_nbij' (fun i => (i % p.size.width, i / p.size.width))
    (fun place => place.2 * p.size.width + place.1) ?_ ?_ ?_ ?_
  -- From a place to its coordinates, and that they are those of a pixel of the color.
  · intro i hi
    obtain ⟨hlt, hcolor⟩ := Finset.mem_filter.mp hi
    rw [Finset.mem_range] at hlt
    rw [Array.getElem?_toList, p.getElem?_pixels hlt] at hcolor
    rw [p.size_pixels] at hlt
    obtain ⟨hx, hy, -⟩ := p.coordinates_of_place hlt
    exact Finset.mem_filter.mpr ⟨p.mem_coordinates.mpr ⟨hx, hy⟩, hcolor⟩
  -- From coordinates to the place.
  · rintro ⟨x, y⟩ hplace
    obtain ⟨hmem, hcolor⟩ := Finset.mem_filter.mp hplace
    obtain ⟨hx, hy⟩ := p.mem_coordinates.mp hmem
    refine Finset.mem_filter.mpr ⟨Finset.mem_range.mpr (p.index_lt_size_pixels hx hy), ?_⟩
    rwa [Array.getElem?_toList, ← p.pixel?_eq_getElem? hx hy]
  -- Both ways there and back.
  · intro i hi
    exact Nat.div_add_mod' _ _
  · rintro ⟨x, y⟩ hplace
    obtain ⟨hmem, -⟩ := Finset.mem_filter.mp hplace
    obtain ⟨hx, -⟩ := p.mem_coordinates.mp hmem
    obtain ⟨hcolumn, hrow⟩ := p.place_of_coordinates hx y
    exact Prod.ext hcolumn hrow

end Pixmap

end Easel
