import Easel.Canvas.Pixmap
import Easel.Terminal.StyledText
import Easel.Terminal.Writer

/-!
# Presenters

A `Presenter` draws pixmaps on a grid of terminal cells. A cell shows two samples, one above the
other, by an upper half block: the foreground is the upper sample and the background the lower one.
The samples form the largest square that fits the grid, and sample `i` along an axis is taken from
the middle of the `i`-th of equal parts of that axis.

* `samplePosition` — the pixel of a sample along an axis;
* `Grid.side` — how many samples the square has along an axis;
* `Presenter.compose` — the text of a frame;
* `Presenter.present` — delivers a frame, and counts it if that succeeds.
-/

namespace Easel.Terminal

/-- The middle of the `i`-th of `count` equal parts of `length` pixels, cut to a whole pixel. The
middle is an odd number of half parts from the edge, which is why both sides are doubled. -/
def samplePosition (count i length : Nat) : Nat := (2 * i + 1) * length / (2 * count)

/-- A sample of the square lies on the axis. -/
theorem samplePosition_lt {count i length : Nat} (hi : i < count) (h : 0 < length) :
    samplePosition count i length < length := by
  unfold samplePosition
  rw [Nat.div_lt_iff_lt_mul (by omega), Nat.mul_comm length]
  exact Nat.mul_lt_mul_of_pos_right (by omega) h

/-- The parts after the last one have their middle behind the last pixel. With an odd side the lower
half of the last row of cells is such a part. -/
theorem le_samplePosition {count i : Nat} (hpos : 0 < count) (hi : count ≤ i) (length : Nat) :
    length ≤ samplePosition count i length := by
  unfold samplePosition
  rw [Nat.le_div_iff_mul_le (by omega), Nat.mul_comm]
  exact Nat.mul_le_mul_right length (by omega)

/-- A grid of terminal cells: at least one column and one row, and fewer than `2 ^ 16` of each. The
bounds are part of the data, so a square of samples always has a side and its numbers are small. -/
@[ext]
structure Grid where
  columns : Nat
  rows : Nat
  columns_pos : 0 < columns
  rows_pos : 0 < rows
  columns_lt : columns < 65536
  rows_lt : rows < 65536
deriving DecidableEq

namespace Grid

/-- The grid with given numbers of columns and rows, where zero counts as one. -/
def new (columns rows : Fin 65536) : Grid where
  columns := max columns 1
  rows := max rows 1
  columns_pos := by omega
  rows_pos := by omega
  columns_lt := by omega
  rows_lt := by omega

/-- The side of the square of samples; a row of cells has two rows of samples. -/
def side (g : Grid) : Nat := min g.columns (2 * g.rows)

/-- How many rows of cells the square takes. With an odd side the last row has upper samples only,
and shows them in both halves. -/
def usedRows (g : Grid) : Nat := (g.side + 1) / 2

/-- The pixel that sample `i` of the square takes along an axis of `length` pixels. -/
def sample (g : Grid) (i length : Nat) : Nat := samplePosition g.side i length

/-- The square has at least one sample. -/
theorem side_pos (g : Grid) : 0 < g.side := by
  have := g.columns_pos
  have := g.rows_pos
  unfold side
  omega

/-- Every sample of the square is a pixel of an axis that has pixels. -/
theorem sample_lt {g : Grid} {i length : Nat} (hi : i < g.side) (h : 0 < length) :
    g.sample i length < length :=
  samplePosition_lt hi h

end Grid

/-- A presenter for one grid. What it has composed last stays with it, also if it could not be
delivered. -/
structure Presenter where
  grid : Grid
  /-- The frame last composed. -/
  output : StyledText
  /-- How many frames have been delivered. The count is a natural number, without the limit of
  `2 ^ 64` that a counter of 64 bits has. -/
  frames : Nat

namespace Presenter

/-- The upper half block: the foreground over the background. -/
def halfBlock : String := "\u2580"

/-- A presenter that has drawn nothing. -/
def new (grid : Grid) : Presenter := ⟨grid, .empty, 0⟩

/-- Adds one cell. A sample off the pixmap would be black, or below the last row the same as the one
above it. Colors that are in force already are not selected again. -/
def composeCell (p : Pixmap) (g : Grid) (row : Nat) (t : StyledText) (column : Nat) :
    StyledText :=
  let x := g.sample column p.size.width
  let upper := p.pixel? x (g.sample (2 * row) p.size.height)
  let lower := p.pixel? x (g.sample (2 * row + 1) p.size.height)
  ((t.setForeground (upper.getD .black)).setBackground ((lower.or upper).getD .black)).write
    halfBlock

/-- Adds one row of cells, from the left edge of the grid. The cursor is put at its beginning, so
that rows do not depend on where the row before has ended. -/
def composeRow (p : Pixmap) (g : Grid) (t : StyledText) (row : Nat) : StyledText :=
  (List.range g.side).foldl (composeCell p g row) (t.moveCursor 0 row)

/-- The text of a whole frame. It ends with the attributes that the terminal started with. -/
def frame (p : Pixmap) (g : Grid) (t : StyledText) : StyledText :=
  ((List.range g.usedRows).foldl (composeRow p g) t).resetAttributes

/-- Composes a frame in the place of the one before. -/
def compose (presenter : Presenter) (p : Pixmap) : Presenter :=
  { presenter with output := frame p presenter.grid presenter.output.clear }

/-- Composes a frame and delivers all of it. Only a frame that was delivered is counted; the
presenter that failed to deliver one differs from the one that succeeded in the count alone. -/
def present {ω : Type} [Writer ω] (presenter : Presenter) (p : Pixmap) (w : ω) :
    Except WriteError Unit × Presenter × ω :=
  let composed := presenter.compose p
  match deliver w composed.output.bytes with
  | (.ok (), w) => (.ok (), { composed with frames := composed.frames + 1 }, w)
  | (.error e, w) => (.error e, composed, w)

end Presenter

end Easel.Terminal
