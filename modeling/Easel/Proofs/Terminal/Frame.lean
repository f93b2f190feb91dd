import Easel.Proofs.Canvas.Painting
import Easel.Proofs.Terminal.Display
import Easel.Terminal.Presenter
import Mathlib.Data.List.Nodup

/-!
# What a frame shows

A terminal that reads a composed frame shows the square of samples, whatever it has shown before and
whatever it was in the middle of. Colors that are in force already are not selected again, which
depends on what the styled text remembers of the cells before.

* `StyledText.ReadsAs` — what a terminal makes of a styled text, where the colors remembered are in
  force;
* `Presenter.readsAs_composeCell`, `Presenter.readsAs_composeRow`, `Presenter.readsAs_frame` — a
  cell, a row, a frame;
* `Presenter.compose_shows_samples` — the frame as a terminal shows it.
-/

namespace Easel.Terminal

namespace StyledText

/-- A terminal makes some display of a styled text, on which the colors that the text remembers are
in force. The text may leave out such a color, and the display is the same. -/
structure ReadsAs {columns rows : Nat} (device : Device columns rows) (origin : Display)
    (t : StyledText) (d : Display) : Prop where
  read : origin.read device t.contents = d
  foreground : ∀ c, t.foreground? = some c → d.foreground? = some c
  background : ∀ c, t.background? = some c → d.background? = some c

section ReadsAs

variable {columns rows : Nat} {device : Device columns rows} {origin d : Display} {t : StyledText}

/-- An empty text leaves the terminal as it is, and remembers nothing. -/
theorem readsAs_empty (device : Device columns rows) (origin : Display) :
    empty.ReadsAs device origin origin :=
  ⟨rfl, nofun, nofun⟩

/-- Text that is added is read on from where the text ended. The terminal is left by the text as it
was, in whatever mode that may be. -/
theorem ReadsAs.read_write (h : t.ReadsAs device origin d) (text : String) :
    origin.read device (t.write text).contents = d.read device text := by
  rw [contents_write, Display.read_append, h.read]

/-- The foreground is in force afterwards, whether or not it is selected again. -/
theorem ReadsAs.setForeground (h : t.ReadsAs device origin d) (hmode : d.mode = .ground)
    (c : Color) :
    (t.setForeground c).ReadsAs device origin { d with foreground? := some c } := by
  unfold StyledText.setForeground
  split
  · next hsame =>
    -- The color is in force already.
    have hd : d = { d with foreground? := some c } := by rw [← h.foreground c hsame]
    rw [← hd]
    exact h
  · refine ⟨?_, fun other hother => hother, h.background⟩
    have hread := (h.read_write _).trans (Display.read_foreground device d c)
    rwa [← hmode] at hread

/-- The background is in force afterwards, whether or not it is selected again. -/
theorem ReadsAs.setBackground (h : t.ReadsAs device origin d) (hmode : d.mode = .ground)
    (c : Color) :
    (t.setBackground c).ReadsAs device origin { d with background? := some c } := by
  unfold StyledText.setBackground
  split
  · next hsame =>
    -- The color is in force already, as above.
    have hd : d = { d with background? := some c } := by rw [← h.background c hsame]
    rw [← hd]
    exact h
  · refine ⟨?_, h.foreground, fun other hother => hother⟩
    have hread := (h.read_write _).trans (Display.read_background device d c)
    rwa [← hmode] at hread

/-- The cursor is put on a cell, and the colors stay in force. -/
theorem ReadsAs.moveCursor (h : t.ReadsAs device origin d) (column row : Nat) :
    (t.moveCursor column row).ReadsAs device origin
      { d with mode := .ground, cursor := device.place ⟨row, column⟩ } :=
  ⟨(h.read_write _).trans (Display.read_moveCursor device d column row), h.foreground, h.background⟩

/-- A reset leaves no colors in force, and the text remembers none. -/
theorem ReadsAs.resetAttributes (h : t.ReadsAs device origin d) :
    t.resetAttributes.ReadsAs device origin
      { d with mode := .ground, foreground? := none, background? := none } :=
  ⟨(h.read_write _).trans (Display.read_reset device d), nofun, nofun⟩

/-- A half block is printed at the cursor, and the colors stay in force. -/
theorem ReadsAs.halfBlock (h : t.ReadsAs device origin d) (hmode : d.mode = .ground) :
    (t.write Presenter.halfBlock).ReadsAs device origin (d.print device 0x2580) :=
  ⟨(h.read_write _).trans (Display.read_halfBlock device d hmode), h.foreground, h.background⟩

end ReadsAs

end StyledText

namespace Presenter

/-! ### Samples -/

/-- The upper sample of a cell. There is always one, so that the default is never used. -/
def upper (p : Pixmap) (g : Grid) (row column : Nat) : Color :=
  (p.pixel? (g.sample column p.size.width) (g.sample (2 * row) p.size.height)).getD .black

/-- The lower sample of a cell, or the upper one where there is none. -/
def lower (p : Pixmap) (g : Grid) (row column : Nat) : Color :=
  ((p.pixel? (g.sample column p.size.width) (g.sample (2 * row + 1) p.size.height)).or
    (p.pixel? (g.sample column p.size.width) (g.sample (2 * row) p.size.height))).getD .black

/-- What is printed for a cell: a half block whose upper half has the foreground and whose lower
half has the background. -/
def cell (p : Pixmap) (g : Grid) (row column : Nat) : Print :=
  ⟨⟨row, column⟩, 0x2580, some (upper p g row column), some (lower p g row column)⟩

section Samples

variable (p : Pixmap) {g : Grid} {row column : Nat}

/-- Samples of the square are taken from pixels that there are. -/
theorem pixel?_sample {i j : Nat} (hi : i < g.side) (hj : j < g.side) :
    ∃ c, p.pixel? (g.sample i p.size.width) (g.sample j p.size.height) = some c := by
  have hwidth : 0 < p.size.width := Nat.pos_of_ne_zero fun hzero => p.nonempty (Or.inl hzero)
  have hheight : 0 < p.size.height := Nat.pos_of_ne_zero fun hzero => p.nonempty (Or.inr hzero)
  have hx := Grid.sample_lt hi hwidth
  have hy := Grid.sample_lt hj hheight
  rw [p.pixel?_eq_getElem? hx hy]
  exact ⟨_, Array.getElem?_eq_getElem (p.index_lt_size_pixels hx hy)⟩

/-- The two samples of a row of cells, the lower one being there unless the side is odd and this is
the last row. In that case it is the sample behind the last one. -/
theorem samples_lt (hrow : row < g.usedRows) : 2 * row < g.side ∧ 2 * row + 1 ≤ g.side := by
  unfold Grid.usedRows at hrow
  omega

/-- A cell of the square has an upper sample. -/
theorem upper_spec (hrow : row < g.usedRows) (hcolumn : column < g.side) :
    p.pixel? (g.sample column p.size.width) (g.sample (2 * row) p.size.height) =
      some (upper p g row column) := by
  obtain ⟨c, hc⟩ := pixel?_sample p hcolumn (samples_lt hrow).1
  rw [upper, hc]
  rfl

/-- Off the pixmap there are no pixels. The sample behind the last one lies below its lower edge. -/
theorem pixel?_sample_side (x : Nat) : p.pixel? x (g.sample g.side p.size.height) = none := by
  have hbeyond : p.size.height ≤ g.sample g.side p.size.height :=
    le_samplePosition g.side_pos (Nat.le_refl _) _
  rw [Pixmap.pixel?, Pixmap.index?, if_neg fun hc => Nat.not_lt_of_le hbeyond hc.2]
  rfl

/-- A cell of the square has a lower sample, or shows the upper one twice in the last row of an odd
side. -/
theorem lower_spec (hrow : row < g.usedRows) (hcolumn : column < g.side) :
    if 2 * row + 1 = g.side then lower p g row column = upper p g row column
    else p.pixel? (g.sample column p.size.width) (g.sample (2 * row + 1) p.size.height) =
      some (lower p g row column) := by
  have hle := (samples_lt hrow).2
  split
  · next hside =>
    rw [lower, hside, pixel?_sample_side, Option.none_or, upper]
  · next hside =>
    obtain ⟨c, hc⟩ := pixel?_sample p hcolumn (Nat.lt_of_le_of_ne hle hside)
    rw [lower, hc]
    rfl

end Samples

/-! ### Cells, rows, frames -/

section Frame

variable {g : Grid} {device : Device g.columns g.rows} {origin d : Display} {t : StyledText}
  (p : Pixmap)

/-- **A cell is printed at the cursor**, in the colors of its samples. The colors need not be
selected for it, if the cell before has left them in force. -/
theorem readsAs_composeCell (h : t.ReadsAs device origin d) (hmode : d.mode = .ground)
    {row column : Nat} (hcursor : d.cursor = ⟨row, column⟩) :
    ∃ next : Display, (composeCell p g row t column).ReadsAs device origin next ∧
      next.mode = .ground ∧ next.cursor = device.advance ⟨row, column⟩ ∧
      next.printed = d.printed ++ [cell p g row column] := by
  -- Whether the colors are selected or in force already, the same is printed.
  have hforeground := h.setForeground hmode (upper p g row column)
  have hbackground := hforeground.setBackground hmode (lower p g row column)
  refine ⟨_, hbackground.halfBlock hmode, rfl, ?_, ?_⟩
  · exact congrArg device.advance hcursor
  · rw [Display.print]
    dsimp only
    rw [hcursor]
    rfl

/-- Some cells of a row, from the left. Each is printed where the one before has moved the cursor,
and after the last one at the edge the terminal may put it anywhere. -/
theorem readsAs_cells (h : t.ReadsAs device origin d) (hmode : d.mode = .ground) {row : Nat}
    (hrow : row < g.rows) (hcursor : d.cursor = ⟨row, 0⟩) {count : Nat}
    (hcount : count ≤ g.columns) :
    ∃ next : Display,
      ((List.range count).foldl (composeCell p g row) t).ReadsAs device origin next ∧
      next.mode = .ground ∧ (count < g.columns → next.cursor = ⟨row, count⟩) ∧
      next.printed = d.printed ++ (List.range count).map (cell p g row) := by
  induction count with
  | zero => exact ⟨d, h, hmode, fun _ => hcursor, (List.append_nil _).symm⟩
  | succ count ih =>
    obtain ⟨middle, hread, hmiddle, hplace, hprinted⟩ := ih (Nat.le_of_succ_le hcount)
    -- The cursor has not come to the right edge before the last cell.
    obtain ⟨next, hnext, hground, hadvanced, hlast⟩ :=
      readsAs_composeCell p hread hmiddle (hplace hcount)
    rw [List.range_succ, List.foldl_append, List.map_append]
    refine ⟨next, hnext, hground, fun hlt => ?_, ?_⟩
    · rw [hadvanced, device.advance_of_lt ⟨row, count⟩ hrow hlt]
    · rw [hlast, hprinted, List.append_assoc]
      rfl

/-- **A row of cells is printed from the left edge**, wherever the cursor is. -/
theorem readsAs_composeRow (h : t.ReadsAs device origin d) {row : Nat} (hrow : row < g.rows) :
    ∃ next : Display, (composeRow p g t row).ReadsAs device origin next ∧
      next.printed = d.printed ++ (List.range g.side).map (cell p g row) := by
  -- The cursor has been anywhere after the last row, but a row begins by putting it to the left.
  have hplace : device.place ⟨row, 0⟩ = ⟨row, 0⟩ := device.place_of_lt ⟨row, 0⟩ hrow g.columns_pos
  obtain ⟨next, hread, -, -, hprinted⟩ :=
    readsAs_cells p (h.moveCursor 0 row) rfl hrow hplace (Nat.min_le_left g.columns (2 * g.rows))
  exact ⟨next, hread, hprinted⟩

/-- The square has no more rows of cells than the screen has. -/
theorem usedRows_le (g : Grid) : g.usedRows ≤ g.rows := by
  unfold Grid.usedRows Grid.side
  omega

/-- Some rows, from the top. Where the cursor is between two rows makes no difference. -/
theorem readsAs_rows (h : t.ReadsAs device origin d) {count : Nat} (hcount : count ≤ g.rows) :
    ∃ next : Display, ((List.range count).foldl (composeRow p g) t).ReadsAs device origin next ∧
      next.printed = d.printed ++
        (List.range count).flatMap fun row => (List.range g.side).map (cell p g row) := by
  induction count with
  | zero => exact ⟨d, h, (List.append_nil _).symm⟩
  | succ count ih =>
    obtain ⟨middle, hread, hprinted⟩ := ih (Nat.le_of_succ_le hcount)
    obtain ⟨next, hnext, hlast⟩ := readsAs_composeRow p hread hcount
    rw [List.range_succ, List.foldl_append, List.flatMap_append]
    refine ⟨next, hnext, ?_⟩
    rw [hlast, hprinted, List.append_assoc, List.flatMap_singleton]

/-- **A frame prints all cells, row after row**, and leaves the terminal with its own colors. The
presenter begins with a cleared text, so nothing is taken to be in force at first. -/
theorem readsAs_frame (device : Device g.columns g.rows) (origin : Display) :
    ∃ last : Display, (frame p g .empty).ReadsAs device origin last ∧ last.mode = .ground ∧
      last.foreground? = none ∧ last.background? = none ∧
      last.printed = origin.printed ++
        (List.range g.usedRows).flatMap fun row => (List.range g.side).map (cell p g row) := by
  obtain ⟨next, hread, hprinted⟩ :=
    readsAs_rows p (StyledText.readsAs_empty device origin) (usedRows_le g)
  exact ⟨_, hread.resetAttributes, rfl, rfl, rfl, hprinted⟩

end Frame

/-! ### The main result -/

/-- The prints of a number of rows and columns are those of their cells. -/
theorem mem_cells {print : Print} (p : Pixmap) (g : Grid) (height width : Nat) :
    print ∈ (List.range height).flatMap (fun row => (List.range width).map (cell p g row)) ↔
      ∃ row < height, ∃ column < width, cell p g row column = print := by
  simp only [List.mem_flatMap, List.mem_map, List.mem_range]

/-- Every cell is there once. No two of them have the same row and the same column. -/
theorem nodup_cells (p : Pixmap) (g : Grid) (height width : Nat) :
    (((List.range height).flatMap fun row => (List.range width).map (cell p g row)).map
      Print.position).Nodup := by
  have hpositions :
      ((List.range height).flatMap fun row => (List.range width).map (cell p g row)).map
        Print.position = ((List.range height).product (List.range width)).map
          fun place => Position.mk place.1 place.2 := by
    -- Row by row, the places are the same.
    rw [List.product, List.map_flatMap, List.map_flatMap]
    refine List.flatMap_congr fun row _ => ?_
    rw [List.map_map, List.map_map]
    rfl
  rw [hpositions]
  refine (List.Nodup.product List.nodup_range List.nodup_range).map ?_
  rintro ⟨row, column⟩ ⟨row', column'⟩ hsame
  obtain ⟨rfl, rfl⟩ := Position.mk.inj hsame
  rfl

/-- **A terminal shows the samples of the pixmap**, whatever it has shown before, whatever it is in
the middle of, and whatever the presenter was used for before.

The cells of the square are printed, each of them once, and no others; all of them are on the grid.
Each shows two pixels of the pixmap, or twice the same one where an odd side has come to its end.
The terminal ends in colors of its own, and in the middle of nothing. No number on the way is too
large: not the rows, counted from one, for 16 bits, nor the samples for 32 bits, nor their products
with a length for 64 bits. -/
theorem compose_shows_samples (columns rows : Fin 65536) (output : StyledText) (frames : Nat)
    (p : Pixmap) (device : Device (Grid.new columns rows).columns (Grid.new columns rows).rows)
    (origin : Display) :
    let side := min (max columns.val 1) (2 * max rows.val 1)
    let sample := fun i length : Nat => (2 * i + 1) * length / (2 * side)
    let last := origin.feedAll device (compose ⟨.new columns rows, output, frames⟩ p).output.bytes
    ∃ printed : List Print, last.printed = origin.printed ++ printed ∧
      -- the cells
      (printed.map Print.position).Nodup ∧
      (∀ position, position ∈ printed.map Print.position ↔
        position.row < (side + 1) / 2 ∧ position.column < side) ∧
      (side + 1) / 2 ≤ max rows.val 1 ∧ side ≤ max columns.val 1 ∧
      -- what they show
      (∀ print ∈ printed, ∃ upper lower,
        let x := sample print.position.column p.size.width
        print = ⟨print.position, 0x2580, some upper, some lower⟩ ∧
        p.pixel? x (sample (2 * print.position.row) p.size.height) = some upper ∧
        if 2 * print.position.row + 1 = side then lower = upper
        else p.pixel? x (sample (2 * print.position.row + 1) p.size.height) = some lower) ∧
      -- the end
      (last.mode = .ground ∧ last.foreground? = none ∧ last.background? = none) ∧
      -- the numbers on the way
      (∀ row < (side + 1) / 2, row + 1 < 65536 ∧ 2 * row + 1 < 4294967296) ∧
      2 * side < 4294967296 ∧
      ∀ i ≤ side, (2 * i + 1) * p.size.width < 18446744073709551616 ∧
        (2 * i + 1) * p.size.height < 18446744073709551616 := by
  intro side sample last
  let g := Grid.new columns rows
  obtain ⟨shown, hread, hmode, hforeground, hbackground, hprinted⟩ := readsAs_frame p device origin
  obtain rfl : last = shown := hread.read
  have hside : side < 65536 := by
    have := columns.isLt
    omega
  refine ⟨_, hprinted, nodup_cells p g _ _, fun position => ?_, usedRows_le g,
    Nat.min_le_left _ _, fun print hprint => ?_, ⟨hmode, hforeground, hbackground⟩,
    fun row hrow => ?_, by omega, fun i hi => ?_⟩
  -- The positions are those of the cells, and each cell stands at its own.
  · rw [List.mem_map]
    constructor
    · rintro ⟨print, hprint, rfl⟩
      obtain ⟨row, hrow, column, hcolumn, rfl⟩ := (mem_cells p g _ _).mp hprint
      exact ⟨hrow, hcolumn⟩
    · rintro ⟨hrow, hcolumn⟩
      exact ⟨_, (mem_cells p g _ _).mpr ⟨_, hrow, _, hcolumn, rfl⟩, rfl⟩
  · obtain ⟨row, hrow, column, hcolumn, rfl⟩ := (mem_cells p g _ _).mp hprint
    exact ⟨_, _, rfl, upper_spec p hrow hcolumn, lower_spec p hrow hcolumn⟩
  · omega
  · -- No odd number has more than 17 bits here, and no length more than 32.
    have hodd : 2 * i + 1 < 131072 := by omega
    have hlength : ∀ length < 4294967296, (2 * i + 1) * length < 18446744073709551616 :=
      fun length hlength => Nat.lt_of_lt_of_le (Nat.mul_lt_mul'' hodd hlength) (by decide)
    exact ⟨hlength _ p.size.width_lt, hlength _ p.size.height_lt⟩

example : (Display.feedAll (default : Device 1 1) ⟨.escape, ⟨3, 3⟩, some .white, none, []⟩
    (compose (new (.new 0 1))
      (.blank ⟨1, 1, by decide, by decide⟩ (by decide))).output.bytes).printed =
      [⟨⟨0, 0⟩, 0x2580, some .black, some .black⟩] := by
  decide +kernel

end Presenter

end Easel.Terminal
