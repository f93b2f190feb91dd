import Easel.Canvas.Color

/-!
# Styled text

A `StyledText` collects text and control sequences for a terminal. It remembers the two colors that
are in force at its end, so that selecting a color again adds nothing.

* `Escape` — the control sequences;
* `StyledText.moveCursor`, `StyledText.setForeground`, `StyledText.setBackground`,
  `StyledText.resetAttributes`, `StyledText.write` — what can be added;
* `StyledText.empty` — no text, which remembers no colors.
-/

namespace Easel.Terminal

/-! ### Control sequences -/

namespace Escape

/-- Puts the cursor on a column and a row, counted from zero; the sequence counts from one and has
the row first. -/
def moveCursor (column row : Nat) : String := s!"\x1b[{row + 1};{column + 1}H"

/-- Selects the color of what is printed, by its channels in decimal. -/
def foreground (c : Color) : String := s!"\x1b[38;2;{c.red};{c.green};{c.blue}m"

/-- Selects the color behind what is printed. -/
def background (c : Color) : String := s!"\x1b[48;2;{c.red};{c.green};{c.blue}m"

/-- Takes back both colors and every other attribute. -/
def reset : String := "\x1b[0m"

end Escape

/-! ### Text with colors -/

/-- Text for a terminal, with the colors in force at its end. The colors are what makes it possible
to leave out a selection that would change nothing; they are forgotten where it is not known what a
terminal does. -/
structure StyledText where
  contents : String
  /-- The foreground last selected, if no reset came after it. -/
  foreground? : Option Color
  /-- The background last selected, if no reset came after it. -/
  background? : Option Color
deriving DecidableEq

namespace StyledText

/-- No contents. It knows nothing of the colors in force, so the first colors are always
selected. -/
def empty : StyledText := ⟨"", none, none⟩

/-- Drops the contents, and what is known of the colors with them. -/
def clear (_ : StyledText) : StyledText := empty

/-- How many bytes the contents take in UTF-8. -/
def size (t : StyledText) : Nat := t.contents.utf8ByteSize

/-- The contents in UTF-8. -/
def bytes (t : StyledText) : List UInt8 := t.contents.toUTF8.data.toList

/-- There are no contents. -/
def IsEmpty (t : StyledText) : Prop := t.size = 0

instance (t : StyledText) : Decidable t.IsEmpty := inferInstanceAs (Decidable (_ = _))

/-- Adds text as it is. Text with control sequences of its own would not be noticed, so colors are
selected only by the functions below. -/
def write (t : StyledText) (text : String) : StyledText :=
  match t with
  | ⟨contents, foreground?, background?⟩ => ⟨contents ++ text, foreground?, background?⟩

/-- Puts the cursor on a column and a row, counted from zero. -/
def moveCursor (t : StyledText) (column row : Nat) : StyledText :=
  t.write (Escape.moveCursor column row)

/-- Selects the foreground, unless it is in force already. -/
def setForeground (t : StyledText) (c : Color) : StyledText :=
  if t.foreground? = some c then t
  else { t.write (Escape.foreground c) with foreground? := some c }

/-- Selects the background, unless it is in force already. -/
def setBackground (t : StyledText) (c : Color) : StyledText :=
  if t.background? = some c then t
  else { t.write (Escape.background c) with background? := some c }

/-- Takes back all attributes, and forgets the colors with them. -/
def resetAttributes (t : StyledText) : StyledText :=
  { t.write Escape.reset with foreground? := none, background? := none }

/-- Whatever is added is added at the end. -/
@[simp] theorem contents_write (t : StyledText) (text : String) :
    (t.write text).contents = t.contents ++ text := rfl

/-- Text leaves the foreground in force. -/
@[simp] theorem foreground?_write (t : StyledText) (text : String) :
    (t.write text).foreground? = t.foreground? := rfl

/-- Text leaves the background in force. -/
@[simp] theorem background?_write (t : StyledText) (text : String) :
    (t.write text).background? = t.background? := rfl

end StyledText

end Easel.Terminal
